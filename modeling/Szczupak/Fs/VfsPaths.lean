import Mathlib.Data.List.Find
import Mathlib.Data.List.Pairwise
import Szczupak.Fs.VfsMounts

/-!
Two ways to find a node.  `vfs_resolve_path` takes the child with exactly the name of a token
before one that differs in case; the calls on files split the path and take the first child
that agrees up to case.  `splitParentName` cuts off the last token.
-/

namespace Szczupak

section Tokens

variable {token before rest name path parentName : List UInt8}

theorem tokensFrom_append : tokensFrom token (before ++ 47 :: rest) =
    tokensFrom token before ++ tokensFrom [] rest := by
  induction before generalizing token with
  | nil =>
      rw [List.nil_append, tokensFrom, tokensFrom, if_pos rfl]
      split
      next => rfl
      next => rfl
  | cons char before ih =>
      rw [List.cons_append, tokensFrom, tokensFrom, ih, ih]
      split
      next =>
        split
        next => rfl
        next => rfl
      next => rfl

theorem tokensFrom_name (plain : ∀ char ∈ name, char ≠ 47) :
    tokensFrom token (name ++ rest) = tokensFrom (token ++ name) rest := by
  induction name generalizing token with
  | nil => rw [List.nil_append, List.append_nil]
  | cons char name ih =>
      rw [List.cons_append, tokensFrom, if_neg (plain char List.mem_cons_self),
        ih fun other member => plain other (List.mem_cons_of_mem _ member), List.append_assoc]
      rfl

theorem tokensFrom_slashes (slashes : ∀ char ∈ rest, char = 47) :
    tokensFrom token rest = if token = [] then [] else [token] := by
  induction rest generalizing token with
  | nil => rfl
  | cons char rest ih =>
      have none : tokensFrom [] rest = [] := by
        rw [ih fun other member => slashes other (List.mem_cons_of_mem _ member), if_pos rfl]
      rw [tokensFrom, if_pos (slashes char List.mem_cons_self), none]

theorem lastSlash_tokens (rooted : path.head? = some 47) (some : (lastSlash path).2 ≠ []) :
    pathTokens path = pathTokens (lastSlash path).1 ++ [(lastSlash path).2] ∧
      ((lastSlash path).1 = [] ∨ (lastSlash path).1.head? = Option.some 47) := by
  have stripped := @List.rdropWhile_append_rtakeWhile _ (· == (47 : UInt8)) path
  have split := @List.rdropWhile_append_rtakeWhile _ (· != (47 : UInt8)) (path.rdropWhile (· == 47))
  have ends : ∀ char ∈ path.rtakeWhile (· == 47), char = 47 := by
    intro char member
    have passes := List.mem_rtakeWhile_imp member
    exact beq_iff_eq.mp passes
  have plain : ∀ char ∈ (lastSlash path).2, char ≠ 47 := by
    intro char member
    have passes := List.mem_rtakeWhile_imp member
    exact bne_iff_ne.mp passes
  have front : (path.rdropWhile (· == 47)).rdropWhile (· != 47) ≠ [] := by
    intro none
    rw [none, List.nil_append] at split
    have name : (lastSlash path).2 = path.rdropWhile (· == 47) := split
    rw [← stripped, ← name] at rooted
    cases shape : (lastSlash path).2 with
    | nil => exact some shape
    | cons first rest =>
        rw [shape, List.cons_append, List.head?_cons, Option.some.injEq] at rooted
        exact plain first (by rw [shape]; exact List.mem_cons_self) rooted
  have last : ((path.rdropWhile (· == 47)).rdropWhile (· != 47)).getLast front = 47 := by
    have final := List.rdropWhile_last_not (· != (47 : UInt8)) (path.rdropWhile (· == 47)) front
    rwa [bne_iff_ne, not_not] at final
  have shape : path = (lastSlash path).1 ++ 47 ::
    ((lastSlash path).2 ++ path.rtakeWhile (· == 47)) := by
    have cut := List.dropLast_append_getLast front
    rw [last] at cut
    calc path = (path.rdropWhile (· == 47)).rdropWhile (· != 47) ++ (lastSlash path).2 ++
          path.rtakeWhile (· == 47) := by rw [show _ ++ (lastSlash path).2 = _ from split, stripped]
      _ = (lastSlash path).1 ++ [47] ++ (lastSlash path).2 ++ path.rtakeWhile (· == 47) := by
          rw [show (lastSlash path).1 ++ [47] = _ from cut]
      _ = _ := by simp
  refine ⟨?_, ?_⟩
  · have whole : pathTokens path = tokensFrom [] _ := congrArg (tokensFrom []) shape
    rw [whole, tokensFrom_append, tokensFrom_name plain, tokensFrom_slashes ends,
      List.nil_append, if_neg some]
    rfl
  · cases first : (lastSlash path).1 with
    | nil => exact Or.inl rfl
    | cons char rest =>
        rw [first] at shape
        rw [shape] at rooted
        exact Or.inr rooted

theorem splitParentName_tokens {parentSize nameSize : Nat}
    (split : splitParentName path parentSize nameSize = some (parentName, name)) :
    pathTokens path = pathTokens parentName ++ [name] ∧ path.head? = some 47 ∧
      parentName.head? = some 47 ∧ NameFits name nameSize := by
  rw [splitParentName] at split
  dsimp only at split
  split at split
  next => cases split
  next long =>
    have rooted : path.head? = some 47 := not_not.mp (not_or.mp long).2
    split at split
    next => cases split
    next =>
      split at split
      next fits =>
        obtain ⟨tokens, heads⟩ := lastSlash_tokens rooted fits.1
        split at split
        next none =>
          cases split
          rw [none] at tokens
          exact ⟨tokens, rooted, rfl, fits⟩
        next some =>
          split at split
          next => cases split
          next =>
            cases split
            exact ⟨tokens, rooted, heads.resolve_left some, fits⟩
      next => cases split

end Tokens

section Names

variable {left right other : List UInt8}

theorem streqNocase_iff : streqNocase left right = true ↔ left.map upper = right.map upper := by
  induction left generalizing right with
  | nil =>
      cases right with
      | nil => exact ⟨fun _ => rfl, fun _ => rfl⟩
      | cons first rest => exact ⟨fun same => (by cases same), fun same => (by cases same)⟩
  | cons head tail ih =>
      cases right with
      | nil => exact ⟨fun same => (by cases same), fun same => (by cases same)⟩
      | cons first rest =>
          rw [streqNocase, Bool.and_eq_true, ih, beq_iff_eq, List.map_cons, List.map_cons, List.cons.injEq]

theorem streqNocase_refl : streqNocase left left = true := streqNocase_iff.mpr rfl

theorem streqNocase_symm (same : streqNocase left right = true) : streqNocase right left = true :=
  streqNocase_iff.mpr (streqNocase_iff.mp same).symm

theorem streqNocase_trans (first : streqNocase left right = true)
    (second : streqNocase right other = true) : streqNocase left other = true :=
  streqNocase_iff.mpr ((streqNocase_iff.mp first).trans (streqNocase_iff.mp second))

end Names

namespace Vfs

def SameSpelling (left right : List UInt8) : Prop := streqNocase left right = true → left = right

instance (left right : List UInt8) : Decidable (SameSpelling left right) :=
  inferInstanceAs (Decidable (_ → _))

def Unlike (left right : List UInt8) : Prop := streqNocase left right = false

section Lookup

variable {s : Vfs} {dir child node : Nat} {name path parentName : List UInt8}

theorem sameSpelling_symm (left right : List UInt8) (same : SameSpelling left right) :
    SameSpelling right left :=
  fun agree => (same (streqNocase_symm agree)).symm

theorem unlike_symm (left right : List UInt8) (unlike : Unlike left right) : Unlike right left := by
  cases agree : streqNocase right left with
  | false => exact agree
  | true => exact absurd (streqNocase_symm agree) (by rw [unlike]; exact Bool.false_ne_true)

theorem findChildNocase_of_either (apart : NamesApart SameSpelling s) (member : dir ∈ s.nodes)
    (found : s.findEither dir name = some child) : s.vfsFindChildNocase dir name = some child := by
  rw [findEither] at found
  split at found
  next exact =>
    cases found
    obtain ⟨some, directory, listed, isName⟩ := findChildWith_some exact
    have symmetric : Std.Symm SameSpelling := ⟨sameSpelling_symm⟩
    have spelled := (apart dir member).forall_of_forall fun _ _ _ => rfl
    rw [vfsFindChild, findChildWith, directory, if_neg (not_or.mpr ⟨some, by decide⟩)] at exact
    rw [vfsFindChildNocase, findChildWith, directory, if_neg (not_or.mpr ⟨some, by decide⟩), ← exact]
    refine List.find?_congr fun other here => ?_
    rw [Bool.eq_iff_iff, beq_iff_eq]
    constructor
    · intro agree
      rw [← beq_iff_eq.mp isName] at agree
      have same := spelled (List.mem_map_of_mem here) (List.mem_map_of_mem listed) agree
      exact same.trans (beq_iff_eq.mp isName)
    · rintro rfl
      exact streqNocase_refl
  next => exact found

theorem vfsResolvePath_split
    (split : splitParentName path execPathMax maxFilename = some (parentName, name)) :
    s.vfsResolvePath path = (s.vfsResolvePath parentName).bind fun parent =>
    s.findEither parent name := by
  obtain ⟨tokens, rooted, parentRooted, fits⟩ := splitParentName_tokens split
  have enters : ∀ parent, s.enter parent name = s.findEither parent name := by
    intro parent
    rw [enter, if_neg (Nat.not_le.mpr fits.2.1), if_neg fits.2.2.1, if_neg fits.2.2.2]
  rw [vfsResolvePath, vfsResolvePath, rooted, parentRooted, tokens]
  split
  next => rfl
  next =>
    rw [List.foldlM_append]
    refine congrArg (Option.bind _) (funext fun parent => ?_)
    rw [List.foldlM_cons, enters]
    exact Option.bind_fun_some _

/-- The two ways to a node end at the same one. -/
def LookupsAgree (s : Vfs) : Prop := ∀ path node parentName name,
  s.vfsResolvePath path = some node →
    splitParentName path execPathMax maxFilename = some (parentName, name) →
      ∃ parent, s.parentOf path = .inr (parent, name) ∧ s.vfsFindChildNocase parent name = some node

theorem lookupsAgree (tree : s.Tree) (apart : NamesApart SameSpelling s) : LookupsAgree s := by
  intro path node parentName name resolved split
  rw [vfsResolvePath_split split] at resolved
  obtain ⟨parent, parentResolved, found⟩ := Option.bind_eq_some_iff.mp resolved
  have member := (vfsResolvePath_reached tree parentResolved).known tree
  refine ⟨parent, ?_, findChildNocase_of_either apart member found⟩
  rw [parentOf, split]
  dsimp only
  rw [parentResolved]
  exact if_pos (findEither_some found).1

end Lookup

end Vfs

end Szczupak
