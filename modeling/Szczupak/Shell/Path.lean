import Mathlib.Data.List.Flatten
import Szczupak.Fs.VfsPaths
import Szczupak.Lib.Descent
import Szczupak.Shell.PathCore

/-!
Both routines give the path of the components that are left when each `..` has taken back the one
before it.  `vfs_resolve_path` takes the same walk with the parent pointers, so it ends at the same
node where these are right.
-/

namespace Szczupak

def components (path : List UInt8) : List (List UInt8) := (path.splitOn 47).filter (· ≠ [])

def pathWay (component : List UInt8) : Way (List UInt8) :=
  if component = [46] then .stay else if component = [46, 46] then .up else .down component

/-- The components from the left, `..` takes back the one before it. -/
def foldComponents (path : List UInt8) : List (List UInt8) :=
  reduceWalk ((components path).map pathWay)

def renderPath (names : List (List UInt8)) : List UInt8 :=
  if names = [] then [47] else names.flatMap (47 :: ·)

def rawPath (cwd input : List UInt8) : List UInt8 :=
  if input.head? = some 47 then input
  else cwd ++ (if cwd.getLast? = some 47 then [] else [47]) ++ input

structure NormalPath (path : List UInt8) : Prop where
  absolute : path.head? = some 47
  components : path ≠ [47] → ∀ component ∈ path.tail.splitOn 47,
    component ≠ [] ∧ component ≠ [46] ∧ component ≠ [46, 46]
  trailing : path ≠ [47] → path.getLast? ≠ some 47

structure PlainName (name : List UInt8) : Prop where
  some : name ≠ []
  slashless : ∀ char ∈ name, char ≠ 47
  notDot : name ≠ [46]
  notUp : name ≠ [46, 46]

section Components

variable {token rest path name : List UInt8} {names : List (List UInt8)}

theorem tokensFrom_components (slashless : ∀ char ∈ token, char ≠ 47) :
    tokensFrom token rest = components (token ++ rest) := by
  induction rest generalizing token with
  | nil =>
      rw [tokensFrom, components, List.append_nil, List.splitOn_eq_singleton fun member =>
        slashless 47 member rfl]
      by_cases empty : token = [] <;> simp [empty]
  | cons char rest ih =>
      rw [tokensFrom]
      split
      next isSlash =>
        subst isSlash
        rw [components, List.splitOn_append_cons_self_of_not_mem fun member => slashless 47 member rfl]
        have tail : tokensFrom [] rest = (rest.splitOn 47).filter (· ≠ []) := @ih [] (by simp)
        by_cases empty : token = [] <;> simp [empty, tail]
      next notSlash =>
        rw [ih, List.append_assoc, List.singleton_append]
        intro other member
        rcases List.mem_append.mp member with before | last
        · exact slashless other before
        · rw [List.mem_singleton.mp last]
          exact notSlash

theorem pathTokens_components : pathTokens path = components path :=
  tokensFrom_components (by simp)

theorem tokensFrom_usable (slashless : ∀ char ∈ token, char ≠ 47) :
    ∀ name ∈ tokensFrom token rest, name ≠ [] ∧ ∀ char ∈ name, char ≠ 47 := by
  induction rest generalizing token with
  | nil =>
      intro name member
      rw [tokensFrom] at member
      split at member
      next => cases member
      next some =>
        rw [List.mem_singleton.mp member]
        exact ⟨some, slashless⟩
  | cons char rest ih =>
      intro name member
      rw [tokensFrom] at member
      split at member
      next =>
        split at member
        next => exact ih (by simp) name member
        next some =>
          rcases List.mem_cons.mp member with rfl | later
          · exact ⟨some, slashless⟩
          · exact ih (by simp) name later
      next notSlash =>
        refine ih ?_ name member
        intro other within
        rcases List.mem_append.mp within with before | last
        · exact slashless other before
        · rw [List.mem_singleton.mp last]
          exact notSlash

theorem components_usable : ∀ component ∈ components path, component ≠ [] ∧
    ∀ char ∈ component, char ≠ 47 := by
  rw [← pathTokens_components]
  exact tokensFrom_usable (by simp)

theorem tokensFrom_length :
    ((tokensFrom token rest).flatMap (47 :: ·)).length ≤ token.length + rest.length + 1 := by
  induction rest generalizing token with
  | nil =>
      rw [tokensFrom]
      split <;> simp
  | cons char rest ih =>
      have next := @ih []
      simp only [List.length_nil, Nat.zero_add] at next
      rw [tokensFrom, List.length_cons]
      split
      next =>
        split
        next => omega
        next =>
          rw [List.flatMap_cons, List.length_append, List.length_cons]
          omega
      next =>
        have longer := @ih (token ++ [char])
        rw [List.length_append, List.length_singleton] at longer
        omega

theorem components_length (absolute : path.head? = some 47) :
    ((components path).flatMap (47 :: ·)).length ≤ path.length := by
  obtain ⟨rest, rfl⟩ : ∃ rest, path = 47 :: rest := List.head?_eq_some_iff.mp absolute
  rw [← pathTokens_components, pathTokens, tokensFrom, if_pos rfl, if_pos rfl]
  have short := @tokensFrom_length [] rest
  rw [List.length_nil, Nat.zero_add] at short
  exact short

end Components

section Rendering

variable {names front : List (List UInt8)} {name : List UInt8}

@[simp] theorem renderPath_concat : renderPath (front ++ [name]) = front.flatMap (47 :: ·) ++ 47 ::
    name := by
  simp [renderPath]

theorem renderPath_head : (renderPath names).head? = some 47 := by
  cases names with
  | nil => rfl
  | cons name rest => rfl

theorem renderPath_push (some : front ≠ []) : renderPath (front ++ [name]) =
    renderPath front ++ 47 :: name := by
  rw [renderPath_concat, renderPath, if_neg some]

theorem pathTokens_render (plain : ∀ name ∈ names, PlainName name) :
    pathTokens (renderPath names) = names := by
  induction names using List.reverseRecOn with
  | nil => rfl
  | append_singleton front name ih =>
      have isPlain := plain name (by simp)
      have last : tokensFrom [] name = [name] := by
        have whole := @tokensFrom_name [] [] name isPlain.slashless
        rw [List.append_nil] at whole
        rw [whole, List.nil_append, tokensFrom, if_neg isPlain.some]
      have before := ih fun other member => plain other (List.mem_append_left _ member)
      rw [renderPath_concat, pathTokens, tokensFrom_append, last]
      by_cases empty : front = []
      · simp [empty, tokensFrom]
      · rw [renderPath, if_neg empty] at before
        exact congrArg (· ++ [name]) before

theorem splitOn_render (plain : ∀ other ∈ name :: names, PlainName other) :
    (name ++ names.flatMap (47 :: ·)).splitOn 47 = name :: names := by
  induction names generalizing name with
  | nil =>
      rw [List.flatMap_nil, List.append_nil]
      exact List.splitOn_eq_singleton fun member => (plain name List.mem_cons_self).slashless 47 member rfl
  | cons next rest ih =>
      rw [List.flatMap_cons, List.cons_append, List.splitOn_append_cons_self_of_not_mem
        fun member => (plain name List.mem_cons_self).slashless 47 member rfl]
      exact congrArg (name :: ·) (ih fun other member => plain other (List.mem_cons_of_mem _ member))

theorem renderPath_normal (plain : ∀ name ∈ names, PlainName name) : NormalPath (renderPath names) := by
  refine ⟨renderPath_head, fun notRoot component member => ?_, fun notRoot => ?_⟩
  · cases names with
    | nil => exact absurd rfl notRoot
    | cons name rest =>
        have split : (renderPath (name :: rest)).tail.splitOn 47 = name :: rest := splitOn_render plain
        rw [split] at member
        have isPlain := plain component member
        exact ⟨isPlain.some, isPlain.notDot, isPlain.notUp⟩
  · rcases List.eq_nil_or_concat names with rfl | ⟨front, name, rfl⟩
    · exact absurd rfl notRoot
    · rw [List.concat_eq_append] at plain ⊢
      have isPlain := plain name (by simp)
      rw [renderPath_concat]
      intro trailing
      rw [List.getLast?_append_of_ne_nil _ (List.cons_ne_nil _ _),
        List.getLast?_cons_of_ne_nil isPlain.some] at trailing
      exact isPlain.slashless 47 (List.mem_of_getLast? trailing) rfl

end Rendering

section Output

variable {names front : List (List UInt8)} {name out next before tail : List UInt8}
  {test : UInt8 → Bool} {segmentSize outSize : Nat}

theorem scanBack_stops (passes : ∀ char ∈ tail, test char = true)
    (stops : before.length ≤ 1 ∨ ∃ char, before.getLast? = some char ∧ test char = false) :
    ∀ more, before ≠ [] → scanBack (before ++ tail ++ more) test (before ++ tail).length =
    before.length := by
  induction tail using List.reverseRecOn with
  | nil =>
      intro more some
      rw [List.append_nil]
      match size : before.length with
      | 0 => exact absurd (List.length_eq_zero_iff.mp size) some
      | 1 => rfl
      | p + 2 =>
          obtain ⟨char, last, fails⟩ := stops.resolve_left (by omega)
          have byte : (before ++ more).getD (p + 1) 0 = char := by
            rw [List.getD_eq_getElem?_getD, List.getElem?_append_left (by omega)]
            rw [List.getLast?_eq_getElem?, size] at last
            rw [show p + 2 - 1 = p + 1 from rfl] at last
            rw [last]
            rfl
          rw [scanBack, byte, fails]
          rfl
  | append_singleton tail char ih =>
      intro more some
      have isPassed := passes char (by simp)
      have size : (before ++ (tail ++ [char])).length = (before ++ tail).length + 1 := by simp; omega
      have positive : 0 < before.length := List.length_pos_iff.mpr some
      obtain ⟨p, isNext⟩ : ∃ p, (before ++ tail).length = p + 1 :=
        Nat.exists_eq_succ_of_ne_zero (by rw [List.length_append]; omega)
      have byte : (before ++ (tail ++ [char]) ++ more).getD (p + 1) 0 = char := by
        rw [← isNext, ← List.append_assoc before, List.append_assoc _ [char],
          List.getD_eq_getElem?_getD, List.getElem?_append_right (Nat.le_refl _), Nat.sub_self]
        rfl
      have earlier := ih (fun other member => passes other (List.mem_append_left _ member))
        ([char] ++ more) some
      rw [size, isNext, scanBack, byte, if_pos isPassed, ← isNext, ← earlier]
      simp

theorem popSegment_render (plain : ∀ name ∈ names, PlainName name) :
    popSegment (renderPath names) = renderPath names.dropLast := by
  rcases List.eq_nil_or_concat names with rfl | ⟨front, name, rfl⟩
  · rfl
  · rw [List.concat_eq_append] at plain ⊢
    have isPlain := plain name (by simp)
    have positive : 0 < name.length := List.length_pos_iff.mpr isPlain.some
    let before := front.flatMap (47 :: ·)
    have shape : renderPath (front ++ [name]) = before ++ [47] ++ name := by
      rw [renderPath_concat, List.append_assoc]
      rfl
    have first : scanBack (before ++ [47] ++ name) (· == 47) (before ++ [47] ++ name).length =
        (before ++ [47] ++ name).length := by
      have stays := @scanBack_stops (before ++ [47] ++ name) [] (· == 47) (by simp) (Or.inr ?_) [] (by simp)
      · simpa using stays
      · refine ⟨name.getLast isPlain.some, ?_, ?_⟩
        · rw [List.getLast?_append_of_ne_nil _ isPlain.some, List.getLast?_eq_some_getLast]
        · exact beq_false_of_ne (isPlain.slashless _ (List.getLast_mem _))
    have second : scanBack (before ++ [47] ++ name) (· != 47) (before ++ [47] ++ name).length =
        before.length + 1 := by
      have stops := @scanBack_stops (before ++ [47]) name (· != 47)
        (fun char member => bne_iff_ne.mpr (isPlain.slashless char member))
        (Or.inr ⟨47, by simp, rfl⟩) [] (by simp)
      simpa using stops
    have long : (before ++ [47] ++ name).length > 1 := by
      rw [List.length_append, List.length_append, List.length_singleton]
      omega
    rw [List.dropLast_concat, shape, popSegment, if_pos long]
    dsimp only
    rw [first, second]
    by_cases empty : front = []
    · subst empty
      rfl
    · have some : before.length > 0 := by
        obtain ⟨top, rest, rfl⟩ := List.exists_cons_of_ne_nil empty
        exact Nat.succ_pos _
      rw [if_pos (by omega), Nat.add_sub_cancel, List.append_assoc, List.take_left', renderPath, if_neg empty]
      rfl

theorem pushSegment_plain (isPlain : PlainName name) (plain : ∀ other ∈ front, PlainName other)
    (short : name.length < segmentSize) : pushSegment segmentSize outSize (renderPath front) name =
      if (renderPath (front ++ [name])).length < outSize then some (renderPath (front ++ [name]))
        else none := by
  have positive : 0 < name.length := List.length_pos_iff.mpr isPlain.some
  rw [pushSegment, if_neg (Nat.not_le.mpr short), if_neg isPlain.notDot, if_neg isPlain.notUp]
  by_cases empty : front = []
  · subst empty
    rw [if_neg (by simp [renderPath]), appendSegment]
    have only : renderPath ([] ++ [name]) = renderPath [] ++ name := by simp [renderPath]
    rw [only, List.length_append]
    split
    next full => rw [if_neg (Nat.not_lt.mpr full)]
    next fits => rw [if_pos (Nat.not_le.mp fits)]
  · obtain ⟨top, rest, isCons⟩ := List.exists_cons_of_ne_nil empty
    have topPositive : 0 < top.length := List.length_pos_iff.mpr (plain top (by simp [isCons])).some
    have long : (renderPath front).length > 1 := by
      rw [isCons, renderPath, if_neg (List.cons_ne_nil _ _), List.flatMap_cons, List.length_append,
        List.length_cons]
      omega
    have size : (renderPath (front ++ [name])).length = (renderPath front).length + 1 + name.length := by
      rw [renderPath_push empty, List.length_append, List.length_cons]
      omega
    rw [if_pos long, appendSegment, List.length_append, List.length_singleton]
    by_cases fits : (renderPath (front ++ [name])).length < outSize
    · rw [if_pos fits, if_neg (by omega), if_neg (by omega), renderPath_push empty, List.append_assoc]
      rfl
    · rw [if_neg fits]
      split
      next => rfl
      next => rw [if_pos (by omega)]

structure Holds (segmentSize outSize : Nat) (names : List (List UInt8)) (out : List UInt8) : Prop where
  rendered : out = renderPath names
  plain : ∀ name ∈ names, PlainName name ∧ name.length < segmentSize
  fits : out.length < outSize

section

variable (holds : Holds segmentSize outSize names out)
include holds

theorem Holds.pop :
    Holds segmentSize outSize names.dropLast (popSegment out) := by
  obtain ⟨rfl, plain, fits⟩ := holds
  have popped := popSegment_render fun name member => (plain name member).1
  refine ⟨popped, fun name member => plain name ((List.dropLast_sublist _).subset member), ?_⟩
  refine Nat.lt_of_le_of_lt ?_ fits
  rw [popSegment]
  split
  next => exact List.length_take_le' _ _
  next => exact Nat.le_refl _

theorem Holds.push (some : name ≠ [])
    (slashless : ∀ char ∈ name, char ≠ 47) (pushed : pushSegment segmentSize outSize out name =
    Option.some next) : Holds segmentSize outSize ((pathWay name).reduce names) next := by
  have whole := pushed
  rw [pushSegment] at pushed
  split at pushed
  next => cases pushed
  next short =>
    split at pushed
    next isDot =>
      cases pushed
      rw [pathWay, if_pos isDot]
      exact holds
    next notDot =>
      split at pushed
      next isUp =>
        cases pushed
        rw [pathWay, if_neg notDot, if_pos isUp]
        exact holds.pop
      next notUp =>
        have isPlain : PlainName name := ⟨some, slashless, notDot, notUp⟩
        have isShort : name.length < segmentSize := Nat.not_le.mp short
        rw [holds.rendered, pushSegment_plain isPlain (fun other member =>
          (holds.plain other member).1) isShort] at whole
        split at whole
        next fits =>
          cases whole
          rw [pathWay, if_neg notDot, if_neg notUp, Way.reduce]
          refine ⟨rfl, fun other member => ?_, fits⟩
          rcases List.mem_append.mp member with before | last
          · exact holds.plain other before
          · rw [List.mem_singleton.mp last]
            exact ⟨isPlain, isShort⟩
        next => cases whole

theorem Holds.run {segments : List (List UInt8)}
    (usable : ∀ segment ∈ segments, segment ≠ [] ∧ ∀ char ∈ segment, char ≠ 47)
    (pushed : segments.foldlM (pushSegment segmentSize outSize) out = some next) :
    Holds segmentSize outSize ((segments.map pathWay).foldl Way.reduce names) next := by
  induction segments generalizing names out with
  | nil =>
      cases pushed
      exact holds
  | cons segment rest ih =>
      rw [List.foldlM_cons] at pushed
      obtain ⟨middle, first, remaining⟩ := Option.bind_eq_some_iff.mp pushed
      have isUsable := usable segment List.mem_cons_self
      exact ih (holds.push isUsable.1 isUsable.2 first)
        (fun other member => usable other (List.mem_cons_of_mem _ member)) remaining

end

theorem pushSegment_names {rest : List (List UInt8)}
    (plain : ∀ name ∈ front ++ rest, PlainName name ∧ name.length < segmentSize)
    (fits : (renderPath (front ++ rest)).length < outSize) :
    rest.foldlM (pushSegment segmentSize outSize) (renderPath front) =
    some (renderPath (front ++ rest)) := by
  induction rest generalizing front with
  | nil => rw [List.append_nil]; rfl
  | cons name rest ih =>
      have isPlain := plain name (by simp)
      rw [show front ++ name :: rest = front ++ [name] ++ rest by simp] at plain fits ⊢
      have shorter : (renderPath (front ++ [name])).length < outSize := by
        refine Nat.lt_of_le_of_lt ?_ fits
        simp [renderPath, List.flatMap_append]
      rw [List.foldlM_cons, pushSegment_plain isPlain.1 (fun other member =>
        (plain other (by simp [member])).1) isPlain.2, if_pos shorter]
      exact ih plain fits

end Output

section Normalize

variable {cwd input out : List UInt8} {combinedSize segmentSize outSize : Nat}

theorem combinePath_raw {combined : List UInt8} (absolute : cwd.head? = some 47)
    (combines : combinePath combinedSize cwd input = some combined) :
    combined = rawPath cwd input ∧ combined.length < combinedSize ∧ combined.head? = some 47 := by
  have some : cwd.length > 0 := by
    obtain ⟨rest, rfl⟩ := List.head?_eq_some_iff.mp absolute
    exact Nat.succ_pos _
  have head : ∀ behind : List UInt8, (cwd ++ behind).head? = Option.some 47 := by
    intro behind
    obtain ⟨rest, rfl⟩ := List.head?_eq_some_iff.mp absolute
    rfl
  rw [combinePath] at combines
  rw [rawPath]
  split at combines
  next isAbsolute =>
    split at combines
    next => cases combines
    next short =>
      cases combines
      exact ⟨(if_pos isAbsolute).symm, Nat.not_le.mp short, isAbsolute⟩
  next isRelative =>
    rw [if_neg isRelative]
    by_cases ends : cwd.getLast? = Option.some 47
    · simp only [ends, ne_eq, not_true_eq_false, and_false, if_false, if_true] at combines ⊢
      split at combines
      next => cases combines
      next short =>
        cases combines
        refine ⟨rfl, ?_, by rw [List.append_assoc]; exact head _⟩
        simpa using short
    · simp only [some, ends, ne_eq, not_false_eq_true, and_self, if_true, if_false] at combines ⊢
      split at combines
      next => cases combines
      next short =>
        cases combines
        refine ⟨rfl, ?_, by rw [List.append_assoc]; exact head _⟩
        simpa [Nat.add_assoc, Nat.add_comm 1] using short

theorem normalizeWith_holds (absolute : cwd.head? = some 47)
    (normalizes : normalizeWith combinedSize segmentSize cwd input outSize = some out) :
    Holds segmentSize outSize (foldComponents (rawPath cwd input)) out ∧ 2 ≤ outSize ∧
      (rawPath cwd input).length < combinedSize ∧ (rawPath cwd input).head? = some 47 := by
  rw [normalizeWith] at normalizes
  split at normalizes
  next => cases normalizes
  next room =>
    split at normalizes
    next => cases normalizes
    next combined combines =>
      obtain ⟨rfl, short, isAbsolute⟩ := combinePath_raw absolute combines
      rw [pathTokens_components] at normalizes
      have start : Holds segmentSize outSize [] [47] := ⟨rfl, by simp, Nat.not_lt.mp room⟩
      exact ⟨start.run components_usable normalizes, Nat.not_lt.mp room, short, isAbsolute⟩

theorem fold_length {path : List UInt8} (absolute : path.head? = some 47) :
    (renderPath (foldComponents path)).length ≤ path.length := by
  obtain ⟨rest, rfl⟩ : ∃ rest, path = 47 :: rest := List.head?_eq_some_iff.mp absolute
  rw [renderPath]
  split
  next => exact Nat.succ_pos _
  next =>
    let bytes : Way (List UInt8) → List UInt8 := fun way =>
      match way with
      | .down name => 47 :: name
      | _ => []
    have kept := (reduceWalk_sublist ((components (47 :: rest)).map pathWay)).flatMap bytes
    rw [List.flatMap_map, List.flatMap_map] at kept
    refine ((kept.trans (List.Sublist.flatMap_right _ fun component _ => ?_)).length_le).trans
      (components_length absolute)
    rw [pathWay]
    split
    next => exact List.nil_sublist _
    next =>
      split
      next => exact List.nil_sublist _
      next => exact List.Sublist.refl _

theorem normalizeWith_fixed {names : List (List UInt8)} (holds : Holds segmentSize outSize names out)
    (room : 2 ≤ outSize) (short : out.length < combinedSize) :
    normalizeWith combinedSize segmentSize cwd out outSize = some out := by
  obtain ⟨rfl, plain, fits⟩ := holds
  have combines : combinePath combinedSize cwd (renderPath names) = some (renderPath names) := by
    rw [combinePath, if_pos renderPath_head, if_neg (Nat.not_le.mpr short)]
  have same := @pushSegment_names [] segmentSize outSize names plain fits
  rw [normalizeWith, if_neg (Nat.not_lt.mpr room), combines]
  dsimp only
  rw [pathTokens_render fun name member => (plain name member).1]
  exact same

end Normalize

namespace Vfs

/-- The parent of each node below the root is the directory that lists it. -/
def ParentsMatch (s : Vfs) : Prop :=
  (s.node s.root).parent = 0 ∧
    ∀ dir child, Reached s dir → child ∈ s.children dir → (s.node child).parent = dir

theorem Tree.parentsMatch {s : Vfs} (tree : s.Tree) (mounted : s.root ≠ 0) : ParentsMatch s := by
  refine ⟨(tree.root.resolve_left mounted).2.2, fun dir child reached listed => ?_⟩
  exact (tree.child dir (reached.known tree) child listed).2

def above (s : Vfs) (node : Nat) : Nat := if (s.node node).parent ≠ 0 then (s.node node).parent
    else node

section Resolve

variable {s : Vfs} {current node : Nat} {token path : List UInt8} {tokens : List (List UInt8)}

theorem enter_way (short : token.length < maxFilename) :
    s.enter current token = (pathWay token).go s.findEither s.above current := by
  rw [enter, if_neg (Nat.not_le.mpr short), pathWay]
  split
  next => rfl
  next =>
    split
    next =>
      rw [Way.go, above]
      split
      next => rfl
      next => rfl
    next => rfl

theorem enter_short (entered : s.enter current token = some node) : token.length < maxFilename := by
  rw [enter] at entered
  split at entered
  next => cases entered
  next short => exact Nat.not_le.mp short

theorem foldlM_enter (walked : tokens.foldlM s.enter current = some node) :
    (∀ token ∈ tokens, token.length < maxFilename) ∧
      (tokens.map pathWay).foldlM (Way.go s.findEither s.above) current = some node := by
  induction tokens generalizing current with
  | nil => exact ⟨by simp, walked⟩
  | cons token rest ih =>
      rw [List.foldlM_cons] at walked
      obtain ⟨next, first, remaining⟩ := Option.bind_eq_some_iff.mp walked
      obtain ⟨short, walks⟩ := ih remaining
      have isShort := enter_short first
      refine ⟨List.forall_mem_cons.mpr ⟨isShort, short⟩, ?_⟩
      rw [enter_way isShort] at first
      rw [List.map_cons, List.foldlM_cons, first]
      exact walks

theorem foldlM_names (plain : ∀ name ∈ tokens, PlainName name)
    (short : ∀ name ∈ tokens, name.length < maxFilename) :
    tokens.foldlM s.enter current = tokens.foldlM s.findEither current := by
  induction tokens generalizing current with
  | nil => rfl
  | cons name rest ih =>
      have isPlain := plain name List.mem_cons_self
      rw [List.foldlM_cons, List.foldlM_cons, enter_way (short name List.mem_cons_self), pathWay,
        if_neg isPlain.notDot, if_neg isPlain.notUp]
      refine congrArg (Option.bind _) (funext fun next => ?_)
      exact ih (fun other member => plain other (List.mem_cons_of_mem _ member))
        fun other member => short other (List.mem_cons_of_mem _ member)

theorem vfsResolvePath_fold (parents : ParentsMatch s)
    (plain : ∀ name ∈ foldComponents path, PlainName name)
    (resolved : s.vfsResolvePath path = some node) :
    s.vfsResolvePath (renderPath (foldComponents path)) = some node := by
  rw [vfsResolvePath] at resolved ⊢
  split at resolved
  next => cases resolved
  next rooted =>
    have mounted := (not_or.mp rooted).1
    rw [if_neg (not_or.mpr ⟨mounted, not_not.mpr renderPath_head⟩), pathTokens_render plain]
    rw [pathTokens_components] at resolved
    obtain ⟨short, walks⟩ := foldlM_enter resolved
    have shorter : ∀ name ∈ foldComponents path, name.length < maxFilename := by
      intro name member
      have isWay := (reduceWalk_sublist _).subset (List.mem_map_of_mem member)
      obtain ⟨component, isComponent, same⟩ := List.mem_map.mp isWay
      rw [pathWay] at same
      split at same
      next => cases same
      next =>
        split at same
        next => cases same
        next =>
          cases same
          exact short name isComponent
    rw [foldlM_names plain shorter]
    refine @reduceWalk_ends _ _ s.findEither s.above (Reached s) s.root node (.root mounted) ?_ ?_ ?_ _ walks
    · rw [above, if_neg (not_not.mpr parents.1)]
    · intro dir name child reached found
      exact .child reached (findEither_some found).2
    · intro dir name child reached found
      have some : dir ≠ 0 := by
        rintro rfl
        simp [findEither, vfsFindChild, vfsFindChildNocase, findChildWith] at found
      rw [above, parents.2 dir child reached (findEither_some found).2, if_pos some]

end Resolve

end Vfs

structure Normalized (normalize : List UInt8 → List UInt8 → Nat → Option (List UInt8))
    (cwd input : List UInt8) (outSize : Nat) (out : List UInt8) : Prop where
  normal : NormalPath out
  folds : out = renderPath (foldComponents (rawPath cwd input))
  fixed : ∀ anyCwd, normalize anyCwd out outSize = some out
  resolves : ∀ (s : Vfs) node, s.ParentsMatch → s.vfsResolvePath (rawPath cwd input) = some node →
    s.vfsResolvePath out = some node

section Sound

variable {cwd input out : List UInt8} {combinedSize segmentSize outSize : Nat}

theorem normalizeWith_sound (absolute : cwd.head? = some 47)
    (normalizes : normalizeWith combinedSize segmentSize cwd input outSize = some out) :
    Normalized (normalizeWith combinedSize segmentSize) cwd input outSize out := by
  obtain ⟨holds, room, short, isAbsolute⟩ := normalizeWith_holds absolute normalizes
  have plain : ∀ name ∈ foldComponents (rawPath cwd input), PlainName name :=
    fun name member => (holds.plain name member).1
  have shorter : out.length < combinedSize := by
    rw [holds.rendered]
    exact Nat.lt_of_le_of_lt (fold_length isAbsolute) short
  refine ⟨?_, holds.rendered, fun anyCwd => normalizeWith_fixed holds room shorter, ?_⟩
  · rw [holds.rendered]
    exact renderPath_normal plain
  · intro s node parents resolved
    rw [holds.rendered]
    exact Vfs.vfsResolvePath_fold parents plain resolved

theorem paths_normalized (absolute : cwd.head? = some 47) :
    (∀ outSize out, normalizePath cwd input outSize = some out →
      Normalized normalizePath cwd input outSize out) ∧
    (∀ outSize out, shellNormalizePath cwd input outSize = some out →
      Normalized shellNormalizePath cwd input outSize out) ∧
    ∀ outSize out otherSize other, normalizePath cwd input outSize = some out →
      shellNormalizePath cwd input otherSize = some other → out = other := by
  refine ⟨fun _ _ normalizes => normalizeWith_sound absolute normalizes,
    fun _ _ normalizes => normalizeWith_sound absolute normalizes, ?_⟩
  intro outSize out otherSize other normalizes otherNormalizes
  rw [(normalizeWith_sound absolute normalizes).folds,
    (normalizeWith_sound absolute otherNormalizes).folds]

end Sound

theorem paths_normalized_twoUp :
    normalizePath [47, 97, 47, 98] [46, 46, 47, 99, 47, 46, 47, 100, 47, 46, 46] 256 =
    some [47, 97, 47, 99] ∧
    Normalized normalizePath [47, 97, 47, 98] [46, 46, 47, 99, 47, 46, 47, 100, 47, 46, 46] 256
      [47, 97, 47, 99] := by
  have runs : normalizePath [47, 97, 47, 98] [46, 46, 47, 99, 47, 46, 47, 100, 47, 46, 46] 256 =
      some [47, 97, 47, 99] := by
    decide
  exact ⟨runs, (paths_normalized rfl).1 256 _ runs⟩

end Szczupak
