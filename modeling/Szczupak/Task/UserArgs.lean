import Szczupak.Loader.UserMemory
import Szczupak.Mm.PageWalk
import Szczupak.Task.CommandLine

/-!
What `task_build_user_args` leaves on the user stack, as user mode reads it.
-/

namespace Szczupak

/-- Pages are mapped from `first` up to `last`, each byte to a place of its own, and none holds an
entry that a translation of these addresses reads. -/
structure PagesMapped (ram : Mem) (root first last : Nat) : Prop where
  mapped : ∀ address, first ≤ address → address < last →
    vmmGetPhysical ram root (UInt64.ofNat address) ≠ 0
  apart : ∀ address other, first ≤ address → address < last → first ≤ other → other < last →
    vmmGetPhysical ram root (UInt64.ofNat address) = vmmGetPhysical ram root (UInt64.ofNat other) →
    address = other
  tables : ∀ address other, first ≤ address → address < last → first ≤ other → other < last →
    ∀ entry ∈ walkEntries ram root address, ∀ offset < 8,
      vmmGetPhysical ram root (UInt64.ofNat other) ≠ entry.1 + 8 * entry.2 + offset

structure PagesWritten (root first last : Nat) (ram after : Mem) : Prop where
  mapped : PagesMapped after root first last
  same : ∀ address, first ≤ address → address < last →
    vmmGetPhysical after root (UInt64.ofNat address) = vmmGetPhysical ram root (UInt64.ofNat address)
  kept : ∀ place, (∀ address, first ≤ address → address < last →
    vmmGetPhysical ram root (UInt64.ofNat address) ≠ place) → after place = ram place

section Pages

variable {ram after : Mem} {root first last cur : Nat} {bytes : List UInt8}

theorem PagesMapped.write (mapped : PagesMapped ram root first last) (small : last ≤ 2 ^ 64)
    (kept : ∀ place, (∀ address, first ≤ address → address < last →
      vmmGetPhysical ram root (UInt64.ofNat address) ≠ place) → after place = ram place) :
    PagesWritten root first last ram after := by
  have walks : ∀ address, first ≤ address → address < last → SameWalk ram after root address := by
    intro address lower upper entry member
    apply Mem.readU64_congr
    intro offset bound
    apply kept
    intro other otherLower otherUpper
    exact mapped.tables address other lower upper otherLower otherUpper entry member offset bound
  have same : ∀ address, first ≤ address → address < last →
      vmmGetPhysical after root (UInt64.ofNat address) = vmmGetPhysical ram root (UInt64.ofNat address) := by
    intro address lower upper
    apply vmmGetPhysical_sameWalk
    rw [UInt64.toNat_ofNat', Nat.mod_eq_of_lt (by omega)]
    exact walks address lower upper
  refine ⟨⟨?_, ?_, ?_⟩, same, kept⟩
  · intro address lower upper
    rw [same address lower upper]
    exact mapped.mapped address lower upper
  · intro address other lower upper otherLower otherUpper equal
    rw [same address lower upper, same other otherLower otherUpper] at equal
    exact mapped.apart address other lower upper otherLower otherUpper equal
  · intro address other lower upper otherLower otherUpper
    rw [walkEntries_sameWalk (walks address lower upper), same other otherLower otherUpper]
    exact mapped.tables address other lower upper otherLower otherUpper

theorem PagesWritten.refl (mapped : PagesMapped ram root first last) :
    PagesWritten root first last ram ram :=
  ⟨mapped, fun _ _ _ => rfl, fun _ _ => rfl⟩

theorem PagesWritten.trans {middle : Mem} (one : PagesWritten root first last ram middle)
    (two : PagesWritten root first last middle after) : PagesWritten root first last ram after := by
  refine ⟨two.mapped, fun address lower upper => ?_, fun place outside => ?_⟩
  · exact (two.same address lower upper).trans (one.same address lower upper)
  · rw [two.kept place fun address lower upper => ?_, one.kept place outside]
    rw [one.same address lower upper]
    exact outside address lower upper

structure Puts (root first last : Nat) (ram : Mem) (addr : Nat) (bytes : List UInt8)
    (after : Mem) : Prop where
  pages : PagesWritten root first last ram after
  view : ∀ address, first ≤ address → address < last →
    userView after root address = (userView ram root).store addr bytes address

theorem Puts.append {middle : Mem} {more : List UInt8} {next : Nat}
    (one : Puts root first last ram cur bytes middle)
    (two : Puts root first last middle next more after) (beside : next = cur + bytes.length) :
    Puts root first last ram cur (bytes ++ more) after := by
  refine ⟨one.pages.trans two.pages, fun address lower upper => ?_⟩
  rw [two.view address lower upper, ← Mem.store_append, beside]
  simp only [Mem.store, one.view address lower upper]

theorem taskWriteLoop_puts {turns : Nat} (mapped : PagesMapped ram root first last)
    (small : last ≤ 2 ^ 64)
    (lower : first ≤ cur) (upper : cur + bytes.length ≤ last) (enough : bytes.length ≤ turns) :
    ∃ after, taskWriteLoop root turns cur bytes ram = some after ∧
    Puts root first last ram cur bytes after := by
  induction turns generalizing cur bytes ram with
  | zero =>
      obtain rfl : bytes = [] := List.eq_nil_of_length_eq_zero (Nat.le_zero.mp enough)
      exact ⟨ram, rfl, .refl mapped, fun address _ _ => by rw [Mem.store_nil]⟩
  | succ turns ih =>
      rw [taskWriteLoop]
      by_cases empty : bytes = []
      · subst empty
        exact ⟨ram, rfl, .refl mapped, fun address _ _ => by rw [Mem.store_nil]⟩
      · rw [if_neg empty]
        have some : 0 < bytes.length := List.length_pos_iff.mpr empty
        have present := mapped.mapped cur lower (by omega)
        dsimp only
        rw [if_neg present]
        generalize chunkEq : min (4096 - cur % 4096) bytes.length = chunk
        have bounds : 0 < chunk ∧ chunk ≤ bytes.length ∧ cur % 4096 + chunk ≤ 4096 := by omega
        have places : ∀ offset < chunk, vmmGetPhysical ram root (UInt64.ofNat (cur + offset)) =
            alignDown (vmmGetPhysical ram root (UInt64.ofNat cur)) + cur % 4096 + offset := fun offset bound =>
          vmmGetPhysical_offset (by omega) (by omega) present
        generalize baseEq : alignDown (vmmGetPhysical ram root (UInt64.ofNat cur)) + cur % 4096 = base at places
        have size : (bytes.take chunk).length = chunk := by
          rw [List.length_take]
          omega
        have pages : PagesWritten root first last ram (ram.store base (bytes.take chunk)) := by
          refine mapped.write small fun place outside => Mem.store_outside ram ?_
          rw [size]
          by_contra inside
          have hit := places (place - base) (by omega)
          exact outside (cur + (place - base)) (by omega) (by omega) (hit.trans (by omega))
        have first' : Puts root first last ram cur (bytes.take chunk) (ram.store base (bytes.take chunk)) := by
          refine ⟨pages, fun address lower upper => ?_⟩
          rw [userView, pages.same address lower upper, Mem.store, Mem.store, size]
          by_cases inside : cur ≤ address ∧ address < cur + chunk
          · have place := places (address - cur) (by omega)
            rw [show cur + (address - cur) = address by omega] at place
            rw [place, if_pos (by omega), if_pos inside, Nat.add_sub_cancel_left]
          · rw [if_neg inside, if_neg]
            · rfl
            · intro hit
              have place := places (vmmGetPhysical ram root (UInt64.ofNat address) - base) (by omega)
              have equal := mapped.apart _ address (by omega) (by omega) lower upper (place.trans (by omega))
              omega
        obtain ⟨after, done, rest⟩ := @ih (ram.store base (bytes.take chunk)) (cur + chunk) (bytes.drop chunk)
          pages.mapped (by omega) (by rw [List.length_drop]; omega) (by rw [List.length_drop]; omega)
        refine ⟨after, done, ?_⟩
        have both := first'.append rest (by rw [size])
        rwa [List.take_append_drop] at both

theorem taskWriteUser_puts (mapped : PagesMapped ram root first last) (small : last ≤ 2 ^ 64)
    (some : bytes ≠ []) (lower : first ≤ cur) (upper : cur + bytes.length ≤ last) :
    ∃ after, taskWriteUser root cur bytes ram = Option.some after ∧
    Puts root first last ram cur bytes after := by
  rw [taskWriteUser, if_neg some]
  exact taskWriteLoop_puts mapped small lower upper (Nat.le_refl _)

theorem Puts.read (puts : Puts root first last ram cur bytes after) (lower : first ≤ cur)
    (upper : cur + bytes.length ≤ last) : (userView after root).read cur bytes.length = bytes := by
  have same : (userView after root).read cur bytes.length =
      ((userView ram root).store cur bytes).read cur bytes.length := by
    apply Mem.read_congr
    intro index bound
    exact puts.view (cur + index) (by omega) (by omega)
  rw [same, Mem.read_store_same]

theorem Puts.other (puts : Puts root first last ram cur bytes after) {address : Nat}
    (lower : first ≤ address)
    (upper : address < last) (outside : address < cur ∨ cur + bytes.length ≤ address) :
    userView after root address = userView ram root address := by
  rw [puts.view address lower upper]
  exact Mem.store_outside _ outside

end Pages

section Spaces

variable {kernelRoot root address : Nat} {pmm : Pmm}

theorem UserSpace.walk_tables (user : UserSpace kernelRoot root pmm) (inUser : InUserSpace address)
    (present : (leafEntry pmm.ram root address).testBit presentBit = true) :
    ∀ entry ∈ walkEntries pmm.ram root address, ∃ path, OwnPath true path ∧ path.length ≤ 3 ∧
      nodeAt pmm.ram root path = some entry.1 := by
  have pdPath := inUser.path.tail
  have pdpPath := pdPath.tail
  have slotPath := pdpPath.tail
  have rootNode : nodeAt pmm.ram root [] = some root := rfl
  unfold walkEntries
  dsimp only
  generalize firstEq : entryAt pmm.ram root (pml4Index address) = first
  generalize secondEq : entryAt pmm.ram (alignDown first) (pdpIndex address) = second
  generalize thirdEq : entryAt pmm.ram (alignDown second) (pdIndex address) = third
  rcases user.walk_entries inUser firstEq secondEq thirdEq with ⟨zero, _⟩ | ⟨zero, _⟩ | ⟨zero, _⟩ |
    ⟨place, small, notHuge, one, two, three⟩
  · simp [zero] at present
  · simp [zero] at present
  · simp [zero] at present
  · have pdpNode := nodeAt_child rootNode (firstEq ▸ one.1) (by simp) rfl
    rw [firstEq] at pdpNode
    have pdNode := nodeAt_child pdpNode (secondEq ▸ two.1) (fun _ _ => secondEq ▸ small) rfl
    rw [secondEq] at pdNode
    simp only [one.1, two.1, three.1, small, notHuge, Bool.not_true, Bool.or_self,
      Bool.false_eq_true, if_false, List.forall_mem_cons]
    refine ⟨⟨[], slotPath.tail, by simp, rootNode⟩, ⟨_, slotPath, by simp, pdpNode⟩,
      ⟨_, pdpPath, by simp, pdNode⟩, ⟨_, pdPath, by simp, place⟩, ?_⟩
    simp

theorem ShowsUser.pagesMapped {memory : UserMemory} {first last : Nat}
    (shows : ShowsUser kernelRoot root pmm memory)
    (lower : userSpaceStart ≤ first) (upper : last ≤ userSpaceEnd)
    (mapped : ∀ address, first ≤ address → address < last → (memory address).isSome = true) :
    PagesMapped pmm.ram root first last := by
  have user := shows.user
  have inUser : ∀ address, first ≤ address → address < last → InUserSpace address :=
    fun address low high =>
    ⟨by omega, by omega⟩
  have leaf : ∀ address, first ≤ address → address < last →
      (leafEntry pmm.ram root address).testBit presentBit = true := by
    intro address low high
    have cell := user.cell (inUser address low high)
    rw [shows.cells address (inUser address low high)] at cell
    by_contra absent
    have some := mapped address low high
    rw [cell, if_neg absent] at some
    cases some
  have place : ∀ address, first ≤ address → address < last → vmmGetPhysical pmm.ram root
      (UInt64.ofNat address) = alignDown (leafEntry pmm.ram root address) + address % 4096 := by
    intro address low high
    rw [user.physical (inUser address low high), if_pos (leaf address low high)]
  have frames : ∀ address, first ≤ address → address < last →
    alignDown (leafEntry pmm.ram root address) % 4096 = 0 :=
    fun address low high => alignDown_aligned _
  refine ⟨fun address low high => ?_, fun address other low high otherLow otherHigh same => ?_,
    fun address other low high otherLow otherHigh entry member offset bound same => ?_⟩
  · have node := (user.leaf_frame (inUser address low high) (leaf address low high)).1
    have nonNull := user.nonNull _ _ (inUser address low high).path (by simp [addressPath]) node
    rw [place address low high]
    omega
  · rw [place address low high, place other otherLow otherHigh] at same
    have aligned := frames address low high
    have otherAligned := frames other otherLow otherHigh
    have frame : alignDown (leafEntry pmm.ram root address) =
      alignDown (leafEntry pmm.ram root other) := by omega
    have node := (user.leaf_frame (inUser address low high) (leaf address low high)).1
    have otherNode := (user.leaf_frame (inUser other otherLow otherHigh) (leaf other otherLow otherHigh)).1
    rw [frame] at node
    have path := user.space.apart _ _ _ (inUser address low high).path
      (inUser other otherLow otherHigh).path node otherNode
    have page := ((inUser other otherLow otherHigh).same_page (inUser address low high)).mp path
    omega
  · obtain ⟨path, own, short, table⟩ :=
      user.walk_tables (inUser address low high) (leaf address low high) entry member
    obtain ⟨_, data⟩ := (user.leaf_frame (inUser other otherLow otherHigh) (leaf other otherLow otherHigh)).2
    obtain ⟨tableAligned, position⟩ := walkEntries_valid
      (user.space.node_aligned (show nodeAt pmm.ram root [] = some root from rfl)) entry member
    have otherAligned := frames other otherLow otherHigh
    rw [place other otherLow otherHigh] at same
    simp only [pageSize] at tableAligned
    have frame : entry.1 = alignDown (leafEntry pmm.ram root other) := by omega
    rw [frame] at table
    exact data path own short table

end Spaces

/-- Strings with their NULs, one above the other from `low` up to `limit`. -/
inductive StringsAt (view : Mem) (limit : Nat) : Nat → List (List UInt8) → List Nat → Prop where
  | nil {low : Nat} (inside : low ≤ limit) : StringsAt view limit low [] []
  | cons {low ptr : Nat} {string : List UInt8} {strings : List (List UInt8)} {ptrs : List Nat}
      (above : low ≤ ptr) (bytes : view.read ptr (string.length + 1) = string ++ [0])
      (rest : StringsAt view limit (ptr + (string.length + 1)) strings ptrs) :
      StringsAt view limit low (string :: strings) (ptr :: ptrs)

section Strings

variable {view changed : Mem} {limit low : Nat} {strings : List (List UInt8)} {ptrs : List Nat}

section

variable (laid : StringsAt view limit low strings ptrs)
include laid

theorem StringsAt.fits : low ≤ limit := by
  induction laid with
  | nil inside => exact inside
  | cons above _ _ ih => omega

theorem StringsAt.lengths : ptrs.length = strings.length := by
  induction laid with
  | nil => rfl
  | cons _ _ _ ih => rw [List.length_cons, List.length_cons, ih]

theorem StringsAt.small : ∀ ptr ∈ ptrs, ptr < limit := by
  induction laid with
  | nil => simp
  | cons _ _ rest ih =>
      rw [List.forall_mem_cons]
      have fits := rest.fits
      exact ⟨by omega, ih⟩

theorem StringsAt.lower {below : Nat} (less : below ≤ low) :
    StringsAt view limit below strings ptrs := by
  cases laid with
  | nil inside => exact .nil (by omega)
  | cons above bytes rest => exact .cons (by omega) bytes rest

theorem StringsAt.keep
    (agree : ∀ address, low ≤ address → address < limit → changed address = view address) :
    StringsAt changed limit low strings ptrs := by
  induction laid with
  | nil inside => exact .nil inside
  | cons above bytes rest ih =>
      have fits := rest.fits
      refine .cons above ?_ (ih fun address from' upper => agree address (by omega) upper)
      rw [← bytes]
      apply Mem.read_congr
      intro index bound
      exact agree _ (by omega) (by omega)

theorem StringsAt.each : ∀ index < strings.length,
    low ≤ ptrs.getD index 0 ∧ ptrs.getD index 0 + ((strings.getD index []).length + 1) ≤ limit ∧
      view.read (ptrs.getD index 0) ((strings.getD index []).length + 1) = strings.getD index [] ++ [0] := by
  induction laid with
  | nil => simp
  | cons above bytes rest ih =>
      intro index bound
      cases index with
      | zero => exact ⟨above, rest.fits, bytes⟩
      | succ index =>
          obtain ⟨lower, upper, string⟩ := ih index (Nat.lt_of_succ_lt_succ bound)
          exact ⟨by simp only [List.getD_cons_succ]; omega, upper, string⟩

theorem StringsAt.apart : ∀ index other, index < other →
    other < strings.length → ptrs.getD index 0 + ((strings.getD index []).length + 1) ≤
    ptrs.getD other 0 := by
  induction laid with
  | nil => simp
  | cons above bytes rest ih =>
      intro index other less bound
      obtain ⟨other, rfl⟩ : ∃ before, other = before + 1 := ⟨other - 1, by omega⟩
      have inside := Nat.lt_of_succ_lt_succ bound
      cases index with
      | zero => exact (rest.each other inside).1
      | succ index => exact ih index other (Nat.lt_of_succ_lt_succ less) inside

end

theorem writeStrings_laid {ram : Mem} {root first last top sp : Nat} {buffer : List UInt8}
    {args : List Nat}
    (mapped : PagesMapped ram root first last) (small : last ≤ 2 ^ 64) (top' : top ≤ last)
    (laid : StringsAt (userView ram root) top sp strings ptrs)
    (room : first + ((args.map (stringAt buffer)).map (·.length + 1)).sum ≤ sp) :
    ∃ low ptrs' after, writeStrings root first buffer args sp ptrs ram = some (low, ptrs', after) ∧
      PagesWritten root first last ram after ∧
      low + ((args.map (stringAt buffer)).map (·.length + 1)).sum = sp ∧
      StringsAt (userView after root) top low ((args.map (stringAt buffer)).reverse ++ strings) ptrs' := by
  induction args generalizing sp ptrs strings ram with
  | nil => exact ⟨sp, ptrs, ram, rfl, .refl mapped, rfl, laid⟩
  | cons arg args ih =>
      simp only [List.map_cons, List.sum_cons] at room
      have fits := laid.fits
      have size : (stringAt buffer arg ++ [0]).length = (stringAt buffer arg).length + 1 := by simp
      obtain ⟨middle, done, puts⟩ := @taskWriteUser_puts ram root first last
        (sp - (stringAt buffer arg ++ [0]).length) (stringAt buffer arg ++ [0]) mapped small
        (by simp) (by omega) (by omega)
      have here := puts.read (by omega) (by omega)
      rw [size] at here
      have below : StringsAt (userView middle root) top (sp - ((stringAt buffer arg).length + 1))
          (stringAt buffer arg :: strings) ((sp - ((stringAt buffer arg).length + 1)) :: ptrs) := by
        refine .cons (Nat.le_refl _) here ?_
        rw [Nat.sub_add_cancel (by omega)]
        refine laid.keep fun address lower upper => puts.other (by omega) (by omega) (by omega)
      obtain ⟨low, ptrs', after, rest, written, sum, all⟩ := ih puts.pages.mapped below (by omega)
      refine ⟨low, ptrs', after, ?_, puts.pages.trans written, ?_, ?_⟩
      · rw [writeStrings]
        simp only [size] at done ⊢
        rw [if_neg (by omega), done]
        exact rest
      · simp only [List.map_cons, List.sum_cons]
        omega
      · simpa using all

end Strings

def WordsAt (view : Mem) : Nat → List Nat → Prop
  | _, [] => True
  | addr, word :: rest => view.readU64 addr = word ∧ WordsAt view (addr + 8) rest

structure PutsWithin (root first last : Nat) (ram : Mem) (low high : Nat) (after : Mem) : Prop where
  pages : PagesWritten root first last ram after
  other : ∀ address, first ≤ address → address < last → address < low ∨ high ≤ address →
    userView after root address = userView ram root address

section Table

variable {view changed ram after : Mem} {root first last addr low high : Nat} {words : List Nat}

theorem WordsAt.keep (laid : WordsAt view addr words)
    (agree : ∀ address, addr ≤ address → address < addr + 8 * words.length →
    changed address = view address) : WordsAt changed addr words := by
  induction words generalizing addr with
  | nil => trivial
  | cons word rest ih =>
      simp only [List.length_cons] at agree
      refine ⟨?_, ih laid.2 fun address lower upper => agree address (by omega) (by omega)⟩
      rw [← laid.1]
      apply Mem.readU64_congr
      intro offset bound
      exact agree _ (by omega) (by omega)

theorem WordsAt.append {more : List Nat} (laid : WordsAt view addr words)
    (next : WordsAt view (addr + 8 * words.length) more) : WordsAt view addr (words ++ more) := by
  induction words generalizing addr with
  | nil => simpa using next
  | cons word rest ih =>
      refine ⟨laid.1, ih laid.2 ?_⟩
      rw [List.length_cons] at next
      rwa [show addr + 8 + 8 * rest.length = addr + 8 * (rest.length + 1) by omega]

theorem PutsWithin.trans {middle : Mem} {next : Nat}
    (one : PutsWithin root first last ram low next middle)
    (two : PutsWithin root first last middle next high after) (up : low ≤ next)
    (down : next ≤ high) : PutsWithin root first last ram low high after := by
  refine ⟨one.pages.trans two.pages, fun address lower upper outside => ?_⟩
  rw [two.other address lower upper (by omega), one.other address lower upper (by omega)]

theorem taskWriteUserU64_word {value : Nat} (mapped : PagesMapped ram root first last)
    (small : last ≤ 2 ^ 64)
    (lower : first ≤ addr) (upper : addr + 8 ≤ last) (fits : value < 2 ^ 64) :
    ∃ after, taskWriteUserU64 root addr value ram = some after ∧ PutsWithin root first last ram addr
      (addr + 8) after ∧ WordsAt (userView after root) addr [value] := by
  obtain ⟨after, done, puts⟩ := @taskWriteUser_puts ram root first last addr
    (Mem.leBytes 8 value) mapped small (by simp [Mem.leBytes]) lower (by simpa using upper)
  have bytes := puts.read lower (by simpa using upper)
  rw [Mem.leBytes_length] at bytes
  refine ⟨after, done, ⟨puts.pages, fun address from' upto outside => ?_⟩, ?_, trivial⟩
  · exact puts.other from' upto (by simpa using outside)
  · rw [Mem.readU64, Mem.readLE_leBytes bytes]
    exact Nat.mod_eq_of_lt (Nat.lt_of_lt_of_le fits (by norm_num))

theorem writePointers_words (mapped : PagesMapped ram root first last) (small : last ≤ 2 ^ 64)
    (lower : first ≤ addr)
    (upper : addr + 8 * words.length ≤ last) (fit : ∀ word ∈ words, word < 2 ^ 64) :
    ∃ after, writePointers root addr words ram = some after ∧
      PutsWithin root first last ram addr (addr + 8 * words.length) after ∧
      WordsAt (userView after root) addr words := by
  induction words generalizing addr ram with
  | nil => exact ⟨ram, rfl, ⟨.refl mapped, fun _ _ _ _ => rfl⟩, trivial⟩
  | cons word rest ih =>
      rw [List.forall_mem_cons] at fit
      simp only [List.length_cons] at upper ⊢
      obtain ⟨middle, done, one, here⟩ :=
        @taskWriteUserU64_word ram root first last addr word mapped small lower (by omega) fit.1
      obtain ⟨after, all, two, later⟩ := @ih middle (addr + 8) one.pages.mapped (by omega) (by omega) fit.2
      rw [show addr + 8 + 8 * rest.length = addr + 8 * (rest.length + 1) by omega] at two
      refine ⟨after, ?_, one.trans two (by omega) (by omega), ?_, later⟩
      · rw [writePointers, done]
        exact all
      · have kept := here.keep fun address from' upto =>
          two.other address (by omega) (by simp at upto; omega) (by simp at upto; omega)
        exact kept.1

theorem writeTable_words {base : Nat} {ptrs : List Nat} (mapped : PagesMapped ram root first last)
    (small : last ≤ 2 ^ 64)
    (lower : first ≤ base) (upper : base + 8 * (ptrs.length + 2) ≤ last)
    (fit : ∀ ptr ∈ ptrs, ptr < 2 ^ 64) (few : ptrs.length < 2 ^ 64) :
    ∃ after, writeTable root base ptrs ram = some (⟨base, ptrs.length, base + 8⟩, after) ∧
      PutsWithin root first last ram base (base + 8 * (ptrs.length + 2)) after ∧
      WordsAt (userView after root) base (ptrs.length :: (ptrs ++ [0])) := by
  obtain ⟨counted, first', one, count⟩ :=
    @taskWriteUserU64_word ram root first last base ptrs.length mapped small lower (by omega) few
  obtain ⟨pointed, second, two, pointers⟩ := @writePointers_words counted root first last
    (base + 8) ptrs one.pages.mapped small (by omega) (by omega) fit
  obtain ⟨after, third, three, null⟩ := @taskWriteUserU64_word pointed root first last
    (base + 8 * (ptrs.length + 1)) 0 two.pages.mapped small (by omega) (by omega) (by norm_num)
  rw [show base + 8 + 8 * ptrs.length = base + 8 * (ptrs.length + 1) by omega] at two
  rw [show base + 8 * (ptrs.length + 1) + 8 = base + 8 * (ptrs.length + 2) by omega] at three
  refine ⟨after, ?_, (one.trans two (by omega) (by omega)).trans three (by omega) (by omega), ?_⟩
  · rw [writeTable, first']
    simp only [second, third]
  · have counts : WordsAt (userView after root) base [ptrs.length] := by
      refine (count.keep fun address from' upto => two.other address ?_ ?_ ?_).keep
        fun address from' upto => three.other address ?_ ?_ ?_
      all_goals simp at upto
      all_goals omega
    have points : WordsAt (userView after root) (base + 8) ptrs :=
      pointers.keep fun address from' upto => three.other address (by omega) (by omega) (by omega)
    have last : WordsAt (userView after root) (base + 8 + 8 * ptrs.length) [0] := by
      rw [show base + 8 + 8 * ptrs.length = base + 8 * (ptrs.length + 1) by omega]
      exact null
    exact ⟨counts.1, points.append last⟩

end Table

/-- The argument count, the pointers and a null pointer at the stack pointer, and above them the
strings in order. -/
structure ArgsBuilt (view : Mem) (bottom top : Nat) (strings : List (List UInt8))
    (args : UserArgs) : Prop where
  noNul : ∀ string ∈ strings, 0 ∉ string
  argc : args.argc = strings.length
  argv : args.argv = args.rsp + 8
  aligned : args.rsp % 16 = 0
  inside : bottom ≤ args.rsp
  table : ∃ ptrs, WordsAt view args.rsp (strings.length :: (ptrs ++ [0])) ∧
    StringsAt view top (args.rsp + 8 * (strings.length + 2)) strings ptrs

theorem argumentStrings_noNul (fallbackName cmdline : ArgString) :
    ∀ string ∈ argumentStrings fallbackName.bytes cmdline.bytes, 0 ∉ string := by
  have sourceNul : 0 ∉ if cmdline.bytes = [] then fallbackName.bytes else cmdline.bytes := by
    split
    · exact fallbackName.noNul
    · exact cmdline.noNul
  rw [argumentStrings]
  generalize (if cmdline.bytes = [] then fallbackName.bytes else cmdline.bytes) = source at *
  split
  · intro string member
    rw [List.mem_singleton] at member
    subst member
    exact fun zero => fallbackName.noNul (List.mem_of_mem_take zero)
  · intro string member zero
    have inside := (words_mem _ string (List.mem_of_mem_take member)).2 0 zero
    exact sourceNul (List.mem_of_mem_take inside)

theorem taskBuildUserArgs_built {ram : Mem} {root : Nat}
    (mapped : PagesMapped ram root (userStackTop - userStackSize) userStackTop)
    (fallbackName cmdline : ArgString) :
    ∃ args after, taskBuildUserArgs root fallbackName.bytes cmdline.bytes userStackTop ram =
      some (args, after) ∧ PagesWritten root (userStackTop - userStackSize) userStackTop ram after ∧
      ArgsBuilt (userView after root) (userStackTop - userStackSize) userStackTop
        (argumentStrings fallbackName.bytes cmdline.bytes) args := by
  have noNul := argumentStrings_noNul fallbackName cmdline
  have some := @argumentStrings_length fallbackName.bytes cmdline.bytes
  have size := @argumentStrings_size fallbackName.bytes cmdline.bytes
  have strings := commandArgs_strings fallbackName.noNul cmdline.noNul
  rw [← strings] at some size noNul ⊢
  rw [taskBuildUserArgs]
  generalize commandArgs fallbackName.bytes cmdline.bytes = cut at *
  obtain ⟨offsets, buffer⟩ := cut
  dsimp only at strings some size noNul ⊢
  have start : (userStackTop - userArgRegionGap) / 16 * 16 = userStackTop - 4096 := by decide
  have bottom : userStackTop - userStackSize = userStackTop - 131072 := by decide
  have topEq : userStackTop = 549789368320 := by decide
  have small : userStackTop ≤ 2 ^ 64 := by decide
  have total : (((offsets.reverse).map (stringAt buffer)).map (·.length + 1)).sum =
      ((offsets.map (stringAt buffer)).map (·.length + 1)).sum := by
    rw [List.map_reverse, List.map_reverse, List.sum_reverse]
  rw [userCmdlineMax] at size
  have limit : userArgMax = 32 := rfl
  rw [List.length_map] at some
  obtain ⟨low, ptrs, middle, done, written, sum, laid⟩ :=
    @writeStrings_laid [] [] ram root (userStackTop - userStackSize)
    userStackTop userStackTop (userStackTop - 4096) buffer offsets.reverse mapped small
    (Nat.le_refl _) (.nil (by omega)) (by omega)
  rw [total] at sum
  rw [List.map_reverse, List.reverse_reverse, List.append_nil] at laid
  have count := laid.lengths
  rw [List.length_map] at count
  rw [start, if_neg (by omega), done]
  dsimp only
  generalize spEq : (if (low / 8 * 8 - (ptrs.length + 2) * 8) % 16 ≠ 0 then low / 8 * 8 - 8
    else low / 8 * 8) = sp
  have place : sp % 8 = 0 ∧ (sp - (ptrs.length + 2) * 8) % 16 = 0 ∧ sp ≤ low ∧
    userStackTop - 5000 ≤ sp := by
    split at spEq <;> omega
  rw [if_neg (by omega), if_neg (by omega)]
  obtain ⟨after, table, puts, words⟩ := @writeTable_words middle root (userStackTop - userStackSize)
    userStackTop (sp - (ptrs.length + 2) * 8) ptrs written.mapped small (by omega) (by omega)
    (fun ptr member => Nat.lt_of_lt_of_le (laid.small ptr member) small) (by omega)
  refine ⟨_, after, table, written.trans puts.pages, noNul, ?_, rfl, place.2.1, by
    dsimp only; omega, ptrs, ?_, ?_⟩
  · rw [List.length_map]
    exact count
  · rw [List.length_map, ← count]
    exact words
  · rw [List.length_map, ← count]
    have kept := laid.keep fun address lower upper => puts.other address (by omega) upper (by omega)
    exact kept.lower (by dsimp only; omega)

structure ArgsOnStack (view : Mem) (bottom top : Nat) (strings : List (List UInt8))
    (args : UserArgs) (ptrs : List Nat) : Prop where
  argc : args.argc = strings.length
  argv : args.argv = args.rsp + 8
  aligned : args.rsp % 16 = 0
  table : WordsAt view args.rsp (strings.length :: (ptrs ++ [0]))
  pointers : ptrs.length = strings.length
  bytes : ∀ index < strings.length, 0 ∉ strings.getD index [] ∧
    view.read (ptrs.getD index 0) ((strings.getD index []).length + 1) = strings.getD index [] ++ [0]
  inside : bottom ≤ args.rsp ∧ args.rsp + 8 * (strings.length + 2) ≤ top
  above : ∀ index < strings.length, args.rsp + 8 * (strings.length + 2) ≤ ptrs.getD index 0 ∧
    ptrs.getD index 0 + ((strings.getD index []).length + 1) ≤ top
  apart : ∀ index other, index < other → other < strings.length →
    ptrs.getD index 0 + ((strings.getD index []).length + 1) ≤ ptrs.getD other 0

theorem ArgsBuilt.onStack {view : Mem} {bottom top : Nat} {strings : List (List UInt8)}
    {args : UserArgs}
    (built : ArgsBuilt view bottom top strings args) : ∃ ptrs,
    ArgsOnStack view bottom top strings args ptrs := by
  obtain ⟨noNul, argc, argv, aligned, inside, ptrs, table, laid⟩ := built
  refine ⟨ptrs, argc, argv, aligned, table, laid.lengths, ?_, ⟨inside, laid.fits⟩, ?_, laid.apart⟩
  · intro index bound
    refine ⟨noNul _ ?_, (laid.each index bound).2.2⟩
    rw [List.getD_eq_getElem _ _ bound]
    exact List.getElem_mem bound
  · exact fun index bound => ⟨(laid.each index bound).1, (laid.each index bound).2.1⟩

/-- Whatever the command line and the name, the arguments are built and lie apart in the stack. -/
theorem user_args_on_stack {ram : Mem} {root : Nat}
    (mapped : PagesMapped ram root (userStackTop - userStackSize) userStackTop)
    (fallbackName cmdline : ArgString) :
    ∃ args ptrs after,
      taskBuildUserArgs root fallbackName.bytes cmdline.bytes userStackTop ram =
      some (args, after) ∧ PagesWritten root (userStackTop - userStackSize) userStackTop ram after ∧
      ArgsOnStack (userView after root) (userStackTop - userStackSize) userStackTop
        (argumentStrings fallbackName.bytes cmdline.bytes) args ptrs := by
  obtain ⟨args, after, done, written, built⟩ := taskBuildUserArgs_built mapped fallbackName cmdline
  obtain ⟨ptrs, onStack⟩ := built.onStack
  exact ⟨args, ptrs, after, done, written, onStack⟩

def stackRam : Mem := setEntry (setEntry (setEntry (fun _ => 0) 0x1000 1 0x2007) 0x2000 0 0x3007)
    0x3000 15 0x400087

theorem stackRam_mapped : PagesMapped stackRam 0x1000 (userStackTop - userStackSize) userStackTop := by
  have top : userStackTop = 0x8002000000 := rfl
  have bottom : userStackTop - userStackSize = 0x8001FE0000 := by decide
  rw [bottom, top]
  have first : entryAt stackRam 0x1000 1 = 0x2007 := by decide +kernel
  have second : entryAt stackRam 0x2000 0 = 0x3007 := by decide +kernel
  have third : entryAt stackRam 0x3000 15 = 0x400087 := by decide +kernel
  have down : alignDown 0x2007 = 0x2000 ∧ alignDown 0x3007 = 0x3000 := by decide
  have bits : Nat.testBit 0x2007 presentBit = true ∧ Nat.testBit 0x3007 presentBit = true ∧
      Nat.testBit 0x3007 hugeBit = false ∧ Nat.testBit 0x400087 presentBit = true ∧
      Nat.testBit 0x400087 hugeBit = true := by decide
  have indices : ∀ address, 0x8001FE0000 ≤ address → address < 0x8002000000 →
      pml4Index address = 1 ∧ pdpIndex address = 0 ∧ pdIndex address = 15 := by
    intro address lower upper
    simp only [pml4Index, pdpIndex, pdIndex]
    omega
  have place : ∀ address, 0x8001FE0000 ≤ address → address < 0x8002000000 →
      vmmGetPhysical stackRam 0x1000 (UInt64.ofNat address) = 0x400000 + address % 2 ^ 21 := by
    intro address lower upper
    have whole : (UInt64.ofNat address).toNat = address := UInt64.toNat_ofNat_of_lt' (show _ < 2 ^ 64 by omega)
    obtain ⟨slot, directory, table⟩ := indices (alignDown address)
      (by simp only [alignDown, pageSize]; omega) (by simp only [alignDown, pageSize]; omega)
    simp [vmmGetPhysical, whole, slot, directory, table, first, second, third, down, bits]
  have walk : ∀ address, 0x8001FE0000 ≤ address → address < 0x8002000000 →
      walkEntries stackRam 0x1000 address = [(0x1000, 1), (0x2000, 0), (0x3000, 15)] := by
    intro address lower upper
    obtain ⟨slot, directory, table⟩ := indices address lower upper
    simp [walkEntries, slot, directory, table, first, second, third, down, bits]
  refine ⟨fun address lower upper => ?_, fun address other lower upper otherLower otherUpper same =>
    ?_, fun address other lower upper otherLower otherUpper entry member offset bound => ?_⟩
  · rw [place address lower upper]
    omega
  · rw [place address lower upper, place other otherLower otherUpper] at same
    omega
  · rw [walk address lower upper] at member
    rw [place other otherLower otherUpper]
    simp only [List.mem_cons, List.not_mem_nil, or_false] at member
    rcases member with rfl | rfl | rfl <;> omega

def catLine : ArgString :=
  ⟨[47, 66, 73, 78, 47, 67, 65, 84, 46, 69, 76, 70, 32, 32, 97, 46, 116, 120, 116, 32, 98], by decide⟩

def catName : ArgString := ⟨[67, 65, 84, 46, 69, 76, 70], by decide⟩

def longName : ArgString :=
  ⟨List.replicate 512 97, fun member => absurd (List.eq_of_mem_replicate member) (by decide)⟩

theorem user_args_on_stack_three_words :
    argumentStrings catName.bytes catLine.bytes =
        [[47, 66, 73, 78, 47, 67, 65, 84, 46, 69, 76, 70], [97, 46, 116, 120, 116], [98]] ∧
      ∃ args ptrs after,
        taskBuildUserArgs 0x1000 catName.bytes catLine.bytes userStackTop stackRam = some (args, after) ∧
        PagesWritten 0x1000 (userStackTop - userStackSize) userStackTop stackRam after ∧
        ArgsOnStack (userView after 0x1000) (userStackTop - userStackSize) userStackTop
          (argumentStrings catName.bytes catLine.bytes) args ptrs :=
  ⟨by decide +kernel, user_args_on_stack stackRam_mapped catName catLine⟩

/-- A blank command line gives the program the first 511 bytes of the name only. -/
theorem longName_cut : ∃ args after,
    taskBuildUserArgs 0x1000 longName.bytes [32] userStackTop stackRam = some (args, after) ∧
    words [32] = [] ∧
      (userView after 0x1000).read ((userView after 0x1000).readU64 args.argv)
        (longName.bytes.length + 1) ≠ longName.bytes ++ [0] := by
  have noWords : words [32] = [] := by decide
  have line : argumentStrings longName.bytes [32] = [longName.bytes.take 511] := rfl
  have size : longName.bytes.length = 512 := List.length_replicate
  have noNul := longName.noNul
  obtain ⟨args, after, done, _, _, _, argv, _, _, ptrs, table, laid⟩ :=
    taskBuildUserArgs_built stackRam_mapped longName ⟨[32], by decide⟩
  rw [line] at table laid
  refine ⟨args, after, done, noWords, ?_⟩
  generalize longName.bytes = name at *
  generalize userView after 0x1000 = view at *
  intro whole
  cases laid with
  | cons above bytes rest =>
      have long : name.length + 1 = (name.take 511).length + 1 + 1 := by
        rw [List.length_take]
        omega
      rw [argv, table.2.1, long, Mem.read_add, bytes] at whole
      have cut := congrArg (List.take 512) whole
      rw [List.take_left' (by simp; omega), List.take_left' size] at cut
      apply noNul
      rw [← cut]
      simp

end Szczupak
