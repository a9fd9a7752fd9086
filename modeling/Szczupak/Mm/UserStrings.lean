import Szczupak.Mm.Verify

/-!
User strings.  `strnlen_user` and `copy_from_user` walk the pages of a string apart from each other;
both are compared with a walk over its bytes, as a reader of the directory sees them.
-/

namespace Szczupak

def Readable (ram : Mem) (dir : Option Nat) (address : Nat) : Prop :=
  ∃ root, dir = some root ∧ userSpaceStart ≤ address ∧ address < userSpaceEnd ∧
    checkPagePermissions ram root address false = true ∧
    vmmGetPhysical ram root (UInt64.ofNat (alignDown address)) ≠ 0

/-- Memory as user mode reads it through the task's directory. -/
def taskView (ram : Mem) : Option Nat → Mem
  | none => fun _ => 0
  | some root => userView ram root

/-- A walk from byte `len` on that stops at NUL, at `limit` and at a byte that cannot be read. -/
inductive Measured (readable : Nat → Prop) (byte : Nat → UInt8) (limit : Nat) : Nat → Int → Prop
  | full : Measured readable byte limit limit limit
  | ended {len : Nat} (short : len < limit) (here : readable len) (last : byte len = 0) :
      Measured readable byte limit len len
  | fault {len : Nat} (short : len < limit) (unreadable : ¬readable len) :
    Measured readable byte limit len (-efault)
  | next {len : Nat} {result : Int} (short : len < limit) (here : readable len) (more : byte len ≠ 0)
      (rest : Measured readable byte limit (len + 1) result) : Measured readable byte limit len result

namespace Measured

variable {readable : Nat → Prop} {byte : Nat → UInt8} {limit len : Nat} {result : Int}

section

variable (measured : Measured readable byte limit len result)
include measured

theorem stops {last : Nat} (lower : len ≤ last)
    (upper : last ≤ limit) (here : ∀ index, len ≤ index → index ≤ last → index < limit → readable index)
    (more : ∀ index, len ≤ index → index < last → byte index ≠ 0)
    (final : last < limit → byte last = 0) : result = last := by
  induction measured with
  | full =>
      congr 1
      omega
  | @ended len short _ nul =>
      by_cases same : len = last
      · rw [same]
      · exact absurd nul (more len (Nat.le_refl _) (by omega))
  | @fault len short unreadable => exact absurd (here len (Nat.le_refl _) lower short) unreadable
  | @next len result short _ nonzero _ ih =>
      have further : len ≠ last := by
        intro same
        rw [same] at nonzero short
        exact nonzero (final short)
      apply ih
      · omega
      · intro index bound
        exact here index (by omega)
      · intro index bound
        exact more index (by omega)

theorem faults {needed : Nat} (lower : len ≤ needed)
    (upper : needed < limit) (unreadable : ¬readable needed)
    (more : ∀ index, len ≤ index → index < needed → readable index → byte index ≠ 0) : result < 0 := by
  induction measured with
  | full => omega
  | @ended len short here nul =>
      by_cases same : len = needed
      · exact absurd (same ▸ here) unreadable
      · exact absurd nul (more len (Nat.le_refl _) (by omega) here)
  | fault => simp [efault]
  | @next len result short here _ _ ih =>
      have further : len ≠ needed := fun same => unreadable (same ▸ here)
      apply ih
      · omega
      · intro index bound
        exact more index (by omega)

theorem length (counted : 0 ≤ result) :
    (len : Int) ≤ result ∧ result ≤ limit ∧ ∀ index, len ≤ index →
    (index : Int) < result → readable index := by
  induction measured with
  | full => exact ⟨Int.le_refl _, Int.le_refl _, fun index lower upper => by omega⟩
  | ended short => exact ⟨Int.le_refl _, by omega, fun index lower upper => by omega⟩
  | fault => simp [efault] at counted
  | @next len result short here _ _ ih =>
      obtain ⟨lower, upper, rest⟩ := ih counted
      refine ⟨by omega, upper, fun index first bound => ?_⟩
      by_cases same : index = len
      · rwa [same]
      · exact rest index (by omega) bound

end

end Measured

section Pages

variable {ram : Mem} {root addr : Nat}

theorem readable_page {offset : Nat} (lower : userSpaceStart ≤ addr) (upper : addr < userSpaceEnd)
    (checked : checkPagePermissions ram root (alignDown addr) false = true)
    (mapped : vmmGetPhysical ram root (UInt64.ofNat (alignDown addr)) ≠ 0)
    (inPage : addr % 4096 + offset < 4096) :
    Readable ram (some root) (addr + offset) ∧ userView ram root (addr + offset) =
      ram (alignDown (vmmGetPhysical ram root (UInt64.ofNat (alignDown addr))) + addr % 4096 + offset) := by
  have page : alignDown (addr + offset) = alignDown addr := by
    simp only [alignDown, pageSize]
    omega
  have whole : addr + offset = alignDown addr + (addr % 4096 + offset) := by
    simp only [alignDown, pageSize]
    omega
  have start : alignDown addr % 4096 = 0 := alignDown_aligned addr
  have whole_pages : userSpaceEnd % 4096 = 0 := by decide
  have small : userSpaceEnd < 2 ^ 64 := by decide
  constructor
  · refine ⟨root, rfl, by omega, by omega, ?_, by rwa [page]⟩
    rw [← checked]
    apply checkPagePermissions_page
    rw [page, alignDown_of_aligned start]
  · rw [userView, whole, vmmGetPhysical_offset (by omega) (by omega) mapped, start, Nat.add_zero,
      Nat.add_assoc]

theorem Readable.mapped (readable : Readable ram (some root) addr) :
    vmmGetPhysical ram root (UInt64.ofNat addr) ≠ 0 ∧
    checkPagePermissions ram root addr false = true := by
  obtain ⟨other, same, lower, upper, checked, mapped⟩ := readable
  cases same
  refine ⟨?_, checked⟩
  have start : alignDown addr % 4096 = 0 := alignDown_aligned addr
  have whole : addr = alignDown addr + addr % 4096 := by
    simp only [alignDown, pageSize]
    omega
  have small : userSpaceEnd < 2 ^ 64 := by decide
  have first := @vmmGetPhysical_offset ram root (alignDown addr) 0 (by omega) (by omega) mapped
  have here := @vmmGetPhysical_offset ram root (alignDown addr) (addr % 4096) (by omega)
    (by omega) mapped
  rw [← whole] at here
  rw [Nat.add_zero] at first
  omega

theorem unreadable_page (fails : checkPagePermissions ram root (alignDown addr) false = false ∨
    vmmGetPhysical ram root (UInt64.ofNat (alignDown addr)) = 0) : ¬Readable ram (some root) addr := by
  rintro ⟨other, same, -, -, checked, mapped⟩
  cases same
  rcases fails with refused | missing
  · have page : alignDown (alignDown addr) = alignDown addr := alignDown_of_aligned (alignDown_aligned addr)
    rw [checkPagePermissions_page page, checked] at refused
    contradiction
  · exact mapped missing

theorem strnlenPage_measured {readable : Nat → Prop} {byte : Nat → UInt8} {limit room place len : Nat}
    (page : ∀ offset < room, readable (len + offset) ∧ byte (len + offset) = ram (place + offset))
    (within : len ≤ limit) {ended : Bool} {reached : Nat}
    (found : strnlenPage ram limit room place len = (ended, reached)) :
    (ended = true ∧ Measured readable byte limit len reached) ∨
      (ended = false ∧ len ≤ reached ∧ reached ≤ limit ∧ (0 < room → len < limit → len < reached) ∧
        ∀ result, Measured readable byte limit reached result → Measured readable byte limit len result) := by
  induction room generalizing place len with
  | zero =>
      simp only [strnlenPage, Prod.mk.injEq] at found
      obtain ⟨rfl, rfl⟩ := found
      exact Or.inr ⟨rfl, Nat.le_refl _, within, fun none => absurd none (Nat.lt_irrefl _), fun _ rest => rest⟩
  | succ room ih =>
      rw [strnlenPage] at found
      by_cases short : len < limit
      · rw [if_pos short] at found
        obtain ⟨here, same⟩ := page 0 (Nat.succ_pos _)
        simp only [Nat.add_zero] at here same
        by_cases nul : ram place = 0
        · simp only [nul, if_true, Prod.mk.injEq] at found
          obtain ⟨rfl, rfl⟩ := found
          exact Or.inl ⟨rfl, .ended short here (same.trans nul)⟩
        · rw [if_neg nul] at found
          have step : ∀ result, Measured readable byte limit (len + 1) result →
              Measured readable byte limit len result := by
            intro result rest
            exact .next short here (same ▸ nul) rest
          have later : ∀ offset < room, readable (len + 1 + offset) ∧
              byte (len + 1 + offset) = ram (place + 1 + offset) := by
            intro offset bound
            have next := page (offset + 1) (by omega)
            simpa only [Nat.add_assoc, Nat.add_comm 1] using next
          rcases ih later short found with ⟨stop, rest⟩ | ⟨more, lower, upper, -, rest⟩
          · exact Or.inl ⟨stop, step _ rest⟩
          · exact Or.inr ⟨more, by omega, upper, fun _ _ => lower, fun result end_ => step _ (rest _ end_)⟩
      · rw [if_neg short] at found
        simp only [Prod.mk.injEq] at found
        obtain ⟨rfl, rfl⟩ := found
        exact Or.inr ⟨rfl, Nat.le_refl _, within, fun _ less => absurd less short, fun _ rest => rest⟩

theorem strnlenPages_measured {limit turns len : Nat} (lower : userSpaceStart ≤ addr)
    (within : len ≤ limit) (enough : limit - len ≤ turns) :
    Measured (fun index => Readable ram (some root) (addr + index)) (fun index =>
      userView ram root (addr + index)) limit len (strnlenPages ram root addr limit turns len) := by
  induction turns generalizing len with
  | zero =>
      obtain rfl : len = limit := by omega
      exact .full
  | succ turns ih =>
      rw [strnlenPages]
      by_cases short : len < limit
      · simp only [short, if_true]
        by_cases outside : addr + len ≥ userSpaceEnd
        · rw [if_pos outside]
          apply Measured.fault short
          rintro ⟨other, -, -, upper, -⟩
          omega
        rw [if_neg outside]
        cases checked : checkPagePermissions ram root (alignDown (addr + len)) false with
        | false => exact .fault short (unreadable_page (Or.inl checked))
        | true =>
            simp only [Bool.not_true, Bool.false_eq_true, if_false]
            by_cases missing : vmmGetPhysical ram root (UInt64.ofNat (alignDown (addr + len))) = 0
            · rw [if_pos missing]
              exact .fault short (unreadable_page (Or.inr missing))
            · rw [if_neg missing]
              have room : 0 < pageSize - (addr + len) % pageSize := by
                simp only [pageSize]
                omega
              have bytes : ∀ offset < pageSize - (addr + len) % pageSize,
                  Readable ram (some root) (addr + (len + offset)) ∧ userView ram root (addr + (len + offset)) =
                    ram (alignDown (vmmGetPhysical ram root (UInt64.ofNat
                      (alignDown (addr + len)))) + (addr + len) % pageSize + offset) := by
                intro offset bound
                simp only [pageSize] at bound ⊢
                rw [← Nat.add_assoc]
                exact readable_page (by omega) (by omega) checked missing (by omega)
              cases found : strnlenPage ram limit (pageSize - (addr + len) % pageSize)
                  (alignDown (vmmGetPhysical ram root (UInt64.ofNat (alignDown (addr + len)))) +
                    (addr + len) % pageSize) len with
              | mk ended reached =>
                  rcases @strnlenPage_measured ram (fun index => Readable ram (some root) (addr + index))
                    (fun index => userView ram root (addr + index)) limit _ _ len bytes within
                    ended reached found with ⟨rfl, stop⟩ | ⟨rfl, -, upper, further, rest⟩
                  · exact stop
                  · have := further room short
                    exact rest _ (ih upper (by omega))
      · simp only [short, if_false]
        obtain rfl : len = limit := by omega
        exact .full

end Pages

section Calls

variable {start : UserState} {dir : Option Nat} {dst src size maxLen : UInt64}

theorem validateUserRange_inside {addr count : Nat} (lower : userSpaceStart ≤ addr)
    (start : addr < userSpaceEnd)
    (upper : addr + count ≤ userSpaceEnd) : validateUserRange addr count = 0 := by
  have null : 0 < userSpaceStart := by decide
  unfold validateUserRange
  rw [if_neg (by omega), if_neg (by omega), if_neg (by omega), if_neg (by omega), if_neg (by omega)]

theorem validateUserRange_outside {addr : Nat} (outside :
    ¬(userSpaceStart ≤ addr ∧ addr < userSpaceEnd)) : validateUserRange addr 1 = -efault := by
  unfold validateUserRange
  by_cases null : addr = 0
  · rw [if_pos null]
  · by_cases low : addr < userSpaceStart
    · rw [if_neg null, if_pos low]
    · rw [if_neg null, if_neg low, if_pos (by omega)]

theorem strnlenUser_measured {ram : Mem} (positive : 0 < maxLen.toNat) :
    Measured (fun index => Readable ram dir (src.toNat + index)) (fun index => taskView ram dir
      (src.toNat + index)) (min maxLen.toNat maxUserString) 0 (strnlenUser ram dir src maxLen) := by
  have limit : (if maxLen.toNat > maxUserString then maxUserString else maxLen.toNat) =
      min maxLen.toNat maxUserString := by
    split <;> omega
  have short : 0 < min maxLen.toNat maxUserString := by
    simp only [maxUserString]
    omega
  have refused : strnlenUser ram dir src maxLen = -efault → ¬Readable ram dir (src.toNat + 0) →
      Measured (fun index => Readable ram dir (src.toNat + index))
      (fun index => taskView ram dir (src.toNat + index))
        (min maxLen.toNat maxUserString) 0 (strnlenUser ram dir src maxLen) := by
    intro fails unreadable
    rw [fails]
    exact .fault short unreadable
  by_cases null : src = 0
  · apply refused
    · simp [strnlenUser, null]
    · rintro ⟨root, -, lower, -⟩
      simp [null, userSpaceStart] at lower
  by_cases inRange : userSpaceStart ≤ src.toNat ∧ src.toNat < userSpaceEnd
  · have valid : validateUserRange src.toNat 1 = 0 := validateUserRange_inside inRange.1 inRange.2 (by omega)
    cases dir with
    | none =>
        apply refused
        · simp [strnlenUser, null, valid]
        · rintro ⟨root, absent, -⟩
          contradiction
    | some root =>
        simp only [strnlenUser, null, valid, if_false, ne_eq, not_true_eq_false, limit]
        exact strnlenPages_measured inRange.1 (Nat.zero_le _) (Nat.le_refl _)
  · apply refused
    · have invalid := validateUserRange_outside inRange
      simp [strnlenUser, null, invalid, efault]
    · rintro ⟨root, -, lower, upper, -⟩
      exact inRange ⟨lower, upper⟩

structure BytesCopied (ram kernel : Mem) (root src dst done : Nat) (state : UserState) : Prop where
  ramKept : state.ram = ram
  copied : state.kernel = kernel.store dst ((userView ram root).read src done)

theorem readByte_copied {ram kernel tables : Mem} {root src dst done base index : Nat}
    {state : UserState} (before : BytesCopied ram kernel root src dst (done + index) state)
    (here : userView ram root (src + (done + index)) = ram (base + index)) :
    BytesCopied ram kernel root src dst (done + (index + 1))
    (readByte tables dst src done base state index) := by
  have grown : (userView ram root).read src (done + (index + 1)) =
      (userView ram root).read src (done + index) ++ [ram (base + index)] := by
    rw [← here, ← Nat.add_assoc, Mem.read_add]
    rfl
  refine ⟨before.ramKept, ?_⟩
  rw [grown, ← Mem.store_concat, Mem.read_length]
  simp only [readByte, before.copied, before.ramKept]

theorem readPage_copied {ram kernel : Mem} {root src dst count : Nat} (small : src + count < 2 ^ 64)
    (readable : ∀ index < count, Readable ram (some root) (src + index)) :
    PageStep (locateFromUser root) (fun base done chunk state => (List.range chunk).foldl
      (readByte state.ram dst src done base) state) src count (BytesCopied ram kernel root src dst) := by
  intro done state base chunk within inPage located copied
  refine @foldl_range_invariant _ _ (fun index => BytesCopied ram kernel root src dst
    (done + index)) chunk state ?_ copied
  intro index before bound earlier
  apply readByte_copied earlier
  obtain ⟨mapped, checked⟩ := (readable done (by omega)).mapped
  simp only [locateFromUser, copied.ramKept, checked, mapped, Bool.not_true,
    Bool.false_eq_true, if_false, Option.some.injEq, pageSize] at located
  rw [userView, ← Nat.add_assoc, vmmGetPhysical_offset (by omega) (by omega) mapped, located]

theorem readBytes_ram {tables : Mem} {dst addr done base chunk : Nat} {state : UserState} :
    ((List.range chunk).foldl (readByte tables dst addr done base) state).ram = state.ram :=
  @foldl_range_invariant _ _ (fun _ (after : UserState) => after.ram = state.ram) chunk state
    (fun _ _ _ same => same) rfl

theorem copyFromUser_readable (buffer : dst ≠ 0) (positive : 0 < size.toNat)
    (readable : ∀ index < size.toNat, Readable start.ram dir (src.toNat + index)) :
    (copyFromUser start dir dst src size).1 = 0 ∧ (copyFromUser start dir dst src size).2.ram =
      start.ram ∧ (copyFromUser start dir dst src size).2.kernel =
        start.kernel.store dst.toNat ((taskView start.ram dir).read src.toNat size.toNat) := by
  obtain ⟨root, rfl, lower, -⟩ := readable 0 positive
  have upper : src.toNat + size.toNat ≤ userSpaceEnd := by
    obtain ⟨-, -, -, upper, -⟩ := readable (size.toNat - 1) (by omega)
    omega
  have small : src.toNat + size.toNat < 2 ^ 64 := Nat.lt_of_le_of_lt upper (by decide)
  have valid : validateUserRange src.toNat size.toNat = 0 :=
    validateUserRange_inside lower (by omega) upper
  have given : ¬(dst = 0 ∨ src = 0 ∨ size = 0) := by
    rintro (null | rfl | rfl)
    · exact buffer null
    · simp [userSpaceStart] at lower
    · simp at positive
  rw [copyFromUser, if_neg given]
  simp only [valid, ne_eq, not_true_eq_false, if_false]
  have succeeds := (@userPages_allows src.toNat size.toNat (locateFromUser root)
    (fun base done chunk state => (List.range chunk).foldl (readByte state.ram dst.toNat src.toNat
    done base) state) (fun ram => ram = start.ram) (fun _ => True) (fun _ _ _ => Iff.rfl)
    (fun ram address kept first last => by
      obtain ⟨mapped, checked⟩ := (readable (address - src.toNat) (by omega)).mapped
      rw [Nat.add_sub_cancel' first] at mapped checked
      simp [locateFromUser, kept, mapped, checked])
    (fun done chunk base state _ _ kept _ => readBytes_ram.trans kept)
    size.toNat 0 start (Nat.le_refl _) rfl).mpr fun _ _ _ => trivial
  have nothing : BytesCopied start.ram start.kernel root src.toNat dst.toNat 0 start :=
    ⟨rfl, by rw [show (userView start.ram root).read src.toNat 0 = [] from rfl, Mem.store_nil]⟩
  obtain ⟨reached, -, copied, full⟩ := userPages_invariant (readPage_copied small readable)
    (Nat.le_refl size.toNat) (Nat.zero_le _) nothing
  rw [full succeeds] at copied
  exact ⟨succeeds, copied.ramKept, copied.copied⟩

/-- A string in user memory: bytes that user mode can read, the NUL included. -/
structure UserString (ram : Mem) (dir : Option Nat) (src : Nat) (bytes : List UInt8) : Prop where
  readable : ∀ index ≤ bytes.length, Readable ram dir (src + index)
  content : (taskView ram dir).read src bytes.length = bytes
  nonzero : ∀ byte ∈ bytes, byte ≠ 0
  ended : taskView ram dir (src + bytes.length) = 0

theorem UserString.byte {ram : Mem} {addr index : Nat} {bytes : List UInt8}
    (string : UserString ram dir addr bytes)
    (bound : index < bytes.length) : taskView ram dir (addr + index) ≠ 0 := by
  apply string.nonzero
  have member : taskView ram dir (addr + index) ∈ (taskView ram dir).read addr bytes.length :=
    List.mem_map.mpr ⟨index, List.mem_range.mpr bound, rfl⟩
  rwa [string.content] at member

theorem strnlenUser_string {ram : Mem} {bytes : List UInt8}
    (string : UserString ram dir src.toNat bytes) (positive : 0 < maxLen.toNat) :
    strnlenUser ram dir src maxLen = (min bytes.length (min maxLen.toNat maxUserString) : Nat) := by
  apply (strnlenUser_measured positive).stops (Nat.zero_le _) (Nat.min_le_right _ _)
  · intro index _ upper _
    exact string.readable index (by omega)
  · intro index _ upper
    exact string.byte (by omega)
  · intro short
    rw [show min bytes.length (min maxLen.toNat maxUserString) = bytes.length by omega]
    exact string.ended

theorem toNat_pred (positive : 0 < maxLen.toNat) : (maxLen - 1).toNat = maxLen.toNat - 1 := by
  rw [UInt64.toNat_sub_of_le]
  · rfl
  · exact UInt64.le_iff_toNat_le.mpr positive

theorem strncpyFromUser_copies {count : Nat} (buffer : dst ≠ 0) (room : 2 ≤ maxLen.toNat)
    (positive : 0 < count) (measured : strnlenUser start.ram dir src (maxLen - 1) = count) :
    (strncpyFromUser start dir dst src maxLen).1 = count ∧
      (strncpyFromUser start dir dst src maxLen).2.ram = start.ram ∧
      (strncpyFromUser start dir dst src maxLen).2.kernel =
        start.kernel.store dst.toNat ((taskView start.ram dir).read src.toNat count ++ [0]) := by
  have limit : 0 < (maxLen - 1).toNat := by
    rw [toNat_pred (by omega)]
    omega
  have walk := @strnlenUser_measured dir src (maxLen - 1) start.ram limit
  rw [measured] at walk
  obtain ⟨-, upper, readable⟩ := walk.length (by omega)
  have small : count < 2 ^ 64 := by
    simp only [maxUserString] at upper
    omega
  have whole : (UInt64.ofNat count).toNat = count := UInt64.toNat_ofNat_of_lt' small
  have bytes : ∀ index < (UInt64.ofNat count).toNat, Readable start.ram dir (src.toNat + index) := by
    intro index bound
    rw [whole] at bound
    exact readable index (Nat.zero_le _) (by omega)
  obtain ⟨copied, ramKept, kernel⟩ := copyFromUser_readable buffer (by omega) bytes
  have given : ¬(dst = 0 ∨ src = 0 ∨ maxLen = 0) := by
    rintro (null | rfl | rfl)
    · exact buffer null
    · obtain ⟨root, -, lower, -⟩ := readable 0 (Nat.le_refl _) (by omega)
      simp [userSpaceStart] at lower
    · simp at room
  rw [whole] at kernel
  rw [strncpyFromUser, if_neg given]
  simp only [measured, Int.toNat_natCast, copied, ne_eq, not_true_eq_false, if_false]
  rw [if_neg (by omega)]
  refine ⟨rfl, ramKept, ?_⟩
  rw [← Mem.store_concat, Mem.read_length]
  simp only [kernel]

theorem strncpyFromUser_faults {needed : Nat} (positive : 0 < maxLen.toNat)
    (bound : needed < min (maxLen.toNat - 1) maxUserString)
    (unreadable : ¬Readable start.ram dir (src.toNat + needed))
    (more : ∀ index < needed, Readable start.ram dir (src.toNat + index) →
      taskView start.ram dir (src.toNat + index) ≠ 0) :
    (strncpyFromUser start dir dst src maxLen).1 < 0 ∧
    (strncpyFromUser start dir dst src maxLen).2 = start := by
  rw [← toNat_pred positive] at bound
  have walk := @strnlenUser_measured dir src (maxLen - 1) start.ram (by omega)
  have fails := walk.faults (Nat.zero_le _) bound unreadable fun index _ upper => more index upper
  rw [strncpyFromUser]
  split
  · exact ⟨by simp [einval], rfl⟩
  · simp only [fails, if_true, and_self]

theorem strncpyFromUser_empty (room : 2 ≤ maxLen.toNat)
    (string : UserString start.ram dir src.toNat []) :
    strncpyFromUser start dir dst src maxLen = (-einval, start) := by
  have measured := @strnlenUser_string dir src (maxLen - 1) start.ram [] string
    (by rw [toNat_pred (by omega)]; omega)
  simp only [List.length_nil, Nat.zero_min, Nat.cast_zero] at measured
  rw [strncpyFromUser]
  split
  · rfl
  · simp only [measured, Int.lt_irrefl, if_false]
    simp [copyFromUser, einval]

end Calls

/-- A copied string keeps as many bytes as the buffer and the limit on user strings allow, and NUL
follows them. -/
theorem strncpy_from_user_strings (start : UserState) (dir : Option Nat)
    (kernelDst userSrc maxLen : UInt64) (buffer : kernelDst ≠ 0) (room : 2 ≤ maxLen.toNat) :
    (∀ bytes, bytes ≠ [] → UserString start.ram dir userSrc.toNat bytes →
      (strncpyFromUser start dir kernelDst userSrc maxLen).1 =
          (min bytes.length (min (maxLen.toNat - 1) maxUserString) : Nat) ∧
        (strncpyFromUser start dir kernelDst userSrc maxLen).2.ram = start.ram ∧
        (strncpyFromUser start dir kernelDst userSrc maxLen).2.kernel =
          start.kernel.store kernelDst.toNat (bytes.take (min (maxLen.toNat - 1) maxUserString) ++ [0])) ∧
      ∀ needed < min (maxLen.toNat - 1) maxUserString, ¬Readable start.ram dir (userSrc.toNat + needed) →
        (∀ index < needed, Readable start.ram dir (userSrc.toNat + index) →
          taskView start.ram dir (userSrc.toNat + index) ≠ 0) →
        (strncpyFromUser start dir kernelDst userSrc maxLen).1 < 0 ∧
          (strncpyFromUser start dir kernelDst userSrc maxLen).2 = start := by
  constructor
  · intro bytes given string
    have positive : 0 < bytes.length := List.length_pos_iff.mpr given
    have measured := @strnlenUser_string dir userSrc (maxLen - 1) start.ram bytes string
      (by rw [toNat_pred (by omega)]; omega)
    rw [toNat_pred (by omega)] at measured
    have taken : (taskView start.ram dir).read userSrc.toNat
        (min bytes.length (min (maxLen.toNat - 1) maxUserString)) =
        bytes.take (min (maxLen.toNat - 1) maxUserString) := by
      have slice := @Mem.read_slice (taskView start.ram dir) userSrc.toNat bytes.length 0
        (Nat.zero_le _) (min (maxLen.toNat - 1) maxUserString)
      rw [string.content, List.drop_zero, Nat.add_zero, Nat.sub_zero] at slice
      rw [slice, Nat.min_comm]
    rw [← taken]
    apply strncpyFromUser_copies buffer room
    · simp only [maxUserString]
      omega
    · exact measured
  · intro needed bound unreadable more
    exact strncpyFromUser_faults (by omega) bound unreadable more

def giantMapped : Mem :=
  let ones := fun address => if 0x40000000 ≤ address ∧
    address ≤ 0x40000000 + maxUserString then 1 else 0
  setEntry (setEntry ones 0x1000 1 0x2007) 0x2000 0 0x40000087

section GiantPage

variable {offset : Nat}

theorem giantMapped_page (inside : offset < 2 ^ 30) :
    checkPagePermissions giantMapped 0x1000 (0x8000000000 + offset) false = true ∧
      vmmGetPhysical giantMapped 0x1000 (UInt64.ofNat (0x8000000000 + offset)) = 0x40000000 + offset := by
  have first : entryAt giantMapped 0x1000 1 = 0x2007 := by decide +kernel
  have second : entryAt giantMapped 0x2000 0 = 0x40000087 := by decide +kernel
  have pml4 : pml4Index (0x8000000000 + offset) = 1 := by
    simp only [pml4Index]
    omega
  have pdp : pdpIndex (0x8000000000 + offset) = 0 := by
    simp only [pdpIndex]
    omega
  have indices := @same_indices (0x8000000000 + offset) 0 (by omega)
  simp only [Nat.add_zero, pml4, pdp] at indices
  have whole : (UInt64.ofNat (0x8000000000 + offset)).toNat = 0x8000000000 + offset :=
    UInt64.toNat_ofNat_of_lt' (show _ < 2 ^ 64 by omega)
  have frame : alignDown 0x2007 = 0x2000 := by decide
  have bits : Nat.testBit 0x2007 presentBit = true ∧ Nat.testBit 0x40000087 presentBit = true ∧
      Nat.testBit 0x40000087 hugeBit = true := by decide
  constructor
  · have allows : entryAllows 0x2007 false = true ∧ entryAllows 0x40000087 false = true := by decide
    simp [checkPagePermissions, pml4, pdp, first, frame, second, allows, bits, pml4Mapped]
  · simp only [vmmGetPhysical, whole, ← indices.1, ← indices.2.1, first, frame, second, bits]
    simp only [Bool.not_true, Bool.false_eq_true, if_false, if_true]
    omega

theorem giantMapped_byte (inside : offset < 2 ^ 30) :
    taskView giantMapped (some 0x1000) (0x8000000000 + offset) = if offset ≤ maxUserString then 1
    else 0 := by
  rw [taskView, userView, (giantMapped_page inside).2, giantMapped, setEntry, setEntry,
    Mem.writeU64_outside _ (by omega), Mem.writeU64_outside _ (by omega)]
  simp

theorem giantMapped_readable (inside : offset < 2 ^ 30) :
    Readable giantMapped (some 0x1000) (0x8000000000 + offset) := by
  have page : alignDown (0x8000000000 + offset) = 0x8000000000 + alignDown offset := by
    simp only [alignDown, pageSize]
    omega
  have lower := alignDown_le offset
  refine ⟨0x1000, rfl, by simp [userSpaceStart], by simp only [userSpaceEnd]; omega,
    (giantMapped_page inside).1, ?_⟩
  rw [page, (giantMapped_page (by omega)).2]
  omega

theorem giantMapped_string {count : Nat} (tail : offset + count = maxUserString + 1) :
    UserString giantMapped (some 0x1000) (0x8000000000 + offset) (List.replicate count 1) := by
  have small : maxUserString + 1 < 2 ^ 30 := by decide
  constructor
  · intro index bound
    rw [List.length_replicate] at bound
    rw [Nat.add_assoc]
    exact giantMapped_readable (by omega)
  · rw [List.length_replicate]
    apply List.eq_replicate_iff.mpr
    refine ⟨Mem.read_length _ _ _, fun byte member => ?_⟩
    obtain ⟨index, bound, rfl⟩ := List.mem_map.mp member
    rw [List.mem_range] at bound
    rw [Nat.add_assoc, giantMapped_byte (by omega), if_pos (by omega)]
  · simp
  · rw [List.length_replicate, Nat.add_assoc, giantMapped_byte (by omega), if_neg (by omega)]

end GiantPage

theorem strncpy_from_user_strings_tail :
    (strncpyFromUser ⟨giantMapped, fun _ => 0, []⟩ (some 0x1000) 0x9000 0x8000FFFFFF 16).1 = 2 ∧
      (strncpyFromUser ⟨giantMapped, fun _ => 0, []⟩ (some 0x1000) 0x9000 0x8000FFFFFF
        16).2.kernel = Mem.store (fun _ => 0) 0x9000 [1, 1, 0] := by
  have copies :=
    (strncpy_from_user_strings ⟨giantMapped, fun _ => 0, []⟩ (some 0x1000) 0x9000 0x8000FFFFFF 16
    (by decide) (by decide)).1 (List.replicate 2 1) (by simp) (@giantMapped_string 0xFFFFFF 2 rfl)
  exact ⟨copies.1, copies.2.2⟩

/-- A string of one byte too many is cut short of its buffer, and an empty string is refused. -/
theorem longString_cut :
    (UserString giantMapped (some 0x1000) 0x8000000000 (List.replicate (maxUserString + 1) 1) ∧
      (strncpyFromUser ⟨giantMapped, fun _ => 0, []⟩ (some 0x1000) 0x9000 0x8000000000
        0x2000000).1 ≠ (min (maxUserString + 1) (0x2000000 - 1) : Nat)) ∧
      UserString giantMapped (some 0x1000) 0x8001000001 [] ∧
      (strncpyFromUser ⟨giantMapped, fun _ => 0, []⟩ (some 0x1000) 0x9000 0x8001000001 16).1 = -einval := by
  have long : UserString giantMapped (some 0x1000) 0x8000000000
    (List.replicate (maxUserString + 1) 1) :=
    @giantMapped_string 0 _ (Nat.zero_add _)
  have empty : UserString giantMapped (some 0x1000) 0x8001000001 (List.replicate 0 1) :=
    @giantMapped_string (maxUserString + 1) 0 rfl
  refine ⟨⟨long, ?_⟩, empty, ?_⟩
  · have measured := @strnlenUser_string (some 0x1000) 0x8000000000 (0x2000000 - 1) giantMapped _
      long (by decide)
    rw [List.length_replicate] at measured
    have copies := @strncpyFromUser_copies ⟨giantMapped, fun _ => 0, []⟩
      (some 0x1000) 0x9000 0x8000000000 0x2000000 _ (by decide) (by decide) (by decide) measured
    rw [copies.1]
    decide
  · rw [strncpyFromUser_empty (by decide) empty]

end Szczupak
