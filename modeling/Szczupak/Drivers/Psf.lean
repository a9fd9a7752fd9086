import Szczupak.Drivers.PsfCore
import Szczupak.Mm.HeapSizes

/-!
When the two font loaders agree, and when the font has all the glyphs that are drawn.  The loader
of files takes the header's numbers over before it has the glyphs, and takes a file that is cut
off for a whole one.
-/

namespace Szczupak

section Headers

variable {header stack : Psf1Header}

theorem metrics_bytes_le : header.metrics.bytes ≤ 512 * 255 := by
  have height : header.charsize.toUInt32.toNat ≤ 255 := by
    have small := header.charsize.toNat_lt
    rw [UInt8.toNat_toUInt32]
    omega
  have count : (if header.mode &&& 1 ≠ 0 then (512 : UInt32) else 256).toNat ≤ 512 := by
    split
    · decide
    · decide
  exact Nat.mul_le_mul count height

theorem metrics_counted : 0 < header.metrics.charsCount.toNat := by
  rw [Psf1Header.metrics]
  dsimp only
  split
  · decide
  · decide

theorem metrics_bytes_pos (valid : psfValidateHeader header = true) : 0 < header.metrics.bytes := by
  refine Nat.mul_pos metrics_counted (Nat.pos_of_ne_zero fun zero => ?_)
  rw [psfValidateHeader] at valid
  split at valid
  next => cases valid
  next =>
    split at valid
    next => cases valid
    next some =>
      rw [Psf1Header.metrics, UInt8.toNat_toUInt32] at zero
      exact some (UInt8.toNat_inj.mp zero)

theorem metrics_request : (header.metrics.charsCount * header.metrics.charHeight).toUInt64 =
    UInt64.ofNat header.metrics.bytes ∧
    header.metrics.charsCount.toUInt64 * header.metrics.charHeight.toUInt64 = UInt64.ofNat
    header.metrics.bytes ∧ (UInt64.ofNat header.metrics.bytes).toNat = header.metrics.bytes := by
  have small := @metrics_bytes_le header
  have request : (UInt64.ofNat header.metrics.bytes).toNat = header.metrics.bytes := by
    rw [UInt64.toNat_ofNat']
    exact Nat.mod_eq_of_lt (by omega)
  rw [PsfMetrics.bytes] at small
  refine ⟨?_, ?_, request⟩
  · rw [← UInt64.toNat_inj, request, UInt32.toNat_toUInt64, UInt32.toNat_mul]
    exact Nat.mod_eq_of_lt (by omega)
  · rw [← UInt64.toNat_inj, request, UInt64.toNat_mul, UInt32.toNat_toUInt64, UInt32.toNat_toUInt64]
    exact Nat.mod_eq_of_lt (by omega)

variable {content : List UInt8}

theorem over_whole (whole : psf1HeaderSize ≤ content.length) :
    stack.over (content.take psf1HeaderSize) = Psf1Header.over ⟨0, 0, 0, 0⟩ content := by
  rw [psf1HeaderSize] at *
  obtain ⟨first, second, third, fourth, rest, rfl⟩ : ∃ first second third fourth rest,
      content = first :: second :: third :: fourth :: rest := by
    match content, whole with
    | first :: second :: third :: fourth :: rest, _ => exact ⟨first, second, third, fourth, rest, rfl⟩
  rfl

end Headers

def answered : Option (List UInt8) → Bool × List UInt8
  | none => (false, [])
  | some bytes => (true, bytes)

theorem fileRead_tmpfs {mem : Mem} {file : TmpfsFile} (empty : file.data = 0 → file.size = 0)
    {offset count : Nat} (noWrap : offset + count < 2 ^ 64) :
    fileRead (mem.read file.data file.size) offset count =
    answered (tmpfsRead mem file offset count) := by
  rw [fileRead, tmpfsRead, Mem.read_length]
  split
  next beyond => rw [if_pos (Or.inr beyond)]; rfl
  next inside =>
    have held : ¬(file.data = 0 ∨ offset ≥ file.size) := by
      rintro (null | beyond)
      · have noSize := empty null
        omega
      · exact inside beyond
    rw [if_neg held, Nat.mod_eq_of_lt noWrap, Mem.read_slice mem (Nat.le_of_not_le inside), answered]
    congr 2
    split
    · omega
    · omega

theorem fileRead_fat16 {v : Volume} {d : Disk} {chain : List Nat} {node : Fat16Node}
    (reliable : Reliable d)
    (file : FileOn v d.bytes node chain) {offset count : Nat} (some : 0 < count) :
    fileRead ((chainBytes v d.bytes chain).read 0 node.size) offset count =
      answered (fat16Read v d node offset count).1 := by
  obtain ⟨after, read, _⟩ := fat16Read_file reliable file offset count
  rw [read, fileRead, readView, if_neg (Nat.ne_of_gt some), Mem.read_length]
  split
  next => rfl
  next inside =>
    rw [Mem.read_slice _ (Nat.le_of_not_le inside), Nat.zero_add]
    rfl

section Font

variable {storage : HeapStorage} {s next : PsfState} {blocks : List HeapBlock}

structure PsfIntact (storage : HeapStorage) (s : PsfState) (blocks : List HeapBlock) : Prop where
  intact : HeapIntact storage s.heap blocks
  held : s.fontData ≠ 0 → ∃ granted, (s.fontData, granted) ∈ livePayloads storage.address blocks

theorem HeapInvariant.payload {mem : Mem} {ptr granted : Nat} (heap : HeapInvariant storage mem blocks)
    (live : (ptr, granted) ∈ livePayloads storage.address blocks) : payloadSize mem ptr = granted := by
  obtain ⟨_, _, header⟩ := heap.tiled.live_header live
  exact header.size

structure FontKept (s next : PsfState) : Prop where
  fontData : next.fontData = s.fontData
  font : next.font = s.font
  payload : s.fontData ≠ 0 → payloadSize next.heap.mem s.fontData = payloadSize s.heap.mem s.fontData

theorem PsfIntact.keeps {target : Nat} (font : PsfIntact storage s blocks)
    (same : next.fontData = s.fontData)
    (apart : target = 0 ∨ target ≠ s.fontData)
    (effect : StepEffect storage s.heap next.heap blocks target) :
    (∃ after, PsfIntact storage next after) ∧ FontKept s next := by
  obtain ⟨after, intact, kept⟩ := effect
  by_cases null : s.fontData = 0
  · refine ⟨⟨after, intact, fun held => absurd (same.trans null) held⟩,
      same, ?_, fun held => absurd null held⟩
    rw [PsfState.font, PsfState.font, if_pos (same.trans null), if_pos null]
  · obtain ⟨granted, live⟩ := font.held null
    have different : s.fontData ≠ target := by
      rcases apart with zero | different
      · rwa [zero]
      · exact different.symm
    obtain ⟨stays, sameBytes⟩ := kept s.fontData granted live different
    have before := font.intact.heap.payload live
    have now := intact.heap.payload stays
    refine ⟨⟨after, intact, fun _ => ⟨granted, same ▸ stays⟩⟩, same, ?_, fun _ => now.trans before.symm⟩
    rw [PsfState.font, PsfState.font, if_neg (same ▸ null), if_neg null, same, now, before]
    exact Mem.read_congr fun index bound => sameBytes _ (by omega) (by omega)

theorem Allocates.abandon {mem changed : Mem} {after : List HeapBlock} {ptr granted : Nat}
    {state : HeapState} (intact : HeapIntact storage state blocks)
    (grants : Allocates storage state.mem mem blocks after ptr granted)
    (outside : ∀ byte, byte < ptr ∨ ptr + granted ≤ byte → changed byte = mem byte) :
    StepEffect storage state ⟨kfree storage.address changed ptr, state.live⟩ blocks 0 := by
  have filled := grants.write outside
  obtain ⟨final, releases⟩ := kfree_releases filled.heap filled.member
  have payloads : (livePayloads storage.address blocks).Perm (livePayloads storage.address final) :=
    (filled.live.symm.trans releases.live).cons_inv
  refine ⟨final, ⟨releases.heap, intact.live.trans (payloads.map Prod.fst)⟩, ?_⟩
  intro other amount live _
  have nonNull : other ≠ 0 := by
    have lower := livePayloads_lower live
    rw [headerSize] at lower
    omega
  obtain ⟨stays, same⟩ := filled.kept 0 other amount live nonNull
  obtain ⟨still, sameAgain⟩ := releases.kept other amount stays (filled.fresh live)
  exact ⟨still, fun byte lower upper => (sameAgain byte lower upper).trans (same byte lower upper)⟩

def filledFont (storage : Nat) (s : PsfState) (header : Psf1Header) (bytes : List UInt8) : Mem :=
  (kmalloc storage s.heap.mem (UInt64.ofNat header.metrics.bytes)).2.store
    (kmalloc storage s.heap.mem (UInt64.ofNat header.metrics.bytes)).1 bytes

def fontBlock (storage : Nat) (s : PsfState) (header : Psf1Header) : Nat :=
  (kmalloc storage s.heap.mem (UInt64.ofNat header.metrics.bytes)).1

section Load

variable {header : Psf1Header} {bytes : List UInt8} {stack : Psf1Header}

theorem noRoom_refused (font : PsfIntact storage s blocks)
    (noRoom : ¬FontRoom storage.address s header) :
    kmalloc storage.address s.heap.mem (UInt64.ofNat header.metrics.bytes) = (0, s.heap.mem) :=
  kmalloc_refused font.intact.heap (not_not.mp noRoom)

theorem room_allocates (font : PsfIntact storage s blocks) (room : FontRoom storage.address s header) :
    0 < fontBlock storage.address s header ∧ ∃ after granted, header.metrics.bytes ≤ granted ∧
      Allocates storage s.heap.mem (kmalloc storage.address s.heap.mem
        (UInt64.ofNat header.metrics.bytes)).2 blocks
        after (fontBlock storage.address s header) granted := by
  have request := (@metrics_request header).2.2
  have small := @metrics_bytes_le header
  rcases kmalloc_allocates font.intact.heap
    (by omega : (UInt64.ofNat header.metrics.bytes).toNat ≤ 2 ^ 64 - 8)
    with failed | ⟨nonNull, after, granted, large, grants⟩
  · rw [FontRoom, failed] at room
    exact absurd rfl room
  · rw [request] at large
    exact ⟨nonNull, after, granted, large, grants⟩

theorem installFont_spec (font : PsfIntact storage s blocks)
    (room : FontRoom storage.address s header) (fits : bytes.length ≤ header.metrics.bytes) :
    (∃ after, PsfIntact storage (installFont storage.address s (filledFont storage.address s header bytes)
      (fontBlock storage.address s header) header.metrics) after) ∧
    FontFits (installFont storage.address s (filledFont storage.address s header bytes)
      (fontBlock storage.address s header) header.metrics) := by
  obtain ⟨nonNull, after, granted, large, allocates⟩ := room_allocates font room
  have grants : Allocates storage s.heap.mem (filledFont storage.address s header bytes) blocks
      after (fontBlock storage.address s header) granted := by
    refine allocates.write fun byte outside => ?_
    exact Mem.store_outside _ (by rw [fontBlock] at outside; omega)
  generalize filledFont storage.address s header bytes = filled at *
  generalize fontBlock storage.address s header = block at *
  rw [installFont, FontFits]
  split
  next held =>
    obtain ⟨amount, live⟩ := font.held held
    obtain ⟨stays, _⟩ := grants.kept 0 s.fontData amount live held
    obtain ⟨final, releases⟩ := kfree_releases grants.heap stays
    obtain ⟨newStays, _⟩ := releases.kept block granted grants.member (grants.fresh live).symm
    have intact := grants.moved_intact font.intact live releases
    exact ⟨⟨final, intact, fun _ => ⟨granted, newStays⟩⟩, Or.inr (intact.heap.payload newStays ▸ large)⟩
  next =>
    have live : (block :: s.heap.live).Perm (livePointers storage after) :=
      (font.intact.live.cons block).trans (grants.live.map Prod.fst).symm
    exact ⟨⟨after, ⟨grants.heap, live⟩, fun _ => ⟨granted, grants.member⟩⟩,
      Or.inr (grants.heap.payload grants.member ▸ large)⟩

def HeaderRead (stack : Psf1Header) (file : PsfFile) : Prop :=
  (file.read 0 psf1HeaderSize).1 = true ∧
    psfValidateHeader (stack.over (file.read 0 psf1HeaderSize).2) = true

def GlyphsRead (storage : Nat) (s : PsfState) (header : Psf1Header) (file : PsfFile) : Prop :=
  FontRoom storage s header ∧ (file.read psf1HeaderSize header.metrics.bytes).1 = true

theorem psfLoad_early {file : PsfFile} (early : ¬HeaderRead stack file) :
    psfLoad storage.address s stack (some file) = (false, s) := by
  rw [HeaderRead, not_and_or, Bool.not_eq_true, Bool.not_eq_true] at early
  rw [psfLoad]
  dsimp only
  rcases early with unread | invalid
  · rw [unread]
    rfl
  · rw [invalid]
    split
    next => rfl
    next => rfl

theorem psfLoad_late (font : PsfIntact storage s blocks) {file : PsfFile}
    (reads : HeaderRead stack file)
    (fails : ¬GlyphsRead storage.address s (stack.over (file.read 0 psf1HeaderSize).2) file) :
    ∃ after, psfLoad storage.address s stack (some file) = (false, after) ∧
      after.metrics = (stack.over (file.read 0 psf1HeaderSize).2).metrics ∧
      (∃ left, PsfIntact storage after left) ∧ FontKept s after := by
  obtain ⟨isRead, valid⟩ := reads
  rw [psfLoad]
  dsimp only
  rw [isRead, valid, metrics_request.1, metrics_request.2.2]
  generalize stack.over (file.read 0 psf1HeaderSize).2 = header at *
  simp only [Bool.not_true, Bool.false_eq_true, if_false]
  by_cases room : FontRoom storage.address s header
  · obtain ⟨_, after, granted, large, allocates⟩ := room_allocates font room
    have unread : (file.read psf1HeaderSize header.metrics.bytes).1 = false := by
      rw [← Bool.not_eq_true]
      exact fun isRead => fails ⟨room, isRead⟩
    have short := file.short psf1HeaderSize header.metrics.bytes
    rw [if_neg room, unread]
    refine ⟨_, rfl, rfl, ?_⟩
    refine font.keeps rfl (Or.inl rfl) (allocates.abandon font.intact fun byte outside => ?_)
    have apart : byte < fontBlock storage.address s header ∨ fontBlock storage.address s header +
        (file.read psf1HeaderSize header.metrics.bytes).2.length ≤ byte := by
      rcases outside with before | behind
      · exact Or.inl before
      · exact Or.inr (Nat.le_trans (Nat.add_le_add_left (by omega) _) behind)
    exact Mem.store_outside _ apart
  · rw [noRoom_refused font room]
    refine ⟨_, rfl, rfl, ?_⟩
    exact font.keeps rfl (Or.inl rfl) (font.intact.unchanged 0)

theorem psfLoad_done {file : PsfFile} (reads : HeaderRead stack file)
    (glyphs : GlyphsRead storage.address s (stack.over (file.read 0 psf1HeaderSize).2) file) :
    psfLoad storage.address s stack (some file) =
      (true, installFont storage.address s
        (filledFont storage.address s (stack.over (file.read 0 psf1HeaderSize).2)
          (file.read psf1HeaderSize (stack.over (file.read 0 psf1HeaderSize).2).metrics.bytes).2)
        (fontBlock storage.address s (stack.over (file.read 0 psf1HeaderSize).2))
        (stack.over (file.read 0 psf1HeaderSize).2).metrics) := by
  obtain ⟨isRead, valid⟩ := reads
  rw [psfLoad]
  dsimp only
  rw [isRead, valid, metrics_request.1, metrics_request.2.2]
  generalize stack.over (file.read 0 psf1HeaderSize).2 = header at *
  simp only [Bool.not_true, Bool.false_eq_true, if_false]
  rw [if_neg glyphs.1, glyphs.2]
  rfl

structure BlobWhole (storage : Nat) (s : PsfState) (blob : List UInt8) : Prop where
  header : psf1HeaderSize ≤ blob.length
  valid : psfValidateHeader (Psf1Header.over ⟨0, 0, 0, 0⟩ blob) = true
  glyphs : psf1HeaderSize + (Psf1Header.over ⟨0, 0, 0, 0⟩ blob).metrics.bytes ≤ blob.length
  room : FontRoom storage s (Psf1Header.over ⟨0, 0, 0, 0⟩ blob)

theorem psfLoadFromMemory_fails (font : PsfIntact storage s blocks) {blob : List UInt8}
    (fails : ¬BlobWhole storage.address s blob) : psfLoadFromMemory storage.address s blob =
    (false, s) := by
  rw [psfLoadFromMemory]
  split
  next => rfl
  next long =>
    dsimp only
    split
    next => rfl
    next valid =>
      rw [metrics_request.2.1, metrics_request.2.2]
      split
      next => rfl
      next glyphs =>
        have noRoom : ¬FontRoom storage.address s (Psf1Header.over ⟨0, 0, 0, 0⟩ blob) := by
          refine fun room => fails ⟨Nat.le_of_not_lt long, by simpa using valid, Nat.le_of_not_lt glyphs, room⟩
        rw [noRoom_refused font noRoom]
        rfl

theorem psfLoadFromMemory_done {blob : List UInt8} (whole : BlobWhole storage.address s blob) :
    psfLoadFromMemory storage.address s blob =
      (true, installFont storage.address s
        (filledFont storage.address s (Psf1Header.over ⟨0, 0, 0, 0⟩ blob)
          ((blob.drop psf1HeaderSize).take (Psf1Header.over ⟨0, 0, 0, 0⟩ blob).metrics.bytes))
        (fontBlock storage.address s (Psf1Header.over ⟨0, 0, 0, 0⟩ blob))
        (Psf1Header.over ⟨0, 0, 0, 0⟩ blob).metrics) := by
  obtain ⟨long, valid, glyphs, room⟩ := whole
  rw [psfLoadFromMemory, if_neg (Nat.not_lt.mpr long)]
  dsimp only
  rw [valid, metrics_request.2.1, metrics_request.2.2, if_neg (by decide),
    if_neg (Nat.not_lt.mpr glyphs)]
  generalize Psf1Header.over ⟨0, 0, 0, 0⟩ blob = header at *
  rw [if_neg room]
  rfl

theorem headerRead_content :
    HeaderRead stack (.ofContent content) ↔
      content ≠ [] ∧ psfValidateHeader (stack.over (content.take psf1HeaderSize)) = true := by
  rw [HeaderRead, PsfFile.ofContent]
  dsimp only
  rw [fileRead]
  split
  next empty =>
    have isEmpty := List.length_eq_zero_iff.mp (Nat.le_zero.mp empty)
    exact iff_of_false (fun reads => by cases reads.1) fun reads => reads.1 isEmpty
  next some =>
    have notEmpty : content ≠ [] := fun empty => some (by rw [empty]; exact Nat.le_refl 0)
    simp [notEmpty]

theorem glyphsRead_content : GlyphsRead storage.address s header (.ofContent content) ↔
    FontRoom storage.address s header ∧ psf1HeaderSize < content.length := by
  rw [GlyphsRead, PsfFile.ofContent]
  dsimp only
  rw [fileRead]
  split
  next short => exact and_congr_right fun _ => iff_of_false Bool.false_ne_true (Nat.not_lt.mpr short)
  next long => exact and_congr_right fun _ => iff_of_true rfl (Nat.lt_of_not_le long)

theorem loadAlike_iff (font : PsfIntact storage s blocks) (stack : Psf1Header) (content : List UInt8) :
    LoadAlike storage.address s stack content ↔ ContentWhole storage.address s stack content := by
  rw [ContentWhole]
  by_cases reads : HeaderRead stack (.ofContent content)
  · obtain ⟨some, valid⟩ := headerRead_content.mp reads
    have firstPart : ((PsfFile.ofContent content).read 0 psf1HeaderSize).2 =
      content.take psf1HeaderSize := by
      change (fileRead content 0 psf1HeaderSize).2 = _
      rw [fileRead, if_neg (by simpa using some)]
      rfl
    have invalid : ¬psfValidateHeader (stack.over (content.take psf1HeaderSize)) = false := by
      rw [valid]; decide
    rw [or_iff_right some, or_iff_right invalid]
    have positive := metrics_bytes_pos valid
    by_cases whole : psf1HeaderSize + (stack.over (content.take psf1HeaderSize)).metrics.bytes ≤
        content.length ∧ FontRoom storage.address s (stack.over (content.take psf1HeaderSize))
    · have same := @over_whole stack content (by omega)
      have glyphs : GlyphsRead storage.address s (stack.over
          ((PsfFile.ofContent content).read 0 psf1HeaderSize).2) (.ofContent content) := by
        rw [firstPart]
        exact glyphsRead_content.mpr ⟨whole.2, by omega⟩
      have fromFile := psfLoad_done reads glyphs
      have fromBlob := @psfLoadFromMemory_done storage s content
        (by rw [same] at whole valid; exact ⟨by omega, valid, whole.1, whole.2⟩)
      have glyphBytes : ∀ count, ((PsfFile.ofContent content).read psf1HeaderSize count).2 =
          (content.drop psf1HeaderSize).take count := by
        intro count
        change (fileRead content psf1HeaderSize count).2 = _
        rw [fileRead, if_neg (by omega)]
      rw [firstPart, same, glyphBytes] at fromFile
      have both := fromFile.trans fromBlob.symm
      exact iff_of_true ⟨by rw [both], by rw [both], by rw [both]⟩ (Or.inl whole)
    · have fromBlob : psfLoadFromMemory storage.address s content = (false, s) := by
        refine psfLoadFromMemory_fails font fun blob => whole ?_
        rw [over_whole blob.header]
        exact ⟨blob.glyphs, blob.room⟩
      rw [or_iff_right whole]
      by_cases glyphs : GlyphsRead storage.address s
          (stack.over ((PsfFile.ofContent content).read 0 psf1HeaderSize).2) (.ofContent content)
      · refine iff_of_false (fun alike => ?_) fun fails => ?_
        · have result := alike.result
          rw [psfLoad_done reads glyphs, fromBlob] at result
          cases result
        · rw [firstPart] at glyphs
          obtain ⟨room, long⟩ := glyphsRead_content.mp glyphs
          rcases fails.1 with noRoom | short
          · exact noRoom room
          · omega
      · obtain ⟨after, loaded, metrics, _, kept⟩ := psfLoad_late font reads glyphs
        rw [firstPart] at metrics glyphs
        have fails : ¬FontRoom storage.address s (stack.over (content.take psf1HeaderSize)) ∨
            content.length ≤ psf1HeaderSize := by
          rw [glyphsRead_content, not_and_or, Nat.not_lt] at glyphs
          exact glyphs
        rw [and_iff_right fails]
        constructor
        · intro alike
          have same := alike.metrics
          rwa [loaded, fromBlob, metrics] at same
        · intro same
          refine ⟨?_, ?_, ?_⟩
          · rw [loaded, fromBlob]
          · rw [loaded, fromBlob]
            exact kept.font
          · rw [loaded, fromBlob]
            exact metrics.trans same
  · have fromFile := @psfLoad_early storage s stack _ reads
    rw [headerRead_content, not_and_or, not_not, Bool.not_eq_true] at reads
    have fromBlob : psfLoadFromMemory storage.address s content = (false, s) := by
      refine psfLoadFromMemory_fails font fun blob => ?_
      rcases reads with empty | invalid
      · have long := blob.header
        rw [empty] at long
        exact absurd long (by decide)
      · rw [over_whole blob.header, blob.valid] at invalid
        cases invalid
    have both := fromFile.trans fromBlob.symm
    refine iff_of_true ⟨by rw [both], by rw [both], by rw [both]⟩ ?_
    rcases reads with empty | invalid
    · exact Or.inl empty
    · exact Or.inr (Or.inl invalid)

/-- What a call leaves: a font in order, which has its glyphs exactly when the call keeps them. -/
structure PsfKept (storage : HeapStorage) (s next : PsfState) (keeps : Prop) : Prop where
  intact : ∃ after, PsfIntact storage next after
  counted : 0 < s.metrics.charsCount.toNat → 0 < next.metrics.charsCount.toNat
  fits : FontFits s → (FontFits next ↔ keeps)

section

variable (font : PsfIntact storage s blocks)
include font

theorem PsfKept.unchanged {keeps : Prop} (holds : keeps) :
    PsfKept storage s s keeps :=
  ⟨⟨blocks, font⟩, fun counted => counted, fun fits => iff_of_true fits holds⟩

theorem psfLoad_kept (stack : Psf1Header) (file : Option PsfFile) :
    PsfKept storage s (psfLoad storage.address s stack file).2
    (LoadKeeps storage.address s (.load stack file)) := by
  cases file with
  | none => exact PsfKept.unchanged font trivial
  | some file =>
      rw [LoadKeeps]
      by_cases reads : HeaderRead stack file
      · by_cases glyphs : GlyphsRead storage.address s (stack.over (file.read 0 psf1HeaderSize).2) file
        · rw [psfLoad_done reads glyphs]
          obtain ⟨intact, fits⟩ := @installFont_spec storage s blocks _ _ font glyphs.1 (file.short _ _)
          refine ⟨intact, fun _ => ?_, fun _ => iff_of_true fits fun _ _ => Or.inl glyphs⟩
          rw [installFont]
          split
          next => exact metrics_counted
          next => exact metrics_counted
        · obtain ⟨after, loaded, metrics, intact, kept⟩ := psfLoad_late font reads glyphs
          rw [loaded]
          refine ⟨intact, fun _ => metrics ▸ metrics_counted, fun _ => ?_⟩
          dsimp only
          rw [FontFits, kept.fontData, metrics]
          by_cases null : s.fontData = 0
          · exact iff_of_true (Or.inl null) fun _ _ => Or.inr (Or.inl null)
          · rw [kept.payload null, or_iff_right null]
            constructor
            · intro large _ _
              exact Or.inr large
            · intro keeps
              rcases keeps reads.1 reads.2 with done | large
              · exact absurd done glyphs
              · exact large
      · rw [psfLoad_early reads]
        exact PsfKept.unchanged font fun isRead valid => absurd ⟨isRead, valid⟩ reads

theorem psfLoadFromMemory_kept (blob : List UInt8) :
    PsfKept storage s (psfLoadFromMemory storage.address s blob).2 True := by
  by_cases whole : BlobWhole storage.address s blob
  · rw [psfLoadFromMemory_done whole]
    obtain ⟨intact, fits⟩ := @installFont_spec storage s blocks _
      ((blob.drop psf1HeaderSize).take (Psf1Header.over ⟨0, 0, 0, 0⟩ blob).metrics.bytes)
      font whole.room (List.length_take_le _ _)
    refine ⟨intact, fun _ => ?_, fun _ => iff_of_true fits trivial⟩
    rw [installFont]
    split
    next => exact metrics_counted
    next => exact metrics_counted
  · rw [psfLoadFromMemory_fails font whole]
    exact PsfKept.unchanged font trivial

theorem psfStep_kept {call : PsfCall} (stepped : psfStep storage.address s call = some next) :
    PsfKept storage s next (LoadKeeps storage.address s call) := by
  cases call with
  | load stack file =>
      cases stepped
      exact psfLoad_kept font stack file
  | loadFromMemory blob =>
      cases stepped
      exact psfLoadFromMemory_kept font blob
  | other call =>
      rw [psfStep] at stepped
      split at stepped
      next apart =>
        obtain ⟨heap, called, same⟩ := Option.map_eq_some_iff.mp stepped
        subst same
        obtain ⟨intact, kept⟩ := @PsfIntact.keeps storage s { s with heap } blocks call.target
          font rfl apart (heapStep_effect font.intact called)
        refine ⟨intact, fun counted => counted, fun fits => iff_of_true ?_ trivial⟩
        by_cases null : s.fontData = 0
        · exact Or.inl null
        · refine Or.inr ?_
          dsimp only
          rw [kept.payload null]
          exact fits.resolve_left null
      next => cases stepped

end

theorem psfDrawReads_inside (fits : FontFits s) (counted : 0 < s.metrics.charsCount.toNat)
    (c : UInt8) : ∀ index ∈ psfDrawReads s c, index < payloadSize s.heap.mem s.fontData := by
  intro index member
  rw [psfDrawReads] at member
  split at member
  next => cases member
  next held =>
    obtain ⟨row, inGlyph, same⟩ := List.mem_map.mp member
    have rowBound := List.mem_range.mp inGlyph
    have glyph : (if c.toUInt32 ≥ s.metrics.charsCount then 0 else c).toUInt32.toNat <
      s.metrics.charsCount.toNat := by
      split
      next => exact counted
      next less => exact UInt32.lt_iff_toNat_lt.mp (UInt32.not_le.mp less)
    generalize (if c.toUInt32 ≥ s.metrics.charsCount then 0 else c).toUInt32 = ch at *
    have bound := fits.resolve_left held
    have start : (ch * s.metrics.charHeight).toNat ≤ ch.toNat * s.metrics.charHeight.toNat := by
      rw [UInt32.toNat_mul]
      exact Nat.mod_le _ _
    have whole : (ch.toNat + 1) * s.metrics.charHeight.toNat ≤ s.metrics.bytes :=
      Nat.mul_le_mul_right _ glyph
    rw [Nat.succ_mul] at whole
    omega

end Load

end Font

/-- The loaders agree exactly on whole content, the font has its glyphs all through a run exactly
when every load keeps them, and then nothing outside is drawn. -/
theorem psf_loaders (storage : HeapStorage) (mem : Mem) (calls : List PsfCall) (s : PsfState)
    (reached : runActions (psfStep storage.address) (psfStart storage.address mem) calls = some s) :
    (∀ stack content, LoadAlike storage.address s stack content ↔
    ContentWhole storage.address s stack content) ∧ ((∀ begun rest middle, calls = begun ++ rest →
        runActions (psfStep storage.address) (psfStart storage.address mem) begun = some middle →
        FontFits middle) ↔
      RunMeets (psfStep storage.address) (LoadKeeps storage.address) (psfStart storage.address mem) calls) ∧
    (FontFits s → ∀ c, ∀ index ∈ psfDrawReads s c, index < payloadSize s.heap.mem s.fontData) := by
  have step : ∀ state call next, ((∃ blocks, PsfIntact storage state blocks) ∧
      0 < state.metrics.charsCount.toNat) → psfStep storage.address state call = some next →
      (∃ blocks, PsfIntact storage next blocks) ∧ 0 < next.metrics.charsCount.toNat := by
    rintro state call next ⟨⟨blocks, font⟩, counted⟩ stepped
    have kept := psfStep_kept font stepped
    exact ⟨kept.intact, kept.counted counted⟩
  have start : (∃ blocks, PsfIntact storage (psfStart storage.address mem) blocks) ∧
      0 < (psfStart storage.address mem).metrics.charsCount.toNat :=
    ⟨⟨_, heapStart_intact storage mem, fun held => absurd rfl held⟩, (by decide : 0 < (256 : UInt32).toNat)⟩
  obtain ⟨⟨blocks, font⟩, counted⟩ := runActions_invariant step start reached
  refine ⟨fun stack content => loadAlike_iff font stack content, ?_,
    fun fits c => psfDrawReads_inside fits counted c⟩
  refine runActions_exact_reached step ?_ start (Or.inl rfl) reached
  rintro state call next ⟨⟨blocks, font⟩, _⟩ fits stepped
  exact (psfStep_kept font stepped).fits fits

def shortFont : List UInt8 := [0x36, 0x04, 0, 8] ++ List.replicate 2048 0xAA
def cutFont : List UInt8 := [0x36, 0x04, 1, 16]

theorem psf_loaders_shortFont : ∃ s,
    runActions (psfStep lowStorage.address) (psfStart lowStorage.address fun _ => 0)
    [.loadFromMemory shortFont] = some s ∧ FontFits s := by
  have every := (psf_loaders lowStorage (fun _ => 0) [.loadFromMemory shortFont] _ rfl).2.1.mpr
    ⟨trivial, fun _ _ => trivial⟩
  exact ⟨_, rfl, every _ [] _ (List.append_nil _).symm rfl⟩

/-- A file that is cut off behind its header and one byte loads, as a blob it does not; and with
only its header it fails, but changes the numbers of the font before it. -/
theorem cutFont_taken :
    (¬ ∀ (storage : HeapStorage) (mem : Mem) (stack : Psf1Header) (content : List UInt8),
      LoadAlike storage.address (psfStart storage.address mem) stack content) ∧
    ¬ ∀ (storage : HeapStorage) (mem : Mem) (calls : List PsfCall) (s : PsfState),
      runActions (psfStep storage.address) (psfStart storage.address mem) calls = some s → FontFits s := by
  constructor
  · intro every
    have result := (every lowStorage (fun _ => 0) ⟨0, 0, 0, 0⟩ (cutFont ++ [0xAA])).result
    revert result
    decide +kernel
  · intro every
    have fits := every lowStorage (fun _ => 0)
      [.loadFromMemory shortFont, .load ⟨0, 0, 0, 0⟩ (some (.ofContent cutFont))] _ rfl
    revert fits
    decide +kernel

end Szczupak
