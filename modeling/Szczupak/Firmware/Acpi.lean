import Szczupak.Firmware.AcpiCore
import Szczupak.Lib.RecordChain

/-!
What the walks over the tables read and find.  A table that is listed may turn out to be
broken; then its header has been read, and all of it has been added up.
-/

namespace Szczupak

def Listed (mem : Mem) (root : AcpiRoot) (table : Nat) : Prop :=
  table = root.rootPhys.toNat ∨
    ∃ index < rootEntryCount root (tableLength mem root.rootPhys.toNat),
      rootEntry mem root index ≠ 0 ∧ table = (rootEntry mem root index).toNat

def Placed (mem : Mem) (table : Nat) : Prop :=
  sdtHeaderSize ≤ tableLength mem table ∧ table + tableLength mem table ≤ 2 ^ 32

structure Verified (mem : Mem) (table : Nat) : Prop where
  placed : Placed mem table
  sum : acpiChecksum mem table (tableLength mem table) = 0

def ReadAllowed (mem : Mem) (root : AcpiRoot) : AcpiRead → Prop
  | .header table => Listed mem root table ∧ table + sdtHeaderSize ≤ 2 ^ 32
  | .check table length => Listed mem root table ∧ Placed mem table ∧ length = tableLength mem table
  | .field place length => ∃ table, Listed mem root table ∧ Verified mem table ∧ table ≤ place ∧
      place + length ≤ table + tableLength mem table

section Headers

variable {mem : Mem} {root : AcpiRoot} {signature : List UInt8}

theorem acpiPhysRangeOk_below {phys : UInt64} {size : Nat} (ok : acpiPhysRangeOk phys size = true)
    (small : size < 2 ^ 64) : phys.toNat + size ≤ 2 ^ 32 := by
  unfold acpiPhysRangeOk at ok
  split at ok
  · cases ok
  · next some =>
    dsimp only at ok
    split at ok
    · cases ok
    · next ordered =>
      have below := UInt64.lt_iff_toNat_lt.mp (of_decide_eq_true ok)
      have order := UInt64.le_iff_toNat_le.mp (UInt64.not_lt.mp ordered)
      have limit : UInt64.toNat 0x100000000 = 2 ^ 32 := rfl
      have one : UInt64.toNat 1 = 1 := rfl
      have size64 : (UInt64.ofNat size).toNat = size := UInt64.toNat_ofNat_of_lt' small
      have bound := phys.toNat_lt
      rw [UInt64.toNat_sub, UInt64.toNat_add, size64, one] at below order
      omega

theorem tableLength_lt (mem : Mem) (table : Nat) : tableLength mem table < 2 ^ 32 :=
  Nat.lt_of_lt_of_le (mem.readLE_lt (table + 4) 4) (by norm_num)

theorem acpiReadTableHeader_cases (mem : Mem) (phys : UInt64) :
    ((acpiReadTableHeader mem phys).result = none ∨ Verified mem phys.toNat ∧
      (acpiReadTableHeader mem phys).result = some (mem.read phys.toNat 4, tableLength mem phys.toNat)) ∧
    ∀ event ∈ (acpiReadTableHeader mem phys).events, phys.toNat + sdtHeaderSize ≤ 2 ^ 32 ∧
      (event = .header phys.toNat ∨
        event = .check phys.toNat (tableLength mem phys.toNat) ∧ Placed mem phys.toNat) := by
  have short := tableLength_lt mem phys.toNat
  generalize header : acpiReadTableHeader mem phys = read
  unfold acpiReadTableHeader at header
  split at header
  · rw [← header]
    exact ⟨.inl rfl, fun _ impossible => by cases impossible⟩
  · next headerOk =>
    have headerBelow := @acpiPhysRangeOk_below phys sdtHeaderSize (by simpa using headerOk) (by decide)
    dsimp only at header
    split at header
    · rw [← header]
      refine ⟨.inl rfl, fun event member => ⟨headerBelow, .inl ?_⟩⟩
      simpa using member
    · next long =>
      split at header
      · rw [← header]
        refine ⟨.inl rfl, fun event member => ⟨headerBelow, .inl ?_⟩⟩
        simpa using member
      · next wholeOk =>
        have below := @acpiPhysRangeOk_below phys (tableLength mem phys.toNat)
          (by simpa using wholeOk) (by omega)
        have placed : Placed mem phys.toNat := ⟨by omega, below⟩
        split at header
        · rw [← header]
          refine ⟨.inl rfl, fun event member => ⟨headerBelow, ?_⟩⟩
          simpa [placed] using member
        · next sum =>
          rw [← header]
          refine ⟨.inr ⟨⟨placed, not_not.mp sum⟩, rfl⟩, fun event member => ⟨headerBelow, ?_⟩⟩
          simpa [placed] using member

theorem acpiReadTableHeader_found {phys : UInt64} {found : List UInt8} {length : Nat}
    (read : (acpiReadTableHeader mem phys).result = some (found, length)) :
    Verified mem phys.toNat ∧ found = mem.read phys.toNat 4 ∧ length = tableLength mem phys.toNat := by
  rcases (acpiReadTableHeader_cases mem phys).1 with none | ⟨verified, some⟩
  · rw [none] at read
    cases read
  · rw [some] at read
    cases read
    exact ⟨verified, rfl, rfl⟩

theorem acpiReadTableHeader_reads {phys : UInt64} (listed : Listed mem root phys.toNat) :
    Recorded.Always (ReadAllowed mem root) (acpiReadTableHeader mem phys) := by
  intro event member
  obtain ⟨below, rfl | ⟨rfl, placed⟩⟩ := (acpiReadTableHeader_cases mem phys).2 event member
  · exact ⟨listed, below⟩
  · exact ⟨listed, placed, rfl⟩

structure FoundTable (mem : Mem) (root : AcpiRoot) (signature : List UInt8) (table : Nat) : Prop where
  listed : Listed mem root table
  verified : Verified mem table
  signed : mem.read table 4 = signature

theorem rootEntry_inside {index : Nat}
    (inside : index < rootEntryCount root (tableLength mem root.rootPhys.toNat)) :
    rootEntryPlace root index + rootEntrySize root ≤ root.rootPhys.toNat +
    tableLength mem root.rootPhys.toNat := by
  have positive : 0 < rootEntrySize root := by
    unfold rootEntrySize
    split
    · decide
    · decide
  have limit : (index + 1) * rootEntrySize root ≤ tableLength mem root.rootPhys.toNat - sdtHeaderSize :=
    Nat.le_trans (Nat.mul_le_mul_right _ inside) (Nat.div_mul_le_self _ _)
  rw [Nat.succ_mul] at limit
  unfold rootEntryPlace
  omega

theorem acpiScanRoot_spec (sound : Verified mem root.rootPhys.toNat) {left index : Nat}
    (inside : index + left = rootEntryCount root (tableLength mem root.rootPhys.toNat)) :
    Recorded.Always (ReadAllowed mem root) (acpiScanRoot mem root signature left index) ∧
    ∀ table, (acpiScanRoot mem root signature left index).result = some table →
      FoundTable mem root signature table := by
  induction left generalizing index with
  | zero => exact ⟨.pure _, fun _ impossible => by cases impossible⟩
  | succ left ih =>
      have here : index < rootEntryCount root (tableLength mem root.rootPhys.toNat) := by omega
      obtain ⟨laterReads, laterFound⟩ := @ih (index + 1) (by omega)
      have entry : ReadAllowed mem root (.field (rootEntryPlace root index) (rootEntrySize root)) :=
        ⟨root.rootPhys.toNat, .inl rfl, sound, by unfold rootEntryPlace; omega, rootEntry_inside here⟩
      rw [acpiScanRoot]
      dsimp only
      by_cases null : rootEntry mem root index = 0
      · rw [if_pos null]
        exact ⟨.bind (.tell entry) laterReads, laterFound⟩
      · rw [if_neg null]
        have listed : Listed mem root (rootEntry mem root index).toNat := .inr ⟨index, here, null, rfl⟩
        have header := acpiReadTableHeader_reads listed
        cases read : (acpiReadTableHeader mem (rootEntry mem root index)).result with
        | none =>
            refine ⟨.bind (.tell entry) (.bind header ?_), ?_⟩
            · rw [read]
              exact laterReads
            · simp only [Recorded.bind_result, read]
              exact laterFound
        | some result =>
            obtain ⟨found, length⟩ := result
            obtain ⟨verified, rfl, _⟩ := acpiReadTableHeader_found read
            by_cases signed : mem.read (rootEntry mem root index).toNat 4 ≠ signature
            · refine ⟨.bind (.tell entry) (.bind header ?_), ?_⟩
              · rw [read]
                dsimp only
                rw [if_pos signed]
                exact laterReads
              · simp only [Recorded.bind_result, read]
                rw [if_pos signed]
                exact laterFound
            · refine ⟨.bind (.tell entry) (.bind header ?_), ?_⟩
              · rw [read]
                dsimp only
                rw [if_neg signed]
                exact .pure _
              · simp only [Recorded.bind_result, read]
                rw [if_neg signed]
                intro table same
                cases same
                exact ⟨listed, verified, not_not.mp signed⟩

theorem acpiFindTable_spec (mem : Mem) (root : AcpiRoot) (signature : List UInt8) :
    Recorded.Always (ReadAllowed mem root) (acpiFindTable mem (some root) signature) ∧
    ∀ table, (acpiFindTable mem (some root) signature).result = some table →
      FoundTable mem root signature table := by
  have header := @acpiReadTableHeader_reads mem root root.rootPhys (.inl rfl)
  unfold acpiFindTable
  dsimp only
  cases read : (acpiReadTableHeader mem root.rootPhys).result with
  | none =>
      refine ⟨.bind header ?_, ?_⟩
      · rw [read]
        exact .pure _
      · simp only [Recorded.bind_result, read]
        intro table impossible
        cases impossible
  | some result =>
      obtain ⟨found, length⟩ := result
      obtain ⟨verified, _, rfl⟩ := acpiReadTableHeader_found read
      obtain ⟨reads, tables⟩ := @acpiScanRoot_spec mem root signature verified
        (rootEntryCount root (tableLength mem root.rootPhys.toNat)) 0 (Nat.zero_add _)
      refine ⟨.bind header ?_, ?_⟩
      · rw [read]
        exact reads
      · simp only [Recorded.bind_result, read]
        exact tables

end Headers

theorem FoundTable.field {mem : Mem} {root : AcpiRoot} {signature : List UInt8}
    {table place length : Nat}
    (found : FoundTable mem root signature table) (behind : table ≤ place)
    (inside : place + length ≤ table + tableLength mem table) :
    ReadAllowed mem root (.field place length) :=
  ⟨table, found.listed, found.verified, behind, inside⟩

def allocValid (mem : Mem) (alloc : Nat) : Bool := allocBusStart mem alloc ≤ allocBusEnd mem alloc

def mcfgAllocs (mem : Mem) (mcfg : Nat) : List Nat :=
  (List.range ((tableLength mem mcfg - mcfgTableSize) / mcfgAllocSize)).map (mcfgAlloc mcfg)

def chosenAlloc (mem : Mem) (allocs : List Nat) : Option Nat :=
  ((allocs.filter (allocValid mem)).find? fun alloc => allocSegment mem alloc == 0).or
    (allocs.filter (allocValid mem)).head?

section Mcfg

variable {mem : Mem} {root : AcpiRoot} {mcfg : Nat}

theorem acpiScanMcfg_result (mem : Mem) (mcfg left index : Nat) (best : Option Nat) :
    (acpiScanMcfg mem mcfg left index best).result =
      ((((List.range' index left).map (mcfgAlloc mcfg)).filter (allocValid mem)).find? fun alloc =>
        allocSegment mem alloc == 0).or
          (best.or (((List.range' index left).map (mcfgAlloc mcfg)).filter (allocValid mem)).head?) := by
  induction left generalizing index best with
  | zero =>
      rw [acpiScanMcfg]
      cases best with
      | none => rfl
      | some alloc => rfl
  | succ left ih =>
      rw [acpiScanMcfg, List.range'_succ, List.map_cons]
      by_cases backwards : allocBusEnd mem (mcfgAlloc mcfg index) < allocBusStart mem (mcfgAlloc mcfg index)
      · have invalid : allocValid mem (mcfgAlloc mcfg index) = false := by simpa [allocValid] using backwards
        rw [List.filter_cons_of_neg (by simp [invalid])]
        simp only [Recorded.bind_result, if_pos backwards]
        exact ih (index + 1) best
      · have valid : allocValid mem (mcfgAlloc mcfg index) = true := by simpa [allocValid] using backwards
        rw [List.filter_cons_of_pos valid]
        simp only [Recorded.bind_result, if_neg backwards]
        by_cases zero : allocSegment mem (mcfgAlloc mcfg index) = 0
        · simp [zero]
        · rw [List.find?_cons_of_neg (by simp [zero])]
          cases best with
          | none =>
              simp only [Option.isNone_none, Bool.true_or, if_true, if_neg zero]
              rw [ih]
              rfl
          | some alloc =>
              have other : (allocSegment mem (mcfgAlloc mcfg index) == 0) = false := by simp [zero]
              simp only [Option.isNone_some, Bool.false_or, other]
              rw [if_neg Bool.false_ne_true, ih]
              rfl

theorem mcfgAlloc_inside {index : Nat}
    (inside : index < (tableLength mem mcfg - mcfgTableSize) / mcfgAllocSize) :
    mcfgAlloc mcfg index + 16 ≤ mcfg + tableLength mem mcfg := by
  have limit : (index + 1) * mcfgAllocSize ≤ tableLength mem mcfg - mcfgTableSize :=
    Nat.le_trans (Nat.mul_le_mul_right _ inside) (Nat.div_mul_le_self _ _)
  have size : mcfgAllocSize = 16 := rfl
  have header : mcfgTableSize = 44 := rfl
  unfold mcfgAlloc
  rw [size, header] at limit ⊢
  omega

theorem acpiScanMcfg_reads {signature : List UInt8} (found : FoundTable mem root signature mcfg)
    {left index : Nat}
    (inside : index + left = (tableLength mem mcfg - mcfgTableSize) / mcfgAllocSize)
    (best : Option Nat) :
    Recorded.Always (ReadAllowed mem root) (acpiScanMcfg mem mcfg left index best) := by
  induction left generalizing index best with
  | zero => exact .pure _
  | succ left ih =>
      have here := @mcfgAlloc_inside mem mcfg index (by omega)
      have behind : mcfg ≤ mcfgAlloc mcfg index := by unfold mcfgAlloc; omega
      have later := fun best => @ih (index + 1) (by omega) best
      rw [acpiScanMcfg]
      refine .bind (.tell (found.field (by omega) (by omega))) ?_
      split
      · exact later best
      · refine .bind (.tell (found.field (by omega) (by omega))) ?_
        split
        · split
          · exact .pure _
          · exact later _
        · exact later best

theorem acpiScanMcfg_mem {left index alloc : Nat} {best : Option Nat}
    (chosen : (acpiScanMcfg mem mcfg left index best).result = some alloc) :
    best = some alloc ∨ ∃ place, index ≤ place ∧ place < index + left ∧
    alloc = mcfgAlloc mcfg place := by
  rw [acpiScanMcfg_result] at chosen
  have listed : ∀ entry ∈ ((List.range' index left).map (mcfgAlloc mcfg)).filter (allocValid mem),
      ∃ place, index ≤ place ∧ place < index + left ∧ entry = mcfgAlloc mcfg place := by
    intro entry member
    obtain ⟨place, inRange, rfl⟩ := List.mem_map.mp (List.mem_of_mem_filter member)
    obtain ⟨low, high⟩ := List.mem_range'_1.mp inRange
    exact ⟨place, low, high, rfl⟩
  rcases Option.or_eq_some_iff.mp chosen with zero | ⟨_, other⟩
  · exact .inr (listed alloc (List.mem_of_find?_eq_some zero))
  · rcases Option.or_eq_some_iff.mp other with kept | ⟨_, first⟩
    · exact .inl kept
    · exact .inr (listed alloc (List.mem_of_mem_head? first))

def mcfgInfoOf (mem : Mem) (alloc : Nat) : McfgInfo :=
  ⟨allocBase mem alloc, allocSegment mem alloc, allocBusStart mem alloc, allocBusEnd mem alloc⟩

theorem acpiGetMcfgInfo_spec (mem : Mem) (root : AcpiRoot) :
    Recorded.Always (ReadAllowed mem root) (acpiGetMcfgInfo mem (some root)) ∧
    (acpiGetMcfgInfo mem (some root)).result =
      (acpiFindTable mem (some root) (cText "MCFG")).result.bind fun mcfg =>
        if tableLength mem mcfg < mcfgTableSize then none
        else (chosenAlloc mem (mcfgAllocs mem mcfg)).map (mcfgInfoOf mem) := by
  obtain ⟨search, tables⟩ := acpiFindTable_spec mem root (cText "MCFG")
  unfold acpiGetMcfgInfo
  cases looked : (acpiFindTable mem (some root) (cText "MCFG")).result with
  | none =>
      refine ⟨.bind search ?_, ?_⟩
      · rw [looked]
        exact .pure _
      · simp only [Recorded.bind_result, looked]
        rfl
  | some mcfg =>
      have found := tables mcfg looked
      have long := found.verified.placed.1
      have header : sdtHeaderSize = 36 := rfl
      by_cases short : tableLength mem mcfg < mcfgTableSize
      · refine ⟨.bind search ?_, ?_⟩
        · rw [looked]
          dsimp only
          rw [if_pos short]
          exact .bind (.tell (found.field (by omega) (by omega))) (.pure _)
        · simp only [Recorded.bind_result, looked, if_pos short, Option.bind_some]
          rfl
      · have scan := @acpiScanMcfg_reads mem root mcfg _ found
          ((tableLength mem mcfg - mcfgTableSize) / mcfgAllocSize) 0 (Nat.zero_add _) none
        have result := acpiScanMcfg_result mem mcfg
          ((tableLength mem mcfg - mcfgTableSize) / mcfgAllocSize) 0 none
        rw [Option.none_or, ← List.range_eq_range'] at result
        change _ = chosenAlloc mem (mcfgAllocs mem mcfg) at result
        refine ⟨.bind search ?_, ?_⟩
        · rw [looked]
          dsimp only
          rw [if_neg short]
          refine .bind (.tell (found.field (by omega) (by omega))) (.bind scan ?_)
          split
          · exact .pure _
          · next alloc chosen =>
            rcases acpiScanMcfg_mem chosen with impossible | ⟨place, _, below, rfl⟩
            · cases impossible
            · have inside := @mcfgAlloc_inside mem mcfg place (by omega)
              have behind : mcfg ≤ mcfgAlloc mcfg place := by unfold mcfgAlloc; omega
              exact .bind (.tell (found.field (by omega) (by omega))) (.pure _)
        · simp only [Recorded.bind_result, looked, if_neg short, Option.bind_some]
          rw [← result]
          split
          · next none => rw [none]; rfl
          · next some => rw [some]; rfl

end Mcfg

def isEnabledLapic (mem : Mem) (entry : Nat) : Bool :=
  decide (entryType mem entry = 0 ∧ madtLapicSize ≤ entryLength mem entry) && lapicEnabled mem entry

def isIoapic (mem : Mem) (entry : Nat) : Bool :=
  decide (entryType mem entry = 1 ∧ madtIoapicSize ≤ entryLength mem entry)

def MadtEntries (mem : Mem) (madt : Nat) (entries : List Nat) : Prop :=
  RecordChain (entryLength mem) madtEntrySize (madt + tableLength mem madt) (madt + madtSize) entries

structure MadtSays (mem : Mem) (madt : Nat) (entries : List Nat) (info : MadtInfo) : Prop where
  lapic : info.lapicAddress = mem.readU32 (madt + 36)
  flags : info.flags = mem.readU32 (madt + 40)
  cpus : info.cpuCount.toNat = (entries.filter (isEnabledLapic mem)).length
  ioapic : info.ioapic = (entries.find? (isIoapic mem)).map (ioapicOf mem)

section Madt

variable {mem : Mem} {root : AcpiRoot} {madt : Nat}

theorem madtVisit_result (mem : Mem) (entry : Nat) (info : MadtInfo) :
    (madtVisit mem entry info).result =
      { info with
        cpuCount := if isEnabledLapic mem entry then info.cpuCount + 1 else info.cpuCount
        ioapic := info.ioapic.or (if isIoapic mem entry then some (ioapicOf mem entry) else none) } := by
  unfold madtVisit
  by_cases local' : entryType mem entry = 0 ∧ madtLapicSize ≤ entryLength mem entry
  · have enabled : isEnabledLapic mem entry = lapicEnabled mem entry := by simp [isEnabledLapic, local']
    have noIo : isIoapic mem entry = false := by simp [isIoapic, local'.1]
    rw [if_pos local', enabled, noIo, if_neg Bool.false_ne_true, Option.or_none]
    cases said : lapicEnabled mem entry with
    | true => rfl
    | false => rfl
  · have disabled : isEnabledLapic mem entry = false := by
      simp only [isEnabledLapic, local', decide_false, Bool.false_and]
    rw [if_neg local', disabled, if_neg Bool.false_ne_true]
    by_cases io : entryType mem entry = 1 ∧ madtIoapicSize ≤ entryLength mem entry
    · have here : isIoapic mem entry = true := by simp [isIoapic, io]
      rw [if_pos io, here, if_pos rfl]
      match info with
      | ⟨_, _, _, some ioapic⟩ => rfl
      | ⟨_, _, _, none⟩ => rfl
    · have noIo : isIoapic mem entry = false := by simp only [isIoapic, io, decide_false]
      rw [if_neg io, noIo, if_neg Bool.false_ne_true, Option.or_none]
      rfl

theorem madtVisit_fold (mem : Mem) (entries : List Nat) (info : MadtInfo) :
    entries.foldl (fun info entry => (madtVisit mem entry info).result) info =
      { info with
        cpuCount := info.cpuCount + UInt32.ofNat (entries.filter (isEnabledLapic mem)).length
        ioapic := info.ioapic.or ((entries.find? (isIoapic mem)).map (ioapicOf mem)) } := by
  induction entries generalizing info with
  | nil => simp
  | cons entry entries ih =>
      rw [List.foldl_cons, madtVisit_result, ih]
      simp only [MadtInfo.mk.injEq, true_and]
      constructor
      · cases enabled : isEnabledLapic mem entry with
        | false => rw [List.filter_cons_of_neg (by simp [enabled])]; rfl
        | true =>
            rw [List.filter_cons_of_pos enabled, List.length_cons, UInt32.ofNat_add, if_pos rfl,
              UInt32.add_assoc, UInt32.add_comm 1]
            rfl
      · cases io : isIoapic mem entry with
        | false => rw [List.find?_cons_of_neg (by simp [io])]; simp
        | true => rw [List.find?_cons_of_pos io]; simp

theorem acpiScanMadt_step (mem : Mem) (stop turns cur : Nat) (info : MadtInfo) :
    (acpiScanMadt mem stop (turns + 1) cur info).result =
      if RecordAt (entryLength mem) madtEntrySize stop cur then
        (acpiScanMadt mem stop turns (cur + entryLength mem cur) (madtVisit mem cur info).result).result
      else some info := by
  rw [acpiScanMadt]
  by_cases present : cur + madtEntrySize ≤ stop
  · rw [if_pos present]
    by_cases small : entryLength mem cur < madtEntrySize
    · have broken : ¬RecordAt (entryLength mem) madtEntrySize stop cur :=
        fun record => Nat.not_lt.mpr record.large small
      simp only [Recorded.bind_result, if_pos small, if_neg broken]
      rfl
    · by_cases outside : cur + entryLength mem cur > stop
      · have broken : ¬RecordAt (entryLength mem) madtEntrySize stop cur :=
          fun record => Nat.not_lt.mpr record.inside outside
        simp only [Recorded.bind_result, if_neg small, if_pos outside, if_neg broken]
        rfl
      · have record : RecordAt (entryLength mem) madtEntrySize stop cur :=
          ⟨present, Nat.not_lt.mp small, Nat.not_lt.mp outside⟩
        simp only [Recorded.bind_result, if_neg small, if_neg outside, if_pos record]
  · have broken : ¬RecordAt (entryLength mem) madtEntrySize stop cur := fun record => present record.present
    rw [if_neg present, if_neg broken]
    rfl

theorem acpiScanMadt_result (mem : Mem) (madt : Nat) (long : madtSize ≤ tableLength mem madt)
    (start : MadtInfo) : ∃ entries, MadtEntries mem madt entries ∧
      (acpiScanMadt mem (madt + tableLength mem madt) (tableLength mem madt)
      (madt + madtSize) start).result =
        some (entries.foldl (fun info entry => (madtVisit mem entry info).result) start) := by
  have header : madtSize = 44 := rfl
  have size : madtEntrySize = 2 := rfl
  have step := fun turns place info =>
    acpiScanMadt_step mem (madt + tableLength mem madt) turns place info
  exact @RecordChain.loop (entryLength mem) madtEntrySize (madt + tableLength mem madt)
    (madt + madtSize) MadtInfo _
    (fun turns place info => (acpiScanMadt mem (madt + tableLength mem madt) turns place
    info).result) step (tableLength mem madt) start (by rw [size]; omega) (by omega)

theorem madtVisit_reads {signature : List UInt8} (found : FoundTable mem root signature madt)
    {entry : Nat}
    (behind : madt ≤ entry) (inside : entry + entryLength mem entry ≤ madt + tableLength mem madt)
    (info : MadtInfo) : Recorded.Always (ReadAllowed mem root) (madtVisit mem entry info) := by
  have lapicSize : madtLapicSize = 8 := rfl
  have ioapicSize : madtIoapicSize = 12 := rfl
  unfold madtVisit
  split
  · next lapic => exact .bind (.tell (found.field (by omega) (by omega))) (.pure _)
  · split
    · next ioapic =>
      split
      · exact .pure _
      · exact .bind (.tell (found.field (by omega) (by omega))) (.pure _)
    · exact .pure _

theorem acpiScanMadt_reads {signature : List UInt8} (found : FoundTable mem root signature madt)
    (turns : Nat) {cur : Nat} (behind : madt ≤ cur) (info : MadtInfo) :
    Recorded.Always (ReadAllowed mem root)
    (acpiScanMadt mem (madt + tableLength mem madt) turns cur info) := by
  induction turns generalizing cur info with
  | zero => exact .pure _
  | succ turns ih =>
      rw [acpiScanMadt]
      split
      · next present =>
        refine .bind (.tell (found.field behind present)) ?_
        split
        · exact .pure _
        · split
          · exact .pure _
          · next inside =>
            exact .bind (madtVisit_reads found behind (Nat.not_lt.mp inside) info) (ih (by omega) _)
      · exact .pure _

theorem acpiScanMadt_info (long : madtSize ≤ tableLength mem madt)
    (short : tableLength mem madt < 2 ^ 32) :
    ∃ entries info, MadtEntries mem madt entries ∧ MadtSays mem madt entries info ∧
      (acpiScanMadt mem (madt + tableLength mem madt) (tableLength mem madt) (madt + madtSize)
        ⟨mem.readU32 (madt + 36), mem.readU32 (madt + 40), 0, none⟩).result = some info := by
  obtain ⟨entries, chain, result⟩ := acpiScanMadt_result mem madt long
    ⟨mem.readU32 (madt + 36), mem.readU32 (madt + 40), 0, none⟩
  rw [madtVisit_fold] at result
  have count := chain.length
  have fewer := List.length_filter_le (isEnabledLapic mem) entries
  have size : madtEntrySize = 2 := rfl
  rw [size] at count
  refine ⟨entries, _, chain, ⟨rfl, rfl, ?_, ?_⟩, result⟩
  · dsimp only
    rw [UInt32.zero_add, UInt32.toNat_ofNat_of_lt']
    have limit : UInt32.size = 2 ^ 32 := rfl
    omega
  · rfl

theorem acpiGetMadtInfo_spec (mem : Mem) (root : AcpiRoot) :
    Recorded.Always (ReadAllowed mem root) (acpiGetMadtInfo mem (some root)) ∧
    match (acpiFindTable mem (some root) (cText "APIC")).result with
    | none => (acpiGetMadtInfo mem (some root)).result = some none
    | some madt =>
        if tableLength mem madt < madtSize then (acpiGetMadtInfo mem (some root)).result = some none
        else ∃ entries info, MadtEntries mem madt entries ∧ MadtSays mem madt entries info ∧
          (acpiGetMadtInfo mem (some root)).result = some (some info) := by
  obtain ⟨search, tables⟩ := acpiFindTable_spec mem root (cText "APIC")
  unfold acpiGetMadtInfo
  cases looked : (acpiFindTable mem (some root) (cText "APIC")).result with
  | none =>
      refine ⟨.bind search ?_, ?_⟩
      · rw [looked]
        exact .pure _
      · simp only [Recorded.bind_result, looked]
        rfl
  | some madt =>
      have found := tables madt looked
      have long := found.verified.placed.1
      have header : sdtHeaderSize = 36 := rfl
      have whole : madtSize = 44 := rfl
      dsimp only
      by_cases short : tableLength mem madt < madtSize
      · refine ⟨.bind search ?_, ?_⟩
        · rw [looked]
          dsimp only
          rw [if_pos short]
          exact .bind (.tell (found.field (by omega) (by omega))) (.pure _)
        · rw [if_pos short]
          simp only [Recorded.bind_result, looked, if_pos short]
          rfl
      · obtain ⟨entries, info, chain, told, result⟩ :=
          @acpiScanMadt_info mem madt (by omega) (tableLength_lt mem madt)
        refine ⟨.bind search ?_, ?_⟩
        · rw [looked]
          dsimp only
          rw [if_neg short]
          refine .bind (.tell (found.field (by omega) (by omega)))
            (.bind (.tell (found.field (by omega) (by omega))) ?_)
          exact .bind (acpiScanMadt_reads found _ (by omega) _) (.pure _)
        · rw [if_neg short]
          refine ⟨entries, info, chain, told, ?_⟩
          simp only [Recorded.bind_result, looked, if_neg short, result]
          rfl

end Madt

/-- The walks end, read no more than they may, and find what the tables say. -/
theorem acpi_tables_walked (mem : Mem) (root : AcpiRoot) (signature : List UInt8) :
    (Recorded.Always (ReadAllowed mem root) (acpiFindTable mem (some root) signature) ∧
      Recorded.Always (ReadAllowed mem root) (acpiGetMcfgInfo mem (some root)) ∧
      Recorded.Always (ReadAllowed mem root) (acpiGetMadtInfo mem (some root))) ∧
    (∀ table, (acpiFindTable mem (some root) signature).result = some table →
      FoundTable mem root signature table) ∧
    ((acpiGetMcfgInfo mem (some root)).result =
      (acpiFindTable mem (some root) (cText "MCFG")).result.bind fun mcfg =>
        if tableLength mem mcfg < mcfgTableSize then none
        else (chosenAlloc mem (mcfgAllocs mem mcfg)).map (mcfgInfoOf mem)) ∧
    match (acpiFindTable mem (some root) (cText "APIC")).result with
    | none => (acpiGetMadtInfo mem (some root)).result = some none
    | some madt =>
        if tableLength mem madt < madtSize then (acpiGetMadtInfo mem (some root)).result = some none
        else ∃ entries info, MadtEntries mem madt entries ∧ MadtSays mem madt entries info ∧
          (acpiGetMadtInfo mem (some root)).result = some (some info) := by
  obtain ⟨search, found⟩ := acpiFindTable_spec mem root signature
  obtain ⟨mcfgReads, mcfg⟩ := acpiGetMcfgInfo_spec mem root
  obtain ⟨madtReads, madt⟩ := acpiGetMadtInfo_spec mem root
  exact ⟨⟨search, mcfgReads, madtReads⟩, found, mcfg, madt⟩

/-- A sound RSDT at 0x1000 whose one entry points to a table with a wrong checksum at 0x2000. -/
def brokenTables : Mem :=
  (Mem.store (fun _ => 0) 0x1000
    (cText "RSDT" ++ [40, 0, 0, 0, 0, 123] ++ List.replicate 26 0 ++ [0, 0x20, 0, 0])).store
    0x2000 (cText "APIC" ++ [40, 0, 0, 0] ++ List.replicate 32 0)

def brokenRoot : AcpiRoot := ⟨false, 0x1000⟩

/-- The last byte of the broken table is read, behind every header and outside every verified table.
-/
theorem brokenTables_read :
    AcpiRead.check 0x2000 40 ∈ (acpiFindTable brokenTables (some brokenRoot) (cText "APIC")).events ∧
      ∀ table, Listed brokenTables brokenRoot table →
        ¬(table ≤ 0x2027 ∧ 0x2027 < table + sdtHeaderSize) ∧
        ¬(Verified brokenTables table ∧ table ≤ 0x2027 ∧ 0x2027 < table + tableLength brokenTables table) := by
  refine ⟨by decide +kernel, ?_⟩
  have size : sdtHeaderSize = 36 := rfl
  have rootLength : tableLength brokenTables 0x1000 = 40 := by decide +kernel
  have rootPlace : brokenRoot.rootPhys.toNat = 0x1000 := rfl
  rintro table (rfl | ⟨index, inside, _, rfl⟩)
  · rw [rootPlace, rootLength]
    omega
  · have one : rootEntryCount brokenRoot (tableLength brokenTables brokenRoot.rootPhys.toNat) =
      1 := by decide +kernel
    rw [one] at inside
    have first : index = 0 := by omega
    have place : (rootEntry brokenTables brokenRoot 0).toNat = 0x2000 := by decide +kernel
    rw [first, place]
    refine ⟨by omega, ?_⟩
    rintro ⟨verified, _⟩
    exact absurd verified.sum (by decide +kernel)

end Szczupak
