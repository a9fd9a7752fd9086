import Szczupak.Lib.RecordChain
import Szczupak.Usb.EnumerateCore
import Mathlib.Data.List.Induction

/-!
What the walk over a configuration descriptor reads and registers.  The interface that an endpoint
belongs to is kept in
three variables, and the flag among them is cleared by the first endpoint that is taken.
-/

namespace Szczupak.Usb

section Descriptors

variable (cfg : Mem)

def IsInterface (place : Nat) : Prop := descriptorType cfg place = usbDescInterface ∧
    9 ≤ descriptorLength cfg place

def IsHidInterface (place : Nat) : Prop := IsInterface cfg place ∧ cfg (place + 5) = usbHidClass

structure IsInterruptIn (place : Nat) : Prop where
  type : descriptorType cfg place = usbDescEndpoint
  long : 7 ≤ descriptorLength cfg place
  dirIn : usbDirIn (cfg (place + 2)) = true
  interrupt : usbInterrupt (cfg (place + 3)) = true

instance (place : Nat) : Decidable (IsInterface cfg place) :=
  inferInstanceAs (Decidable (descriptorType cfg place = usbDescInterface ∧
    9 ≤ descriptorLength cfg place))

def Governs (records : List Nat) (iface endpoint : Nat) : Prop :=
  ∃ before between after, records = before ++ iface :: between ++ endpoint :: after ∧
    IsHidInterface cfg iface ∧ (∀ place ∈ between, ¬IsInterface cfg place) ∧ IsInterruptIn cfg endpoint

def Open (records : List Nat) (iface : Nat) : Prop :=
  ∃ before after, records = before ++ iface :: after ∧ IsHidInterface cfg iface ∧
    ∀ place ∈ after, ¬IsInterface cfg place

variable {cfg} {records : List Nat} {iface endpoint place : Nat}

theorem Governs.snoc (governs : Governs cfg records iface endpoint) (place : Nat) :
    Governs cfg (records ++ [place]) iface endpoint := by
  obtain ⟨before, between, after, rfl, rest⟩ := governs
  exact ⟨before, between, after ++ [place], by simp, rest⟩

theorem Governs.mem (governs : Governs cfg records iface endpoint) : iface ∈ records := by
  obtain ⟨before, between, after, rfl, _⟩ := governs
  simp

theorem Open.snoc (opened : Open cfg records iface) (other : ¬IsInterface cfg place) :
    Open cfg (records ++ [place]) iface := by
  obtain ⟨before, after, rfl, hid, rest⟩ := opened
  refine ⟨before, after ++ [place], by simp, hid, fun member inAfter => ?_⟩
  rcases List.mem_append.mp inAfter with early | last
  · exact rest member early
  · rwa [List.mem_singleton.mp last]

theorem Open.governs (opened : Open cfg records iface) (usable : IsInterruptIn cfg place) :
    Governs cfg (records ++ [place]) iface place := by
  obtain ⟨before, after, rfl, hid, rest⟩ := opened
  exact ⟨before, after, [], rfl, hid, rest, usable⟩

end Descriptors

/-- What has been registered after some descriptors; `pairs` are the interfaces with their
endpoints. -/
structure Registers (port : UsbPort) (cfg : Mem) (table : HidTable) (records : List Nat)
    (pairs : List (Nat × Nat)) (walk : HidWalk) : Prop where
  attempts : walk.attempts = pairs.map fun pair =>
    (pair.2, endpointDevice port cfg (cfg (pair.1 + 7)) pair.2)
  once : (pairs.map Prod.fst).Nodup
  governs : ∀ pair ∈ pairs, Governs cfg records pair.1 pair.2
  current : walk.currentHidIface = true →
    ∃ iface, Open cfg records iface ∧ iface ∉ pairs.map Prod.fst ∧ walk.currentProto = cfg (iface + 7)
  table : walk.table = walk.attempts.foldl (fun table attempt =>
    (usbHidRegisterDevice table attempt.2).2) table

section Walk

variable {port : UsbPort} {cfg : Mem} {table : HidTable} {records : List Nat}
  {pairs : List (Nat × Nat)} {walk : HidWalk} {place totalLen : Nat}

theorem visitDescriptor_interface (iface : IsInterface cfg place) :
    (visitDescriptor port cfg place walk).result = { walk with
      currentIface := cfg (place + 2), currentProto := cfg (place + 7)
      currentHidIface := decide (cfg (place + 5) = usbHidClass) } := by
  rw [visitDescriptor, if_pos (And.intro iface.1 iface.2)]
  rfl

theorem visitDescriptor_endpoint (other : ¬IsInterface cfg place)
    (opened : walk.currentHidIface = true) (usable : IsInterruptIn cfg place) :
    ∃ registered, (visitDescriptor port cfg place walk).result =
      { walk with
        currentHidIface := false
        registeredAny := registered
        table := (usbHidRegisterDevice walk.table (endpointDevice port cfg walk.currentProto place)).2
        attempts := walk.attempts ++ [(place, endpointDevice port cfg walk.currentProto place)] } := by
  unfold IsInterface at other
  rw [visitDescriptor, if_neg other, if_pos ⟨usable.type, opened, usable.long⟩]
  simp only [Recorded.bind_result, if_pos (And.intro usable.dirIn usable.interrupt)]
  split
  · exact ⟨_, rfl⟩
  · exact ⟨_, rfl⟩

theorem visitDescriptor_other (other : ¬IsInterface cfg place)
    (unused : ¬(walk.currentHidIface = true ∧ IsInterruptIn cfg place)) :
    (visitDescriptor port cfg place walk).result = walk := by
  unfold IsInterface at other
  rw [visitDescriptor, if_neg other]
  split
  next endpoint =>
    simp only [Recorded.bind_result]
    rw [if_neg]
    · rfl
    · rintro ⟨dirIn, interrupt⟩
      exact unused ⟨endpoint.2.1, endpoint.1, endpoint.2.2, dirIn, interrupt⟩
  next => rfl

theorem Registers.visit (registers : Registers port cfg table records pairs walk)
    (fresh : place ∉ records) :
    ∃ pairs, Registers port cfg table (records ++ [place]) pairs
    (visitDescriptor port cfg place walk).result := by
  by_cases iface : IsInterface cfg place
  · rw [visitDescriptor_interface iface]
    refine ⟨pairs, registers.attempts, registers.once, fun pair member =>
      (registers.governs pair member).snoc place, ?_, registers.table⟩
    intro hid
    refine ⟨place, ⟨records, [], rfl, ⟨iface, of_decide_eq_true hid⟩, by simp⟩, fun member => ?_, rfl⟩
    obtain ⟨pair, inPairs, same⟩ := List.mem_map.mp member
    exact fresh (same ▸ (registers.governs pair inPairs).mem)
  · by_cases taken : walk.currentHidIface = true ∧ IsInterruptIn cfg place
    · obtain ⟨registered, result⟩ := @visitDescriptor_endpoint port cfg walk place iface taken.1 taken.2
      obtain ⟨owner, opened, unused, proto⟩ := registers.current taken.1
      rw [result]
      refine ⟨pairs ++ [(owner, place)], ?_, ?_, ?_, fun closed => absurd closed Bool.false_ne_true, ?_⟩
      · rw [List.map_append, ← registers.attempts, proto]
        rfl
      · rw [List.map_append, List.nodup_append]
        refine ⟨registers.once, List.pairwise_singleton _ _, ?_⟩
        rintro other member _ last rfl
        rw [List.mem_singleton.mp last] at member
        exact unused member
      · intro pair member
        rcases List.mem_append.mp member with early | last
        · exact (registers.governs pair early).snoc place
        · rw [List.mem_singleton.mp last]
          exact opened.governs taken.2
      · rw [List.foldl_append, ← registers.table]
        rfl
    · rw [visitDescriptor_other iface taken]
      refine ⟨pairs, registers.attempts, registers.once, fun pair member =>
        (registers.governs pair member).snoc place, ?_, registers.table⟩
      intro hid
      obtain ⟨owner, opened, rest⟩ := registers.current hid
      exact ⟨owner, opened.snoc iface, rest⟩

theorem Registers.run (start : HidWalk) (empty : start.attempts = [])
    (closed : start.currentHidIface = false)
    {records : List Nat} (increasing : records.Pairwise (· < ·)) :
    ∃ pairs, Registers port cfg start.table records pairs
      (records.foldl (fun walk place => (visitDescriptor port cfg place walk).result) start) := by
  induction records using List.reverseRecOn with
  | nil =>
      refine ⟨[], empty, List.nodup_nil, by simp, fun hid => ?_, ?_⟩
      · exact absurd (closed.symm.trans hid) Bool.false_ne_true
      · rw [List.foldl_nil, empty]
        rfl
  | append_singleton records place ih =>
      rw [List.pairwise_append] at increasing
      obtain ⟨pairs, registers⟩ := ih increasing.1
      rw [List.foldl_append]
      refine registers.visit fun member => ?_
      exact absurd (increasing.2.2 place member place (List.mem_singleton.mpr rfl)) (Nat.lt_irrefl place)

theorem walkDescriptors_step (totalLen turns pos : Nat) (walk : HidWalk) :
    (walkDescriptors port cfg totalLen (turns + 1) pos walk).result =
      if RecordAt (descriptorLength cfg) 2 totalLen pos then
        (walkDescriptors port cfg totalLen turns (pos + descriptorLength cfg pos)
          (visitDescriptor port cfg pos walk).result).result
      else some walk := by
  rw [walkDescriptors]
  by_cases present : pos + 2 ≤ totalLen
  · rw [if_pos present]
    simp only [Recorded.bind_result]
    by_cases broken : descriptorLength cfg pos < 2 ∨ pos + descriptorLength cfg pos > totalLen
    · have none' : ¬RecordAt (descriptorLength cfg) 2 totalLen pos := by
        rintro ⟨_, large, inside⟩
        omega
      rw [if_pos broken, if_neg none']
      rfl
    · rw [not_or, Nat.not_lt, Nat.not_lt] at broken
      rw [if_neg (by omega), if_pos ⟨present, broken.1, broken.2⟩]
      rfl
  · rw [if_neg present, if_neg fun record => present record.present]
    rfl

def ReadsBelow (totalLen : Nat) : EnumEvent → Prop
  | .request _ => True
  | .read index => index < totalLen

theorem readByte_below {index : Nat} (inside : index < totalLen) :
    Recorded.Always (ReadsBelow totalLen) (readByte index) :=
  .tell inside

theorem visitDescriptor_reads (inside : place + descriptorLength cfg place ≤ totalLen) (walk : HidWalk) :
    Recorded.Always (ReadsBelow totalLen) (visitDescriptor port cfg place walk) := by
  rw [visitDescriptor]
  split
  next iface =>
    exact .bind (readByte_below (by omega))
      (.bind (readByte_below (by omega)) (.bind (readByte_below (by omega)) (.pure _)))
  next =>
    split
    next endpoint =>
      refine .bind (readByte_below (by omega)) (.bind (readByte_below (by omega)) ?_)
      split
      · refine .bind (readByte_below (by omega)) (.bind (readByte_below (by omega)) ?_)
        have last {walk : HidWalk} : Recorded.Always (ReadsBelow totalLen)
            (do readByte (place + 6); return walk : UsbEnum HidWalk) :=
          .bind (readByte_below (by omega)) (.pure _)
        dsimp only
        split
        · exact .bind (.tell trivial) last
        · exact last
      · exact .pure _
    next => exact .pure _

theorem walkDescriptors_reads (turns : Nat) (walk : HidWalk) :
    Recorded.Always (ReadsBelow totalLen) (walkDescriptors port cfg totalLen turns place walk) := by
  induction turns generalizing place walk with
  | zero => exact .pure _
  | succ turns ih =>
      rw [walkDescriptors]
      split
      · refine .bind (readByte_below (by omega)) (.bind (readByte_below (by omega)) ?_)
        split
        · exact .pure _
        next inside =>
          exact .bind (visitDescriptor_reads (by omega) walk) (ih _)
      · exact .pure _

theorem walkDescriptors_spec (short : totalLen ≤ 255) (start : HidWalk)
    (empty : start.attempts = []) (closed : start.currentHidIface = false) :
    ∃ records pairs walk, (walkDescriptors port cfg totalLen 255 0 start).result = some walk ∧
      RecordChain (descriptorLength cfg) 2 totalLen 0 records ∧
      Registers port cfg start.table records pairs walk := by
  obtain ⟨records, chain, result⟩ := @RecordChain.loop (descriptorLength cfg) 2 totalLen 0 HidWalk
    (fun pos walk => (visitDescriptor port cfg pos walk).result)
    (fun turns pos walk => (walkDescriptors port cfg totalLen turns pos walk).result)
    (walkDescriptors_step totalLen) 255 start (by omega) (by decide)
  obtain ⟨pairs, registers⟩ := Registers.run start empty closed (chain.increasing (by decide))
  exact ⟨records, pairs, _, result, chain, registers⟩

end Walk

/-- What an enumeration has done: it stays below the total length, its walk has an end, and what it
registers belongs to different interfaces. -/
structure Enumerated (port : UsbPort) (answers : Nat → Option (List UInt8)) (table : HidTable)
    (done : UsbEnum (UInt8 × Option (Option HidWalk))) : Prop where
  reads : Recorded.Always (ReadsBelow (walkedLength answers)) done
  walked : ∀ walked, done.result.2 = some walked →
    ∃ records pairs walk, walked = some walk ∧
      RecordChain (descriptorLength (answerBuffer answers 4 (walkedLength answers))) 2
      (walkedLength answers) 0 records ∧
      Registers port (answerBuffer answers 4 (walkedLength answers)) table records pairs walk

/-- The walk ends, reads below the total length (and below 255), and registers one device for an
interface at most, each with an endpoint that the interface governs. -/
theorem uhci_enumerate_hid_on_port_safe (answers : Nat → Option (List UInt8))
    (controllerIndex port : UInt8) (lowSpeed : Bool) (nextAddress : UInt8) (table : HidTable) :
    Enumerated ⟨controllerIndex, port, lowSpeed, nextAddress, deviceMaxPacket answers⟩ answers table
      (uhciEnumerateHidOnPort answers controllerIndex port lowSpeed nextAddress table) := by
  generalize uses : UsbPort.mk controllerIndex port lowSpeed nextAddress (deviceMaxPacket answers) =
    place
  have failed (addr : UInt8) : Enumerated place answers table (pure (addr, none)) :=
    ⟨.pure _, fun walked result => absurd result (by simp)⟩
  have asked {number : Nat} {request : UsbRequest}
    {next : Option (List UInt8) → UsbEnum (UInt8 × Option (Option HidWalk))}
      (rest : Enumerated place answers table (next (answers number))) :
      Enumerated place answers table (controlRequest answers number request >>= next) :=
    ⟨.bind (.bind (.tell trivial) (.pure _)) rest.reads, rest.walked⟩
  rw [uhciEnumerateHidOnPort]
  refine asked ?_
  split
  · exact failed _
  · split
    · exact failed _
    · refine asked ?_
      split
      · exact failed _
      · refine asked ?_
        split
        · exact failed _
        · refine asked ?_
          split
          · exact failed _
          · split
            · exact failed _
            next long =>
              refine asked ?_
              split
              · exact failed _
              · have size : walkedLength answers = min (declaredLength answers) 255 := rfl
                have read {next : Unit → UsbEnum (UInt8 × Option (Option HidWalk))}
                    (rest : Enumerated place answers table (next ())) :
                    Enumerated place answers table (readByte 5 >>= next) :=
                  ⟨.bind (readByte_below (by omega)) rest.reads, rest.walked⟩
                refine read (asked ?_)
                split
                · exact failed _
                · refine ⟨.bind (walkDescriptors_reads _ _) (.pure _), fun walked result => ?_⟩
                  obtain ⟨records, pairs, walk, ended, chain, registers⟩ := @walkDescriptors_spec place
                    (answerBuffer answers 4 (walkedLength answers)) (walkedLength answers)
                    (Nat.min_le_right _ _)
                    { currentIface := 0xFF, currentProto := 0, currentHidIface :=
                    false, registeredAny := false, table
                      attempts := [] } rfl rfl
                  refine ⟨records, pairs, walk, ?_, chain, registers⟩
                  rw [← Option.some.inj result, uses]
                  exact ended

/-- A keyboard's interface, then an interface descriptor of four bytes, then an interrupt-IN
endpoint. -/
def truncatedInterface : Nat → Option (List UInt8)
  | 0 => some [18, 1, 0, 2, 0, 0, 0, 8]
  | 3 => some [9, 2, 29, 0, 1, 1, 0, 0xA0, 50]
  | 4 => some [9, 2, 29, 0, 1, 1, 0, 0xA0, 50, 9, 4, 0, 0, 1, 3, 1, 1, 0, 4, 4, 1, 0, 7, 5,
    0x81, 3, 8, 0, 10]
  | _ => some []

/-- The endpoint is registered with the interface before the short one. -/
theorem truncatedInterface_skipped :
    ((uhciEnumerateHidOnPort truncatedInterface 0 1 false 1 fun _ => none).result.2.bind id).map
      (fun walk => walk.attempts.map Prod.fst) = some [22] ∧
    RecordChain (descriptorLength (answerBuffer truncatedInterface 4 29)) 2 29 0 [0, 9, 18, 22] ∧
    descriptorType (answerBuffer truncatedInterface 4 29) 18 = usbDescInterface :=
  ⟨by decide +kernel, .next (by decide)
    (.next (by decide) (.next (by decide) (.next (by decide) (.last (by decide))))), by decide⟩

end Szczupak.Usb
