import Szczupak.Net.E1000Send

/-!
Receiving over the E1000.  The first `returned` frames are with the callers, those up to
`writtenBack` wait with a descriptor that is done, and those up to `stored` are in a buffer.  The
card may go 31 descriptors ahead of the driver.
-/

namespace Szczupak

def E1000Rx.writtenBack (rx : E1000Rx) : Nat := rx.stored.length - rx.filled.length

/-- What the memory holds of the frames that wait; `released` says that the driver has cleared the
status of the first and not yet handed it back. -/
structure RxHeld (l : E1000Layout) (mem : Mem) (stored : List (List UInt8))
    (returned writtenBack : Nat) (released : Prop) : Prop where
  address : ∀ slot < 32, mem.readU64 (l.rx.descAt slot) = l.rx.bufAt slot
  buffer : ∀ place frame, returned ≤ place → stored[place]? = some frame →
    mem.read (l.rx.bufAt (place % 32)) frame.length = frame
  length : ∀ place frame, returned ≤ place → place < writtenBack → stored[place]? = some frame →
    mem.readU16 (l.rx.descAt (place % 32) + 8) = frame.length
  done : ∀ place, returned ≤ place → place < writtenBack → (released → place ≠ returned) →
    e1000StatDd (mem (l.rx.descAt (place % 32) + 12)) = true
  clear : ∀ place, writtenBack ≤ place → place < returned + 32 →
    e1000StatDd (mem (l.rx.descAt (place % 32) + 12)) = false
  cleared : released → e1000StatDd (mem (l.rx.descAt (returned % 32) + 12)) = false

section Held

variable {l : E1000Layout} {mem after : Mem} {stored : List (List UInt8)}
  {returned writtenBack : Nat} {released : Prop} {frame : List UInt8}

theorem rx_bound (place : Nat) : place % 32 < l.rx.count := Nat.mod_lt _ (by decide)

theorem RxHeld.same (held : RxHeld l mem stored returned writtenBack released)
    (sizes : ∀ frame ∈ stored, frame.length ≤ e1000RxBufSize) (kept : l.rx.Kept mem after) :
    RxHeld l after stored returned writtenBack released := by
  have slots : ∀ place, l.rx.SameSlot (place % 32) mem after := fun place =>
    kept.sameSlot (rx_bound place)
  have status : ∀ place, after (l.rx.descAt (place % 32) + 12) = mem (l.rx.descAt (place % 32) + 12) :=
    fun place => (slots place).byte (by omega) (by omega)
  refine ⟨fun slot bound => (kept.address bound).trans (held.address slot bound), ?_, ?_, ?_, ?_, ?_⟩
  · intro place frame lower here
    rw [(slots place).buffer (sizes frame (List.mem_of_getElem? here))]
    exact held.buffer place frame lower here
  · intro place frame lower upper here
    rw [(slots place).length]
    exact held.length place frame lower upper here
  · intro place lower upper notReleased
    rw [status]
    exact held.done place lower upper notReleased
  · intro place lower upper
    rw [status]
    exact held.clear place lower upper
  · intro isReleased
    rw [status]
    exact held.cleared isReleased

theorem RxHeld.receive (apart : l.Apart) (held : RxHeld l mem stored returned writtenBack released)
    (sizes : ∀ frame ∈ stored, frame.length ≤ e1000RxBufSize) (small : frame.length ≤ e1000RxBufSize)
    (back : writtenBack ≤ stored.length) (room : stored.length < returned + 31) :
    RxHeld l (mem.store (l.rx.bufAt (stored.length % 32)) frame) (stored ++ [frame]) returned
    writtenBack released := by
  have descs : ∀ place offset, offset < 16 → mem.store (l.rx.bufAt (stored.length % 32)) frame
      (l.rx.descAt (place % 32) + offset) = mem (l.rx.descAt (place % 32) + offset) :=
    fun place offset inside => DescriptorRing.bufferStore_desc apart.rx (rx_bound _)
      (rx_bound _) small inside
  have only : l.rx.OnlySlot (stored.length % 32) mem
    (mem.store (l.rx.bufAt (stored.length % 32)) frame) := by
    have stores := @DescriptorRing.onlySlot_buffer l.rx (stored.length % 32) mem frame 0
      (by rw [Nat.zero_add]; exact small)
    rwa [Nat.add_zero] at stores
  have olds : ∀ place frame', place < writtenBack → (stored ++ [frame])[place]? = some frame' →
    stored[place]? = some frame' :=
    fun place frame' before here => by rwa [List.getElem?_append_left (by omega)] at here
  refine ⟨fun slot bound => (only.address apart.rx (rx_bound _) bound).trans (held.address slot bound),
    ?_, ?_, ?_, ?_, ?_⟩
  · intro place frame' lower here
    rcases Nat.lt_or_ge place stored.length with before | behind
    · rw [List.getElem?_append_left before] at here
      have same := only.sameSlot apart.rx (rx_bound stored.length) (rx_bound place) (by omega)
      rw [same.buffer (sizes frame' (List.mem_of_getElem? here))]
      exact held.buffer place frame' lower here
    · rw [List.getElem?_append_right behind] at here
      obtain ⟨bound, isFrame⟩ := List.getElem?_eq_some_iff.mp here
      rw [List.length_singleton] at bound
      rw [show place = stored.length by omega, ← isFrame, List.getElem_singleton]
      exact Mem.read_store_same _ _ _
  · intro place frame' lower upper here
    rw [← held.length place frame' lower upper (olds place frame' upper here)]
    refine Mem.readLE_congr fun offset below => ?_
    rw [Nat.add_assoc]
    exact descs place _ (by omega)
  · intro place lower upper notReleased
    rw [descs place 12 (by omega)]
    exact held.done place lower upper notReleased
  · intro place lower upper
    rw [descs place 12 (by omega)]
    exact held.clear place lower upper
  · intro isReleased
    rw [descs returned 12 (by omega)]
    exact held.cleared isReleased

theorem RxHeld.writeBack (apart : l.Apart) (held : RxHeld l mem stored returned writtenBack released)
    (sizes : ∀ frame ∈ stored, frame.length ≤ e1000RxBufSize) (here : stored[writtenBack]? = some frame)
    (order : returned ≤ writtenBack) (room : writtenBack < returned + 32)
    (released' : released → returned < writtenBack)
    {rest : List UInt8} {status : UInt8} (report : rest.length = 6)
    (isStatus : rest.getD 2 0 = status) (done : e1000StatDd status = true) :
    RxHeld l (mem.store (l.rx.descAt (writtenBack % 32) + 8) (Mem.leBytes 2 frame.length ++ rest))
      stored returned (writtenBack + 1) released := by
  have size : (Mem.leBytes 2 frame.length ++ rest).length = 8 := by
    rw [List.length_append, Mem.leBytes_length, report]
  have only : l.rx.OnlySlot (writtenBack % 32) mem
      (mem.store (l.rx.descAt (writtenBack % 32) + 8) (Mem.leBytes 2 frame.length ++ rest)) :=
    DescriptorRing.onlySlot_desc (by omega) (by omega)
  have others : ∀ place, place ≠ writtenBack → place < writtenBack + 32 → writtenBack < place + 32 →
      l.rx.SameSlot (place % 32) mem (mem.store (l.rx.descAt (writtenBack % 32) + 8)
        (Mem.leBytes 2 frame.length ++ rest)) :=
    fun place different upper lower => only.sameSlot apart.rx (rx_bound _) (rx_bound _) (by omega)
  have whole : (mem.store (l.rx.descAt (writtenBack % 32) + 8)
    (Mem.leBytes 2 frame.length ++ rest)).read
      (l.rx.descAt (writtenBack % 32) + 8) 8 = Mem.leBytes 2 frame.length ++ rest := by
    rw [← size]
    exact Mem.read_store_same _ _ _
  have small := sizes frame (List.mem_of_getElem? here)
  rw [e1000RxBufSize] at small
  refine ⟨fun slot bound => (only.address apart.rx (rx_bound _) bound).trans (held.address slot bound),
    ?_, ?_, ?_, ?_, ?_⟩
  · intro place frame' lower there
    rw [DescriptorRing.descStore_buffer apart.rx (rx_bound _) (rx_bound _) (by omega)
      (sizes frame' (List.mem_of_getElem? there))]
    exact held.buffer place frame' lower there
  · intro place frame' lower upper there
    by_cases last : place = writtenBack
    · rw [last, here] at there
      cases there
      rw [last]
      rw [show 8 = 2 + 6 from rfl, Mem.read_add] at whole
      have word := (List.append_inj whole (by simp)).1
      exact (Mem.readLE_leBytes word).trans (Nat.mod_eq_of_lt (by omega))
    · rw [(others place last (by omega) (by omega)).length]
      exact held.length place frame' lower (by omega) there
  · intro place lower upper notReleased
    by_cases last : place = writtenBack
    · rw [last]
      have byte := congrArg (fun bytes : List UInt8 => bytes.getD 4 0) whole
      have inRest : (Mem.leBytes 2 frame.length ++ rest).getD 4 0 = rest.getD 2 0 := by
        rw [List.getD_append_right _ _ _ _ (by rw [Mem.leBytes_length]; omega), Mem.leBytes_length]
      rw [inRest, isStatus] at byte
      have read : (mem.store (l.rx.descAt (writtenBack % 32) + 8)
          (Mem.leBytes 2 frame.length ++ rest)) (l.rx.descAt (writtenBack % 32) + 12) = status := by
        rw [← byte]
        simp [Mem.read, Nat.add_assoc]
      rw [read]
      exact done
    · rw [(others place last (by omega) (by omega)).byte (by omega) (by omega)]
      exact held.done place lower (by omega) notReleased
  · intro place lower upper
    rw [(others place (by omega) (by omega) (by omega)).byte (by omega) (by omega)]
    exact held.clear place (by omega) upper
  · intro isReleased
    have before := released' isReleased
    rw [(others returned (by omega) (by omega) (by omega)).byte (by omega) (by omega)]
    exact held.cleared isReleased

theorem RxHeld.release (apart : l.Apart) (held : RxHeld l mem stored returned writtenBack released)
    (sizes : ∀ frame ∈ stored, frame.length ≤ e1000RxBufSize) (notReleased : ¬released)
    (waits : returned < writtenBack) (room : writtenBack ≤ returned + 31) :
    RxHeld l (mem.set (l.rx.descAt (returned % 32) + 12) 0) stored returned writtenBack True := by
  have only : l.rx.OnlySlot (returned % 32) mem (mem.set (l.rx.descAt (returned % 32) + 12) 0) :=
    DescriptorRing.onlySlot_set (by omega) (by omega)
  have others : ∀ place, returned < place → place < returned + 32 →
      l.rx.SameSlot (place % 32) mem (mem.set (l.rx.descAt (returned % 32) + 12) 0) :=
    fun place lower upper => only.sameSlot apart.rx (rx_bound _) (rx_bound _) (by omega)
  refine ⟨fun slot bound => (only.address apart.rx (rx_bound _) bound).trans (held.address slot bound),
    ?_, ?_, ?_, ?_, ?_⟩
  · intro place frame lower here
    rw [← Mem.store_singleton, DescriptorRing.descStore_buffer apart.rx (rx_bound _)
      (rx_bound _) (by simp) (sizes frame (List.mem_of_getElem? here))]
    exact held.buffer place frame lower here
  · intro place frame lower upper here
    rw [← held.length place frame lower upper here]
    exact Mem.readLE_congr fun offset below =>
      Mem.set_other _ _ (by simp only [DescriptorRing.descAt]; omega)
  · intro place lower upper notFirst
    have different := notFirst trivial
    rw [(others place (by omega) (by omega)).byte (by omega) (by omega)]
    exact held.done place lower upper fun isReleased => absurd isReleased notReleased
  · intro place lower upper
    rw [(others place (by omega) upper).byte (by omega) (by omega)]
    exact held.clear place lower upper
  · intro _
    rw [Mem.set_same]
    rfl

theorem RxHeld.handBack (held : RxHeld l mem stored returned writtenBack True) :
    RxHeld l mem stored (returned + 1) writtenBack False := by
  refine ⟨held.address, fun place frame lower => held.buffer place frame (by omega),
    fun place frame lower => held.length place frame (by omega), fun place lower upper _ =>
      held.done place (by omega) upper fun _ => by omega, fun place lower upper => ?_, False.elim⟩
  by_cases last : place = returned + 32
  · rw [last, Nat.add_mod_right]
    exact held.cleared trivial
  · exact held.clear place lower (by omega)

end Held

def E1000Phase.Releases : E1000Phase → Prop
  | .handBack _ => True
  | _ => False

def E1000Phase.Polls (outCapacity : Nat) (rx : E1000Rx) : E1000Phase → Prop
  | .copy => rx.returned.length < rx.writtenBack
  | .release out | .handBack out =>
      rx.returned.length < rx.writtenBack ∧ ∃ frame, rx.stored[rx.returned.length]? = some frame ∧
        out = frame.take outCapacity
  | _ => True

def rxBuffer (stored : List (List UInt8)) (place : Nat) : RxFilled :=
  ⟨place % 32, (stored.getD place []).length⟩

structure ReceiveAgrees (l : E1000Layout) (outCapacity : Nat) (mem : Mem) (phase : E1000Phase)
    (rx : E1000Rx) : Prop where
  base : rx.rdbal + 2 ^ 32 * rx.rdbah = l.rxDesc
  rdlen : rx.rdlen = 512
  enabled : rx.rctl.testBit e1000RctlEn = true
  strips : rx.rctl.testBit e1000RctlSecrc = true
  back : rx.filled.length ≤ rx.stored.length
  order : rx.returned.length ≤ rx.writtenBack
  room : rx.stored.length ≤ rx.returned.length + 31
  rdh : rx.rdh = rx.stored.length % 32
  rdt : rx.rdt = (rx.returned.length + 31) % 32
  head : rx.head = rx.returned.length % 32
  filled : rx.filled = (List.range' rx.writtenBack rx.filled.length).map (rxBuffer rx.stored)
  returned : rx.returned = (rx.stored.take rx.returned.length).map (List.take outCapacity)
  least : ∀ frame ∈ rx.stored, 60 ≤ frame.length
  most : ∀ frame ∈ rx.stored, frame.length ≤ e1000RxBufSize
  held : RxHeld l mem rx.stored rx.returned.length rx.writtenBack phase.Releases
  polls : phase.Polls outCapacity rx

section Agrees

variable {l : E1000Layout} {outCapacity : Nat} {mem after : Mem} {phase next : E1000Phase}
  {rx later : E1000Rx} {out : List UInt8}

section

variable (agrees : ReceiveAgrees l outCapacity mem phase rx)
include agrees

theorem ReceiveAgrees.go (notReleases : ¬phase.Releases)
    (polls : next.Polls outCapacity rx) (notNext : ¬next.Releases) :
    ReceiveAgrees l outCapacity mem next rx :=
  { agrees with
    held := ⟨agrees.held.address, agrees.held.buffer, agrees.held.length,
      fun place lower upper _ => agrees.held.done place lower upper fun releases =>
      absurd releases notReleases, agrees.held.clear, fun releases => absurd releases notNext⟩
    polls }

theorem ReceiveAgrees.kept (kept : l.rx.Kept mem after) :
    ReceiveAgrees l outCapacity after phase rx :=
  { agrees with held := agrees.held.same agrees.most kept }

theorem ReceiveAgrees.dd (notReleases : ¬phase.Releases) :
    e1000StatDd (mem (l.rx.descAt rx.head + 12)) = true ↔ rx.returned.length < rx.writtenBack := by
  rw [agrees.head]
  constructor
  · intro done
    by_contra late
    have clear := agrees.held.clear rx.returned.length (by omega) (by omega)
    rw [done] at clear
    exact Bool.false_ne_true clear.symm
  · intro waits
    exact agrees.held.done _ (Nat.le_refl _) waits fun releases => absurd releases notReleases

end

theorem ReceiveAgrees.copy (agrees : ReceiveAgrees l outCapacity mem .copy rx) :
    ReceiveAgrees l outCapacity mem (.release (mem.read (l.rx.bufAt rx.head)
      (if mem.readU16 (l.rx.descAt rx.head + 8) > outCapacity then outCapacity
      else mem.readU16 (l.rx.descAt rx.head + 8)))) rx := by
  have waits : rx.returned.length < rx.writtenBack := agrees.polls
  have inside : rx.returned.length < rx.stored.length := Nat.lt_of_lt_of_le waits (Nat.sub_le _ _)
  have here := List.getElem?_eq_getElem inside
  have length := agrees.held.length _ _ (Nat.le_refl _) waits here
  have buffer := agrees.held.buffer _ _ (Nat.le_refl _) here
  refine agrees.go id ⟨waits, _, here, ?_⟩ id
  rw [agrees.head, length]
  have cut := @Mem.read_slice mem (l.rx.bufAt (rx.returned.length % 32))
    rx.stored[rx.returned.length].length 0 (Nat.zero_le _) outCapacity
  rw [List.drop_zero, Nat.add_zero, Nat.sub_zero, buffer] at cut
  rw [cut]
  congr 1
  split <;> omega

theorem ReceiveAgrees.release (apart : l.Apart)
    (agrees : ReceiveAgrees l outCapacity mem (.release out) rx) :
    ReceiveAgrees l outCapacity (mem.set (l.rx.descAt rx.head + 12) 0) (.handBack out) rx ∧
      l.tx.Kept mem (mem.set (l.rx.descAt rx.head + 12) 0) := by
  obtain ⟨waits, isFrame⟩ := agrees.polls
  have room := agrees.room
  have backs : rx.writtenBack ≤ rx.stored.length := Nat.sub_le _ _
  rw [agrees.head]
  refine ⟨{ agrees with
    held := agrees.held.release apart agrees.most id waits (by omega)
    polls := ⟨waits, isFrame⟩ }, ?_⟩
  exact (DescriptorRing.onlySlot_set (by omega) (by omega)).kept (rx_bound _) apart.disjoint

theorem ReceiveAgrees.handBack (agrees : ReceiveAgrees l outCapacity mem (.handBack out) rx)
    (some' : 0 < outCapacity) :
    ReceiveAgrees l outCapacity mem .idle (rx.handBack out) ∧
    (rx.handBack out).returned = rx.returned ++ [out] := by
  obtain ⟨waits, frame, here, isOut⟩ := agrees.polls
  obtain ⟨inside, isFrame⟩ := List.getElem?_eq_some_iff.mp here
  have least := agrees.least frame (List.mem_of_getElem? here)
  have notEmpty : out.length > 0 := by
    rw [isOut, List.length_take]
    omega
  have gives : (rx.handBack out).returned = rx.returned ++ [out] := if_pos notEmpty
  have longer : (rx.handBack out).returned.length = rx.returned.length + 1 := by
    rw [gives, List.length_append, List.length_singleton]
  have head := agrees.head
  have room := agrees.room
  have backs : (rx.handBack out).writtenBack = rx.writtenBack := rfl
  refine ⟨?_, gives⟩
  exact {
    base := agrees.base
    rdlen := agrees.rdlen
    enabled := agrees.enabled
    strips := agrees.strips
    back := agrees.back
    order := by rw [longer, backs]; exact waits
    room := by
      rw [longer]
      change rx.stored.length ≤ rx.returned.length + 1 + 31
      omega
    rdh := agrees.rdh
    rdt := by
      rw [longer]
      change rx.head = _
      omega
    head := by
      rw [longer]
      change (rx.head + 1) % e1000RxDescCount = _
      rw [head, e1000RxDescCount]
      omega
    filled := agrees.filled
    returned := by
      rw [longer, gives]
      change _ = List.map _ (rx.stored.take (rx.returned.length + 1))
      rw [List.take_succ_eq_append_getElem inside, List.map_append, ← agrees.returned, isOut, isFrame]
      rfl
    least := agrees.least
    most := agrees.most
    held := by
      rw [longer]
      exact agrees.held.handBack
    polls := trivial }

theorem ReceiveAgrees.full (agrees : ReceiveAgrees l outCapacity mem phase rx) :
    rx.rdh = rx.rdt ↔ rx.stored.length = rx.returned.length + 31 := by
  have order := agrees.order
  have backs : rx.writtenBack ≤ rx.stored.length := Nat.sub_le _ _
  have room := agrees.room
  rw [agrees.rdh, agrees.rdt]
  omega

theorem Polls.card (polls : phase.Polls outCapacity rx) (returned : later.returned = rx.returned)
    (stored : ∃ more, later.stored = rx.stored ++ more)
    (backs : rx.writtenBack ≤ later.writtenBack) : phase.Polls outCapacity later := by
  obtain ⟨more, isLater⟩ := stored
  cases phase with
  | copy =>
      rw [E1000Phase.Polls, returned]
      exact Nat.lt_of_lt_of_le polls backs
  | release | handBack =>
      obtain ⟨waits, frame, here, isOut⟩ := polls
      rw [E1000Phase.Polls, returned, isLater]
      refine ⟨Nat.lt_of_lt_of_le waits backs, frame, ?_, isOut⟩
      rwa [List.getElem?_append_left (List.getElem?_eq_some_iff.mp here).1]
  | idle | awaitFree | checkFree | fill | ring | awaitSent | checkSent => trivial

theorem rxBuffer_append {stored : List (List UInt8)} {frame : List UInt8} {first count : Nat}
    (before : first + count ≤ stored.length) :
    (List.range' first count).map (rxBuffer (stored ++ [frame])) =
    (List.range' first count).map (rxBuffer stored) := by
  refine List.map_congr_left fun place member => ?_
  obtain ⟨_, upper⟩ := List.mem_range'_1.mp member
  rw [rxBuffer, List.getD_append _ _ _ _ (by omega)]
  rfl

theorem ReceiveAgrees.receive (apart : l.Apart) {packet : E1000Frame}
    (agrees : ReceiveAgrees l outCapacity mem phase rx)
    (taken : rx.receive packet mem = some (after, later)) :
    ReceiveAgrees l outCapacity after phase later ∧ l.tx.Kept mem after ∧
      later.returned = rx.returned ∧ later.stored = rx.stored ++ [packet.frame] := by
  have back := agrees.back
  have order := agrees.order
  have room := agrees.room
  rw [E1000Rx.receive] at taken
  split at taken
  next waits =>
    have less : rx.stored.length < rx.returned.length + 31 := by
      have notFull := mt agrees.full.mpr waits.2
      omega
    have desc : rx.rdbal + 2 ^ 32 * rx.rdbah + 16 * rx.rdh = l.rx.descAt (rx.stored.length % 32) := by
      rw [agrees.base, agrees.rdh]
      rfl
    dsimp only at taken
    rw [if_pos agrees.strips, desc, agrees.held.address _ (Nat.mod_lt _ (by decide)), agrees.rdh] at taken
    cases taken
    have small : packet.frame.length ≤ e1000RxBufSize := Nat.le_trans packet.most (by decide)
    have longer : (rx.filled ++
      [(⟨rx.stored.length % 32, packet.frame.length⟩ : RxFilled)]).length = rx.filled.length + 1 :=
      List.length_append
    have storedLonger : (rx.stored ++ [packet.frame]).length = rx.stored.length + 1 := List.length_append
    have backs : rx.writtenBack + rx.filled.length = rx.stored.length := by
      rw [E1000Rx.writtenBack]
      omega
    have sameBack : (rx.stored ++ [packet.frame]).length -
        (rx.filled ++ [(⟨rx.stored.length % 32, packet.frame.length⟩ : RxFilled)]).length = rx.writtenBack := by
      rw [longer, storedLonger, E1000Rx.writtenBack]
      omega
    refine ⟨?_, ?_, rfl, rfl⟩
    · exact {
        base := agrees.base
        rdlen := agrees.rdlen
        enabled := agrees.enabled
        strips := agrees.strips
        back := by
          change (rx.filled ++ [_]).length ≤ (rx.stored ++ [packet.frame]).length
          rw [longer, storedLonger]
          omega
        order := order.trans_eq sameBack.symm
        room := by
          change (rx.stored ++ [packet.frame]).length ≤ _
          rw [storedLonger]
          exact less
        rdh := by
          change (rx.stored.length % 32 + 1) % (rx.rdlen / 16) = (rx.stored ++ [packet.frame]).length % 32
          rw [storedLonger, agrees.rdlen]
          omega
        rdt := agrees.rdt
        head := agrees.head
        filled := by
          rw [E1000Rx.writtenBack, sameBack, longer, List.range'_1_concat, List.map_append,
            rxBuffer_append (Nat.le_of_eq backs), ← agrees.filled, backs]
          simp [rxBuffer]
        returned := by
          refine agrees.returned.trans (congrArg _ (List.take_append_of_le_length ?_).symm)
          omega
        least := fun frame member => (List.mem_append.mp member).elim (agrees.least frame) fun new => by
          rw [List.mem_singleton.mp new]
          exact packet.least
        most := fun frame member => (List.mem_append.mp member).elim (agrees.most frame) fun new => by
          rw [List.mem_singleton.mp new]
          exact small
        held := by
          have held := agrees.held.receive apart agrees.most small (Nat.sub_le _ _) less
          rw [← sameBack] at held
          exact held
        polls := Polls.card agrees.polls rfl ⟨_, rfl⟩ (Nat.le_of_eq sameBack.symm) }
    · have only := @DescriptorRing.onlySlot_buffer l.rx (rx.stored.length % 32) mem packet.frame 0
        (by rw [Nat.zero_add]; exact small)
      rw [Nat.add_zero] at only
      exact only.kept (rx_bound _) apart.disjoint
  next => cases taken

theorem ReceiveAgrees.writeBack (apart : l.Apart) {report : RxReport}
    (agrees : ReceiveAgrees l outCapacity mem phase rx)
    (taken : rx.writeBack report mem = some (after, later)) :
    ReceiveAgrees l outCapacity after phase later ∧ l.tx.Kept mem after ∧ later.returned = rx.returned ∧
      later.stored = rx.stored ∧ later.writtenBack = rx.writtenBack + 1 := by
  have back := agrees.back
  have order := agrees.order
  have room := agrees.room
  have filled := agrees.filled
  rw [E1000Rx.writeBack] at taken
  split at taken
  next => cases taken
  next buffer rest isFilled =>
    rw [isFilled, List.length_cons, List.range'_succ, List.map_cons, List.cons.injEq] at filled
    rw [isFilled, List.length_cons] at back
    obtain ⟨isBuffer, isRest⟩ := filled
    have grows : rx.stored.length - rest.length = rx.writtenBack + 1 := by
      rw [E1000Rx.writtenBack, isFilled, List.length_cons]
      omega
    have inside : rx.writtenBack < rx.stored.length := by omega
    have desc : rx.rdbal + 2 ^ 32 * rx.rdbah + 16 * buffer.slot + 8 =
      l.rx.descAt (rx.writtenBack % 32) + 8 := by
      rw [agrees.base, isBuffer]
      rfl
    have length : buffer.length = rx.stored[rx.writtenBack].length := by
      rw [isBuffer, rxBuffer, List.getD_eq_getElem _ _ inside]
    dsimp only at taken
    rw [desc, length, List.append_assoc, List.append_assoc] at taken
    cases taken
    have released : phase.Releases → rx.returned.length < rx.writtenBack := by
      intro releases
      have polls := agrees.polls
      cases phase with
      | handBack => exact polls.1
      | idle | awaitFree | checkFree | fill | ring | awaitSent | checkSent | copy | release =>
          exact releases.elim
    have bytes : (Mem.leBytes 2 report.checksum.toNat ++
        ([report.status, report.errors] ++ Mem.leBytes 2 report.special.toNat)).length = 6 := by simp
    have held := agrees.held.writeBack apart agrees.most (List.getElem?_eq_getElem inside) order
      (by omega) released bytes rfl report.dd
    refine ⟨?_, ?_, rfl, rfl, grows⟩
    · exact {
        base := agrees.base
        rdlen := agrees.rdlen
        enabled := agrees.enabled
        strips := agrees.strips
        back := by
          change rest.length ≤ rx.stored.length
          omega
        order := by
          rw [E1000Rx.writtenBack, grows]
          exact Nat.le_succ_of_le order
        room := room
        rdh := agrees.rdh
        rdt := agrees.rdt
        head := agrees.head
        filled := by
          rw [E1000Rx.writtenBack, grows]
          exact isRest
        returned := agrees.returned
        least := agrees.least
        most := agrees.most
        held := by
          rw [← grows] at held
          exact held
        polls := Polls.card agrees.polls rfl ⟨[], (List.append_nil _).symm⟩
          ((Nat.le_succ _).trans_eq grows.symm) }
    · exact (DescriptorRing.onlySlot_desc (by omega) (by simp)).kept (rx_bound _) apart.disjoint

end Agrees

theorem setupRx_spec {l : E1000Layout} {mem after : Mem} {rx : E1000Rx} {outCapacity : Nat}
    (apart : l.Apart)
    (set : e1000SetupRx l mem = some (after, rx)) : ReceiveAgrees l outCapacity after .idle rx := by
  rw [e1000SetupRx] at set
  split at set
  next => cases set
  next =>
    rw [Option.some.injEq, Prod.mk.injEq] at set
    obtain ⟨isAfter, rfl⟩ := set
    have setup := @DescriptorRing.setup_spec l.rx
      ((mem.fill l.rxDesc (16 * e1000RxDescCount) 0).fill l.rxBuf
      (e1000RxBufSize * e1000RxDescCount) 0) 0 apart.small.2.2.1 (Nat.succ_pos _)
    rw [show l.rx.count = e1000RxDescCount from rfl, isAfter] at setup
    obtain ⟨descs, -⟩ := setup
    exact {
      base := Nat.mod_add_div _ _
      rdlen := rfl
      enabled := (by decide : (0x2 ||| 0x8 ||| 0x10 ||| 0x8000 ||| 0x04000000).testBit e1000RctlEn = true)
      strips := (by decide : (0x2 ||| 0x8 ||| 0x10 ||| 0x8000 ||| 0x04000000).testBit e1000RctlSecrc = true)
      back := Nat.le_refl _
      order := Nat.le_refl _
      room := Nat.zero_le _
      rdh := rfl
      rdt := rfl
      head := rfl
      filled := rfl
      returned := rfl
      least := fun _ member => absurd member List.not_mem_nil
      most := fun _ member => absurd member List.not_mem_nil
      held := {
        address := fun slot bound => (descs slot bound).1
        buffer := fun _ _ _ here => absurd here (Option.some_ne_none _).symm
        length := fun _ _ _ _ here => absurd here (Option.some_ne_none _).symm
        done := fun _ _ below => absurd below (Nat.not_lt_zero _)
        clear := fun place _ _ => by
          rw [(descs (place % 32) (Nat.mod_lt _ (by decide))).2]
          rfl
        cleared := False.elim }
      polls := trivial }

end Szczupak
