import Szczupak.Net.E1000Core

/-!
Sending over the E1000, whatever the order in which driver and card get to the memory.  Places in
the stream of frames only grow: the first `writtenBack` are back with the driver, those up to
`sent` are on the wire, those up to `fetched` read by the card, and those up to `handed` handed
over.  The slot of a place is the place modulo the ring.
-/

namespace Szczupak

section Frames

variable {frame : List UInt8}

theorem e1000Pad_length : (e1000Pad frame).length = if frame.length < 60 then 60 else frame.length := by
  simp only [e1000Pad, List.length_append, List.length_replicate]
  split <;> omega

theorem e1000Pad_bounds (most : frame.length ≤ e1000TxBufSize) :
    60 ≤ (e1000Pad frame).length ∧ (e1000Pad frame).length ≤ 2048 := by
  rw [e1000TxBufSize] at most
  rw [e1000Pad_length]
  split <;> omega

end Frames

structure TxFilled (l : E1000Layout) (mem : Mem) (slot : Nat) (frame : List UInt8) : Prop where
  buffer : mem.read (l.tx.bufAt slot) (e1000Pad frame).length = e1000Pad frame
  length : mem.readU16 (l.tx.descAt slot + 8) = (e1000Pad frame).length
  cmd : mem (l.tx.descAt slot + 11) = e1000TxdCmd

/-- `filling` says that the driver works on the slot behind the last frame. -/
structure TxHeld (l : E1000Layout) (mem : Mem) (handed : List (List UInt8))
    (writtenBack sent fetched : Nat) (filling : Prop) : Prop where
  address : ∀ slot < 32, mem.readU64 (l.tx.descAt slot) = l.tx.bufAt slot
  buffer : ∀ place frame, sent ≤ place → handed[place]? = some frame →
    mem.read (l.tx.bufAt (place % 32)) (e1000Pad frame).length = e1000Pad frame
  described : ∀ place frame, fetched ≤ place → handed[place]? = some frame →
    mem.readU16 (l.tx.descAt (place % 32) + 8) = (e1000Pad frame).length ∧
      mem (l.tx.descAt (place % 32) + 11) = e1000TxdCmd
  waits : ∀ place, writtenBack ≤ place → place < handed.length →
    e1000StatDd (mem (l.tx.descAt (place % 32) + 12)) = false
  free : ∀ place, handed.length ≤ place → place < writtenBack + 32 →
    (filling → place ≠ handed.length) → e1000StatDd (mem (l.tx.descAt (place % 32) + 12)) = true

section Held

variable {l : E1000Layout} {mem after : Mem} {handed : List (List UInt8)}
  {writtenBack sent fetched slot : Nat} {filling : Prop} {frame : List UInt8}

theorem TxFilled.same (filled : TxFilled l mem slot frame) (same : l.tx.SameSlot slot mem after)
    (most : frame.length ≤ e1000TxBufSize) : TxFilled l after slot frame :=
  ⟨(same.buffer (e1000Pad_bounds most).2).trans filled.buffer, same.length.trans filled.length,
    (same.byte (by omega) (by omega)).trans filled.cmd⟩

theorem TxHeld.same {filling' : Prop} (held : TxHeld l mem handed writtenBack sent fetched filling)
    (sizes : ∀ frame ∈ handed, frame.length ≤ e1000TxBufSize)
    (address : ∀ slot < 32, after.readU64 (l.tx.descAt slot) = mem.readU64 (l.tx.descAt slot))
    (slots : ∀ place, writtenBack ≤ place → place < writtenBack + 32 →
      (filling' → place ≠ handed.length) → l.tx.SameSlot (place % 32) mem after)
    (still : filling → filling') (order : writtenBack ≤ sent ∧ writtenBack ≤ fetched ∧
    writtenBack ≤ handed.length) (room : handed.length ≤ writtenBack + 32) :
    TxHeld l after handed writtenBack sent fetched filling' := by
  have inside : ∀ place, writtenBack ≤ place → place < handed.length →
    l.tx.SameSlot (place % 32) mem after :=
    fun place lower upper => slots place lower (by omega) fun _ => by omega
  refine ⟨fun slot bound => (address slot bound).trans (held.address slot bound), ?_, ?_, ?_, ?_⟩
  · intro place frame lower here
    obtain ⟨bound, isFrame⟩ := List.getElem?_eq_some_iff.mp here
    have most := sizes frame (isFrame ▸ List.getElem_mem bound)
    rw [(inside place (by omega) bound).buffer (e1000Pad_bounds most).2]
    exact held.buffer place frame lower here
  · intro place frame lower here
    obtain ⟨bound, _⟩ := List.getElem?_eq_some_iff.mp here
    have same := inside place (by omega) bound
    rw [same.length, same.byte (by omega) (by omega)]
    exact held.described place frame lower here
  · intro place lower upper
    rw [(inside place lower upper).byte (by omega) (by omega)]
    exact held.waits place lower upper
  · intro place lower upper notFilled
    rw [(slots place (by omega) upper notFilled).byte (by omega) (by omega)]
    exact held.free place lower upper fun fills => notFilled (still fills)

theorem TxHeld.fill (apart : l.Apart) (held : TxHeld l mem handed writtenBack sent fetched filling)
    (sizes : ∀ frame ∈ handed, frame.length ≤ e1000TxBufSize)
    (only : l.tx.OnlySlot (handed.length % 32) mem after)
    (order : writtenBack ≤ sent ∧ writtenBack ≤ fetched ∧ writtenBack ≤ handed.length)
    (room : handed.length < writtenBack + 32) :
    TxHeld l after handed writtenBack sent fetched True := by
  have bound : ∀ place, place % 32 < l.tx.count := fun place => Nat.mod_lt _ (by decide)
  refine held.same sizes (fun slot small => only.address apart.tx (bound _) small)
    (fun place lower upper behind => ?_) (fun _ => trivial) order (Nat.le_of_lt room)
  have different := behind trivial
  exact only.sameSlot apart.tx (bound _) (bound _) (by omega)

theorem TxHeld.ring (held : TxHeld l mem handed writtenBack sent fetched True)
    (filled : TxFilled l mem (handed.length % 32) frame)
    (clear : e1000StatDd (mem (l.tx.descAt (handed.length % 32) + 12)) = false) :
    TxHeld l mem (handed ++ [frame]) writtenBack sent fetched False := by
  have cases : ∀ place frame', (handed ++ [frame])[place]? = some frame' →
      handed[place]? = some frame' ∨ place = handed.length ∧ frame' = frame := by
    intro place frame' here
    rcases Nat.lt_or_ge place handed.length with before | behind
    · left
      rwa [List.getElem?_append_left before] at here
    · rw [List.getElem?_append_right behind] at here
      obtain ⟨bound, isFrame⟩ := List.getElem?_eq_some_iff.mp here
      rw [List.length_singleton] at bound
      refine Or.inr ⟨by omega, ?_⟩
      rw [← isFrame, List.getElem_singleton]
  refine ⟨held.address, ?_, ?_, ?_, ?_⟩
  · intro place frame' lower here
    rcases cases place frame' here with before | ⟨rfl, rfl⟩
    · exact held.buffer place frame' lower before
    · exact filled.buffer
  · intro place frame' lower here
    rcases cases place frame' here with before | ⟨rfl, rfl⟩
    · exact held.described place frame' lower before
    · exact ⟨filled.length, filled.cmd⟩
  · intro place lower upper
    rw [List.length_append, List.length_singleton] at upper
    by_cases last : place = handed.length
    · rw [last]
      exact clear
    · exact held.waits place lower (by omega)
  · intro place lower upper _
    rw [List.length_append, List.length_singleton] at lower
    exact held.free place (by omega) upper fun _ => by omega

theorem TxHeld.later {sent' fetched' : Nat}
    (held : TxHeld l mem handed writtenBack sent fetched filling)
    (sends : sent ≤ sent') (fetches : fetched ≤ fetched') :
    TxHeld l mem handed writtenBack sent' fetched' filling :=
  ⟨held.address, fun place frame lower => held.buffer place frame (by omega),
    fun place frame lower => held.described place frame (by omega), held.waits, held.free⟩

theorem TxHeld.writeBack (apart : l.Apart) (held : TxHeld l mem handed writtenBack sent fetched filling)
    (sizes : ∀ frame ∈ handed, frame.length ≤ e1000TxBufSize)
    (order : writtenBack < sent ∧ sent ≤ fetched)
    (handedOver : writtenBack < handed.length) (room : handed.length ≤ writtenBack + 32)
    {status : UInt8} (done : e1000StatDd status = true) :
    TxHeld l (mem.set (l.tx.descAt (writtenBack % 32) + 12) status) handed
    (writtenBack + 1) sent fetched filling := by
  have bound : ∀ place, place % 32 < l.tx.count := fun place => Nat.mod_lt _ (by decide)
  have only : l.tx.OnlySlot (writtenBack % 32) mem
    (mem.set (l.tx.descAt (writtenBack % 32) + 12) status) :=
    DescriptorRing.onlySlot_set (by omega) (by omega)
  have others : ∀ place, writtenBack < place → place < writtenBack + 32 →
      l.tx.SameSlot (place % 32) mem (mem.set (l.tx.descAt (writtenBack % 32) + 12) status) :=
    fun place lower upper => only.sameSlot apart.tx (bound _) (bound _) (by omega)
  refine ⟨fun slot small => (only.address apart.tx (bound _) small).trans (held.address slot small),
    ?_, ?_, ?_, ?_⟩
  · intro place frame lower here
    obtain ⟨inside, isFrame⟩ := List.getElem?_eq_some_iff.mp here
    have most := sizes frame (isFrame ▸ List.getElem_mem inside)
    rw [(others place (by omega) (by omega)).buffer (e1000Pad_bounds most).2]
    exact held.buffer place frame lower here
  · intro place frame lower here
    obtain ⟨inside, _⟩ := List.getElem?_eq_some_iff.mp here
    have same := others place (by omega) (by omega)
    rw [same.length, same.byte (by omega) (by omega)]
    exact held.described place frame lower here
  · intro place lower upper
    rw [(others place (by omega) (by omega)).byte (by omega) (by omega)]
    exact held.waits place (by omega) upper
  · intro place lower upper notFilled
    by_cases last : place = writtenBack + 32
    · rw [last, Nat.add_mod_right, Mem.set_same]
      exact done
    · rw [(others place (by omega) (by omega)).byte (by omega) (by omega)]
      exact held.free place lower (by omega) notFilled

end Held

section Stores

variable {l : E1000Layout} {mem after : Mem} {slot : Nat} {frame : List UInt8}
    {store : Nat × List UInt8}

def Stored (mem : Mem) (store : Nat × List UInt8) : Prop :=
  mem.read store.1 store.2.length = store.2

def StoresApart (first second : Nat × List UInt8) : Prop :=
  first.1 + first.2.length ≤ second.1 ∨ second.1 + second.2.length ≤ first.1

theorem Stored.over {other : Nat × List UInt8} (stored : Stored mem store)
    (apart : StoresApart store other) : Stored (mem.store other.1 other.2) store := by
  rw [Stored, ← stored, Mem.read_length]
  refine Mem.read_congr fun index bound => Mem.store_outside _ ?_
  unfold StoresApart at apart
  omega

theorem sendStores_apart (apart : l.Apart) (bound : slot < 32) (most : frame.length ≤ e1000TxBufSize) :
    (e1000SendStores l slot frame).Pairwise StoresApart := by
  have separate : l.txDesc + 16 * 32 ≤ l.txBuf ∨ l.txBuf + 2048 * 32 ≤ l.txDesc := apart.tx
  rw [e1000TxBufSize] at most
  simp only [e1000SendStores, StoresApart, DescriptorRing.bufAt, DescriptorRing.descAt,
    E1000Layout.tx, e1000TxBufSize,
    List.pairwise_cons, List.mem_cons, List.not_mem_nil, or_false, forall_eq_or_imp, forall_eq,
    List.length_replicate,
    Mem.leBytes_length, List.length_singleton, List.Pairwise.nil, and_true, false_imp_iff, implies_true]
  split <;> omega

theorem sendStores_slot (most : frame.length ≤ e1000TxBufSize)
    (member : store ∈ e1000SendStores l slot frame) :
    (∃ offset, store.1 = l.tx.bufAt slot + offset ∧ offset + store.2.length ≤ l.tx.size) ∨
      ∃ offset, store.1 = l.tx.descAt slot + offset ∧ 8 ≤ offset ∧ offset + store.2.length ≤ 16 := by
  have room : (if frame.length < 60 then 60 else frame.length) ≤ 2048 ∧
      frame.length ≤ if frame.length < 60 then 60 else frame.length := by
    rw [e1000TxBufSize] at most
    split <;> omega
  simp only [e1000SendStores, List.mem_cons, List.not_mem_nil, or_false] at member
  rcases member with rfl | rfl | rfl | rfl | rfl | rfl | rfl | rfl
  · exact Or.inl ⟨0, rfl, by rw [Nat.zero_add]; exact most⟩
  · refine Or.inl ⟨frame.length, rfl, ?_⟩
    rw [List.length_replicate, Nat.add_sub_cancel' room.2]
    exact room.1
  all_goals exact Or.inr ⟨_, rfl, by omega, by simp⟩

theorem sendStores_onlySlot (most : frame.length ≤ e1000TxBufSize)
    (member : store ∈ e1000SendStores l slot frame) :
    l.tx.OnlySlot slot mem (mem.store store.1 store.2) := by
  rcases sendStores_slot most member with ⟨offset, place, room⟩ | ⟨offset, place, lower, upper⟩
  · rw [place]
    exact DescriptorRing.onlySlot_buffer room
  · rw [place]
    exact DescriptorRing.onlySlot_desc lower upper

theorem Stored.same (stored : Stored mem store) (same : l.tx.SameSlot slot mem after)
    (most : frame.length ≤ e1000TxBufSize) (member : store ∈ e1000SendStores l slot frame) :
    Stored after store := by
  rw [Stored, ← stored, Mem.read_length]
  refine Mem.read_congr fun index bound => same _ ?_
  rcases sendStores_slot most member with ⟨offset, place, room⟩ | ⟨offset, place, lower, upper⟩
  · exact Or.inr ⟨by omega, by omega⟩
  · exact Or.inl ⟨by omega, by omega⟩

def StoredTo (l : E1000Layout) (mem : Mem) (slot : Nat) (frame : List UInt8) (stores : Nat) : Prop :=
  ∀ index < stores, ∀ store, (e1000SendStores l slot frame)[index]? = some store → Stored mem store

variable {stores : Nat}

theorem StoredTo.next (storedTo : StoredTo l mem slot frame stores) (apart : l.Apart)
    (bound : slot < 32)
    (most : frame.length ≤ e1000TxBufSize)
    (here : (e1000SendStores l slot frame)[stores]? = some store) :
    StoredTo l (mem.store store.1 store.2) slot frame (stores + 1) := by
  intro index below other there
  by_cases last : index = stores
  · rw [last, here] at there
    cases there
    exact Mem.read_store_same _ _ _
  · refine (storedTo index (by omega) other there).over ?_
    obtain ⟨inside, isStore⟩ := List.getElem?_eq_some_iff.mp here
    obtain ⟨inside', isOther⟩ := List.getElem?_eq_some_iff.mp there
    have apart' := List.pairwise_iff_getElem.mp (sendStores_apart apart bound most) index stores
      inside' inside (by omega)
    rwa [isStore, isOther] at apart'

theorem StoredTo.same (storedTo : StoredTo l mem slot frame stores)
    (same : l.tx.SameSlot slot mem after) (most : frame.length ≤ e1000TxBufSize) :
    StoredTo l after slot frame stores := fun index below store here =>
  (storedTo index below store here).same same most (List.mem_of_getElem? here)

theorem stored_byte {address : Nat} {value : UInt8} (stored : Stored mem (address, [value])) :
    mem address = value := by
  have byte := congrArg (fun bytes : List UInt8 => bytes.getD 0 0) stored
  simpa [Mem.read] using byte

theorem StoredTo.filled (storedTo : StoredTo l mem slot frame stores)
    (most : frame.length ≤ e1000TxBufSize) (ends : (e1000SendStores l slot frame)[stores]? = none) :
    TxFilled l mem slot frame ∧ e1000StatDd (mem (l.tx.descAt slot + 12)) = false := by
  have all : ∀ store ∈ e1000SendStores l slot frame, Stored mem store := by
    intro store member
    obtain ⟨index, here⟩ := List.getElem?_of_mem member
    have bound := (List.getElem?_eq_some_iff.mp here).1
    exact storedTo index (Nat.lt_of_lt_of_le bound (List.getElem?_eq_none_iff.mp ends)) store here
  simp only [e1000SendStores, List.mem_cons, List.not_mem_nil, or_false, forall_eq_or_imp,
    forall_eq] at all
  obtain ⟨data, zeros, length, -, cmd, status, -, -⟩ := all
  refine ⟨⟨?_, ?_, stored_byte cmd⟩, ?_⟩
  · rw [e1000Pad, List.length_append, Mem.read_add]
    exact congrArg₂ (· ++ ·) data zeros
  · have small := (e1000Pad_bounds most).2
    rw [e1000Pad_length] at small ⊢
    rw [Stored, Mem.leBytes_length] at length
    exact (Mem.readLE_leBytes length).trans (Nat.mod_eq_of_lt (by omega))
  · rw [stored_byte status]
    rfl

end Stores

def E1000Tx.readTo (tx : E1000Tx) : Nat := tx.sent.length + tx.fetched.length

def E1000Tx.writtenBack (tx : E1000Tx) : Nat := tx.sent.length - tx.done.length

def txDescriptor (l : E1000Layout) (handed : List (List UInt8)) (place : Nat) : TxDescriptor :=
  ⟨place % 32, l.tx.bufAt (place % 32), (e1000Pad (handed.getD place [])).length, e1000TxdCmd⟩

def E1000Phase.Fills : E1000Phase → Prop
  | .fill _ _ | .ring _ => True
  | _ => False

def E1000Phase.Sends (l : E1000Layout) (mem : Mem) (tx : E1000Tx) : E1000Phase → Prop
  | .awaitFree frame _ | .checkFree frame => frame.length ≤ e1000TxBufSize
  | .fill frame stores =>
      frame.length ≤ e1000TxBufSize ∧ tx.handed.length < tx.writtenBack + 32 ∧
        StoredTo l mem (tx.handed.length % 32) frame stores
  | .ring frame =>
      frame.length ≤ e1000TxBufSize ∧ tx.handed.length < tx.writtenBack + 32 ∧
        TxFilled l mem (tx.handed.length % 32) frame ∧
          e1000StatDd (mem (l.tx.descAt (tx.handed.length % 32) + 12)) = false
  | .awaitSent index _ | .checkSent index => 0 < tx.handed.length ∧ index = (tx.handed.length - 1) % 32
  | _ => True

structure SendAgrees (l : E1000Layout) (mem : Mem) (phase : E1000Phase) (tx : E1000Tx) : Prop where
  base : tx.tdbal + 2 ^ 32 * tx.tdbah = l.txDesc
  tdlen : tx.tdlen = 512
  enabled : tx.tctl.testBit e1000TctlEn = true
  back : tx.done.length ≤ tx.sent.length
  read : tx.readTo ≤ tx.handed.length
  room : tx.handed.length ≤ tx.writtenBack + 32
  tdh : tx.tdh = tx.readTo % 32
  tdt : tx.tdt = tx.handed.length % 32
  tail : tx.tail = tx.handed.length % 32
  fetched : tx.fetched = (List.range' tx.sent.length tx.fetched.length).map (txDescriptor l tx.handed)
  done : tx.done = (List.range' tx.writtenBack tx.done.length).map (txDescriptor l tx.handed)
  part : tx.part = []
  sent : tx.sent = (tx.handed.take tx.sent.length).map e1000Pad
  sizes : ∀ frame ∈ tx.handed, frame.length ≤ e1000TxBufSize
  confirmed : ∀ place ∈ tx.confirmed, place < tx.sent.length
  held : TxHeld l mem tx.handed tx.writtenBack tx.sent.length tx.readTo phase.Fills
  sends : phase.Sends l mem tx

section Agrees

variable {l : E1000Layout} {mem after : Mem} {phase next : E1000Phase} {tx : E1000Tx} {stores : Nat}
    {frame : List UInt8}

theorem SendAgrees.order (agrees : SendAgrees l mem phase tx) : tx.writtenBack ≤ tx.sent.length ∧
    tx.sent.length ≤ tx.readTo ∧ tx.readTo ≤ tx.handed.length ∧
    tx.handed.length ≤ tx.writtenBack + 32 :=
  ⟨Nat.sub_le _ _, Nat.le_add_right _ _, agrees.read, agrees.room⟩

theorem SendAgrees.go (agrees : SendAgrees l mem phase tx) (notFills : ¬phase.Fills)
    (sends : next.Sends l mem tx) : SendAgrees l mem next tx :=
  { agrees with
    held := ⟨agrees.held.address, agrees.held.buffer, agrees.held.described, agrees.held.waits,
      fun place lower upper _ => agrees.held.free place lower upper fun fills => absurd fills notFills⟩
    sends }

theorem Sends.same (sends : phase.Sends l mem tx)
    (same : l.tx.SameSlot (tx.handed.length % 32) mem after) : phase.Sends l after tx := by
  cases phase with
  | fill frame stores => exact ⟨sends.1, sends.2.1, sends.2.2.same same sends.1⟩
  | ring frame =>
      refine ⟨sends.1, sends.2.1, sends.2.2.1.same same sends.1, ?_⟩
      rw [same.byte (by omega) (by omega)]
      exact sends.2.2.2
  | idle | awaitFree | checkFree | awaitSent | checkSent | copy | release | handBack => exact sends

theorem SendAgrees.kept (agrees : SendAgrees l mem phase tx) (kept : l.tx.Kept mem after) :
    SendAgrees l after phase tx := by
  have bound : ∀ place, place % 32 < l.tx.count := fun place => Nat.mod_lt _ (by decide)
  obtain ⟨back, read, handed, room⟩ := agrees.order
  exact { agrees with
    held := agrees.held.same agrees.sizes (fun slot small => kept.address small)
      (fun place _ _ _ => kept.sameSlot (bound place)) id ⟨back, by omega, by omega⟩ room
    sends := Sends.same agrees.sends (kept.sameSlot (bound _)) }

theorem SendAgrees.dd (agrees : SendAgrees l mem phase tx) (notFills : ¬phase.Fills) :
    e1000StatDd (mem (l.tx.descAt tx.tail + 12)) = true ↔ tx.handed.length < tx.writtenBack + 32 := by
  rw [agrees.tail]
  constructor
  · intro done
    by_contra full
    have order := agrees.order
    have waits := agrees.held.waits (tx.handed.length - 32) (by omega) (by omega)
    rw [show (tx.handed.length - 32) % 32 = tx.handed.length % 32 by omega, done] at waits
    exact Bool.false_ne_true waits.symm
  · intro room
    exact agrees.held.free _ (Nat.le_refl _) room fun fills => absurd fills notFills

theorem SendAgrees.startFill (agrees : SendAgrees l mem (.checkFree frame) tx)
    (done : e1000StatDd (mem (l.tx.descAt tx.tail + 12)) = true) :
    SendAgrees l mem (.fill frame 0) tx := by
  have room := (agrees.dd id).mp done
  refine { agrees with held := ?_, sends := ⟨agrees.sends, room,
    fun _ below => absurd below (Nat.not_lt_zero _)⟩ }
  exact ⟨agrees.held.address, agrees.held.buffer, agrees.held.described, agrees.held.waits,
    fun place lower upper _ => agrees.held.free place lower upper fun fills => fills.elim⟩

theorem SendAgrees.fillStore (apart : l.Apart) {store : Nat × List UInt8}
    (agrees : SendAgrees l mem (.fill frame stores) tx)
    (here : (e1000SendStores l tx.tail frame)[stores]? = some store) :
    SendAgrees l (mem.store store.1 store.2) (.fill frame (stores + 1)) tx := by
  obtain ⟨most, room, storedTo⟩ := agrees.sends
  obtain ⟨back, read, handed, _⟩ := agrees.order
  rw [agrees.tail] at here
  exact { agrees with
    held := agrees.held.fill apart agrees.sizes
      (sendStores_onlySlot most (List.mem_of_getElem? here)) ⟨back, by omega, by omega⟩ room
    sends := ⟨most, room, storedTo.next apart (Nat.mod_lt _ (by decide)) most here⟩ }

theorem SendAgrees.fillEnd (agrees : SendAgrees l mem (.fill frame stores) tx)
    (ends : (e1000SendStores l tx.tail frame)[stores]? = none) : SendAgrees l mem (.ring frame) tx := by
  obtain ⟨most, room, storedTo⟩ := agrees.sends
  rw [agrees.tail] at ends
  exact { agrees with sends := ⟨most, room, storedTo.filled most ends⟩ }

variable {handed : List (List UInt8)}

theorem txDescriptor_append {place : Nat} (before : place < handed.length) :
    txDescriptor l (handed ++ [frame]) place = txDescriptor l handed place := by
  rw [txDescriptor, List.getD_append _ _ _ _ before]
  rfl

theorem map_txDescriptor_append {first count : Nat} (before : first + count ≤ handed.length) :
    (List.range' first count).map (txDescriptor l (handed ++ [frame])) =
      (List.range' first count).map (txDescriptor l handed) := by
  refine List.map_congr_left fun place member => txDescriptor_append ?_
  obtain ⟨_, upper⟩ := List.mem_range'_1.mp member
  omega

theorem SendAgrees.ring (agrees : SendAgrees l mem (.ring frame) tx) :
    SendAgrees l mem (.awaitSent tx.tail 0) (tx.handOver frame) := by
  obtain ⟨most, room, filled, clear⟩ := agrees.sends
  have order := agrees.order
  have longer : (tx.handed ++ [frame]).length = tx.handed.length + 1 := List.length_append
  have sends : tx.sent.length ≤ tx.handed.length := by omega
  have reads : tx.sent.length + tx.fetched.length ≤ tx.handed.length := agrees.read
  have backs : tx.writtenBack + tx.done.length ≤ tx.handed.length := by
    have back := agrees.back
    simp only [E1000Tx.writtenBack]
    omega
  have tail : (tx.tail + 1) % e1000TxDescCount = (tx.handed ++ [frame]).length % 32 := by
    rw [agrees.tail, longer, e1000TxDescCount]
    omega
  exact {
    base := agrees.base
    tdlen := agrees.tdlen
    enabled := agrees.enabled
    back := agrees.back
    read := by
      change tx.readTo ≤ (tx.handed ++ [frame]).length
      omega
    room := by
      change (tx.handed ++ [frame]).length ≤ tx.writtenBack + 32
      omega
    tdh := agrees.tdh
    tdt := tail
    tail := tail
    fetched := agrees.fetched.trans (map_txDescriptor_append reads).symm
    done := agrees.done.trans (map_txDescriptor_append backs).symm
    part := agrees.part
    sent := agrees.sent.trans (congrArg _ (List.take_append_of_le_length sends).symm)
    sizes := fun other member => by
      rcases List.mem_append.mp member with old | new
      · exact agrees.sizes other old
      · rw [List.mem_singleton.mp new]
        exact most
    confirmed := agrees.confirmed
    held := agrees.held.ring filled clear
    sends := by
      change 0 < (tx.handed ++ [frame]).length ∧ tx.tail = ((tx.handed ++ [frame]).length - 1) % 32
      rw [longer, Nat.add_sub_cancel]
      exact ⟨Nat.succ_pos _, agrees.tail⟩ }

theorem SendAgrees.confirm (agrees : SendAgrees l mem phase tx) (notFills : ¬phase.Fills)
    (some' : 0 < tx.handed.length)
    (done : e1000StatDd (mem (l.tx.descAt ((tx.handed.length - 1) % 32) + 12)) = true) :
    SendAgrees l mem .idle tx.confirm := by
  have order := agrees.order
  have last : tx.handed.length - 1 < tx.sent.length := by
    by_contra late
    have waits := agrees.held.waits (tx.handed.length - 1) (by omega) (by omega)
    rw [done] at waits
    exact Bool.false_ne_true waits.symm
  have idle : SendAgrees l mem .idle tx := agrees.go notFills trivial
  refine { idle with confirmed := fun place member => ?_ }
  rcases List.mem_append.mp member with old | new
  · exact agrees.confirmed place old
  · rw [List.mem_singleton.mp new]
    exact last

end Agrees

section Card

variable {l : E1000Layout} {mem after : Mem} {phase : E1000Phase} {tx next : E1000Tx}

theorem SendAgrees.empty (agrees : SendAgrees l mem phase tx) : tx.tdh = tx.tdt ↔
    tx.readTo = tx.handed.length ∨ tx.readTo + 32 = tx.handed.length := by
  have order := agrees.order
  rw [agrees.tdh, agrees.tdt]
  omega

theorem txDescriptor_read {writtenBack sent place : Nat} {filling : Prop}
    (held : TxHeld l mem handed writtenBack sent place filling) (before : place < handed.length) :
    (⟨place % 32, mem.readU64 (l.tx.descAt (place % 32)), mem.readU16 (l.tx.descAt (place % 32) + 8),
      mem (l.tx.descAt (place % 32) + 11)⟩ : TxDescriptor) = txDescriptor l handed place := by
  obtain ⟨length, cmd⟩ := held.described place handed[place] (Nat.le_refl _)
    (List.getElem?_eq_getElem before)
  rw [txDescriptor, List.getD_eq_getElem _ _ before, held.address _ (Nat.mod_lt _ (by decide)),
    length, cmd]

theorem Sends.card (sends : phase.Sends l mem tx) (handed : next.handed = tx.handed)
    (back : next.writtenBack = tx.writtenBack) : phase.Sends l mem next := by
  cases phase with
  | fill | ring =>
      rw [E1000Phase.Sends, handed, back]
      exact sends
  | awaitSent | checkSent =>
      rw [E1000Phase.Sends, handed]
      exact sends
  | idle | awaitFree | checkFree | copy | release | handBack => exact sends

theorem SendAgrees.fetch (agrees : SendAgrees l mem phase tx) (taken : tx.fetch mem = some next) :
    SendAgrees l mem phase next ∧ next.handed = tx.handed ∧ next.sent = tx.sent ∧
    next.readTo = tx.readTo + 1 := by
  rw [E1000Tx.fetch] at taken
  split at taken
  next waits =>
    have order := agrees.order
    have behind : tx.readTo < tx.handed.length := by
      have notEmpty := mt agrees.empty.mpr waits.2
      omega
    have desc : tx.tdbal + 2 ^ 32 * tx.tdbah + 16 * tx.tdh = l.tx.descAt (tx.readTo % 32) := by
      rw [agrees.base, agrees.tdh]
      rfl
    dsimp only at taken
    rw [desc, agrees.tdh, txDescriptor_read agrees.held behind] at taken
    cases taken
    have longer : (tx.fetched ++ [txDescriptor l tx.handed tx.readTo]).length =
      tx.fetched.length + 1 := List.length_append
    have reads : tx.sent.length + (tx.fetched ++ [txDescriptor l tx.handed tx.readTo]).length =
      tx.readTo + 1 := by
      rw [longer, E1000Tx.readTo]
      omega
    refine ⟨?_, rfl, rfl, reads⟩
    exact {
      base := agrees.base
      tdlen := agrees.tdlen
      enabled := agrees.enabled
      back := agrees.back
      read := reads.trans_le behind
      room := agrees.room
      tdh := by
        change (tx.readTo % 32 + 1) % (tx.tdlen / 16) = (tx.sent.length + (tx.fetched ++ [_]).length) % 32
        rw [reads, agrees.tdlen]
        omega
      tdt := agrees.tdt
      tail := agrees.tail
      fetched := by
        change tx.fetched ++ [_] = List.map _ (List.range' _ (tx.fetched ++ [_]).length)
        rw [longer, List.range'_1_concat, List.map_append, ← agrees.fetched]
        rfl
      done := agrees.done
      part := agrees.part
      sent := agrees.sent
      sizes := agrees.sizes
      confirmed := agrees.confirmed
      held := agrees.held.later (Nat.le_refl _) ((Nat.le_succ _).trans_eq reads.symm)
      sends := Sends.card agrees.sends rfl rfl }
  next => cases taken

theorem SendAgrees.transmit (agrees : SendAgrees l mem phase tx) (taken : tx.transmit mem = some next) :
    SendAgrees l mem phase next ∧ next.handed = tx.handed ∧ next.readTo = tx.readTo ∧
    tx.fetched ≠ [] := by
  have order := agrees.order
  have fetched := agrees.fetched
  rw [E1000Tx.transmit] at taken
  split at taken
  next => cases taken
  next desc rest isFetched =>
    rw [isFetched, List.length_cons, List.range'_succ, List.map_cons, List.cons.injEq] at fetched
    obtain ⟨isDesc, isRest⟩ := fetched
    have reads : tx.readTo = tx.sent.length + (rest.length + 1) := by
      rw [E1000Tx.readTo, isFetched, List.length_cons]
    have behind : tx.sent.length < tx.handed.length := by omega
    have data : tx.part ++ mem.read desc.address desc.length = e1000Pad tx.handed[tx.sent.length] := by
      rw [agrees.part, isDesc, txDescriptor, List.getD_eq_getElem _ _ behind]
      exact agrees.held.buffer _ _ (Nat.le_refl _) (List.getElem?_eq_getElem behind)
    have ends : desc.cmd.toNat.testBit e1000TxdCmdEop = true := by
      rw [isDesc]
      exact (by decide : e1000TxdCmd.toNat.testBit e1000TxdCmdEop = true)
    rw [if_pos ends, data] at taken
    cases taken
    have longer : (tx.sent ++ [e1000Pad tx.handed[tx.sent.length]]).length = tx.sent.length + 1 :=
      List.length_append
    have doneLonger : (tx.done ++ [desc]).length = tx.done.length + 1 := List.length_append
    have back := agrees.back
    have sameRead : (tx.sent ++ [e1000Pad tx.handed[tx.sent.length]]).length + rest.length = tx.readTo := by
      omega
    have sameBack : (tx.sent ++ [e1000Pad tx.handed[tx.sent.length]]).length - (tx.done ++
        [desc]).length = tx.writtenBack := by
      rw [longer, doneLonger, E1000Tx.writtenBack]
      omega
    have backs : tx.writtenBack + tx.done.length = tx.sent.length := by
      rw [E1000Tx.writtenBack]
      omega
    refine ⟨?_, rfl, sameRead, by rw [isFetched]; exact List.cons_ne_nil _ _⟩
    exact {
      base := agrees.base
      tdlen := agrees.tdlen
      enabled := agrees.enabled
      back := by
        change (tx.done ++ [desc]).length ≤ (tx.sent ++ [_]).length
        rw [longer, doneLonger]
        omega
      read := sameRead.trans_le agrees.read
      room := by
        rw [E1000Tx.writtenBack, sameBack]
        exact agrees.room
      tdh := agrees.tdh.trans (congrArg (· % 32) sameRead.symm)
      tdt := agrees.tdt
      tail := agrees.tail
      fetched := by
        rw [longer]
        exact isRest
      done := by
        rw [E1000Tx.writtenBack, sameBack, doneLonger, List.range'_1_concat,
          List.map_append, ← agrees.done, backs, isDesc]
        rfl
      part := rfl
      sent := by
        rw [longer, List.take_succ_eq_append_getElem behind, List.map_append, ← agrees.sent]
        rfl
      sizes := agrees.sizes
      confirmed := fun place member => by
        rw [longer]
        exact Nat.lt_succ_of_lt (agrees.confirmed place member)
      held := by
        rw [E1000Tx.writtenBack, E1000Tx.readTo, sameBack, sameRead]
        exact agrees.held.later (by rw [longer]; exact Nat.le_succ _) (Nat.le_refl _)
      sends := Sends.card agrees.sends rfl sameBack }

theorem e1000StatDd_set (status : UInt8) : e1000StatDd (status ||| 1) = true := by
  rw [e1000StatDd, UInt8.toNat_or, decide_eq_true_eq]
  exact (Nat.or_mod_two_eq_one.mpr (Or.inr rfl))

theorem SendAgrees.writeBack (apart : l.Apart) (agrees : SendAgrees l mem phase tx)
    (taken : tx.writeBack mem = some (after, next)) :
    SendAgrees l after phase next ∧ l.rx.Kept mem after ∧ next.handed = tx.handed ∧
      next.readTo = tx.readTo ∧ tx.done ≠ [] := by
  have order := agrees.order
  have back := agrees.back
  have done := agrees.done
  rw [E1000Tx.writeBack] at taken
  split at taken
  next => cases taken
  next desc rest isDone =>
    rw [isDone, List.length_cons, List.range'_succ, List.map_cons, List.cons.injEq] at done
    rw [isDone, List.length_cons] at back
    obtain ⟨isDesc, isRest⟩ := done
    have place : tx.tdbal + 2 ^ 32 * tx.tdbah + 16 * desc.slot + 12 =
      l.tx.descAt (tx.writtenBack % 32) + 12 := by
      rw [agrees.base, isDesc]
      rfl
    have reports : desc.cmd.toNat.testBit e1000TxdCmdRs = true := by
      rw [isDesc]
      exact (by decide : e1000TxdCmd.toNat.testBit e1000TxdCmdRs = true)
    dsimp only at taken
    rw [if_pos reports, place] at taken
    cases taken
    have bound : ∀ place, place % 32 < l.tx.count := fun place => Nat.mod_lt _ (by decide)
    have backs : tx.writtenBack + (rest.length + 1) = tx.sent.length := by
      rw [E1000Tx.writtenBack, isDone, List.length_cons]
      omega
    have grows : tx.sent.length - rest.length = tx.writtenBack + 1 := by omega
    have only : l.tx.OnlySlot (tx.writtenBack % 32) mem (mem.set (l.tx.descAt (tx.writtenBack % 32) + 12)
        (mem (l.tx.descAt (tx.writtenBack % 32) + 12) ||| 1)) := DescriptorRing.onlySlot_set
        (by omega) (by omega)
    refine ⟨?_, only.kept (bound _) fun address inTx inRx => apart.disjoint address inRx inTx, rfl,
      rfl, by rw [isDone]; exact List.cons_ne_nil _ _⟩
    exact {
      base := agrees.base
      tdlen := agrees.tdlen
      enabled := agrees.enabled
      back := by
        change rest.length ≤ tx.sent.length
        omega
      read := agrees.read
      room := by
        change tx.handed.length ≤ tx.sent.length - rest.length + 32
        omega
      tdh := agrees.tdh
      tdt := agrees.tdt
      tail := agrees.tail
      fetched := agrees.fetched
      done := by
        rw [E1000Tx.writtenBack, grows]
        exact isRest
      part := agrees.part
      sent := agrees.sent
      sizes := agrees.sizes
      confirmed := agrees.confirmed
      held := by
        have held := agrees.held.writeBack apart agrees.sizes ⟨by omega, order.2.1⟩
          (by omega) agrees.room (e1000StatDd_set (mem (l.tx.descAt (tx.writtenBack % 32) + 12)))
        rw [← grows] at held
        exact held
      sends := by
        have sends := agrees.sends
        cases phase with
        | fill frame stores =>
            obtain ⟨most, room, storedTo⟩ := sends
            refine ⟨most, ?_, storedTo.same (only.sameSlot apart.tx (bound _) (bound _) (by omega)) most⟩
            change tx.handed.length < tx.sent.length - rest.length + 32
            omega
        | ring frame =>
            obtain ⟨most, room, filled, clear⟩ := sends
            have same := only.sameSlot apart.tx (bound _) (bound tx.handed.length) (by omega)
            refine ⟨most, ?_, filled.same same most, (congrArg _ (same.byte (by omega) (by omega))).trans clear⟩
            change tx.handed.length < tx.sent.length - rest.length + 32
            omega
        | idle | awaitFree | checkFree | awaitSent | checkSent | copy | release | handBack => exact sends }

end Card

theorem setupTx_spec {l : E1000Layout} {mem after : Mem} {tx : E1000Tx} (apart : l.Apart)
    (set : e1000SetupTx l mem = some (after, tx)) : SendAgrees l after .idle tx ∧
    l.rx.Kept mem after := by
  rw [e1000SetupTx] at set
  split at set
  next => cases set
  next =>
    rw [Option.some.injEq, Prod.mk.injEq] at set
    obtain ⟨isAfter, rfl⟩ := set
    have setup := @DescriptorRing.setup_spec l.tx
      ((mem.fill l.txDesc (16 * e1000TxDescCount) 0).fill l.txBuf
      (e1000TxBufSize * e1000TxDescCount) 0) 1 apart.small.2.2.2 (Nat.succ_pos _)
    rw [show l.tx.count = e1000TxDescCount from rfl, isAfter] at setup
    obtain ⟨descs, others⟩ := setup
    refine ⟨?_, fun address inside => ?_⟩
    · exact {
        base := Nat.mod_add_div _ _
        tdlen := rfl
        enabled := (by decide : (0x2 ||| 0x8 ||| (0x10 <<< 4) ||| (0x40 <<< 12)).testBit e1000TctlEn = true)
        back := Nat.le_refl _
        read := Nat.le_refl _
        room := Nat.zero_le _
        tdh := rfl
        tdt := rfl
        tail := rfl
        fetched := rfl
        done := rfl
        part := rfl
        sent := rfl
        sizes := fun _ member => absurd member List.not_mem_nil
        confirmed := fun _ member => absurd member List.not_mem_nil
        held := {
          address := fun slot bound => (descs slot bound).1
          buffer := fun _ _ _ here => absurd here (Option.some_ne_none _).symm
          described := fun _ _ _ here => absurd here (Option.some_ne_none _).symm
          waits := fun _ _ below => absurd below (Nat.not_lt_zero _)
          free := fun place _ _ _ => by
            rw [(descs (place % 32) (Nat.mod_lt _ (by decide))).2]
            rfl }
        sends := trivial }
    · have outside : ¬l.tx.Inside address := apart.disjoint address inside
      rw [others address outside]
      have notDesc : address < l.txDesc ∨ l.txDesc + 16 * 32 ≤ address := by
        by_contra inDesc
        exact outside (Or.inl ⟨by change l.txDesc ≤ address; omega, by
          change address < l.txDesc + 16 * 32; omega⟩)
      have notBuf : address < l.txBuf ∨ l.txBuf + 2048 * 32 ≤ address := by
        by_contra inBuf
        exact outside (Or.inr ⟨by change l.txBuf ≤ address; omega, by
          change address < l.txBuf + 2048 * 32; omega⟩)
      exact (Mem.fill_outside _ _ notBuf).trans (Mem.fill_outside _ _ notDesc)

end Szczupak
