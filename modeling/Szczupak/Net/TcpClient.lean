import Szczupak.Lib.Transition
import Szczupak.Net.TcpClientCore

/-!
Reassembly by the TCP client.  A peer numbers one byte stream from its initial sequence
number on; whatever order, loss, repetition and cutting its segments arrive in, the client
holds a prefix of the stream and its next expected number says how long that prefix is.
-/

namespace Szczupak

/-- What the peer with initial number `isn` may send: its SYN, pieces of `stream` with the
FIN only at the end of a stream that is ended (`fin`), and bare segments after the FIN. -/
inductive PeerSegment (isn : UInt32) (stream : List UInt8) (fin : Bool)
    (segment : TcpSegment) : Prop where
  | syn (flag : hasFlag segment.flags tcpFlagSyn = true) (sequence : segment.sequence = isn)
  | piece (offset : Nat) (within : offset ≤ stream.length)
      (noSyn : hasFlag segment.flags tcpFlagSyn = false)
      (sequence : segment.sequence = isn + 1 + UInt32.ofNat offset)
      (payload : segment.payload <+: stream.drop offset)
      (ends : hasFlag segment.flags tcpFlagFin = true →
        fin = true ∧ offset + segment.payload.length = stream.length)
  | afterFin (ended : fin = true) (noSyn : hasFlag segment.flags tcpFlagSyn = false)
      (noFin : hasFlag segment.flags tcpFlagFin = false) (empty : segment.payload = [])
      (sequence : segment.sequence = isn + 1 + UInt32.ofNat (stream.length + 1))

structure TcpRun where
  client : TcpClient
  consumed : Nat
  fins : Nat

inductive TcpEvent where
  | deliver (link : TcpLink) (tick : UInt64) (segment : TcpSegment)
  | send (link : TcpLink) (flags : UInt8) (payload : List UInt8)
  | abort

def tcpInOrder (client : TcpClient) (segment : TcpSegment) : Bool :=
  !hasFlag segment.flags tcpFlagRst && client.established && segment.sequence == client.rcvNxt

def tcpExpects (client : TcpClient) (segment : TcpSegment) : Bool :=
  tcpClientMatches client segment.srcIp segment.srcPort segment.dstPort && tcpInOrder client segment

def tcpStep (run : TcpRun) : TcpEvent → Option TcpRun
  | .deliver link tick segment =>
      let taken := tcpExpects run.client segment
      some {
        client := (tcpClientHandleSegment run.client link tick segment).2.1
        consumed := run.consumed + if taken then segment.payload.length else 0
        fins := run.fins + if taken && hasFlag segment.flags tcpFlagFin then 1 else 0 }
  | .send link flags payload =>
      some { run with client := (tcpClientSendSegment run.client link flags payload).2.1 }
  | .abort => some { run with client := tcpClientAbort run.client }

def FromPeer (isn : UInt32) (stream : List UInt8) (fin : Bool) (run : TcpRun) : TcpEvent → Prop
  | .deliver _ _ segment =>
      tcpClientMatches run.client segment.srcIp segment.srcPort segment.dstPort = true →
        PeerSegment isn stream fin segment
  | _ => True

structure HoldsPrefix (stream : List UInt8) (run : TcpRun) : Prop where
  within : run.consumed ≤ stream.length
  length : run.client.rxLength.toNat = min run.client.rxCapacity.toNat run.consumed
  bytes : run.client.rxBuffer.read 0 run.client.rxLength.toNat =
    stream.take (min run.client.rxCapacity.toNat run.consumed)
  truncated : run.client.truncated = true ↔ run.client.rxCapacity.toNat < run.consumed

structure Reassembles (isn : UInt32) (stream : List UInt8) (run : TcpRun) : Prop where
  holds : HoldsPrefix stream run
  finOnce : run.fins ≤ 1
  finLast : run.fins = 1 → run.consumed = stream.length
  waiting : run.client.established = false → run.consumed = 0 ∧ run.fins = 0 ∧ run.client.rcvNxt = 0
  expected : run.client.established = true →
    run.client.rcvNxt = isn + 1 + UInt32.ofNat (run.consumed + run.fins)

section Client

variable {isn : UInt32} {stream : List UInt8} {fin : Bool} {run after : TcpRun} {link : TcpLink}
  {consumed fins : Nat} {client : TcpClient} {segment : TcpSegment}

structure SameReceive (client after : TcpClient) : Prop where
  established : after.established = client.established
  truncated : after.truncated = client.truncated
  rcvNxt : after.rcvNxt = client.rcvNxt
  rxBuffer : after.rxBuffer = client.rxBuffer
  rxCapacity : after.rxCapacity = client.rxCapacity
  rxLength : after.rxLength = client.rxLength

theorem tcpClientSendSegment_same (client : TcpClient) (link : TcpLink) (flags : UInt8)
    (payload : List UInt8) :
    SameReceive client (tcpClientSendSegment client link flags payload).2.1 := by
  unfold tcpClientSendSegment
  split
  · exact ⟨rfl, rfl, rfl, rfl, rfl, rfl⟩
  · dsimp only
    split
    · exact ⟨rfl, rfl, rfl, rfl, rfl, rfl⟩
    · exact ⟨rfl, rfl, rfl, rfl, rfl, rfl⟩

theorem tcpClientAcknowledge_same (client : TcpClient) (link : TcpLink) :
    SameReceive client (tcpClientAcknowledge client link).2.1 :=
  tcpClientSendSegment_same client link tcpFlagAck []

theorem Reassembles.same
    (holds : Reassembles isn stream ⟨client, consumed, fins⟩) {changed : TcpClient}
    (same : SameReceive client changed) : Reassembles isn stream ⟨changed, consumed, fins⟩ := by
  obtain ⟨⟨within, length, bytes, truncated⟩, finOnce, finLast, waiting, expected⟩ := holds
  refine ⟨⟨within, ?_, ?_, ?_⟩, finOnce, finLast, ?_, ?_⟩
  · simpa only [same.rxLength, same.rxCapacity] using length
  · simpa only [same.rxLength, same.rxCapacity, same.rxBuffer] using bytes
  · simpa only [same.truncated, same.rxCapacity] using truncated
  · simpa only [same.established, same.rcvNxt] using waiting
  · simpa only [same.established, same.rcvNxt] using expected

theorem tcpClientStore_holds {payload : List UInt8}
    (holds : HoldsPrefix stream ⟨client, consumed, fins⟩) (short : stream.length < 2 ^ 32 - 2)
    (next : payload <+: stream.drop consumed) :
    HoldsPrefix stream ⟨tcpClientStore client payload, consumed + payload.length, fins⟩ ∧
      (tcpClientStore client payload).established = client.established ∧
      (tcpClientStore client payload).rcvNxt = client.rcvNxt + UInt32.ofNat payload.length := by
  obtain ⟨within, length, bytes, truncated⟩ := holds
  dsimp only at within length bytes truncated
  have fits : consumed + payload.length ≤ stream.length := by
    have bound := next.length_le
    rw [List.length_drop] at bound
    omega
  unfold tcpClientStore
  split
  · rename_i empty
    rw [empty]
    exact ⟨⟨within, length, bytes, truncated⟩, rfl, by simp⟩
  · dsimp only
    have capacity := client.rxCapacity.toNat_lt
    have wanted : (UInt32.ofNat payload.length).toNat = payload.length := by
      rw [UInt32.toNat_ofNat', Nat.mod_eq_of_lt (by omega)]
    generalize remainingEq : (if client.rxLength < client.rxCapacity then
      client.rxCapacity - client.rxLength else 0) = remaining
    have remainingNat : remaining.toNat = client.rxCapacity.toNat - consumed := by
      rw [← remainingEq]
      split
      · rename_i room
        have roomNat := UInt32.lt_iff_toNat_lt.mp room
        rw [UInt32.toNat_sub_of_le _ _ (UInt32.le_of_lt room)]
        omega
      · rename_i full
        have fullNat : ¬client.rxLength.toNat < client.rxCapacity.toNat :=
          fun room => full (UInt32.lt_iff_toNat_lt.mpr room)
        rw [show (0 : UInt32).toNat = 0 from rfl]
        omega
    generalize copyEq : (if UInt32.ofNat payload.length > remaining then remaining
      else UInt32.ofNat payload.length) = copyLen
    have copyNat : copyLen.toNat = min payload.length (client.rxCapacity.toNat - consumed) := by
      rw [← copyEq]
      split
      · rename_i more
        have moreNat := UInt32.lt_iff_toNat_lt.mp more
        omega
      · rename_i enough
        have enoughNat : ¬remaining.toNat < (UInt32.ofNat payload.length).toNat :=
          fun more => enough (UInt32.lt_iff_toNat_lt.mpr more)
        omega
    have newLength : (client.rxLength + copyLen).toNat =
        client.rxLength.toNat + copyLen.toNat := by
      rw [UInt32.toNat_add, Nat.mod_eq_of_lt (by omega)]
    have pieceLength : (payload.take copyLen.toNat).length = copyLen.toNat := by
      rw [List.length_take]
      omega
    have stays : (client.rxBuffer.store client.rxLength.toNat (payload.take copyLen.toNat)).read 0
        client.rxLength.toNat = client.rxBuffer.read 0 client.rxLength.toNat :=
      Mem.read_congr fun index bound => Mem.store_outside _ (by omega)
    have piece : (client.rxBuffer.store client.rxLength.toNat (payload.take copyLen.toNat)).read
        client.rxLength.toNat copyLen.toNat = payload.take copyLen.toNat := by
      have stored := client.rxBuffer.read_store_same client.rxLength.toNat (payload.take copyLen.toNat)
      rwa [pieceLength] at stored
    have split : stream.take (min client.rxCapacity.toNat (consumed + payload.length)) =
        stream.take (min client.rxCapacity.toNat consumed) ++ payload.take copyLen.toNat := by
      rw [copyNat]
      by_cases room : consumed < client.rxCapacity.toNat
      · obtain ⟨rest, tail⟩ := next
        rw [show min client.rxCapacity.toNat (consumed + payload.length) =
            consumed + min payload.length (client.rxCapacity.toNat - consumed) by omega,
          Nat.min_eq_right (Nat.le_of_lt room), List.take_add, ← tail,
          List.take_append_of_le_length (Nat.min_le_left _ _)]
      · rw [Nat.sub_eq_zero_of_le (by omega), Nat.min_zero, List.take_zero, List.append_nil]
        congr 1
        omega
    refine ⟨⟨fits, ?_, ?_, ?_⟩, rfl, rfl⟩
    · dsimp only
      omega
    · dsimp only
      rw [newLength, Mem.read_add, stays, bytes, Nat.zero_add, piece, split]
    · dsimp only
      rw [Bool.or_eq_true, truncated, decide_eq_true_eq, gt_iff_lt, UInt32.lt_iff_toNat_lt, wanted,
        remainingNat]
      omega

section

variable (holds : Reassembles isn stream ⟨client, consumed, fins⟩)
include holds

theorem Reassembles.expected_piece (short : stream.length < 2 ^ 32 - 2)
    (peer : PeerSegment isn stream fin segment) (established : client.established = true)
    (same : segment.sequence = client.rcvNxt) :
    (fins = 0 ∧ segment.payload <+: stream.drop consumed ∧
      (hasFlag segment.flags tcpFlagFin = true → consumed + segment.payload.length = stream.length)) ∨
    (segment.payload = [] ∧ hasFlag segment.flags tcpFlagFin = false) := by
  have rcvNxt : client.rcvNxt = isn + 1 + UInt32.ofNat (consumed + fins) := holds.expected established
  have within : consumed ≤ stream.length := holds.holds.within
  have finOnce : fins ≤ 1 := holds.finOnce
  have finLast : fins = 1 → consumed = stream.length := holds.finLast
  rw [rcvNxt] at same
  have position : ∀ offset, offset ≤ stream.length + 1 →
      isn + 1 + UInt32.ofNat offset = isn + 1 + UInt32.ofNat (consumed + fins) →
      offset = consumed + fins := by
    intro offset bound equal
    have words := congrArg UInt32.toNat ((UInt32.add_right_inj _).mp equal)
    rw [UInt32.toNat_ofNat', UInt32.toNat_ofNat', Nat.mod_eq_of_lt (by omega),
      Nat.mod_eq_of_lt (by omega)] at words
    exact words
  cases peer with
  | syn flag sequence =>
      -- the number of the SYN comes round only after 2^32 bytes
      rw [sequence] at same
      have words := congrArg UInt32.toNat same
      rw [UInt32.toNat_add, UInt32.toNat_add, UInt32.toNat_ofNat'] at words
      have first := isn.toNat_lt
      simp only [UInt32.toNat_one] at words
      omega
  | piece offset bound noSyn sequence payload ends =>
      rw [sequence] at same
      have place := position offset (by omega) same
      have first : fins = 0 := by omega
      have here : offset = consumed := by omega
      rw [here] at payload ends
      exact Or.inl ⟨first, payload, fun flag => (ends flag).2⟩
  | afterFin ended noSyn noFin empty sequence => exact Or.inr ⟨empty, noFin⟩

theorem Reassembles.establish
    (peer : PeerSegment isn stream fin segment) (fresh : client.established = false)
    (syn : hasFlag segment.flags tcpFlagSyn = true) :
    Reassembles isn stream
      ⟨{ client with established := true, rcvNxt := segment.sequence + 1 }, consumed, fins⟩ := by
  obtain ⟨holdsPrefix, finOnce, finLast, waiting, _⟩ := holds
  obtain ⟨none, noFin, _⟩ := waiting fresh
  refine ⟨⟨holdsPrefix.within, holdsPrefix.length, holdsPrefix.bytes, holdsPrefix.truncated⟩,
    finOnce, finLast, by simp, fun _ => ?_⟩
  dsimp only at none noFin ⊢
  cases peer with
  | syn _ sequence => simp [none, noFin, sequence]
  | piece _ _ noSyn => simp [syn] at noSyn
  | afterFin _ noSyn => simp [syn] at noSyn

theorem Reassembles.take (short : stream.length < 2 ^ 32 - 2)
    (peer : PeerSegment isn stream fin segment) (established : client.established = true)
    (same : segment.sequence = client.rcvNxt) :
    Reassembles isn stream
      ⟨if hasFlag segment.flags tcpFlagFin then
          { tcpClientStore client segment.payload with
            rcvNxt := (tcpClientStore client segment.payload).rcvNxt + 1, finished := true }
        else tcpClientStore client segment.payload,
        consumed + segment.payload.length,
        fins + if hasFlag segment.flags tcpFlagFin then 1 else 0⟩ := by
  have rcvNxt : client.rcvNxt = isn + 1 + UInt32.ofNat (consumed + fins) := holds.expected established
  rcases holds.expected_piece short peer established same with
    ⟨first, next, ends⟩ | ⟨empty, noFin⟩
  · obtain ⟨stored, kept, moved⟩ := tcpClientStore_holds holds.holds short next
    have advanced : (tcpClientStore client segment.payload).rcvNxt =
        isn + 1 + UInt32.ofNat (consumed + segment.payload.length) := by
      rw [moved, rcvNxt, first, Nat.add_zero, UInt32.ofNat_add, UInt32.add_assoc (isn + 1)]
    rw [established] at kept
    cases ended : hasFlag segment.flags tcpFlagFin with
    | false =>
        simp only [Bool.false_eq_true, if_false, first, Nat.add_zero] at stored ⊢
        refine ⟨stored, by simp, by simp, by simp [kept], fun _ => advanced⟩
    | true =>
        simp only [if_true, first, Nat.zero_add] at stored ⊢
        refine ⟨⟨stored.within, stored.length, stored.bytes, stored.truncated⟩, by simp,
          fun _ => ends ended, by simp [kept], fun _ => ?_⟩
        dsimp only
        rw [advanced, UInt32.ofNat_add (consumed + segment.payload.length), UInt32.add_assoc (isn + 1)]
        rfl
  · have unchanged : tcpClientStore client segment.payload = client := by
      rw [tcpClientStore, if_pos (by simp [empty])]
    rw [unchanged]
    simpa [noFin, empty] using holds

end

theorem synAck_syn {flags : UInt8}
    (both : flags &&& (tcpFlagSyn ||| tcpFlagAck) = tcpFlagSyn ||| tcpFlagAck) :
    hasFlag flags tcpFlagSyn = true := by
  have syn : flags &&& tcpFlagSyn = tcpFlagSyn := by
    have cut := congrArg (· &&& tcpFlagSyn) both
    simp only [UInt8.and_assoc] at cut
    exact cut
  simp only [hasFlag, syn]
  decide

theorem Reassembles.receive
    (holds : Reassembles isn stream ⟨client, consumed, fins⟩) (short : stream.length < 2 ^ 32 - 2)
    (peer : PeerSegment isn stream fin segment) :
    Reassembles isn stream
      ⟨(tcpClientReceive client link segment).2.1,
        consumed + (if tcpInOrder client segment then segment.payload.length else 0),
        fins + if tcpInOrder client segment && hasFlag segment.flags tcpFlagFin then 1 else 0⟩ := by
  unfold tcpClientReceive tcpInOrder
  cases rst : hasFlag segment.flags tcpFlagRst with
  | true =>
      simp only [Bool.not_true, Bool.false_eq_true, if_false, if_true, Bool.false_and, Nat.add_zero]
      exact holds.same ⟨rfl, rfl, rfl, rfl, rfl, rfl⟩
  | false =>
      by_cases established : client.established = true
      · by_cases next : segment.sequence = client.rcvNxt
        · have taken := holds.take short peer established next
          simp only [established, next, Bool.not_true, Bool.false_eq_true, if_false, Bool.not_false,
            ne_eq, not_true_eq_false, beq_self_eq_true, Bool.and_true, Bool.true_and, if_true]
          split
          · exact taken.same (tcpClientAcknowledge_same _ link)
          · exact taken
        · simp only [established, next, Bool.not_true, Bool.false_eq_true, if_false, Bool.not_false,
            ne_eq, not_false_eq_true, if_true, beq_eq_false_iff_ne.mpr next, Bool.and_false,
            Bool.false_and, Nat.add_zero]
          split
          · exact holds.same (tcpClientAcknowledge_same _ link)
          · exact holds
      · rw [Bool.not_eq_true] at established
        simp only [established, Bool.false_eq_true, if_false, Bool.not_false, if_true,
          Bool.and_false, Bool.false_and, Nat.add_zero]
        split
        · rename_i handshake
          exact (holds.establish peer established (synAck_syn handshake.1)).same
            (tcpClientAcknowledge_same _ link)
        · exact holds

theorem Reassembles.step {event : TcpEvent} (holds : Reassembles isn stream run)
    (short : stream.length < 2 ^ 32 - 2) (peer : FromPeer isn stream fin run event)
    (stepped : tcpStep run event = some after) : Reassembles isn stream after := by
  obtain ⟨client, consumed, fins⟩ := run
  cases event with
  | deliver link tick segment =>
      simp only [tcpStep, Option.some.injEq] at stepped
      subst stepped
      unfold tcpClientHandleSegment tcpExpects
      cases matched : tcpClientMatches client segment.srcIp segment.srcPort segment.dstPort with
      | false => simpa using holds
      | true =>
          have ticked : Reassembles isn stream
              ⟨{ client with lastActivityTick := tick }, consumed, fins⟩ :=
            holds.same ⟨rfl, rfl, rfl, rfl, rfl, rfl⟩
          have received := @Reassembles.receive _ _ fin link _ _ _ segment ticked short (peer matched)
          simp only [Bool.not_true, Bool.false_eq_true, if_false, Bool.true_and]
          exact received
  | send link flags payload =>
      simp only [tcpStep, Option.some.injEq] at stepped
      subst stepped
      exact holds.same (tcpClientSendSegment_same client link flags payload)
  | abort =>
      simp only [tcpStep, Option.some.injEq] at stepped
      subst stepped
      exact holds.same ⟨rfl, rfl, rfl, rfl, rfl, rfl⟩

theorem tcpClientStore_capacity (client : TcpClient) (payload : List UInt8) :
    (tcpClientStore client payload).rxCapacity = client.rxCapacity := by
  unfold tcpClientStore
  split
  · rfl
  · rfl

theorem tcpClientReceive_capacity (client : TcpClient) (segment : TcpSegment) :
    (tcpClientReceive client link segment).2.1.rxCapacity = client.rxCapacity := by
  unfold tcpClientReceive
  split
  · rfl
  · split
    · split
      · exact (tcpClientAcknowledge_same _ link).rxCapacity
      · rfl
    · split
      · split
        · exact (tcpClientAcknowledge_same _ link).rxCapacity
        · rfl
      · have ended : (if hasFlag segment.flags tcpFlagFin = true then
            { tcpClientStore client segment.payload with
              rcvNxt := (tcpClientStore client segment.payload).rcvNxt + 1, finished := true }
            else tcpClientStore client segment.payload).rxCapacity = client.rxCapacity := by
          split
          · exact tcpClientStore_capacity client segment.payload
          · exact tcpClientStore_capacity client segment.payload
        dsimp only
        split
        · exact (tcpClientAcknowledge_same _ link).rxCapacity.trans ended
        · exact ended

theorem tcpStep_capacity {event : TcpEvent} (stepped : tcpStep run event = some after) :
    after.client.rxCapacity = run.client.rxCapacity := by
  cases event with
  | deliver link tick segment =>
      simp only [tcpStep, Option.some.injEq] at stepped
      subst stepped
      dsimp only
      unfold tcpClientHandleSegment
      split
      · rfl
      · exact tcpClientReceive_capacity _ segment
  | send link flags payload =>
      simp only [tcpStep, Option.some.injEq] at stepped
      subst stepped
      exact (tcpClientSendSegment_same run.client link flags payload).rxCapacity
  | abort =>
      simp only [tcpStep, Option.some.injEq] at stepped
      subst stepped
      rfl

end Client

/-- Before the handshake nothing is consumed and `rcv_nxt` is 0; from then on it counts the
SYN, the consumed bytes and the consumed FIN. -/
def ExpectedNumber (isn : UInt32) (run : TcpRun) : Prop :=
  if run.client.established then
    run.client.rcvNxt.toNat = (isn.toNat + 1 + run.consumed + run.fins) % 2 ^ 32
  else run.consumed = 0 ∧ run.fins = 0 ∧ run.client.rcvNxt = 0

/-- In every run of deliveries, sends and the abort, whatever the order, loss, repetition
and segmentation. -/
theorem tcp_client_reassembles {isn : UInt32} {stream : List UInt8} {fin : Bool} {final : TcpRun}
    {srcPort dstPort : UInt16} {remoteIp sequence capacity : UInt32} {buffer : Mem} {tick : UInt64}
    {events : List TcpEvent} (short : stream.length < 2 ^ 32 - 2)
    (peer : RunMeets tcpStep (FromPeer isn stream fin)
      ⟨freshTcpClient srcPort dstPort remoteIp sequence buffer capacity tick, 0, 0⟩ events)
    (reached : runActions tcpStep
      ⟨freshTcpClient srcPort dstPort remoteIp sequence buffer capacity tick, 0, 0⟩ events =
        some final) :
    HoldsPrefix stream final ∧ final.client.rxCapacity = capacity ∧ final.fins ≤ 1 ∧
      ExpectedNumber isn final := by
  have start : Reassembles isn stream
      ⟨freshTcpClient srcPort dstPort remoteIp sequence buffer capacity tick, 0, 0⟩ := by
    refine ⟨⟨by simp, by simp [freshTcpClient], by simp [freshTcpClient, Mem.read], by
      simp [freshTcpClient]⟩, by simp, by simp, by simp [freshTcpClient], by simp [freshTcpClient]⟩
  have holds := runActions_guarded
    (fun state event next holds peer stepped => Reassembles.step holds short peer stepped) start
    peer reached
  refine ⟨holds.holds, ?_, holds.finOnce, ?_⟩
  · have kept : ∀ state event next, state.client.rxCapacity = capacity →
        tcpStep state event = some next → next.client.rxCapacity = capacity :=
      fun _ _ _ same stepped => (tcpStep_capacity stepped).trans same
    exact runActions_invariant kept rfl reached
  · unfold ExpectedNumber
    split
    · rename_i established
      rw [holds.expected established, UInt32.toNat_add, UInt32.toNat_add, UInt32.toNat_ofNat',
        UInt32.toNat_one]
      omega
    · rename_i waiting
      exact holds.waiting (by simpa using waiting)

def peerSegment (sequence ackNumber : UInt32) (flags : UInt8) (payload : List UInt8) : TcpSegment :=
  ⟨0x0A000001, 80, 49152, sequence, ackNumber, flags, payload⟩

def httpClient (capacity : UInt32) : TcpRun :=
  ⟨freshTcpClient 49152 80 0x0A000001 1000 (fun _ => 0) capacity 0, 0, 0⟩

def upLink : TcpLink := ⟨true, true⟩

/-- The peer's numbers wrap inside its three bytes, the last byte comes too early once, the
first two are repeated, and the buffer has room for two. -/
def wrappingDelivery : List TcpEvent :=
  [.send upLink tcpFlagSyn [],
    .deliver upLink 1 (peerSegment 0xFFFFFFFE 1001 (tcpFlagSyn ||| tcpFlagAck) []),
    .deliver upLink 2 (peerSegment 1 1001 (tcpFlagFin ||| tcpFlagAck) [67]),
    .deliver upLink 3 (peerSegment 0xFFFFFFFF 1001 tcpFlagAck [65, 66]),
    .deliver upLink 4 (peerSegment 0xFFFFFFFF 1001 tcpFlagAck [65, 66]),
    .deliver upLink 5 (peerSegment 1 1001 (tcpFlagFin ||| tcpFlagAck) [67])]

theorem wrappingDelivery_meets (run : TcpRun) :
    RunMeets tcpStep (FromPeer 0xFFFFFFFE [65, 66, 67] true) run wrappingDelivery := by
  have last : PeerSegment 0xFFFFFFFE [65, 66, 67] true
      (peerSegment 1 1001 (tcpFlagFin ||| tcpFlagAck) [67]) :=
    .piece 2 (by decide) (by decide) (by decide) (by decide) (by decide)
  have first : PeerSegment 0xFFFFFFFE [65, 66, 67] true
      (peerSegment 0xFFFFFFFF 1001 tcpFlagAck [65, 66]) :=
    .piece 0 (by decide) (by decide) (by decide) (by decide) (by decide)
  refine ⟨trivial, fun _ _ => ⟨fun _ => .syn (by decide) rfl, fun _ _ => ⟨fun _ => last,
    fun _ _ => ⟨fun _ => first, fun _ _ => ⟨fun _ => first, fun _ _ => ⟨fun _ => last, ?_⟩⟩⟩⟩⟩⟩
  exact fun _ _ => trivial

theorem wrappingDelivery_reassembled :
    ∃ final, runActions tcpStep (httpClient 2) wrappingDelivery = some final ∧
      final.consumed = 3 ∧ final.fins = 1 ∧ final.client.rcvNxt = 3 ∧
      final.client.truncated = true ∧ HoldsPrefix [65, 66, 67] final := by
  refine ⟨_, rfl, by decide, by decide, by decide, by decide, ?_⟩
  have holds := tcp_client_reassembles (by decide) (wrappingDelivery_meets (httpClient 2)) rfl
  exact holds.1

/-- Before the peer's SYN arrives the client expects number 0, whatever the peer's is. -/
theorem fresh_client_expects_zero :
    ¬∀ (isn : UInt32) (stream : List UInt8) (fin : Bool) (capacity : UInt32)
      (events : List TcpEvent) (final : TcpRun),
      stream.length < 2 ^ 32 - 2 →
      RunMeets tcpStep (FromPeer isn stream fin) (httpClient capacity) events →
      runActions tcpStep (httpClient capacity) events = some final →
      final.client.rcvNxt.toNat = (isn.toNat + 1 + final.consumed + final.fins) % 2 ^ 32 := by
  intro always
  have wrong := always 5 [104, 105] true 64 [] (httpClient 64) (by decide) trivial rfl
  revert wrong
  decide

end Szczupak
