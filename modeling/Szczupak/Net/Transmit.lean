import Szczupak.Net.Packet
import Szczupak.Net.ReceiveCore

/-!
What a send from outside `net_poll` transmits.  The packet is built in a static buffer, then
the call waits for the address of the next hop, and only then is the buffer copied out.  The
frames handled while it waits may be answered from the same buffer.
-/

namespace Szczupak

structure SameBuffers (state after : NetState) : Prop where
  tcp : after.txTcpPacket = state.txTcpPacket
  udp : after.txUdpPacket = state.txUdpPacket

structure SameLease (state after : NetState) : Prop where
  config : after.config = state.config
  dhcp : after.dhcp = state.dhcp

structure Quiet (state after : NetState) : Prop extends SameBuffers state after, SameLease state after

theorem SameLease.refl (state : NetState) : SameLease state state := ⟨rfl, rfl⟩

theorem SameLease.trans {state middle after : NetState} (first : SameLease state middle)
    (second : SameLease middle after) : SameLease state after :=
  ⟨second.config.trans first.config, second.dhcp.trans first.dhcp⟩

theorem Quiet.refl (state : NetState) : Quiet state state := ⟨⟨rfl, rfl⟩, .refl state⟩

theorem Quiet.trans {state middle after : NetState} (first : Quiet state middle)
    (second : Quiet middle after) : Quiet state after :=
  ⟨⟨second.tcp.trans first.tcp, second.udp.trans first.udp⟩, first.toSameLease.trans second.toSameLease⟩

structure TcpOnly (state after : NetState) : Prop extends SameLease state after where
  udp : after.txUdpPacket = state.txUdpPacket

structure UdpOnly (state after : NetState) : Prop extends SameLease state after where
  tcp : after.txTcpPacket = state.txTcpPacket

section Frames

variable {world : World} {state after : NetState}

theorem pitGetTicks_same (world : World) (state : NetState) :
    Quiet state (pitGetTicks world state).2 := ⟨⟨rfl, rfl⟩, ⟨rfl, rfl⟩⟩

theorem arpCacheExpireStale_same (world : World) (state : NetState) :
    Quiet state (arpCacheExpireStale world state) := by
  unfold arpCacheExpireStale
  split
  · exact .refl state
  · exact ⟨⟨rfl, rfl⟩, ⟨rfl, rfl⟩⟩

theorem arpCacheLookup_same (world : World) (state : NetState) (ip : UInt32) :
    Quiet state (arpCacheLookup world state ip).2 :=
  arpCacheExpireStale_same world state

theorem arpCacheUpdate_same (world : World) (state : NetState) (ip : UInt32) (mac : Mac) :
    Quiet state (arpCacheUpdate world state ip mac) := by
  unfold arpCacheUpdate
  split
  · exact .refl state
  · dsimp only
    split
    · exact ⟨⟨rfl, rfl⟩, ⟨rfl, rfl⟩⟩
    · exact ⟨⟨rfl, rfl⟩, ⟨rfl, rfl⟩⟩

theorem netSendEthernetFrame_same (world : World) (state : NetState) (dstMac : Mac)
    (ethertype : UInt16) (payload : List UInt8) :
    Quiet state (netSendEthernetFrame world state dstMac ethertype payload).2 := by
  unfold netSendEthernetFrame
  split
  · exact .refl state
  · exact ⟨⟨rfl, rfl⟩, ⟨rfl, rfl⟩⟩

theorem arpSendRequest_same (world : World) (state : NetState) (targetIp : UInt32) :
    Quiet state (arpSendRequest world state targetIp).2 := by
  unfold arpSendRequest
  split
  · exact .refl state
  · exact netSendEthernetFrame_same world state _ _ _

theorem arpSendReply_same (world : World) (state : NetState) (targetMac : Mac) (targetIp : UInt32) :
    Quiet state (arpSendReply world state targetMac targetIp).2 := by
  unfold arpSendReply
  split
  · exact .refl state
  · exact netSendEthernetFrame_same world state _ _ _

theorem netSendIpv4Resolved_same (world : World) (state : NetState) (src dst : AddressRef)
    (protocol ttl : UInt8) (payload : PayloadRef) (payloadLength : Nat) (dstMac : Mac) :
    Quiet state
      (netSendIpv4Resolved world state src dst protocol ttl payload payloadLength dstMac).2 := by
  have bumped : Quiet state { state with ipIdentification := state.ipIdentification + 1 } :=
    ⟨⟨rfl, rfl⟩, ⟨rfl, rfl⟩⟩
  exact bumped.trans (netSendEthernetFrame_same world _ _ _ _)

end Frames

section Wait

variable {Round : Type} {poll : NetState → Round → Option NetState} {world : World}
  {guard : NetState → Round → Prop} {View : Type} {view : NetState → View} {state after : NetState}

/-- `guard` holds of every round that the wait for `targetIp` polls, in the state it is
polled in. -/
def ResolveMeets (poll : NetState → Round → Option NetState) (world : World)
    (guard : NetState → Round → Prop) (state : NetState) (targetIp : UInt32) (rounds : List Round) :
    Prop :=
  ∀ looked asked, targetIp ≠ ipBroadcast → arpCacheLookup world state targetIp = (none, looked) →
    arpSendRequest world looked targetIp = (true, asked) →
    if world.frequency = 0 then
      UntilMeets (arpSpinTurn poll world targetIp)
        (fun wait round => wait.2 ≠ 300000 → guard wait.1 round) (asked, 0) rounds
    else
      let (now, ready) := pitGetTicks world asked
      let deadline := now + arpTimeoutTicks world.frequency 1200
      let retryTicks := arpRetryTicks world.frequency
      UntilMeets (arpWaitTurn poll world targetIp deadline retryTicks)
        (fun wait round => (pitGetTicks world wait.1).1 ≤ deadline →
          guard (pitGetTicks world wait.1).2 round) (ready, now + retryTicks) rounds

def resolveTarget (config : NetConfig) (dstIp : UInt32) (forceBroadcastEth : Bool) : Option UInt32 :=
  if forceBroadcastEth || dstIp == ipBroadcast then none
  else if config.configured && dstIp == config.ip then none
  else
    match netPickNextHop config dstIp with
    | some (nextHop, false) => some nextHop
    | _ => none

def SendMeets (poll : NetState → Round → Option NetState) (world : World)
    (guard : NetState → Round → Prop) (state : NetState) (dstIp : UInt32) (forceBroadcastEth : Bool)
    (rounds : List Round) : Prop :=
  ∀ nextHop, resolveTarget state.config dstIp forceBroadcastEth = some nextHop →
    ResolveMeets poll world guard state nextHop rounds

section

variable (stable : ∀ {before after}, Quiet before after → view after = view before)
  (polls : ∀ {before round after}, guard before round → poll before round = some after →
  view after = view before)
include stable polls

theorem arpSpinTurn_view {targetIp : UInt32} {wait : NetState × Nat} {round : Round}
    (allowed : wait.2 ≠ 300000 → guard wait.1 round)
    {outcome : (NetState × Nat) ⊕ (Option Mac × NetState)}
    (turned : arpSpinTurn poll world targetIp wait round = some outcome) :
    view (outcome.elim Prod.fst Prod.snd) = view wait.1 := by
  unfold arpSpinTurn at turned
  split at turned
  · cases turned
    rfl
  · rename_i running
    split at turned
    · cases turned
    · rename_i polled taken
      have kept := polls (allowed running) taken
      have looked := arpCacheLookup_same world polled targetIp
      split at turned
      · rename_i found
        rw [found] at looked
        cases turned
        exact (stable looked).trans kept
      · rename_i missed
        rw [missed] at looked
        cases turned
        exact (stable looked).trans kept

theorem arpWaitTurn_view {targetIp : UInt32} {deadline retryTicks : UInt64}
    {wait : NetState × UInt64} {round : Round}
    (allowed : (pitGetTicks world wait.1).1 ≤ deadline → guard (pitGetTicks world wait.1).2 round)
    {outcome : (NetState × UInt64) ⊕ (Option Mac × NetState)}
    (turned : arpWaitTurn poll world targetIp deadline retryTicks wait round = some outcome) :
    view (outcome.elim Prod.fst Prod.snd) = view wait.1 := by
  have ticked := stable (pitGetTicks_same world wait.1)
  unfold arpWaitTurn at turned
  dsimp only at turned
  split at turned
  · cases turned
    exact (stable (arpCacheLookup_same world _ targetIp)).trans ticked
  · rename_i early
    split at turned
    · cases turned
    · rename_i polled taken
      have kept := (polls (allowed (by simpa using early)) taken).trans ticked
      have looked := arpCacheLookup_same world polled targetIp
      split at turned
      · rename_i found
        rw [found] at looked
        cases turned
        exact (stable looked).trans kept
      · rename_i missed
        rw [missed] at looked
        have again := (stable (pitGetTicks_same world _)).trans ((stable looked).trans kept)
        split at turned
        · cases turned
          exact (stable (arpSendRequest_same world _ targetIp)).trans again
        · cases turned
          exact again

variable {rounds : List Round}

theorem arpResolve_view {targetIp : UInt32} {found : Option Mac}
    (meets : ResolveMeets poll world guard state targetIp rounds)
    (resolved : arpResolve poll world state targetIp netDefaultPingTimeoutMs rounds =
      some (found, after)) :
    view after = view state := by
  have looked := stable (arpCacheLookup_same world state targetIp)
  have asked := stable (arpSendRequest_same world (arpCacheLookup world state targetIp).2 targetIp)
  unfold arpResolve at resolved
  dsimp only at resolved
  split at resolved
  · cases resolved
    rfl
  · rename_i unicast
    split at resolved
    · rename_i hit
      rw [hit] at looked
      cases resolved
      exact looked
    · rename_i missed
      rw [missed] at looked asked
      split at resolved
      · rename_i refused
        rw [refused] at asked
        cases resolved
        exact asked.trans looked
      · rename_i requested
        rw [requested] at asked
        have waits := meets _ _ unicast missed requested
        split at resolved
        · rename_i untimed
          simp only [untimed, if_true] at waits
          have ended := @runUntil_guarded _ _ _ _ _ (fun wait => view wait.1 = view state)
            (fun result => view result.2 = view state)
            (fun wait round next same allowed turned =>
              (arpSpinTurn_view stable polls allowed turned).trans same)
            (fun wait round result same allowed turned =>
              (arpSpinTurn_view stable polls allowed turned).trans same)
            _ _ _ (asked.trans looked) waits resolved
          exact ended
        · rename_i timed
          simp only [timed, if_false] at waits
          have ticked := (stable (pitGetTicks_same world _)).trans (asked.trans looked)
          have ended := @runUntil_guarded _ _ _ _ _ (fun wait => view wait.1 = view state)
            (fun result => view result.2 = view state)
            (fun wait round next same allowed turned =>
              (arpWaitTurn_view stable polls allowed turned).trans same)
            (fun wait round result same allowed turned =>
              (arpWaitTurn_view stable polls allowed turned).trans same)
            _ _ _ ticked waits resolved
          exact ended

variable {forceBroadcastEth : Bool} {dstIp : UInt32}

theorem netResolveDestMac_view {found : Option Mac}
    (meets : SendMeets poll world guard state dstIp forceBroadcastEth rounds)
    (resolved : netResolveDestMac poll world state dstIp forceBroadcastEth rounds =
    some (found, after)) : view after = view state := by
  unfold netResolveDestMac at resolved
  split at resolved
  · cases resolved
    rfl
  · rename_i unicast
    split at resolved
    · cases resolved
      rfl
    · rename_i foreign
      split at resolved
      · cases resolved
        rfl
      · cases resolved
        rfl
      · rename_i nextHop picked
        refine arpResolve_view stable polls (meets nextHop ?_) resolved
        unfold resolveTarget
        rw [if_neg unicast, if_neg foreign, picked]

variable {src dst : AddressRef} {protocol ttl : UInt8} {payload : PayloadRef} {payloadLength : Nat}

theorem netSendIpv4Payload_view {forceBroadcastEth sent : Bool}
    (meets : SendMeets poll world guard state (dst.load state.config) forceBroadcastEth rounds)
    (done : netSendIpv4Payload poll world state src dst protocol ttl payload payloadLength
      forceBroadcastEth rounds = some (sent, after)) :
    view after = view state := by
  unfold netSendIpv4Payload at done
  split at done
  · cases done
    rfl
  · split at done
    · cases done
    · rename_i resolved
      cases done
      exact netResolveDestMac_view stable polls meets resolved
    · rename_i dstMac ready resolved
      have kept := netResolveDestMac_view stable polls meets resolved
      have same := netSendIpv4Resolved_same world ready src dst protocol ttl payload payloadLength dstMac
      simp only [Option.some.injEq] at done
      rw [done] at same
      exact (stable same).trans kept

end

end Wait

section Idle

variable {world : World} {state after : NetState}

theorem UntilMeets.always {State Action Result : Type}
    {turn : State → Action → Option (State ⊕ Result)} {guard : State → Action → Prop}
    (holds : ∀ state action, guard state action) (state : State) (actions : List Action) :
    UntilMeets turn guard state actions := by
  induction actions generalizing state with
  | nil => trivial
  | cons action rest ih => exact ⟨holds state action, fun next _ => ih next⟩

theorem idle_meets (state : NetState) (dstIp : UInt32) (forceBroadcastEth : Bool) (rounds : List Unit) :
    SendMeets idlePoll world (fun _ _ => True) state dstIp forceBroadcastEth rounds := by
  intro nextHop _ looked asked _ _ _
  split
  · exact UntilMeets.always (fun _ _ _ => trivial) _ _
  · exact UntilMeets.always (fun _ _ _ => trivial) _ _

theorem idleSend_same {forceBroadcastEth sent : Bool} {rounds : List Unit}
    (done : netSendIpv4Payload idlePoll world state src dst protocol ttl payload payloadLength
      forceBroadcastEth rounds = some (sent, after)) : Quiet state after := by
  have polls : ∀ {View : Type} {view : NetState → View} {before round next}, True →
      idlePoll before round = some next → view next = view before := by
    intro _ view before round next _ polled
    cases polled
    rfl
  have kept := fun {View : Type} {view : NetState → View}
      (stable : ∀ {before after}, Quiet before after → view after = view before) =>
    netSendIpv4Payload_view stable polls (idle_meets _ _ _ _) done
  exact ⟨⟨kept fun same => same.tcp, kept fun same => same.udp⟩,
    ⟨kept fun same => same.config, kept fun same => same.dhcp⟩⟩

theorem tcpReply_only {src : AddressRef} {call : TcpCall} {sent : Bool}
    (done : tcpReply world state src dstIp call = some (sent, after)) : TcpOnly state after := by
  unfold tcpReply netSendTcpIpv4 at done
  split at done
  · cases done
    exact ⟨.refl state, rfl⟩
  · split at done
    · cases done
      exact ⟨.refl state, rfl⟩
    · have same := idleSend_same done
      exact ⟨⟨same.config, same.dhcp⟩, same.udp⟩

theorem dhcpSendDiscover_only {sent : Bool}
    (done : dhcpSendDiscover world state = some (sent, after)) : UdpOnly state after := by
  unfold dhcpSendDiscover netSendUdpIpv4 at done
  split at done
  · cases done
    exact ⟨.refl state, rfl⟩
  · split at done
    · cases done
      exact ⟨.refl state, rfl⟩
    · have same := idleSend_same done
      exact ⟨⟨same.config, same.dhcp⟩, same.tcp⟩

end Idle

def deliveredDatagram (world : World) (config : NetConfig) (frame : List UInt8) : Option Ipv4Datagram :=
  if frame.length < ethHeaderSize then none
  else if macAt frame 0 ≠ macBroadcast ∧ macAt frame 0 ≠ world.mac then none
  else if readBe16 frame 12 ≠ ethTypeIpv4 then none
  else (ipv4Accept (frame.drop ethHeaderSize)).filter fun datagram => ipv4ForUs config datagram.dstIp

def tcpClientAnswers (client : TcpClient) (segment : TcpSegment) : Bool :=
  !hasFlag segment.flags tcpFlagRst &&
    if !client.established then
      segment.flags &&& (tcpFlagSyn ||| tcpFlagAck) == tcpFlagSyn ||| tcpFlagAck &&
        segment.ackNumber == client.sndNxt
    else if segment.sequence ≠ client.rcvNxt then
      decide (segment.payload.length > 0) || hasFlag segment.flags (tcpFlagFin ||| tcpFlagSyn)
    else decide (segment.payload.length > 0) || hasFlag segment.flags tcpFlagFin

/-- The segment is answered: by the probe, by the client's acknowledgement or by a reset. -/
def tcpSegmentAnswered (state : NetState) (segment : TcpSegment) (dstIp : UInt32) : Bool :=
  if tcpProbeMatches state.probe segment && hasFlag segment.flags tcpFlagRst then false
  else if tcpProbeMatches state.probe segment && tcpProbeAnswered state.probe segment then true
  else if tcpClientMatches state.client segment.srcIp segment.srcPort segment.dstPort then
    netConfigured state.config && tcpClientAnswers state.client segment
  else
    netConfigured state.config && dstIp == state.config.ip && !hasFlag segment.flags tcpFlagRst

def tcpAnswered (world : World) (state : NetState) (frame : List UInt8) : Bool :=
  match deliveredDatagram world state.config frame with
  | none => false
  | some datagram =>
      datagram.protocol == ipProtoTcp &&
        match tcpAccept datagram.payload datagram.srcIp datagram.dstIp with
        | none => false
        | some segment => tcpSegmentAnswered state segment datagram.dstIp

/-- The datagram is a DHCP NAK for the request that is waiting for its answer. -/
def udpDatagramAnswered (world : World) (state : NetState) (datagram : UdpDatagram) : Bool :=
  datagram.srcPort == 67 && datagram.dstPort == 68 && state.dhcp.state == .waitAck &&
    (dhcpAccept world state.dhcp datagram.payload).any fun reply => reply.1 == dhcpMsgNak

def udpAnswered (world : World) (state : NetState) (frame : List UInt8) : Bool :=
  match deliveredDatagram world state.config frame with
  | none => false
  | some datagram =>
      datagram.protocol == ipProtoUdp &&
        match udpAccept datagram.payload datagram.srcIp datagram.dstIp with
        | none => false
        | some accepted => udpDatagramAnswered world state accepted

section Handlers

variable {world : World} {state after : NetState}

theorem dnsHandleUdpPacket_same (world : World) (state : NetState) (payload : List UInt8)
    (srcIp : UInt32) (srcPort dstPort : UInt16) :
    Quiet state (dnsHandleUdpPacket world state payload srcIp srcPort dstPort) := by
  unfold dnsHandleUdpPacket
  split
  · exact .refl state
  · split
    · exact .refl state
    · split
      · exact .refl state
      · split
        · exact .refl state
        · exact ⟨⟨rfl, rfl⟩, ⟨rfl, rfl⟩⟩

theorem icmpAnswerEcho_same (world : World) (state : NetState) (payload : List UInt8)
    (srcIp dstIp : UInt32) (srcMac : Mac) :
    Quiet state (icmpAnswerEcho world state payload srcIp dstIp srcMac) := by
  unfold icmpAnswerEcho
  split
  · exact .refl state
  · split
    · exact .refl state
    · split
      · exact .refl state
      · split
        · exact .refl state
        · have bumped : Quiet state
              { state with ipIdentification := state.ipIdentification + 1 } := ⟨⟨rfl, rfl⟩, ⟨rfl, rfl⟩⟩
          exact (bumped.trans (arpCacheUpdate_same world _ srcIp srcMac)).trans
            (netSendEthernetFrame_same world _ _ _ _)

theorem netHandleIcmp_same (world : World) (state : NetState) (payload : List UInt8)
    (srcIp dstIp : UInt32) (srcMac : Mac) :
    Quiet state (netHandleIcmp world state payload srcIp dstIp srcMac) := by
  unfold netHandleIcmp
  dsimp only
  split
  · exact .refl state
  · split
    · exact .refl state
    · split
      · exact icmpAnswerEcho_same world state payload srcIp dstIp srcMac
      · split
        · split
          · exact ⟨⟨rfl, rfl⟩, ⟨rfl, rfl⟩⟩
          · exact .refl state
        · split
          · split
            · exact ⟨⟨rfl, rfl⟩, ⟨rfl, rfl⟩⟩
            · exact .refl state
          · exact .refl state

theorem netHandleArp_same (world : World) (state : NetState) (packet : List UInt8) :
    Quiet state (netHandleArp world state packet) := by
  unfold netHandleArp
  dsimp only
  split
  · exact .refl state
  · split
    · exact .refl state
    · generalize learned : (if readBe32 packet 14 ≠ ipZero ∧ macAt packet 8 ≠ macZero ∧
          macAt packet 8 ≠ macBroadcast then
        arpCacheUpdate world state (readBe32 packet 14) (macAt packet 8) else state) = later
      have kept : Quiet state later := by
        rw [← learned]
        split
        · exact arpCacheUpdate_same world state _ _
        · exact .refl state
      split
      · split
        · exact kept
        · split
          · exact kept
          · split
            · exact kept.trans (arpSendReply_same world later _ _)
            · exact kept
      · exact kept

theorem ipv4LearnSender_eq (world : World) (state : NetState) (srcIp : UInt32) (srcMac : Mac) :
    ∃ cache readings, ipv4LearnSender world state srcIp srcMac =
      { state with arpCache := cache, readings := readings } := by
  unfold ipv4LearnSender arpCacheUpdate
  split
  · split
    · exact ⟨state.arpCache, state.readings, rfl⟩
    · dsimp only
      split
      · exact ⟨_, _, rfl⟩
      · exact ⟨_, _, rfl⟩
  · exact ⟨state.arpCache, state.readings, rfl⟩

theorem tcpClientAcknowledge_sends (client : TcpClient) {link : TcpLink}
    (off : link.configured = false) : (tcpClientAcknowledge client link).2.2 = [] := by
  unfold tcpClientAcknowledge tcpClientSendSegment
  simp [off]

theorem tcpClientHandleSegment_silent {client : TcpClient} {link : TcpLink} {tick : UInt64}
    {segment : TcpSegment} (silent : (link.configured && tcpClientAnswers client segment) = false) :
    (tcpClientHandleSegment client link tick segment).2.2 = [] := by
  unfold tcpClientHandleSegment
  split
  · rfl
  · cases on : link.configured with
    | false =>
        unfold tcpClientReceive
        split
        · rfl
        · split
          · split
            · exact tcpClientAcknowledge_sends _ on
            · rfl
          · split
            · split
              · exact tcpClientAcknowledge_sends _ on
              · rfl
            · dsimp only
              split
              · exact tcpClientAcknowledge_sends _ on
              · rfl
    | true =>
        simp only [on, Bool.true_and] at silent
        unfold tcpClientAnswers at silent
        unfold tcpClientReceive
        split
        · rfl
        · rename_i noReset
          simp only [noReset, Bool.not_false, Bool.true_and] at silent
          dsimp only
          split
          · rename_i opening
            rw [if_pos opening] at silent
            split
            · rename_i synAck
              simp [synAck.1, synAck.2] at silent
            · rfl
          · rename_i established
            rw [if_neg established] at silent
            split
            · rename_i outOfOrder
              rw [if_pos outOfOrder] at silent
              split
              · rename_i acked
                simp only [Bool.or_eq_false_iff, decide_eq_false_iff_not] at silent
                rcases acked with data | flag
                · exact absurd data silent.1
                · exact absurd flag (by simp [silent.2])
              · rfl
            · rename_i inOrder
              rw [if_neg inOrder] at silent
              split
              · rename_i acked
                simp only [Bool.or_eq_false_iff, decide_eq_false_iff_not] at silent
                rcases acked with data | flag
                · exact absurd data silent.1
                · exact absurd flag (by simp [silent.2])
              · rfl

theorem tcpClientDeliver_only {segment : TcpSegment}
    (done : tcpClientDeliver world state segment = some after) :
    TcpOnly state after := by
  unfold tcpClientDeliver at done
  dsimp only at done
  split at done
  · cases done
    exact ⟨⟨rfl, rfl⟩, rfl⟩
  · split at done
    · cases done
    · rename_i replied
      cases done
      have kept := tcpReply_only replied
      exact ⟨⟨kept.config, kept.dhcp⟩, kept.udp⟩

theorem tcpClientDeliver_tcp {segment : TcpSegment}
    (silent : (netConfigured state.config && tcpClientAnswers state.client segment) = false)
    (done : tcpClientDeliver world state segment = some after) :
    after.txTcpPacket = state.txTcpPacket := by
  unfold tcpClientDeliver at done
  dsimp only at done
  split at done
  · cases done
    rfl
  · rename_i sends
    have none := @tcpClientHandleSegment_silent state.client ⟨netConfigured state.config, true⟩
      (world.ticks state.readings) segment silent
    have contra := sends.symm.trans none
    cases contra

theorem tcpDeliver_only {segment : TcpSegment}
    (done : tcpDeliver world state segment dstIp = some after) :
    TcpOnly state after := by
  unfold tcpDeliver at done
  dsimp only at done
  split at done
  · cases done
    exact ⟨⟨rfl, rfl⟩, rfl⟩
  · split at done
    · obtain ⟨⟨sent, final⟩, replied, same⟩ := Option.map_eq_some_iff.mp done
      cases same
      have kept := tcpReply_only replied
      exact ⟨⟨kept.config, kept.dhcp⟩, kept.udp⟩
    · split at done
      · exact tcpClientDeliver_only done
      · split at done
        · cases done
          exact ⟨⟨rfl, rfl⟩, rfl⟩
        · unfold tcpSendResetForSegment at done
          split at done
          · cases done
            exact ⟨⟨rfl, rfl⟩, rfl⟩
          · obtain ⟨⟨sent, final⟩, replied, same⟩ := Option.map_eq_some_iff.mp done
            cases same
            exact tcpReply_only replied

theorem tcpDeliver_tcp {segment : TcpSegment}
    (silent : tcpSegmentAnswered state segment dstIp = false)
    (done : tcpDeliver world state segment dstIp = some after) :
    after.txTcpPacket = state.txTcpPacket := by
  unfold tcpDeliver at done
  unfold tcpSegmentAnswered at silent
  dsimp only at done
  split at done
  · cases done
    rfl
  · rename_i notReset
    rw [if_neg notReset] at silent
    split at done
    · rename_i probed
      simp [probed] at silent
    · rename_i notProbed
      rw [if_neg notProbed] at silent
      split at done
      · rename_i ours
        rw [if_pos ours] at silent
        exact tcpClientDeliver_tcp silent done
      · rename_i foreign
        rw [if_neg foreign] at silent
        split at done
        · cases done
          rfl
        · rename_i forUs
          unfold tcpSendResetForSegment at done
          split at done
          · cases done
            rfl
          · rename_i answered
            simp_all

variable {payload : List UInt8} {frame : List UInt8}

theorem dhcpHandlePacket_tcp {sourceIp : UInt32}
    (done : dhcpHandlePacket world state payload sourceIp = some after) :
    after.txTcpPacket = state.txTcpPacket := by
  unfold dhcpHandlePacket at done
  split at done
  · cases done
    rfl
  · dsimp only at done
    split at done
    · cases done
      split
      · rfl
      · rfl
    · split at done
      · cases done
        rfl
      · split at done
        · obtain ⟨⟨sent, final⟩, discovered, same⟩ := Option.map_eq_some_iff.mp done
          cases same
          exact (dhcpSendDiscover_only discovered).tcp
        · cases done
          rfl

theorem dhcpHandlePacket_udp {sourceIp : UInt32} (silent : (state.dhcp.state == .waitAck &&
      (dhcpAccept world state.dhcp payload).any fun reply => reply.1 == dhcpMsgNak) = false)
    (done : dhcpHandlePacket world state payload sourceIp = some after) :
    after.txUdpPacket = state.txUdpPacket := by
  unfold dhcpHandlePacket at done
  split at done
  · cases done
    rfl
  · rename_i accepted
    dsimp only at done
    split at done
    · cases done
      split
      · rfl
      · rfl
    · split at done
      · cases done
        rfl
      · split at done
        · rename_i refused
          simp [accepted, refused.1, refused.2] at silent
        · cases done
          rfl

theorem netHandleUdp_tcp {packet : List UInt8} {srcIp dstIp : UInt32}
    (done : netHandleUdp world state packet srcIp dstIp = some after) :
    after.txTcpPacket = state.txTcpPacket := by
  unfold netHandleUdp at done
  split at done
  · cases done
    rfl
  · split at done
    · exact dhcpHandlePacket_tcp done
    · cases done
      exact (dnsHandleUdpPacket_same world state _ srcIp _ _).tcp

theorem netHandleEthernet_cases (handled : netHandleEthernet world state frame = some after) :
    Quiet state after ∨ ∃ datagram cache readings srcMac,
      deliveredDatagram world state.config frame = some datagram ∧
      ipv4Dispatch world { state with arpCache := cache, readings := readings } datagram srcMac =
        some after := by
  unfold netHandleEthernet at handled
  split at handled
  · cases handled
    exact Or.inl (.refl state)
  · rename_i long
    split at handled
    · cases handled
      exact Or.inl (.refl state)
    · rename_i addressed
      split at handled
      · rename_i ipv4
        unfold netHandleIpv4 at handled
        split at handled
        · cases handled
          exact Or.inl (.refl state)
        · rename_i datagram accepted
          obtain ⟨cache, readings, learned⟩ :=
            ipv4LearnSender_eq world state datagram.srcIp (macAt frame 6)
          rw [learned] at handled
          dsimp only at handled
          split at handled
          · rename_i forUs
            refine Or.inr ⟨datagram, cache, readings, macAt frame 6, ?_, handled⟩
            unfold deliveredDatagram
            rw [if_neg long, if_neg addressed, if_neg (not_not_intro ipv4), accepted]
            simp [forUs]
          · cases handled
            exact Or.inl ⟨⟨rfl, rfl⟩, ⟨rfl, rfl⟩⟩
      · split at handled
        · cases handled
          exact Or.inl (netHandleArp_same world state _)
        · cases handled
          exact Or.inl (.refl state)

theorem netHandleEthernet_view {View : Type} {view : NetState → View}
    (stable : ∀ {before after}, Quiet before after → view after = view before)
    (dispatch : ∀ {datagram cache readings srcMac},
      deliveredDatagram world state.config frame = some datagram →
      ipv4Dispatch world { state with arpCache := cache, readings := readings } datagram srcMac =
        some after → view after = view state)
    (handled : netHandleEthernet world state frame = some after) : view after = view state := by
  rcases netHandleEthernet_cases handled with quiet | ⟨datagram, cache, readings, srcMac,
    delivered, done⟩
  · exact stable quiet
  · exact dispatch delivered done

theorem tcpSegmentAnswered_learned (cache : List ArpCacheEntry) (readings : Nat)
    (segment : TcpSegment) (dstIp : UInt32) :
    tcpSegmentAnswered { state with arpCache := cache, readings := readings } segment dstIp =
      tcpSegmentAnswered state segment dstIp := rfl

theorem netHandleEthernet_tcp (silent : tcpAnswered world state frame = false)
    (handled : netHandleEthernet world state frame = some after) :
    after.txTcpPacket = state.txTcpPacket := by
  refine netHandleEthernet_view (fun same => same.tcp) ?_ handled
  intro datagram cache readings srcMac delivered dispatched
  unfold tcpAnswered at silent
  simp only [delivered] at silent
  unfold ipv4Dispatch at dispatched
  split at dispatched
  · cases dispatched
    exact (netHandleIcmp_same world _ _ _ _ _).tcp
  · split at dispatched
    · have kept := netHandleUdp_tcp dispatched
      exact kept
    · split at dispatched
      · rename_i protocol
        simp only [protocol, beq_self_eq_true, Bool.true_and] at silent
        unfold netHandleTcp at dispatched
        split at dispatched
        · cases dispatched
          rfl
        · rename_i segment accepted
          rw [accepted] at silent
          dsimp only at silent
          rw [← tcpSegmentAnswered_learned cache readings] at silent
          have kept := tcpDeliver_tcp silent dispatched
          exact kept
      · cases dispatched
        rfl

theorem netHandleEthernet_udp (silent : udpAnswered world state frame = false)
    (handled : netHandleEthernet world state frame = some after) :
    after.txUdpPacket = state.txUdpPacket := by
  refine netHandleEthernet_view (fun same => same.udp) ?_ handled
  intro datagram cache readings srcMac delivered dispatched
  unfold udpAnswered at silent
  simp only [delivered] at silent
  unfold ipv4Dispatch at dispatched
  split at dispatched
  · cases dispatched
    exact (netHandleIcmp_same world _ _ _ _ _).udp
  · split at dispatched
    · rename_i protocol
      simp only [protocol, beq_self_eq_true, Bool.true_and] at silent
      unfold netHandleUdp at dispatched
      split at dispatched
      · cases dispatched
        rfl
      · rename_i accepted wellFormed
        rw [wellFormed] at silent
        dsimp only at silent
        unfold udpDatagramAnswered at silent
        split at dispatched
        · rename_i ports
          simp only [ports.1, ports.2, beq_self_eq_true, Bool.true_and] at silent
          have kept := @dhcpHandlePacket_udp world
            { state with arpCache := cache, readings := readings } after _ _ silent dispatched
          exact kept
        · cases dispatched
          exact (dnsHandleUdpPacket_same world _ _ _ _ _).udp
    · split at dispatched
      · unfold netHandleTcp at dispatched
        split at dispatched
        · cases dispatched
          rfl
        · have kept := tcpDeliver_only dispatched
          exact kept.udp
      · cases dispatched
        rfl

end Handlers

/-- The frames that one `net_poll` takes are handled in states in which they are not answered. -/
def RoundSilent (world : World) (answered : World → NetState → List UInt8 → Bool) (state : NetState)
    (frames : List (List UInt8)) : Prop :=
  RunMeets (netHandleEthernet world) (fun state frame => answered world state frame = false) state
    (frames.take 8)

theorem netPoll_view {world : World} {answered : World → NetState → List UInt8 → Bool}
    {View : Type} {view : NetState → View} {state after : NetState} {frames : List (List UInt8)}
    (silent : ∀ {state after frame}, answered world state frame = false →
      netHandleEthernet world state frame = some after → view after = view state)
    (meets : RoundSilent world answered state frames)
    (polled : netPoll world state frames = some after) : view after = view state := by
  unfold netPoll at polled
  split at polled
  · cases polled
    rfl
  · have kept : ∀ before frame next, view before = view state → answered world before frame =
        false → netHandleEthernet world before frame = some next → view next = view state :=
      fun before frame next same quiet handled => (silent quiet handled).trans same
    exact runActions_guarded kept rfl meets polled

inductive SendCall where
  | tcp (src dst : AddressRef) (call : TcpCall) (ttl : UInt8)
  | udp (src dst : AddressRef) (srcPort dstPort : UInt16) (payload : List UInt8)
      (forceBroadcastEth : Bool)

namespace SendCall

def run (world : World) (state : NetState) (rounds : List (List (List UInt8))) :
    SendCall → Option (Bool × NetState)
  | tcp src dst call ttl => netSendTcpIpv4 (netPoll world) world state src dst call ttl rounds
  | udp src dst srcPort dstPort payload forceBroadcastEth =>
      netSendUdpIpv4 (netPoll world) world state src dst srcPort dstPort payload forceBroadcastEth rounds

/-- The transmitted frame carries the call's fields behind the Ethernet and IPv4 headers;
the checksum is the one over the addresses at the time of the call. -/
def CarriedBy (config : NetConfig) (frame : List UInt8) : SendCall → Prop
  | tcp src dst call _ =>
      readBe16 frame 34 = call.srcPort ∧ readBe16 frame 36 = call.dstPort ∧
      readBe32 frame 38 = call.sequence ∧ readBe32 frame 42 = call.ackNumber ∧
      byteAt frame 47 = call.flags ∧
      readBe16 frame 50 = tcpPacketSum (src.load config) (dst.load config) call ∧
      frame.drop 54 = call.payload
  | udp src dst srcPort dstPort payload _ =>
      readBe16 frame 34 = srcPort ∧ readBe16 frame 36 = dstPort ∧
      readBe16 frame 40 = udpPacketSum (src.load config) (dst.load config) srcPort dstPort payload ∧
      frame.drop 42 = payload

def answered : SendCall → World → NetState → List UInt8 → Bool
  | tcp .. => tcpAnswered
  | udp .. => udpAnswered

def build (state : NetState) : SendCall → NetState
  | tcp src dst call _ =>
      let packet := tcpPacket (src.load state.config) (dst.load state.config) call
      { state with txTcpPacket := state.txTcpPacket.store 0 packet }
  | udp src dst srcPort dstPort payload _ =>
      let packet := udpPacket (src.load state.config) (dst.load state.config) srcPort dstPort payload
      { state with txUdpPacket := state.txUdpPacket.store 0 packet }

def dstIp (config : NetConfig) : SendCall → UInt32
  | tcp _ dst _ _ => dst.load config
  | udp _ dst _ _ _ _ => dst.load config

def addresses : SendCall → AddressRef × AddressRef
  | tcp src dst _ _ => (src, dst)
  | udp src dst _ _ _ _ => (src, dst)

def protocol : SendCall → UInt8
  | tcp .. => ipProtoTcp
  | udp .. => ipProtoUdp

def packet (config : NetConfig) : SendCall → List UInt8
  | tcp src dst call _ => tcpPacket (src.load config) (dst.load config) call
  | udp src dst srcPort dstPort payload _ =>
      udpPacket (src.load config) (dst.load config) srcPort dstPort payload

def Fits : SendCall → Prop
  | tcp _ _ call _ => call.payload.length ≤ 1460 ∧ call.srcPort ≠ 0 ∧ call.dstPort ≠ 0
  | udp _ _ _ _ payload _ => payload.length ≤ 1472

def forced : SendCall → Bool
  | tcp .. => false
  | udp _ _ _ _ _ forceBroadcastEth => forceBroadcastEth

/-- No frame handled while the call waits is answered from the call's own buffer. -/
def Undisturbed (world : World) (state : NetState) (rounds : List (List (List UInt8)))
    (call : SendCall) : Prop :=
  SendMeets (netPoll world) world (RoundSilent world call.answered) (call.build state)
    (call.dstIp state.config) call.forced rounds

end SendCall

section Outside

variable {Round : Type} {poll : NetState → Round → Option NetState} {world : World}
  {state after : NetState} {headers : List UInt8} {config : NetConfig}

theorem netSendEthernetFrame_sent {dstMac : Mac} {ethertype : UInt16}
    (sent : netSendEthernetFrame world state dstMac ethertype payload = (true, after)) :
    after.wire = state.wire ++ [ethernetFrame dstMac world.mac ethertype payload] := by
  unfold netSendEthernetFrame at sent
  split at sent
  · cases sent
  · simp only [Prod.mk.injEq] at sent
    rw [← sent.2]
    simp [sent.1]

theorem netSendIpv4Payload_sent
    (sent : netSendIpv4Payload poll world state src dst protocol ttl payload payloadLength
      forceBroadcastEth rounds = some (true, after)) :
    ∃ dstMac ready, netResolveDestMac poll world state (dst.load state.config)
        forceBroadcastEth rounds = some (some dstMac, ready) ∧
      after.wire = ready.wire ++ [ethernetFrame dstMac world.mac ethTypeIpv4
        (ipv4Header (UInt16.ofNat (ipv4HeaderSize + payloadLength)) ready.ipIdentification
          (if ttl = 0 then 64 else ttl) protocol (src.load ready.config) (dst.load ready.config) ++
          payload.load ready payloadLength)] := by
  unfold netSendIpv4Payload at sent
  split at sent
  · cases sent
  · split at sent
    · cases sent
    · cases sent
    · rename_i dstMac ready resolved
      simp only [Option.some.injEq] at sent
      have transmitted := netSendEthernetFrame_sent sent
      exact ⟨dstMac, ready, resolved, transmitted⟩

theorem tcpPacket_carried {call : TcpCall} {ttl : UInt8} (long : headers.length = 34) :
    (SendCall.tcp src dst call ttl).CarriedBy config
      (headers ++ tcpPacket (src.load config) (dst.load config) call) := by
  obtain ⟨srcPort, dstPort, sequence, ackNumber, _, flags, checksum, payload⟩ :=
    tcpPacketWith_fields (tcpPacketSum (src.load config) (dst.load config) call) call
  have words16 := readBe16_append_right headers (tcpPacket (src.load config) (dst.load config) call)
  have words32 := readBe32_append_right headers (tcpPacket (src.load config) (dst.load config) call)
  have bytes := byteAt_append_right headers (tcpPacket (src.load config) (dst.load config) call)
  have rest := drop_append_right headers (tcpPacket (src.load config) (dst.load config) call)
  rw [long] at words16 words32 bytes rest
  exact ⟨(words16 0).trans srcPort, (words16 2).trans dstPort, (words32 4).trans sequence,
    (words32 8).trans ackNumber, (bytes 13).trans flags, (words16 16).trans checksum,
    (rest 20).trans payload⟩

theorem udpPacket_carried {srcPort dstPort : UInt16} (long : headers.length = 34) :
    (SendCall.udp src dst srcPort dstPort payload forceBroadcastEth).CarriedBy config
      (headers ++ udpPacket (src.load config) (dst.load config) srcPort dstPort payload) := by
  obtain ⟨source, destination, _, checksum, body⟩ := udpPacketWith_fields
    (udpPacketSum (src.load config) (dst.load config) srcPort dstPort payload) srcPort dstPort payload
  have words16 := readBe16_append_right headers
    (udpPacket (src.load config) (dst.load config) srcPort dstPort payload)
  have rest := drop_append_right headers
    (udpPacket (src.load config) (dst.load config) srcPort dstPort payload)
  rw [long] at words16 rest
  exact ⟨(words16 0).trans source, (words16 2).trans destination, (words16 6).trans checksum,
    (rest 8).trans body⟩

theorem carried_behind_headers {call : SendCall}
    (long : headers.length = 34) : call.CarriedBy config (headers ++ call.packet config) := by
  cases call with
  | tcp src dst call ttl => exact tcpPacket_carried long
  | udp src dst srcPort dstPort payload forceBroadcastEth => exact udpPacket_carried long

/-- The frame of a call: its own packet, whatever the addresses in the IPv4 header are by then. -/
def SendCall.Frame (world : World) (config later : NetConfig) (call : SendCall)
    (frame : List UInt8) : Prop :=
  ∃ dstMac identification ttl, frame = ethernetFrame dstMac world.mac ethTypeIpv4
    (ipv4Header (UInt16.ofNat (ipv4HeaderSize + (call.packet config).length)) identification ttl
      call.protocol (call.addresses.1.load later) (call.addresses.2.load later) ++ call.packet config)

/-- The frame goes out behind what the wait itself sent, with the addresses read after it. -/
def SendCall.Sent (world : World) (state after : NetState) (rounds : List (List (List UInt8)))
    (call : SendCall) : Prop :=
  ∃ dstMac ready frame, netResolveDestMac (netPoll world) world (call.build state)
      (call.dstIp state.config) call.forced rounds = some (some dstMac, ready) ∧
    after.wire = ready.wire ++ [frame] ∧ call.Frame world state.config ready.config frame

variable {rounds : List (List (List UInt8))}

theorem tcpCall_sent {call : TcpCall} {ttl : UInt8}
    (quiet : (SendCall.tcp src dst call ttl).Undisturbed world state rounds)
    (sent : (SendCall.tcp src dst call ttl).run world state rounds = some (true, after)) :
    (SendCall.tcp src dst call ttl).Fits ∧
    (SendCall.tcp src dst call ttl).Sent world state after rounds := by
  unfold SendCall.run netSendTcpIpv4 at sent
  dsimp only at sent
  split at sent
  · cases sent
  · rename_i valid
    split at sent
    · cases sent
    · rename_i short
      simp only [Bool.or_eq_true, Bool.not_eq_true', beq_iff_eq, not_or] at valid
      refine ⟨⟨Nat.not_lt.mp short, valid.1.2, valid.2⟩, ?_⟩
      obtain ⟨dstMac, ready, resolved, transmitted⟩ := netSendIpv4Payload_sent sent
      have kept : ready.txTcpPacket = _ := netResolveDestMac_view (fun same => same.tcp)
        (netPoll_view netHandleEthernet_tcp) quiet resolved
      have length : tcpHeaderSize + call.payload.length =
          (tcpPacket (src.load state.config) (dst.load state.config) call).length :=
        (tcpPacketWith_length _ call).symm
      have held : PayloadRef.load ready (tcpHeaderSize + call.payload.length) .txTcpPacket =
          tcpPacket (src.load state.config) (dst.load state.config) call := by
        rw [length]
        unfold PayloadRef.load
        dsimp only
        rw [kept]
        exact Mem.read_store_same _ _ _
      rw [held, length] at transmitted
      exact ⟨dstMac, ready, _, resolved, transmitted, dstMac, _, _, rfl⟩

theorem udpCall_sent {srcPort dstPort : UInt16}
    (quiet : (SendCall.udp src dst srcPort dstPort payload forceBroadcastEth).Undisturbed world
      state rounds)
    (sent : (SendCall.udp src dst srcPort dstPort payload forceBroadcastEth).run world
      state rounds = some (true, after)) :
    (SendCall.udp src dst srcPort dstPort payload forceBroadcastEth).Fits ∧
      (SendCall.udp src dst srcPort dstPort payload forceBroadcastEth).Sent world state after rounds := by
  unfold SendCall.run netSendUdpIpv4 at sent
  dsimp only at sent
  split at sent
  · cases sent
  · split at sent
    · cases sent
    · rename_i short
      refine ⟨Nat.not_lt.mp short, ?_⟩
      obtain ⟨dstMac, ready, resolved, transmitted⟩ := netSendIpv4Payload_sent sent
      have kept : ready.txUdpPacket = _ := netResolveDestMac_view (fun same => same.udp)
        (netPoll_view netHandleEthernet_udp) quiet resolved
      have length : udpHeaderSize + payload.length =
          (udpPacket (src.load state.config) (dst.load state.config) srcPort dstPort payload).length :=
        (udpPacketWith_length _ srcPort dstPort payload).symm
      have held : PayloadRef.load ready (udpHeaderSize + payload.length) .txUdpPacket =
          udpPacket (src.load state.config) (dst.load state.config) srcPort dstPort payload := by
        rw [length]
        unfold PayloadRef.load
        dsimp only
        rw [kept]
        exact Mem.read_store_same _ _ _
      rw [held, length] at transmitted
      exact ⟨dstMac, ready, _, resolved, transmitted, dstMac, _, _, rfl⟩

theorem SendCall.sent {call : SendCall} (quiet : call.Undisturbed world state rounds)
    (done : call.run world state rounds = some (true, after)) :
    call.Fits ∧ call.Sent world state after rounds := by
  cases call with
  | tcp src dst call ttl => exact tcpCall_sent quiet done
  | udp src dst srcPort dstPort payload forceBroadcastEth => exact udpCall_sent quiet done

end Outside

/-- Whatever arrives while the call waits, as long as nothing of it is answered from the
call's own buffer. -/
theorem send_transmits_own_packet {world : World} {state after : NetState} {call : SendCall}
    {rounds : List (List (List UInt8))} (quiet : call.Undisturbed world state rounds)
    (sent : call.run world state rounds = some (true, after)) :
    ∃ earlier frame, after.wire = earlier ++ [frame] ∧ call.CarriedBy state.config frame := by
  obtain ⟨_, _, ready, frame, _, transmitted, dstMac, identification, ttl, layout⟩ :=
    SendCall.sent quiet sent
  refine ⟨ready.wire, frame, transmitted, ?_⟩
  rw [layout, ethernetFrame, ← List.append_assoc]
  exact carried_behind_headers (by simp [ipv4HeaderSize])

def lanMac (last : UInt8) : Mac := ⟨#[2, 0, 0, 0, 0, last], rfl⟩

def lanWorld : World where
  initialized := true
  mac := lanMac 1
  frequency := 1000
  ticks := fun reading => UInt64.ofNat reading
  accepts := fun _ => true
  patience := 0

def lanState : NetState where
  config := ⟨true, 0x0A000001, 0xFFFFFF00, 0, 0, 0⟩
  dhcp := ⟨.idle, 0, 0, 0, none, none, none, none⟩
  arpCache := List.replicate 16 ⟨false, 0, macZero, 0⟩
  ping := ⟨false, false, false, 0, 0, 0, 0, 0, 0⟩
  dns := ⟨false, false, 0, 0, 0, 0, 0, 0⟩
  probe := ⟨false, false, false, 0, 0, 0, 0, 0⟩
  client := freshTcpClient 49152 80 0x0A000002 1000 (fun _ => 0) 0 0
  ipIdentification := 0x1200
  txUdpPacket := fun _ => 0
  txTcpPacket := fun _ => 0
  readings := 0
  attempts := 0
  wire := []

def openingCall : SendCall := .tcp .configIp (.given 0x0A000002) ⟨49152, 80, 1000, 0, tcpFlagSyn, []⟩ 64

def lanArpReply : List UInt8 :=
  ethernetFrame (lanMac 1) (lanMac 2) ethTypeArp
    (arpPacket arpOpReply (lanMac 2) (lanMac 1) 0x0A000002 0x0A000001)

/-- 10.0.0.3 tries a port that nobody listens on. -/
def lanStraySyn : List UInt8 :=
  ethernetFrame (lanMac 1) (lanMac 3) ethTypeIpv4
    (ipv4Header 40 1 64 ipProtoTcp 0x0A000003 0x0A000001 ++
      tcpPacket 0x0A000003 0x0A000001 ⟨1234, 7, 5, 0, tcpFlagSyn, []⟩)

theorem openingCall_undisturbed : openingCall.Undisturbed lanWorld lanState [[lanArpReply]] := by
  have silent : ∀ state frames, frames = [lanArpReply] →
      RoundSilent lanWorld openingCall.answered state frames := by
    intro state frames same
    subst same
    refine ⟨?_, fun _ _ => trivial⟩
    have notIpv4 : deliveredDatagram lanWorld state.config lanArpReply = none := by
      unfold deliveredDatagram
      rw [if_neg (by decide), if_neg (by decide), if_pos (by decide)]
    show tcpAnswered lanWorld state lanArpReply = false
    unfold tcpAnswered
    rw [notIpv4]
  intro nextHop _ looked asked _ _ _
  rw [if_neg (by decide)]
  exact ⟨fun _ => silent _ _ rfl, fun _ _ => trivial⟩

theorem openingCall_transmitted :
    ∃ after earlier frame, openingCall.run lanWorld lanState [[lanArpReply]] = some (true, after) ∧
      after.wire = earlier ++ [frame] ∧ openingCall.CarriedBy lanState.config frame := by
  have succeeds : (openingCall.run lanWorld lanState [[lanArpReply]]).map Prod.fst = some true := by
    decide +kernel
  obtain ⟨⟨sent, after⟩, ran, rfl⟩ := Option.map_eq_some_iff.mp succeeds
  obtain ⟨earlier, frame, transmitted, carried⟩ :=
    send_transmits_own_packet openingCall_undisturbed ran
  exact ⟨after, earlier, frame, ran, transmitted, carried⟩

/-- The stray segment is answered from the buffer that holds the SYN; what goes to 10.0.0.2
is the reset. -/
theorem stray_segment_overwrites_packet :
    ¬∀ (world : World) (state after : NetState) (call : SendCall) (rounds : List (List (List UInt8))),
      call.run world state rounds = some (true, after) →
      ∃ earlier frame, after.wire = earlier ++ [frame] ∧ call.CarriedBy state.config frame := by
  intro always
  have reset : (openingCall.run lanWorld lanState [[lanStraySyn, lanArpReply]]).map
      (fun done => (done.1, done.2.wire.getLast?.map fun frame => byteAt frame 47)) =
        some (true, some 0x14) := by
    decide +kernel
  obtain ⟨⟨sent, after⟩, ran, outcome⟩ := Option.map_eq_some_iff.mp reset
  simp only [Prod.mk.injEq] at outcome
  obtain ⟨rfl, last⟩ := outcome
  obtain ⟨earlier, frame, transmitted, carried⟩ := always _ _ after _ _ ran
  rw [transmitted, List.getLast?_concat, Option.map_some] at last
  have flags : byteAt frame 47 = tcpFlagSyn := carried.2.2.2.2.1
  rw [flags] at last
  exact absurd last (by decide)

end Szczupak
