import Szczupak.Net.DhcpCore
import Szczupak.Net.Transmit

/-!
Runs of the DHCP client: frames received at any time, turns of `net_configure_dhcp` and calls
of `net_configure_static`, in any order.
-/

namespace Szczupak

def dhcpDelivered (world : World) (config : NetConfig) (frame : List UInt8) :
    Option (List UInt8 × UInt32) :=
  match deliveredDatagram world config frame with
  | none => none
  | some datagram =>
      if datagram.protocol = ipProtoUdp then
        match udpAccept datagram.payload datagram.srcIp datagram.dstIp with
        | none => none
        | some udp =>
            if udp.srcPort = 67 ∧ udp.dstPort = 68 then some (udp.payload, datagram.srcIp) else none
      else none

/-- The address of the OFFER that a waiting client takes from a frame. -/
def offerTaken (world : World) (state : NetState) (frame : List UInt8) : Option UInt32 :=
  match dhcpDelivered world state.config frame with
  | none => none
  | some (payload, _) =>
      match dhcpAccept world state.dhcp payload with
      | none => none
      | some (msgType, _) =>
          if msgType = dhcpMsgOffer ∧ state.dhcp.state = .waitOffer ∧ readBe32 payload 16 ≠ 0 then
            some (readBe32 payload 16)
          else none

/-- `offer` records the transaction and the address of the last OFFER taken since discovery
began; no routine reads it. -/
structure DhcpRun where
  net : NetState
  nextXid : UInt32
  wait : Option DhcpWait
  offer : Option (UInt32 × UInt32)

inductive DhcpAction where
  | receive (frame : List UInt8)
  | configureDhcp (timeoutMs : UInt32)
  | turn (rounds : List (List (List UInt8)))
  | configureStatic (ip netmask gateway dns : UInt32)
deriving DecidableEq

/-- What a received frame makes of the record: a new OFFER, or nothing once discovery is
restarted. -/
def offerAfter (world : World) (s : DhcpRun) (frame : List UInt8) (after : NetState) :
    Option (UInt32 × UInt32) :=
  match offerTaken world s.net frame with
  | some address => some (s.net.dhcp.xid, address)
  | none => if after.dhcp.state = .waitOffer then none else s.offer

def dhcpStep (world : World) (s : DhcpRun) : DhcpAction → Option DhcpRun
  | .receive frame =>
      if world.initialized then
        (netHandleEthernet world s.net frame).map fun after =>
          { s with net := after, offer := offerAfter world s frame after }
      else none
  | .configureDhcp timeoutMs =>
      if !world.initialized || world.frequency == 0 then some s
      else
        (netConfigureDhcp world s.net s.nextXid timeoutMs).map fun (after, wait) =>
          { net := after, nextXid := s.nextXid + 1, wait, offer := none }
  | .turn rounds =>
      match s.wait with
      | none => none
      | some wait =>
          (dhcpTurn world s.net wait rounds).map fun (after, wait) => { s with net := after, wait }
  | .configureStatic ip netmask gateway dns =>
      some { s with net := netConfigureStatic world s.net ip netmask gateway dns }

def dhcpBoot (net : NetState) : DhcpRun where
  net := { net with config := .cleared, dhcp := .cleared }
  nextXid := 0x535A0001
  wait := none
  offer := none

section Effects

variable {world : World} {state after : NetState} {frames : List (List UInt8)}

inductive DhcpEffect (world : World) (state : NetState) (frame : List UInt8) (after : NetState) : Prop
  | quiet (lease : SameLease state after)
  | offer {payload : List UInt8} {srcIp : UInt32} {options : DhcpOptions}
      (delivered : dhcpDelivered world state.config frame = some (payload, srcIp))
      (accepted : dhcpAccept world state.dhcp payload = some (dhcpMsgOffer, options))
      (waits : state.dhcp.state = .waitOffer) (usable : readBe32 payload 16 ≠ 0)
      (config : after.config = state.config)
      (dhcp : after.dhcp =
        (dhcpTakeOffer state (readBe32 payload 16) (readBe32 payload 20) srcIp options).dhcp)
  | ack {payload : List UInt8} {srcIp : UInt32} {options : DhcpOptions}
      (delivered : dhcpDelivered world state.config frame = some (payload, srcIp))
      (accepted : dhcpAccept world state.dhcp payload = some (dhcpMsgAck, options))
      (waits : state.dhcp.state = .waitAck)
      (config : after.config = (dhcpApplyAck state (readBe32 payload 16) options).config)
      (dhcp : after.dhcp = { state.dhcp with state := .bound })
  | nak {payload : List UInt8} {srcIp : UInt32} {options : DhcpOptions}
      (delivered : dhcpDelivered world state.config frame = some (payload, srcIp))
      (accepted : dhcpAccept world state.dhcp payload = some (dhcpMsgNak, options))
      (waits : state.dhcp.state = .waitAck) (config : after.config = state.config)
      (dhcp : after.dhcp = { state.dhcp with state := .waitOffer })

theorem dhcpHandlePacket_effect {frame payload : List UInt8} {srcIp : UInt32}
    {cache : List ArpCacheEntry} {readings : Nat}
    (delivered : dhcpDelivered world state.config frame = some (payload, srcIp))
    (handled : dhcpHandlePacket world { state with arpCache := cache, readings := readings } payload
      srcIp = some after) : DhcpEffect world state frame after := by
  rw [dhcpHandlePacket] at handled
  cases accepted : dhcpAccept world state.dhcp payload with
  | none =>
      rw [accepted] at handled
      cases handled
      exact .quiet ⟨rfl, rfl⟩
  | some reply =>
      obtain ⟨msgType, options⟩ := reply
      rw [accepted] at handled
      dsimp only at handled
      split at handled
      next isOffer =>
        obtain ⟨rfl, waits⟩ := isOffer
        split at handled
        next => cases handled; exact .quiet ⟨rfl, rfl⟩
        next usable => cases handled; exact .offer delivered accepted waits usable rfl rfl
      next =>
        split at handled
        next isAck =>
          obtain ⟨rfl, waits⟩ := isAck
          cases handled
          exact .ack delivered accepted waits rfl rfl
        next =>
          split at handled
          next isNak =>
            obtain ⟨rfl, waits⟩ := isNak
            obtain ⟨⟨sent, final⟩, discovered, same⟩ := Option.map_eq_some_iff.mp handled
            cases same
            have kept := dhcpSendDiscover_only discovered
            exact .nak delivered accepted waits kept.config kept.dhcp
          next => cases handled; exact .quiet ⟨rfl, rfl⟩

variable {frame : List UInt8} {left : Option DhcpWait}

theorem netHandleEthernet_effect
    (handled : netHandleEthernet world state frame = some after) :
    DhcpEffect world state frame after := by
  rcases netHandleEthernet_cases handled with quiet | ⟨datagram, cache, readings, srcMac,
    delivered, done⟩
  · exact .quiet quiet.toSameLease
  · rw [ipv4Dispatch] at done
    split at done
    next =>
      cases done
      have quiet := netHandleIcmp_same world { state with arpCache := cache, readings := readings }
        datagram.payload datagram.srcIp datagram.dstIp srcMac
      exact .quiet ⟨quiet.config, quiet.dhcp⟩
    next =>
      split at done
      next isUdp =>
        rw [netHandleUdp] at done
        cases accepted : udpAccept datagram.payload datagram.srcIp datagram.dstIp with
        | none =>
            rw [accepted] at done
            cases done
            exact .quiet ⟨rfl, rfl⟩
        | some udp =>
            rw [accepted] at done
            dsimp only at done
            split at done
            next ports =>
              refine dhcpHandlePacket_effect ?_ done
              rw [dhcpDelivered, delivered]
              dsimp only
              rw [if_pos isUdp, accepted]
              dsimp only
              rw [if_pos ports]
            next =>
              cases done
              have quiet := dnsHandleUdpPacket_same world
                { state with arpCache := cache, readings := readings } udp.payload datagram.srcIp
                udp.srcPort udp.dstPort
              exact .quiet ⟨quiet.config, quiet.dhcp⟩
      next =>
        split at done
        next =>
          rw [netHandleTcp] at done
          split at done
          next => cases done; exact .quiet ⟨rfl, rfl⟩
          next =>
            have kept := tcpDeliver_only done
            exact .quiet ⟨kept.config, kept.dhcp⟩
        next => cases done; exact .quiet ⟨rfl, rfl⟩

theorem dhcpSendRequest_same {sent : Bool}
    (done : dhcpSendRequest world state = some (sent, after)) : SameLease state after := by
  unfold dhcpSendRequest netSendUdpIpv4 at done
  split at done
  next => cases done; exact .refl state
  next =>
    split at done
    next => cases done; exact .refl state
    next =>
      split at done
      next => cases done; exact .refl state
      next =>
        have same := idleSend_same done
        exact ⟨same.config, same.dhcp⟩

theorem dhcpRetry_same {wait : DhcpWait}
    (done : dhcpRetry world state wait = some (after, left)) : SameLease state after := by
  rw [dhcpRetry] at done
  dsimp only at done
  have ticked : SameLease state (pitGetTicks world state).2 := ⟨rfl, rfl⟩
  split at done
  next =>
    obtain ⟨⟨sent, retried⟩, sends, same⟩ := Option.map_eq_some_iff.mp done
    cases same
    refine ticked.trans (@SameLease.trans _ retried _ ?_ ⟨rfl, rfl⟩)
    split at sends
    next => exact (dhcpSendDiscover_only sends).toSameLease
    next =>
      split at sends
      next => exact dhcpSendRequest_same sends
      next => cases sends; exact .refl _
  next =>
    cases done
    exact ticked.trans ⟨rfl, rfl⟩

theorem DhcpEffect.settled (effect : DhcpEffect world state frame after)
    (settled : state.dhcp.state = .idle ∨ state.dhcp.state = .bound) : SameLease state after := by
  cases effect with
  | quiet lease => exact lease
  | offer _ _ waits =>
      rw [waits] at settled
      exact absurd settled (by decide)
  | ack _ _ waits =>
      rw [waits] at settled
      exact absurd settled (by decide)
  | nak _ _ waits =>
      rw [waits] at settled
      exact absurd settled (by decide)

theorem netPoll_settled (settled : state.dhcp.state = .idle ∨ state.dhcp.state = .bound)
    (polled : netPoll world state frames = some after) : SameLease state after := by
  unfold netPoll at polled
  split at polled
  next => cases polled; exact .refl state
  next =>
    refine runActions_invariant (fun before frame next same handled => ?_) (.refl state) polled
    have still : before.dhcp.state = .idle ∨ before.dhcp.state = .bound := by
      rw [same.dhcp]
      exact settled
    exact same.trans ((netHandleEthernet_effect handled).settled still)

section Gateway

variable {targetIp : UInt32} {rounds : List (List (List UInt8))} {start : NetState}

/-- The client is settled and no reply has been taken since `start`. -/
def StaysSettled (start state : NetState) : Prop :=
  SameLease start state ∧ (start.dhcp.state = .idle ∨ start.dhcp.state = .bound)

theorem StaysSettled.quiet (settled : StaysSettled start state) (quiet : Quiet state after) :
    StaysSettled start after := ⟨settled.1.trans quiet.toSameLease, settled.2⟩

theorem StaysSettled.poll (settled : StaysSettled start state)
    (polled : netPoll world state frames = some after) : StaysSettled start after := by
  have still : state.dhcp.state = .idle ∨ state.dhcp.state = .bound := by
    rw [settled.1.dhcp]
    exact settled.2
  exact ⟨settled.1.trans (netPoll_settled still polled), settled.2⟩

theorem arpSpinTurn_settled {wait : NetState × Nat}
    (settled : StaysSettled start wait.1) {outcome : (NetState × Nat) ⊕ (Option Mac × NetState)}
    (turned : arpSpinTurn (netPoll world) world targetIp wait frames = some outcome) :
    StaysSettled start (outcome.elim Prod.fst Prod.snd) := by
  rw [arpSpinTurn] at turned
  split at turned
  next => cases turned; exact settled
  next =>
    split at turned
    next => cases turned
    next polled taken =>
      have looked := (settled.poll taken).quiet (arpCacheLookup_same world polled targetIp)
      split at turned
      next found => cases turned; rw [found] at looked; exact looked
      next missed => cases turned; rw [missed] at looked; exact looked

theorem arpWaitTurn_settled {deadline retryTicks : UInt64} {wait : NetState × UInt64}
    (settled : StaysSettled start wait.1)
    {outcome : (NetState × UInt64) ⊕ (Option Mac × NetState)}
    (turned : arpWaitTurn (netPoll world) world targetIp deadline retryTicks wait frames =
      some outcome) : StaysSettled start (outcome.elim Prod.fst Prod.snd) := by
  have ticked := settled.quiet (pitGetTicks_same world wait.1)
  rw [arpWaitTurn] at turned
  dsimp only at turned
  split at turned
  next => cases turned; exact ticked.quiet (arpCacheLookup_same world _ targetIp)
  next =>
    split at turned
    next => cases turned
    next polled taken =>
      have looked := (ticked.poll taken).quiet (arpCacheLookup_same world polled targetIp)
      split at turned
      next found => cases turned; rw [found] at looked; exact looked
      next missed =>
        rw [missed] at looked
        have again := looked.quiet (pitGetTicks_same world _)
        split at turned
        next => cases turned; exact again.quiet (arpSendRequest_same world _ targetIp)
        next => cases turned; exact again

theorem arpResolve_settled {timeoutMs : UInt32} {found : Option Mac}
    (settled : state.dhcp.state = .idle ∨ state.dhcp.state = .bound)
    (resolved : arpResolve (netPoll world) world state targetIp timeoutMs rounds =
      some (found, after)) : SameLease state after := by
  have start : StaysSettled state state := ⟨.refl state, settled⟩
  have looked := start.quiet (arpCacheLookup_same world state targetIp)
  rw [arpResolve] at resolved
  split at resolved
  next => cases resolved; exact .refl state
  next =>
    split at resolved
    next hit => cases resolved; rw [hit] at looked; exact looked.1
    next missed =>
      rw [missed] at looked
      have asked := looked.quiet (arpSendRequest_same world _ targetIp)
      dsimp only at resolved
      split at resolved
      next refused => cases resolved; rw [refused] at asked; exact asked.1
      next requested =>
        rw [requested] at asked
        split at resolved
        next =>
          have ended := @runUntil_guarded _ _ _ _ (fun _ _ => True)
            (fun wait => StaysSettled state wait.1) (fun result => StaysSettled state result.2)
            (fun wait frames next kept _ turned => arpSpinTurn_settled kept turned)
            (fun wait frames result kept _ turned => arpSpinTurn_settled kept turned)
            _ _ _ asked (UntilMeets.always (fun _ _ => trivial) _ _) resolved
          exact ended.1
        next =>
          have ended := @runUntil_guarded _ _ _ _ (fun _ _ => True)
            (fun wait => StaysSettled state wait.1) (fun result => StaysSettled state result.2)
            (fun wait frames next kept _ turned => arpWaitTurn_settled kept turned)
            (fun wait frames result kept _ turned => arpWaitTurn_settled kept turned)
            _ _ _ (asked.quiet (pitGetTicks_same world _))
            (UntilMeets.always (fun _ _ => trivial) _ _) resolved
          exact ended.1

end Gateway

theorem dhcpTurn_effect {wait : DhcpWait} {rounds : List (List (List UInt8))}
    (done : dhcpTurn world state wait rounds = some (after, left)) : after.config = state.config ∧
      (after.dhcp = state.dhcp ∨
        state.dhcp.state = .offerReady ∧ after.dhcp = { state.dhcp with state := .waitAck }) := by
  rw [dhcpTurn] at done
  split at done
  next ready =>
    split at done
    next => cases done
    next failed =>
      cases done
      have same := dhcpSendRequest_same failed
      exact ⟨same.config, Or.inl same.dhcp⟩
    next requested sent =>
      have same := dhcpSendRequest_same sent
      have retried := dhcpRetry_same done
      refine ⟨retried.config.trans same.config, Or.inr ⟨ready, retried.dhcp.trans ?_⟩⟩
      change { requested.dhcp with state := .waitAck } = _
      rw [same.dhcp]
  next isBound =>
    split at done
    next => cases done; exact ⟨rfl, Or.inl rfl⟩
    next =>
      obtain ⟨⟨found, looked⟩, resolved, same⟩ := Option.map_eq_some_iff.mp done
      cases same
      have kept := arpResolve_settled (Or.inr isBound) resolved
      exact ⟨kept.config, Or.inl kept.dhcp⟩
  next =>
    have retried := dhcpRetry_same done
    exact ⟨retried.config, Or.inl retried.dhcp⟩

theorem netConfigureDhcp_effect {xid timeoutMs : UInt32}
    (done : netConfigureDhcp world state xid timeoutMs = some (after, left)) :
    after.config = state.config ∧ after.dhcp =
    { DhcpClient.cleared with state := .waitOffer, xid } := by
  rw [netConfigureDhcp] at done
  dsimp only at done
  split at done
  next => cases done
  next failed =>
    cases done
    have kept := dhcpSendDiscover_only failed
    exact ⟨kept.config, kept.dhcp⟩
  next discovered sent =>
    cases done
    have kept := dhcpSendDiscover_only sent
    exact ⟨kept.config, kept.dhcp⟩

end Effects

section DhcpRuns

variable {world : World} {s next : DhcpRun} {action : DhcpAction}

def hasOffer : DhcpState → Bool
  | .offerReady | .waitAck | .bound => true
  | .idle | .waitOffer => false

structure Leases (s : DhcpRun) : Prop where
  offered : hasOffer s.net.dhcp.state = true →
    s.net.dhcp.offeredIp ≠ 0 ∧ s.offer = some (s.net.dhcp.xid, s.net.dhcp.offeredIp)
  nonzero : s.net.config.configured = true → s.net.config.ip ≠ 0

theorem offerTaken_waits {state : NetState} {address : UInt32}
    (taken : offerTaken world state frame = some address) : state.dhcp.state = .waitOffer := by
  rw [offerTaken] at taken
  split at taken
  next => cases taken
  next =>
    split at taken
    next => cases taken
    next =>
      split at taken
      next isOffer => exact isOffer.2.1
      next => cases taken

theorem offerAfter_kept {after : NetState}
    (before : s.net.dhcp.state ≠ .waitOffer) (later : after.dhcp.state ≠ .waitOffer) :
    offerAfter world s frame after = s.offer := by
  rw [offerAfter]
  split
  next taken => exact absurd (offerTaken_waits taken) before
  next => rw [if_neg later]

theorem Leases.receive {after : NetState} (inv : Leases s)
    (effect : DhcpEffect world s.net frame after) :
    Leases { s with net := after, offer := offerAfter world s frame after } := by
  cases effect with
  | quiet lease =>
      refine { offered := ?_, nonzero := by rw [lease.config]; exact inv.nonzero }
      rw [lease.dhcp]
      intro has
      have waits : s.net.dhcp.state ≠ .waitOffer := by
        intro isWaiting
        rw [isWaiting] at has
        cases has
      rw [offerAfter_kept waits (lease.dhcp ▸ waits)]
      exact inv.offered has
  | offer delivered accepted waits usable config dhcp =>
      refine { offered := fun _ => ?_, nonzero := by rw [config]; exact inv.nonzero }
      dsimp only
      rw [dhcp, offerAfter, offerTaken, delivered]
      dsimp only
      rw [accepted]
      dsimp only
      rw [if_pos ⟨rfl, waits, usable⟩]
      exact ⟨usable, rfl⟩
  | ack delivered accepted waits config dhcp =>
      have has : hasOffer s.net.dhcp.state = true := by rw [waits]; rfl
      obtain ⟨usable, offer⟩ := inv.offered has
      refine { offered := fun _ => ?_, nonzero := fun _ => ?_ }
      · dsimp only
        rw [offerAfter_kept (by rw [waits]; decide) (by rw [dhcp]; exact DhcpState.noConfusion), dhcp]
        exact ⟨usable, offer⟩
      · dsimp only
        rw [config, dhcpApplyAck]
        dsimp only
        split
        next given => exact given
        next => exact usable
  | nak delivered accepted waits config dhcp =>
      refine { offered := ?_, nonzero := by rw [config]; exact inv.nonzero }
      rw [dhcp]
      intro has
      cases has

theorem netConfigureStatic_cases (world : World) (state : NetState) (ip netmask gateway dns : UInt32) :
    netConfigureStatic world state ip netmask gateway dns = state ∨
    ip ≠ 0 ∧ (netConfigureStatic world state ip netmask gateway dns).config.ip = ip ∧
      (netConfigureStatic world state ip netmask gateway dns).dhcp.state = .idle := by
  rw [netConfigureStatic]
  split
  next accepts => exact Or.inr ⟨accepts.2.1, rfl, rfl⟩
  next => exact Or.inl rfl

theorem Leases.step (inv : Leases s)
    (stepped : dhcpStep world s action = some next) : Leases next := by
  cases action with
  | receive frame =>
      rw [dhcpStep] at stepped
      split at stepped
      next =>
        obtain ⟨after, handled, rfl⟩ := Option.map_eq_some_iff.mp stepped
        exact inv.receive (netHandleEthernet_effect handled)
      next => cases stepped
  | configureDhcp timeoutMs =>
      rw [dhcpStep] at stepped
      split at stepped
      next => cases stepped; exact inv
      next =>
        obtain ⟨⟨after, wait⟩, configured, rfl⟩ := Option.map_eq_some_iff.mp stepped
        obtain ⟨config, dhcp⟩ := netConfigureDhcp_effect configured
        refine { offered := ?_, nonzero := by dsimp only; rw [config]; exact inv.nonzero }
        dsimp only
        rw [dhcp]
        intro has
        cases has
  | turn rounds =>
      rw [dhcpStep] at stepped
      split at stepped
      next => cases stepped
      next wait _ =>
        obtain ⟨⟨after, left⟩, turned, rfl⟩ := Option.map_eq_some_iff.mp stepped
        obtain ⟨config, dhcp⟩ := dhcpTurn_effect turned
        refine { offered := ?_, nonzero := by dsimp only; rw [config]; exact inv.nonzero }
        dsimp only
        rcases dhcp with same | ⟨ready, requested⟩
        · rw [same]
          exact inv.offered
        · intro _
          have offered := inv.offered (by rw [ready]; rfl)
          rw [requested]
          exact offered
  | configureStatic ip netmask gateway dns =>
      rw [dhcpStep, Option.some.injEq] at stepped
      subst stepped
      rcases netConfigureStatic_cases world s.net ip netmask gateway dns with same | ⟨usable, set, isIdle⟩
      · rw [same]
        exact inv
      · refine { offered := ?_, nonzero := ?_ }
        · dsimp only
          rw [isIdle]
          intro has
          cases has
        · dsimp only
          rw [set]
          exact fun _ => usable

theorem dhcpBoot_leases (net : NetState) : Leases (dhcpBoot net) where
  offered has := nomatch has
  nonzero configured := nomatch configured

def CarriesAck (world : World) (state : NetState) (frame : List UInt8) : Prop :=
  ∃ payload srcIp, dhcpDelivered world state.config frame = some (payload, srcIp) ∧
    readBe32 payload 4 = state.dhcp.xid ∧ macAt payload 28 = world.mac ∧
    (dhcpParseOptions (payload.drop 240)).msgType = some dhcpMsgAck ∧ state.dhcp.state = .waitAck

theorem dhcpAccept_checks {dhcp : DhcpClient} {payload : List UInt8} {msgType : UInt8}
    {options : DhcpOptions} (accepted : dhcpAccept world dhcp payload = some (msgType, options)) :
    readBe32 payload 4 = dhcp.xid ∧ macAt payload 28 = world.mac ∧
      (dhcpParseOptions (payload.drop 240)).msgType = some msgType := by
  rw [dhcpAccept] at accepted
  split at accepted
  next => cases accepted
  next =>
    split at accepted
    next => cases accepted
    next =>
      split at accepted
      next => cases accepted
      next sameXid =>
        split at accepted
        next => cases accepted
        next sameMac =>
          split at accepted
          next => cases accepted
          next =>
            obtain ⟨found, parsed, same⟩ := Option.map_eq_some_iff.mp accepted
            cases same
            exact ⟨not_not.mp sameXid, not_not.mp sameMac, parsed⟩

theorem step_config (stepped : dhcpStep world s action = some next) :
    next.net.config = s.net.config ∨
    (∃ ip netmask gateway dns, action = .configureStatic ip netmask gateway dns) ∨
    ∃ frame, action = .receive frame ∧ CarriesAck world s.net frame := by
  cases action with
  | receive frame =>
      rw [dhcpStep] at stepped
      split at stepped
      next =>
        obtain ⟨after, handled, rfl⟩ := Option.map_eq_some_iff.mp stepped
        cases netHandleEthernet_effect handled with
        | quiet lease => exact Or.inl lease.config
        | offer _ _ _ _ config => exact Or.inl config
        | ack delivered accepted waits =>
            obtain ⟨sameXid, sameMac, isAck⟩ := dhcpAccept_checks accepted
            exact Or.inr (Or.inr ⟨frame, rfl, _, _, delivered, sameXid, sameMac, isAck, waits⟩)
        | nak _ _ _ config => exact Or.inl config
      next => cases stepped
  | configureDhcp timeoutMs =>
      rw [dhcpStep] at stepped
      split at stepped
      next => cases stepped; exact Or.inl rfl
      next =>
        obtain ⟨⟨after, wait⟩, configured, rfl⟩ := Option.map_eq_some_iff.mp stepped
        exact Or.inl (netConfigureDhcp_effect configured).1
  | turn rounds =>
      rw [dhcpStep] at stepped
      split at stepped
      next => cases stepped
      next =>
        obtain ⟨⟨after, left⟩, turned, rfl⟩ := Option.map_eq_some_iff.mp stepped
        exact Or.inl (dhcpTurn_effect turned).1
  | configureStatic ip netmask gateway dns => exact Or.inr (Or.inl ⟨ip, netmask, gateway, dns, rfl⟩)

def isConfigureDhcp : DhcpAction → Bool
  | .configureDhcp _ => true
  | _ => false

theorem step_idle (isIdle : s.net.dhcp.state = .idle)
    (other : isConfigureDhcp action = false) (stepped : dhcpStep world s action = some next) :
    next.net.dhcp.state = .idle ∧
      ∀ frame, action = .receive frame → next.net.config = s.net.config := by
  cases action with
  | receive frame =>
      rw [dhcpStep] at stepped
      split at stepped
      next =>
        obtain ⟨after, handled, rfl⟩ := Option.map_eq_some_iff.mp stepped
        have same := (netHandleEthernet_effect handled).settled (Or.inl isIdle)
        exact ⟨(congrArg DhcpClient.state same.dhcp).trans isIdle, fun _ _ => same.config⟩
      next => cases stepped
  | configureDhcp timeoutMs => cases other
  | turn rounds =>
      refine ⟨?_, fun _ same => by cases same⟩
      rw [dhcpStep] at stepped
      split at stepped
      next => cases stepped
      next =>
        obtain ⟨⟨after, left⟩, turned, rfl⟩ := Option.map_eq_some_iff.mp stepped
        rcases (dhcpTurn_effect turned).2 with same | ⟨ready, _⟩
        · exact (congrArg DhcpClient.state same).trans isIdle
        · rw [isIdle] at ready
          cases ready
  | configureStatic ip netmask gateway dns =>
      refine ⟨?_, fun _ same => by cases same⟩
      rw [dhcpStep, Option.some.injEq] at stepped
      subst stepped
      rcases netConfigureStatic_cases world s.net ip netmask gateway dns with same | ⟨_, _, now⟩
      · dsimp only
        rw [same]
        exact isIdle
      · exact now

structure DhcpSafe (world : World) (s : DhcpRun) : Prop where
  offered : s.net.dhcp.state = .waitAck ∨ s.net.dhcp.state = .bound →
    ∃ address, address ≠ 0 ∧ s.offer = some (s.net.dhcp.xid, address)
  nonzero : s.net.config.configured = true → s.net.config.ip ≠ 0
  changes : ∀ action next, dhcpStep world s action = some next → next.net.config ≠ s.net.config →
    (∃ ip netmask gateway dns, action = .configureStatic ip netmask gateway dns) ∨
    ∃ frame, action = .receive frame ∧ CarriesAck world s.net frame
  static : ∀ ip netmask gateway dns later after, StaticAccepts world ip →
    (∀ action ∈ later, isConfigureDhcp action = false) →
    runActions (dhcpStep world) s (.configureStatic ip netmask gateway dns :: later) = some after →
    ∀ frame next, dhcpStep world after (.receive frame) = some next →
      next.net.config = after.net.config

theorem run_idle {later : List DhcpAction} {after : DhcpRun} (isIdle : s.net.dhcp.state = .idle)
    (others : ∀ action ∈ later, isConfigureDhcp action = false)
    (reached : runActions (dhcpStep world) s later = some after) : after.net.dhcp.state = .idle := by
  induction later generalizing s with
  | nil =>
      rw [runActions, Option.some.injEq] at reached
      exact reached ▸ isIdle
  | cons action rest ih =>
      obtain ⟨next, stepped, remaining⟩ := runActions_cons reached
      have still := (step_idle isIdle (others action List.mem_cons_self) stepped).1
      exact ih still (fun other member => others other (List.mem_cons_of_mem _ member)) remaining

theorem dhcp_client_is_safe {net : NetState} {actions : List DhcpAction} {final : DhcpRun}
    (reached : runActions (dhcpStep world) (dhcpBoot net) actions = some final) :
    DhcpSafe world final := by
  have inv : Leases final :=
    runActions_invariant (fun _ _ _ inv stepped => Leases.step inv stepped) (dhcpBoot_leases net) reached
  constructor
  case offered =>
    intro waits
    have has : hasOffer final.net.dhcp.state = true := by
      rcases waits with isWaiting | isBound
      · rw [isWaiting]
        rfl
      · rw [isBound]
        rfl
    exact ⟨_, inv.offered has⟩
  case nonzero => exact inv.nonzero
  case changes =>
    intro action next stepped changed
    exact (step_config stepped).resolve_left changed
  case static =>
    intro ip netmask gateway dns later after accepts others ran frame next received
    obtain ⟨set, stepped, remaining⟩ := runActions_cons ran
    have isIdle : set.net.dhcp.state = .idle := by
      rw [dhcpStep, Option.some.injEq] at stepped
      rw [← stepped, netConfigureStatic, if_pos accepts]
      rfl
    exact (step_idle (run_idle isIdle others remaining) rfl received).2 frame rfl

end DhcpRuns

def lanDhcpReply (msgType : UInt8) (yiaddr : UInt32) : List UInt8 :=
  let payload := [2, 1, 6, 0] ++ be32 0x535A0001 ++ List.replicate 8 0 ++ be32 yiaddr ++
    List.replicate 8 0 ++ (lanMac 1).toList ++ List.replicate 202 0 ++ dhcpMagicCookie ++
    [dhcpOptMsgType, 1, msgType, dhcpOptEnd]
  ethernetFrame macBroadcast (lanMac 2) ethTypeIpv4
    (ipv4Header (UInt16.ofNat (28 + payload.length)) 1 64 ipProtoUdp 0x0A000002 ipBroadcast ++
      udpPacket 0x0A000002 ipBroadcast 67 68 payload)

/-- The ACK comes with a zero address. -/
def leaseAcquired : List DhcpAction := [
  .configureDhcp 0, .receive (lanDhcpReply dhcpMsgOffer 0x0A000005), .turn [],
  .receive (lanDhcpReply dhcpMsgAck 0), .turn []]

theorem leaseAcquired_safe : ∃ final,
    runActions (dhcpStep lanWorld) (dhcpBoot lanState) leaseAcquired = some final ∧
    final.net.config.ip = 0x0A000005 ∧ DhcpSafe lanWorld final := by
  have runs : (runActions (dhcpStep lanWorld) (dhcpBoot lanState) leaseAcquired).map
      (fun s => s.net.config.ip) = some 0x0A000005 := by
    decide +kernel
  obtain ⟨final, reached, address⟩ := Option.map_eq_some_iff.mp runs
  exact ⟨final, reached, address, dhcp_client_is_safe reached⟩

end Szczupak
