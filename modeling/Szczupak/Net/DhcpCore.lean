import Szczupak.Net.ReceiveCore

/-!
The DHCP client as its callers drive it: `net_configure_dhcp` and `net_configure_static` of
`net/net_api.c`.  The waiting loop of `net_configure_dhcp` is cut after its `net_poll`, so
that frames are received between two of its turns.
-/

namespace Szczupak

def dhcpMsgRequest : UInt8 := 3
def dhcpOptRequestedIp : UInt8 := 50

def dhcpRequest (world : World) (dhcp : DhcpClient) : List UInt8 :=
  dhcpPrepareBase world dhcp.xid ++ [dhcpOptMsgType, 1, dhcpMsgRequest] ++
    [dhcpOptRequestedIp, 4] ++ be32 dhcp.offeredIp ++ [dhcpOptServerId, 4] ++ be32 dhcp.serverIp ++
    [dhcpOptParamList, 3, dhcpOptSubnetMask, dhcpOptRouter, dhcpOptDns] ++
    [dhcpOptClientId, 7, 1] ++ world.mac.toList ++ [dhcpOptEnd]

/-- The frame goes to the broadcast address, so nothing is polled. -/
def dhcpSendRequest (world : World) (state : NetState) : Option (Bool × NetState) :=
  if state.dhcp.offeredIp = 0 ∨ state.dhcp.serverIp = 0 then some (false, state)
  else
    netSendUdpIpv4 idlePoll world state (.given ipZero) (.given ipBroadcast) 68 67
      (dhcpRequest world state.dhcp) true []

def NetConfig.cleared : NetConfig := ⟨false, 0, 0, 0, 0, 0⟩

def DhcpClient.cleared : DhcpClient := ⟨.idle, 0, 0, 0, none, none, none, none⟩

def TcpProbeState.cleared : TcpProbeState := ⟨false, false, false, 0, 0, 0, 0, 0⟩

def TcpClient.cleared : TcpClient :=
  ⟨false, false, false, false, false, 0, 0, 0, 0, 0, fun _ => 0, 0, 0, 0⟩

def arpCacheClear (state : NetState) : NetState :=
  { state with arpCache := state.arpCache.map fun _ => ⟨false, 0, macZero, 0⟩ }

def tcpRuntimeReset (state : NetState) : NetState :=
  { state with probe := .cleared, client := .cleared }

structure DhcpWait where
  deadline : UInt64
  retryAt : UInt64

def dhcpLoopHead (world : World) (state : NetState) (wait : DhcpWait) : NetState × Option DhcpWait :=
  let (now, state) := pitGetTicks world state
  (state, if now ≤ wait.deadline then some wait else none)

/-- `net_configure_dhcp` up to its first `net_poll`; no wait is left when it returns. -/
def netConfigureDhcp (world : World) (state : NetState) (xid timeoutMs : UInt32) :
    Option (NetState × Option DhcpWait) :=
  let timeoutMs := if timeoutMs = 0 then 5000 else timeoutMs
  let state := tcpRuntimeReset { state with
    dhcp := { DhcpClient.cleared with state := .waitOffer, xid } }
  match dhcpSendDiscover world state with
  | none => none
  | some (false, state) => some (state, none)
  | some (true, state) =>
      let (now, state) := pitGetTicks world state
      let timeoutTicks := (timeoutMs.toUInt64 * world.frequency.toUInt64 + 999) / 1000
      some (dhcpLoopHead world state {
        deadline := now + timeoutTicks, retryAt := now + world.frequency.toUInt64 })

def dhcpRetry (world : World) (state : NetState) (wait : DhcpWait) :
    Option (NetState × Option DhcpWait) :=
  let (now, state) := pitGetTicks world state
  if now ≥ wait.retryAt then
    let sent :=
      if state.dhcp.state = .waitOffer then dhcpSendDiscover world state
      else if state.dhcp.state = .waitAck then dhcpSendRequest world state
      else some (true, state)
    sent.map fun (_, state) =>
      dhcpLoopHead world state { wait with retryAt := now + world.frequency.toUInt64 }
  else some (dhcpLoopHead world state wait)

/-- A turn of the loop after its `net_poll`; `rounds` are polled while the gateway is looked up. -/
def dhcpTurn (world : World) (state : NetState) (wait : DhcpWait)
    (rounds : List (List (List UInt8))) : Option (NetState × Option DhcpWait) :=
  match state.dhcp.state with
  | .offerReady =>
      match dhcpSendRequest world state with
      | none => none
      | some (false, state) => some (state, none)
      | some (true, state) =>
          let (now, state) := pitGetTicks world { state with dhcp := { state.dhcp with state := .waitAck } }
          dhcpRetry world state { wait with retryAt := now + world.frequency.toUInt64 }
  | .bound =>
      if state.config.gateway = 0 then some (state, none)
      else
        (arpResolve (netPoll world) world state state.config.gateway 1500 rounds).map
          fun (_, state) => (state, none)
  | _ => dhcpRetry world state wait

def StaticAccepts (world : World) (ip : UInt32) : Prop :=
  world.initialized = true ∧ ip ≠ ipZero ∧ ip ≠ ipBroadcast

instance (world : World) (ip : UInt32) : Decidable (StaticAccepts world ip) :=
  inferInstanceAs (Decidable (_ ∧ _))

def netConfigureStatic (world : World) (state : NetState)
    (ip netmask gateway dns : UInt32) : NetState :=
  if StaticAccepts world ip then
    tcpRuntimeReset (arpCacheClear { state with
      config := { configured := true, ip, netmask, gateway, dns, leaseTimeSeconds := 0 }
      dhcp := { DhcpClient.cleared with state := .idle } })
  else state

end Szczupak
