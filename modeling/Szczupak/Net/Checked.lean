import Szczupak.Net.CheckedCore
import Szczupak.Net.Transmit

/-!
No access of the receive path is outside.  Where a view lies in the frame, a load at one of its
indices gives the byte of the packet there; every routine, given views inside the frame, goes
through and does what the unchecked routine does on the packet.
-/

namespace Szczupak

def View.Inside (view : View) (frame : List UInt8) : Prop := view.start + view.length ≤ frame.length

def View.bytes (view : View) (frame : List UInt8) : List UInt8 :=
  (frame.drop view.start).take view.length

section Loads

variable {frame : List UInt8} {view : View} {address i count : Nat}

section

variable (inside : view.Inside frame)
include inside

theorem bytes_length : (view.bytes frame).length = view.length := by
  rw [View.bytes, List.length_take, List.length_drop]
  rw [View.Inside] at inside
  omega

section

variable (isAddress : address = view.start + i)
include isAddress

theorem loadByte_at
    (bound : i < view.length) : loadByte frame address = some (byteAt (view.bytes frame) i) := by
  have same : (view.bytes frame)[i]? = frame[address]? := by
    rw [View.bytes, List.getElem?_take_of_lt bound, List.getElem?_drop, isAddress]
  rw [View.Inside] at inside
  rw [loadByte, byteAt, List.getD_eq_getElem?_getD, same, List.getElem?_eq_getElem (by omega)]
  rfl

theorem loadBe16_at
    (bound : i + 1 < view.length) : loadBe16 frame address = some (readBe16 (view.bytes frame) i) := by
  have high := loadByte_at inside isAddress (by omega)
  have low := @loadByte_at frame view (address + 1) (i + 1) inside (by omega) bound
  simp only [loadBe16, high, low, Option.bind_eq_bind, Option.bind_some]
  rfl

theorem loadBe32_at
    (bound : i + 3 < view.length) : loadBe32 frame address = some (readBe32 (view.bytes frame) i) := by
  have first := loadByte_at inside isAddress (by omega)
  have second := @loadByte_at frame view (address + 1) (i + 1) inside (by omega) (by omega)
  have third := @loadByte_at frame view (address + 2) (i + 2) inside (by omega) (by omega)
  have fourth := @loadByte_at frame view (address + 3) (i + 3) inside (by omega) bound
  simp only [loadBe32, first, second, third, fourth, Option.bind_eq_bind, Option.bind_some]
  rfl

theorem loadBytes_at (bound : i + count ≤ view.length) :
    loadBytes frame address count = some (((view.bytes frame).drop i).take count) := by
  rw [View.Inside] at inside
  rw [loadBytes, if_pos (by omega), View.bytes, List.drop_take, List.take_take, List.drop_drop,
    isAddress, Nat.min_eq_left (by omega)]

end

end

theorem macAt_slice (data : List UInt8) (offset : Nat) :
    macAt ((data.drop offset).take 6) 0 = macAt data offset := by
  refine Vector.ext fun index bound => ?_
  simp only [macAt, Vector.getElem_ofFn, byteAt, List.getD_eq_getElem?_getD, Nat.zero_add]
  rw [List.getElem?_take_of_lt bound, List.getElem?_drop]

theorem loadMac_at (inside : view.Inside frame) (isAddress : address = view.start + i)
    (bound : i + 6 ≤ view.length) : loadMac frame address = some (macAt (view.bytes frame) i) := by
  rw [loadMac, loadBytes_at inside isAddress bound, Option.bind_eq_bind, Option.bind_some, macAt_slice]
  rfl

theorem bytes_sub {start length : Nat} (fits : start + length ≤ view.length) :
    View.bytes ⟨view.start + start, length⟩ frame = ((view.bytes frame).drop start).take length := by
  rw [View.bytes, View.bytes, List.drop_take, List.take_take, List.drop_drop,
    Nat.min_eq_left (by omega)]

theorem inside_sub {start length : Nat} (inside : view.Inside frame)
    (fits : start + length ≤ view.length) : View.Inside ⟨view.start + start, length⟩ frame := by
  rw [View.Inside] at *
  dsimp only
  omega

theorem drop_byte {data : List UInt8} (more : i < data.length) :
    data.drop i = byteAt data i :: data.drop (i + 1) := by
  rw [List.drop_eq_getElem_cons more, byteAt, List.getD_eq_getElem _ _ more]

theorem checksumLoop_at (inside : view.Inside frame) {turns : Nat} {sum : UInt32}
    (atMost : i ≤ view.length) (enough : view.length < i + turns) :
    checksumLoop frame view turns i sum = some (checksumAddBytes sum ((view.bytes frame).drop i)) := by
  have length := bytes_length inside
  induction turns generalizing i sum with
  | zero => omega
  | succ turns ih =>
      rw [checksumLoop]
      by_cases pair : i + 1 < view.length
      · have high := loadByte_at inside rfl (show i < view.length by omega)
        have low := loadByte_at inside rfl pair
        simp only [if_pos pair, high, low, Option.bind_eq_bind, Option.bind_some]
        rw [ih (by omega) (by omega), drop_byte (show i < _ by omega),
          drop_byte (show i + 1 < _ by omega), checksumAddBytes]
      · rw [if_neg pair]
        by_cases last : i < view.length
        · have byte := loadByte_at inside rfl last
          simp only [if_pos last, byte, Option.bind_eq_bind, Option.bind_some]
          rw [drop_byte (by omega), List.drop_eq_nil_of_le (show _ ≤ i + 1 by omega)]
          rfl
        · rw [if_neg last, List.drop_eq_nil_of_le (by omega)]
          rfl

theorem checksumFinalizeLoop_ends (sum : UInt32) :
    checksumFinalizeLoop 3 sum = some (checksumFinalize sum) := by
  have settled : ∀ value : UInt32, value >>> 16 = 0 → foldCarry value = value := by
    intro value none
    refine (foldCarry_stops value).2 ?_
    have high := congrArg UInt32.toNat none
    rw [UInt32.toNat_shiftRight] at high
    change value.toNat >>> 16 = 0 at high
    rw [Nat.shiftRight_eq_div_pow] at high
    omega
  have stops : foldCarry (foldCarry sum) >>> 16 = 0 := by
    refine UInt32.toNat.inj ?_
    rw [UInt32.toNat_shiftRight]
    change (foldCarry (foldCarry sum)).toNat >>> 16 = 0
    rw [Nat.shiftRight_eq_div_pow]
    exact Nat.div_eq_of_lt (foldCarry_stops sum).1
  rw [checksumFinalize]
  by_cases first : sum >>> 16 = 0
  · rw [checksumFinalizeLoop, if_neg (not_not.mpr first), settled sum first, settled sum first]
  · rw [checksumFinalizeLoop, if_pos first]
    by_cases second : foldCarry sum >>> 16 = 0
    · rw [checksumFinalizeLoop, if_neg (not_not.mpr second), settled _ second]
    · rw [checksumFinalizeLoop, if_pos second, checksumFinalizeLoop, if_neg (not_not.mpr stops)]

theorem loadChecksum_at (inside : view.Inside frame) {sum : UInt32} :
    loadChecksum frame view sum =
    some (checksumFinalize (checksumAddBytes sum (view.bytes frame))) := by
  rw [loadChecksum, checksumLoop_at inside (Nat.zero_le _) (by omega), Option.bind_eq_bind,
    Option.bind_some, checksumFinalizeLoop_ends, List.drop_zero]

end Loads

section Dhcp

variable {frame : List UInt8} {view : View} {world : World} {state : NetState}

theorem dhcpOptionsLoop_at (inside : view.Inside frame) {turns fuel i : Nat} {options : DhcpOptions}
    (atMost : i ≤ view.length) (enough : view.length < i + turns)
    (fuelEnough : view.length ≤ i + fuel) : dhcpOptionsLoop frame view turns i options =
      some (dhcpParseLoop fuel options ((view.bytes frame).drop i)) := by
  have length := bytes_length inside
  induction turns generalizing i fuel options with
  | zero => omega
  | succ turns ih =>
      rw [dhcpOptionsLoop]
      by_cases more : i < view.length
      · obtain ⟨fuel, rfl⟩ := Nat.exists_eq_succ_of_ne_zero (show fuel ≠ 0 by omega)
        have option := loadByte_at inside rfl more
        simp only [if_pos more, option, Option.bind_eq_bind, Option.bind_some]
        rw [drop_byte (by omega), dhcpParseLoop.eq_def]
        dsimp only
        split
        next => exact ih (by omega) (by omega) (by omega)
        next =>
          split
          next => rfl
          next =>
            by_cases ends : i + 1 ≥ view.length
            · rw [if_pos ends, List.drop_eq_nil_of_le (by omega)]
              rfl
            · have size := loadByte_at inside rfl (show i + 1 < view.length by omega)
              simp only [if_neg ends, size, Option.bind_some]
              rw [drop_byte (by omega)]
              dsimp only
              rw [List.length_drop, length]
              split
              next => rfl
              next fits =>
                have value := @loadBytes_at frame view _ (i + 2)
                  (byteAt (view.bytes frame) (i + 1)).toNat inside rfl (by omega)
                simp only [value, Option.bind_some]
                rw [List.drop_drop]
                exact ih (by omega) (by omega) (by omega)
      · rw [if_neg more, List.drop_eq_nil_of_le (by omega)]
        cases fuel <;> rfl

theorem dhcpAcceptChecked_at (inside : view.Inside frame) {dhcp : DhcpClient} :
    dhcpAcceptChecked frame world dhcp view = some (dhcpAccept world dhcp (view.bytes frame)) := by
  have length := bytes_length inside
  rw [dhcpAcceptChecked, dhcpAccept, length]
  by_cases short : view.length < 240
  · rw [if_pos short, if_pos short]
    rfl
  · have op := loadByte_at inside (Nat.add_zero view.start).symm (by omega)
    have hardware := loadByte_at inside rfl (show 1 < view.length by omega)
    have hardwareLength := loadByte_at inside rfl (show 2 < view.length by omega)
    have xid := loadBe32_at inside rfl (show 4 + 3 < view.length by omega)
    have mac := loadMac_at inside rfl (show 28 + 6 ≤ view.length by omega)
    have cookie := loadBytes_at inside rfl (show 236 + 4 ≤ view.length by omega)
    have fits : 240 + (view.length - 240) ≤ view.length := by omega
    have options := @dhcpOptionsLoop_at frame ⟨view.start + 240, view.length - 240⟩
      (inside_sub inside fits) (view.length - 240 + 1) (view.length - 240) 0 dhcpOptionsClear
      (Nat.zero_le _) (by dsimp only; omega) (by dsimp only; omega)
    rw [bytes_sub fits, List.take_of_length_le (by rw [List.length_drop]; omega), List.drop_zero] at options
    have parsed : dhcpParseOptions ((view.bytes frame).drop 240) =
        dhcpParseLoop (view.length - 240) dhcpOptionsClear ((view.bytes frame).drop 240) := by
      rw [dhcpParseOptions, List.length_drop, length]
    simp only [if_neg short, op, hardware, hardwareLength, xid, mac, cookie, options, parsed,
      Option.bind_eq_bind, Option.bind_some]
    split
    next => rfl
    next =>
      split
      next => rfl
      next =>
        split
        next => rfl
        next =>
          split
          next => rfl
          next => rfl

end Dhcp

section Dns

variable {frame : List UInt8} {view : View}

section

variable (inside : view.Inside frame)
include inside

theorem dnsSkipNameLoop_at {turns labels budget offset : Nat}
    (positive : 0 < turns) (enough : view.length < offset + turns) (isBudget : labels + budget = 129)
    (some : 0 < budget) : dnsSkipNameLoop frame view turns labels offset =
      Option.some (dnsSkipName (view.bytes frame) budget offset) := by
  have length := bytes_length inside
  induction turns generalizing labels budget offset with
  | zero => omega
  | succ turns ih =>
      obtain ⟨budget, rfl⟩ := Nat.exists_eq_succ_of_ne_zero (Nat.ne_of_gt some)
      rw [dnsSkipNameLoop, dnsSkipName, length]
      by_cases outside : offset ≥ view.length
      · rw [if_neg (by omega), if_pos outside]
        rfl
      · have size := loadByte_at inside rfl (show offset < view.length by omega)
        simp only [if_pos (show offset < view.length by omega), if_neg outside, size,
          Option.bind_eq_bind, Option.bind_some]
        split
        next => rfl
        next =>
          split
          next => split <;> rfl
          next =>
            split
            next => rfl
            next =>
              split
              next => rfl
              next fits =>
                by_cases many : labels + 1 > 128
                · have last : budget = 0 := by omega
                  rw [if_pos many, last]
                  rfl
                · rw [if_neg many]
                  exact ih (by omega) (by omega) (by omega) (by omega)

theorem dnsSkipNameChecked_at {offset : Nat} :
    dnsSkipNameChecked frame view offset = some (dnsSkipName (view.bytes frame) 129 offset) :=
  dnsSkipNameLoop_at inside (Nat.succ_pos _) (by omega) (by omega) (by omega)

theorem dnsSkipQuestionsChecked_at {count offset : Nat} :
    dnsSkipQuestionsChecked frame view count offset =
      some (dnsSkipQuestions (view.bytes frame) count offset) := by
  induction count generalizing offset with
  | zero => rfl
  | succ count ih =>
      rw [dnsSkipQuestionsChecked, dnsSkipQuestions, dnsSkipNameChecked_at inside,
        bytes_length inside, Option.bind_eq_bind, Option.bind_some]
      cases dnsSkipName (view.bytes frame) 129 offset with
      | none => rfl
      | some after =>
          dsimp only
          split
          next => rfl
          next => exact ih

theorem dnsFindAnswerChecked_at {count offset : Nat} :
    dnsFindAnswerChecked frame view count offset =
      some (dnsFindAnswer (view.bytes frame) count offset) := by
  induction count generalizing offset with
  | zero => rfl
  | succ count ih =>
      rw [dnsFindAnswerChecked, dnsFindAnswer, dnsSkipNameChecked_at inside, bytes_length inside,
        Option.bind_eq_bind, Option.bind_some]
      cases dnsSkipName (view.bytes frame) 129 offset with
      | none => rfl
      | some record =>
          dsimp only
          by_cases short : record + 10 > view.length
          · rw [if_pos short, if_pos short]
            rfl
          · have type := loadBe16_at inside rfl (show record + 1 < view.length by omega)
            have classCode := loadBe16_at inside rfl (show record + 2 + 1 < view.length by omega)
            have ttl := loadBe32_at inside rfl (show record + 4 + 3 < view.length by omega)
            have rdlength := loadBe16_at inside rfl (show record + 8 + 1 < view.length by omega)
            simp only [if_neg short, type, classCode, ttl, rdlength, Option.bind_eq_bind, Option.bind_some]
            split
            next => rfl
            next fits =>
              split
              next isAnswer =>
                have ip := @loadBe32_at frame view _ (record + 10) inside rfl (by omega)
                simp only [ip, Option.bind_some]
                rfl
              next => exact ih

theorem dnsParseResponseAChecked_at {expectedTxid : UInt16} :
    dnsParseResponseAChecked frame view expectedTxid =
      some (dnsParseResponseA (view.bytes frame) expectedTxid) := by
  rw [dnsParseResponseAChecked, dnsParseResponseA, bytes_length inside]
  by_cases short : view.length < 12
  · rw [if_pos short, if_pos short]
    rfl
  · have txid := loadBe16_at inside (Nat.add_zero view.start).symm (show 0 + 1 < view.length by omega)
    have flags := loadBe16_at inside rfl (show 2 + 1 < view.length by omega)
    have qdcount := loadBe16_at inside rfl (show 4 + 1 < view.length by omega)
    have ancount := loadBe16_at inside rfl (show 6 + 1 < view.length by omega)
    simp only [if_neg short, txid, flags, qdcount, ancount, Option.bind_eq_bind, Option.bind_some,
      dnsSkipQuestionsChecked_at inside]
    split
    next => rfl
    next =>
      split
      next => rfl
      next =>
        split
        next => rfl
        next =>
          cases dnsSkipQuestions (view.bytes frame) (readBe16 (view.bytes frame) 4).toNat 12 with
          | none => rfl
          | some offset => exact dnsFindAnswerChecked_at inside

end

end Dns

theorem storeInside_fits {capacity first count : Nat} (fits : first + count ≤ capacity) :
    storeInside capacity first count = some () := if_pos fits

theorem cacheSlot_inside {marks : List (Bool × UInt64)} (some : 0 < marks.length) :
    cacheSlot marks < marks.length := by
  unfold cacheSlot
  split
  next free found => exact (List.findIdx?_eq_some_iff_findIdx_eq.mp found).1
  next =>
    have within : ∀ (rest : List ((Bool × UInt64) × Nat)) (oldest : UInt64 × Nat),
        oldest.2 < marks.length → (∀ mark ∈ rest, mark.2 < marks.length) →
        (rest.foldl (fun (oldest : UInt64 × Nat) mark =>
          if mark.1.2 < oldest.1 then (mark.1.2, mark.2) else oldest) oldest).2 < marks.length := by
      intro rest
      induction rest with
      | nil => exact fun _ start _ => start
      | cons mark rest ih =>
          intro oldest start all
          rw [List.foldl_cons]
          refine ih _ ?_ fun other member => all other (List.mem_cons_of_mem _ member)
          split
          next => exact all mark List.mem_cons_self
          next => exact start
    refine within _ _ some fun mark member => ?_
    have bound := List.snd_lt_of_mem_zipIdx member
    omega

section Stores

variable {world : World} {state : NetState}

theorem arpCacheUpdateChecked_eq {ip : UInt32} {mac : Mac}
    (size : state.arpCache.length = arpCacheSize) :
    arpCacheUpdateChecked world state ip mac = some (arpCacheUpdate world state ip mac) := by
  rw [arpCacheUpdateChecked, arpCacheUpdate]
  split
  next => rfl
  next =>
    have same : (pitGetTicks world state).2.arpCache = state.arpCache := rfl
    generalize isTicked : pitGetTicks world state = ticked at same
    obtain ⟨now, next⟩ := ticked
    dsimp only at same ⊢
    rw [same]
    cases found : state.arpCache.findIdx? fun entry => entry.valid && entry.ip == ip with
    | some index =>
        have bound := (List.findIdx?_eq_some_iff_findIdx_eq.mp found).1
        simp only [storeInside_fits (show index + 1 ≤ arpCacheSize by omega), Option.bind_eq_bind,
          Option.bind_some]
        rfl
    | none =>
        have bound := @cacheSlot_inside (state.arpCache.map fun entry =>
          (entry.valid, entry.updatedAtTicks)) (by rw [List.length_map, size]; decide)
        rw [List.length_map] at bound
        simp only [storeInside_fits (show cacheSlot (state.arpCache.map fun entry =>
          (entry.valid, entry.updatedAtTicks)) + 1 ≤ arpCacheSize by omega), Option.bind_eq_bind,
          Option.bind_some]
        rfl

variable {payload : List UInt8}

theorem netSendEthernetFrameChecked_eq {dstMac : Mac} {ethertype : UInt16} :
    netSendEthernetFrameChecked world state dstMac ethertype payload =
      some (netSendEthernetFrame world state dstMac ethertype payload) := by
  rw [netSendEthernetFrameChecked, netSendEthernetFrame]
  split
  next => rfl
  next small =>
    have fits : payload.length ≤ ethMtu := by
      simp only [Bool.or_eq_true, decide_eq_true_eq, not_or] at small
      omega
    rw [storeInside_fits (by omega), storeInside_fits (Nat.add_le_add_left fits _)]
    rfl

theorem arpSendReplyChecked_eq {targetMac : Mac} {targetIp : UInt32} :
    arpSendReplyChecked world state targetMac targetIp =
    some (arpSendReply world state targetMac targetIp) := by
  rw [arpSendReplyChecked, arpSendReply]
  split
  next => rfl
  next => exact netSendEthernetFrameChecked_eq

variable {src dst : AddressRef}

theorem netSendIpv4PayloadChecked_eq {protocol ttl : UInt8} {payload : PayloadRef}
    {payloadLength : Nat} {forceBroadcastEth : Bool} :
    netSendIpv4PayloadChecked world state src dst protocol ttl payload payloadLength forceBroadcastEth =
      some (netSendIpv4Payload idlePoll world state src dst protocol ttl payload payloadLength
        forceBroadcastEth (idleRounds world)) := by
  rw [netSendIpv4PayloadChecked, netSendIpv4Payload]
  split
  next => rfl
  next small =>
    cases netResolveDestMac idlePoll world state (dst.load state.config) forceBroadcastEth
        (idleRounds world) with
    | none => rfl
    | some resolved =>
        obtain ⟨mac, next⟩ := resolved
        cases mac with
        | none => rfl
        | some dstMac =>
            have fits : ipv4HeaderSize + payloadLength ≤ ethMtu := by
              have header : ipv4HeaderSize ≤ ethMtu := by decide
              omega
            dsimp only
            rw [netSendIpv4ResolvedChecked, storeInside_fits (by decide), storeInside_fits fits,
              netSendEthernetFrameChecked_eq]
            rfl

theorem netSendUdpIpv4Checked_eq {srcPort dstPort : UInt16} {forceBroadcastEth : Bool} :
    netSendUdpIpv4Checked world state src dst srcPort dstPort payload forceBroadcastEth =
      some (netSendUdpIpv4 idlePoll world state src dst srcPort dstPort payload forceBroadcastEth
        (idleRounds world)) := by
  rw [netSendUdpIpv4Checked, netSendUdpIpv4]
  split
  next => rfl
  next =>
    split
    next => rfl
    next small =>
      rw [storeInside_fits (by omega), storeInside_fits (by omega)]
      exact netSendIpv4PayloadChecked_eq

theorem netSendTcpIpv4Checked_eq {call : TcpCall} {ttl : UInt8} :
    netSendTcpIpv4Checked world state src dst call ttl =
      some (netSendTcpIpv4 idlePoll world state src dst call ttl (idleRounds world)) := by
  rw [netSendTcpIpv4Checked, netSendTcpIpv4]
  split
  next => rfl
  next =>
    split
    next => rfl
    next small =>
      rw [storeInside_fits (by omega), storeInside_fits (by omega)]
      exact netSendIpv4PayloadChecked_eq

end Stores

section Handlers

variable {frame : List UInt8} {view : View} {world : World} {state : NetState}
  {segment : TcpSegment}

theorem dhcpSendDiscoverChecked_eq :
    dhcpSendDiscoverChecked world state = some (dhcpSendDiscover world state) := by
  have fits : 0 + (dhcpDiscover world state.dhcp.xid).length ≤ 320 := by
    simp only [dhcpDiscover, dhcpPrepareBase, dhcpMagicCookie, dhcpHostname, List.length_append,
      List.length_cons, List.length_nil, List.length_replicate, Vector.length_toList, be16_length,
      be32_length]
    omega
  rw [dhcpSendDiscoverChecked, storeInside_fits fits]
  exact netSendUdpIpv4Checked_eq

section

variable (inside : view.Inside frame)
include inside

theorem dhcpHandlePacketChecked_at {sourceIp : UInt32} :
    dhcpHandlePacketChecked frame world state view sourceIp =
      some (dhcpHandlePacket world state (view.bytes frame) sourceIp) := by
  rw [dhcpHandlePacketChecked, dhcpHandlePacket, dhcpAcceptChecked_at inside, Option.bind_eq_bind,
    Option.bind_some]
  cases accepted : dhcpAccept world state.dhcp (view.bytes frame) with
  | none => rfl
  | some decoded =>
      have long : 240 ≤ view.length := by
        rw [← bytes_length inside]
        by_contra short
        rw [dhcpAccept, if_pos (by omega)] at accepted
        cases accepted
      have yiaddr := loadBe32_at inside rfl (show 16 + 3 < view.length by omega)
      have siaddr := loadBe32_at inside rfl (show 20 + 3 < view.length by omega)
      simp only [yiaddr, siaddr, Option.bind_eq_bind, Option.bind_some, dhcpSendDiscoverChecked_eq]
      split
      next => rfl
      next =>
        split
        next => rfl
        next => split <;> rfl

theorem dnsHandleUdpPacketChecked_at {srcIp : UInt32} {srcPort dstPort : UInt16} :
    dnsHandleUdpPacketChecked frame world state view srcIp srcPort dstPort =
      some (dnsHandleUdpPacket world state (view.bytes frame) srcIp srcPort dstPort) := by
  rw [dnsHandleUdpPacketChecked, dnsHandleUdpPacket, dnsParseResponseAChecked_at inside,
    Option.bind_eq_bind, Option.bind_some]
  split
  next => rfl
  next =>
    split
    next => rfl
    next =>
      split
      next => rfl
      next => cases dnsParseResponseA (view.bytes frame) state.dns.txid <;> rfl

theorem udpAcceptChecked_at {srcIp dstIp : UInt32} :
    (udpAcceptChecked frame view srcIp dstIp = some none ∧
      udpAccept (view.bytes frame) srcIp dstIp = none) ∨
    ∃ srcPort dstPort payload,
      udpAcceptChecked frame view srcIp dstIp = some (some (srcPort, dstPort, payload)) ∧
      payload.Inside frame ∧
      udpAccept (view.bytes frame) srcIp dstIp = some ⟨srcPort, dstPort, payload.bytes frame⟩ := by
  have length := bytes_length inside
  rw [udpAcceptChecked, udpAccept, length]
  by_cases short : view.length < udpHeaderSize
  · rw [if_pos short, if_pos short]
    exact Or.inl ⟨rfl, rfl⟩
  · have eight : 8 ≤ view.length := Nat.le_of_not_lt short
    have srcPort := loadBe16_at inside (Nat.add_zero view.start).symm (show 0 + 1 < view.length by omega)
    have dstPort := loadBe16_at inside rfl (show 2 + 1 < view.length by omega)
    have udpLength := loadBe16_at inside rfl (show 4 + 1 < view.length by omega)
    have checksum := loadBe16_at inside rfl (show 6 + 1 < view.length by omega)
    simp only [if_neg short, srcPort, dstPort, udpLength, checksum, Option.bind_eq_bind, Option.bind_some]
    generalize (readBe16 (view.bytes frame) 4).toNat = size
    by_cases wrong : size < udpHeaderSize ∨ size > view.length
    · rw [if_pos wrong, if_pos wrong]
      exact Or.inl ⟨rfl, rfl⟩
    · rw [if_neg wrong, if_neg wrong]
      have fits : udpHeaderSize + (size - udpHeaderSize) ≤ view.length := by omega
      have payload : View.bytes ⟨view.start + udpHeaderSize, size - udpHeaderSize⟩ frame =
          ((view.bytes frame).take size).drop udpHeaderSize := by
        rw [bytes_sub fits, List.drop_take]
      rw [← payload]
      have within := inside_sub inside fits
      by_cases verified : readBe16 (view.bytes frame) 6 ≠ 0 ∧ size ≤ udpHeaderSize + ethMtu
      · rw [if_pos verified, storeInside_fits (by omega)]
        have copied := @loadBytes_at frame view view.start 0 size inside (Nat.add_zero _).symm (by omega)
        rw [List.drop_zero] at copied
        have copiedLength : ((view.bytes frame).take size).length = size := by
          rw [List.length_take, length]
          omega
        have whole : View.Inside ⟨0, size⟩ ((view.bytes frame).take size) := by
          rw [View.Inside, copiedLength]
          exact Nat.le_of_eq (Nat.zero_add size)
        have same : View.bytes ⟨0, size⟩ ((view.bytes frame).take size) = (view.bytes frame).take size := by
          rw [View.bytes, List.drop_zero, List.take_take, Nat.min_self]
        have sum := @loadChecksum_at _ ⟨0, size⟩ whole (pseudoHeaderSum srcIp dstIp ipProtoUdp size)
        rw [same] at sum
        have verify : udpChecksum srcIp dstIp ((view.bytes frame).take size) =
            if checksumFinalize (checksumAddBytes (pseudoHeaderSum srcIp dstIp ipProtoUdp size)
              ((view.bytes frame).take size)) = 0 then 0xFFFF
            else checksumFinalize (checksumAddBytes (pseudoHeaderSum srcIp dstIp ipProtoUdp size)
              ((view.bytes frame).take size)) := by
          rw [udpChecksum, copiedLength]
        simp only [copied, sum, Option.bind_some]
        rw [← verify]
        split
        next bad =>
          rw [if_pos ⟨verified.1, verified.2, bad⟩]
          exact Or.inl ⟨rfl, rfl⟩
        next good =>
          rw [if_neg fun all => good all.2.2]
          exact Or.inr ⟨_, _, _, rfl, within, rfl⟩
      · rw [if_neg verified, if_neg fun all => verified ⟨all.1, all.2.1⟩]
        exact Or.inr ⟨_, _, _, rfl, within, rfl⟩

theorem netHandleUdpChecked_at {srcIp dstIp : UInt32} :
    netHandleUdpChecked frame world state view srcIp dstIp =
      some (netHandleUdp world state (view.bytes frame) srcIp dstIp) := by
  rw [netHandleUdpChecked, netHandleUdp]
  rcases @udpAcceptChecked_at frame view inside srcIp dstIp with
    ⟨checked, accepted⟩ | ⟨srcPort, dstPort, payload, checked, within, accepted⟩
  · rw [checked, accepted]
    rfl
  · rw [checked, accepted, Option.bind_eq_bind, Option.bind_some]
    dsimp only
    split
    next => exact dhcpHandlePacketChecked_at within
    next =>
      rw [dnsHandleUdpPacketChecked_at within]
      rfl

end

theorem byteAt_drop (data : List UInt8) (front offset : Nat) :
    byteAt (data.drop front) offset = byteAt data (front + offset) := by
  rw [byteAt, byteAt, List.getD_eq_getElem?_getD, List.getD_eq_getElem?_getD, List.getElem?_drop]

theorem readBe16_drop (data : List UInt8) (front offset : Nat) :
    readBe16 (data.drop front) offset = readBe16 data (front + offset) := by
  rw [readBe16, readBe16, byteAt_drop, byteAt_drop, Nat.add_assoc]

section

variable (inside : view.Inside frame)
include inside

theorem icmpMatchEmbeddedProbeChecked_at {identifier sequence : UInt16}
    {expectedDstIp expectedSrcIp : UInt32} :
    icmpMatchEmbeddedProbeChecked frame view identifier sequence expectedDstIp expectedSrcIp =
      some (icmpMatchEmbeddedProbe (view.bytes frame) identifier sequence expectedDstIp expectedSrcIp) := by
  have length := bytes_length inside
  rw [icmpMatchEmbeddedProbeChecked, icmpMatchEmbeddedProbe, length]
  by_cases short : view.length < 8 + ipv4HeaderSize
  · rw [if_pos short, decide_eq_false (Nat.not_le.mpr short)]
    rfl
  · have long : 28 ≤ view.length := Nat.le_of_not_lt short
    have fits : 8 + (view.length - 8) ≤ view.length := by omega
    have within := inside_sub inside fits
    have embedded : View.bytes ⟨view.start + 8, view.length - 8⟩ frame = (view.bytes frame).drop 8 := by
      rw [bytes_sub fits]
      exact List.take_of_length_le (by rw [List.length_drop, length])
    rw [if_neg short, decide_eq_true (Nat.le_of_not_lt short), ← embedded, bytes_length within]
    generalize isInner : (⟨view.start + 8, view.length - 8⟩ : View) = inner at within
    have innerLength : inner.length = view.length - 8 := by rw [← isInner]
    have versionIhl := loadByte_at within (Nat.add_zero inner.start).symm (by omega)
    have protocol := loadByte_at within rfl (show 9 < inner.length by omega)
    have srcIp := loadBe32_at within rfl (show 12 + 3 < inner.length by omega)
    have dstIp := loadBe32_at within rfl (show 16 + 3 < inner.length by omega)
    simp only [versionIhl, protocol, srcIp, dstIp, Option.bind_eq_bind,
      Option.bind_some, byteAt_drop, readBe16_drop, Bool.true_and, Nat.add_zero]
    generalize isPacket : inner.bytes frame = packet
    generalize (byteAt packet 0 &&& (0x0F : UInt8)).toNat * 4 = ihl
    split
    next wrong =>
      rcases wrong with version | small | large
      · simp [version]
      · simp [Nat.not_le.mpr small]
      · simp [Nat.not_le.mpr large]
    next right =>
      simp only [not_or, not_not, Nat.not_lt] at right
      obtain ⟨version, least, most⟩ := right
      simp only [version, beq_self_eq_true, decide_eq_true least, decide_eq_true most, Bool.true_and]
      split
      next other => simp [other]
      next isIcmp =>
        split
        next cut => simp [Nat.not_le.mpr cut]
        next room =>
          split
          next other => rcases other with src | dst <;> simp [*]
          next addresses =>
            have type := loadByte_at within rfl (show ihl < inner.length by omega)
            have code := loadByte_at within rfl (show ihl + 1 < inner.length by omega)
            have itsIdentifier := loadBe16_at within rfl (show ihl + 4 + 1 < inner.length by omega)
            have itsSequence := loadBe16_at within rfl (show ihl + 6 + 1 < inner.length by omega)
            rw [isPacket] at type code itsIdentifier itsSequence
            simp only [type, code, itsIdentifier, itsSequence, Option.bind_some]
            simp only [not_or, not_not] at addresses isIcmp
            simp only [isIcmp, addresses.1, addresses.2, beq_self_eq_true,
              decide_eq_true (Nat.le_of_not_lt room), Bool.true_and]
            split
            next other => rcases other with type | code <;> simp [*]
            next request =>
              simp only [not_or, not_not] at request
              simp only [request.1, request.2, beq_self_eq_true, Bool.true_and]
              rfl

variable {srcIp dstIp : UInt32}

section

variable (size : state.arpCache.length = arpCacheSize)
include size

theorem icmpAnswerEchoChecked_at {srcMac : Mac}
    :
    icmpAnswerEchoChecked frame world state view srcIp dstIp srcMac =
      some (icmpAnswerEcho world state (view.bytes frame) srcIp dstIp srcMac) := by
  have length := bytes_length inside
  rw [icmpAnswerEchoChecked, icmpAnswerEcho, length]
  split
  next => rfl
  next =>
    split
    next => rfl
    next =>
      split
      next => rfl
      next =>
        split
        next => rfl
        next small =>
          have request := @loadBytes_at frame view view.start 0 view.length inside
            (Nat.add_zero _).symm (by omega)
          rw [List.drop_zero, List.take_of_length_le (by omega)] at request
          have header : ipv4HeaderSize ≤ ethMtu := by decide
          rw [storeInside_fits (by omega), request, storeInside_fits (by decide),
            storeInside_fits (by decide), storeInside_fits (by omega)]
          simp only [Option.bind_eq_bind, Option.bind_some]
          rw [@arpCacheUpdateChecked_eq world
            { state with ipIdentification := state.ipIdentification + 1 } srcIp srcMac size,
            Option.bind_some, netSendEthernetFrameChecked_eq]
          rfl

theorem netHandleIcmpChecked_at {srcMac : Mac}
    :
    netHandleIcmpChecked frame world state view srcIp dstIp srcMac =
      some (netHandleIcmp world state (view.bytes frame) srcIp dstIp srcMac) := by
  rw [netHandleIcmpChecked, netHandleIcmp, bytes_length inside]
  by_cases short : view.length < 8
  · rw [if_pos short, if_pos short]
    rfl
  · have icmpType := loadByte_at inside (Nat.add_zero view.start).symm (by omega)
    have icmpCode := loadByte_at inside rfl (show 1 < view.length by omega)
    have identifier := loadBe16_at inside rfl (show 4 + 1 < view.length by omega)
    have sequence := loadBe16_at inside rfl (show 6 + 1 < view.length by omega)
    simp only [if_neg short, loadChecksum_at inside, icmpType, icmpCode, identifier, sequence,
      Option.bind_eq_bind, Option.bind_some, icmpAnswerEchoChecked_at inside size,
      icmpMatchEmbeddedProbeChecked_at inside]
    rw [← icmpChecksum]
    split
    next => rfl
    next =>
      split
      next => rfl
      next =>
        split
        next => split <;> rfl
        next =>
          split
          next => split <;> rfl
          next => rfl

theorem netHandleArpChecked_at :
    netHandleArpChecked frame world state view =
    some (netHandleArp world state (view.bytes frame)) := by
  rw [netHandleArpChecked, netHandleArp, bytes_length inside]
  by_cases short : view.length < 28
  · rw [if_pos short, if_pos short]
    rfl
  · have hardwareType := loadBe16_at inside (Nat.add_zero view.start).symm
      (show 0 + 1 < view.length by omega)
    have protocolType := loadBe16_at inside rfl (show 2 + 1 < view.length by omega)
    have hardwareSize := loadByte_at inside rfl (show 4 < view.length by omega)
    have protocolSize := loadByte_at inside rfl (show 5 < view.length by omega)
    have opcode := loadBe16_at inside rfl (show 6 + 1 < view.length by omega)
    have senderMac := loadMac_at inside rfl (show 8 + 6 ≤ view.length by omega)
    have senderIp := loadBe32_at inside rfl (show 14 + 3 < view.length by omega)
    have targetIp := loadBe32_at inside rfl (show 24 + 3 < view.length by omega)
    simp only [if_neg short, hardwareType, protocolType, hardwareSize, protocolSize, opcode, senderMac,
      senderIp, targetIp, Option.bind_eq_bind, Option.bind_some, arpCacheUpdateChecked_eq size,
      arpSendReplyChecked_eq]
    split
    next => rfl
    next =>
      generalize readBe32 (view.bytes frame) 14 = ip
      generalize macAt (view.bytes frame) 8 = mac
      by_cases validSender : ip ≠ ipZero ∧ mac ≠ macZero ∧ mac ≠ macBroadcast
      · simp only [if_pos validSender]
        split
        next =>
          split
          next => rfl
          next => split <;> rfl
        next => rfl
      · simp only [if_neg validSender]
        change Option.bind (some state) _ = _
        rw [Option.bind_some]
        split
        next =>
          split
          next => rfl
          next => split <;> rfl
        next => rfl

end

theorem tcpAcceptChecked_at :
    tcpAcceptChecked frame view srcIp dstIp = some (tcpAccept (view.bytes frame) srcIp dstIp) := by
  have length := bytes_length inside
  rw [tcpAcceptChecked, tcpAccept, length]
  by_cases wrong : view.length < tcpHeaderSize ∨ view.length > 0xFFFF
  · rw [if_pos wrong, if_pos wrong]
    rfl
  · have long : 20 ≤ view.length := by
      rw [tcpHeaderSize] at wrong
      omega
    have dataOffset := loadByte_at inside rfl (show 12 < view.length by omega)
    have srcPort := loadBe16_at inside (Nat.add_zero view.start).symm (show 0 + 1 < view.length by omega)
    have dstPort := loadBe16_at inside rfl (show 2 + 1 < view.length by omega)
    have flags := loadByte_at inside rfl (show 13 < view.length by omega)
    have sequence := loadBe32_at inside rfl (show 4 + 3 < view.length by omega)
    have ackNumber := loadBe32_at inside rfl (show 8 + 3 < view.length by omega)
    have verify : tcpChecksum srcIp dstIp (view.bytes frame) = checksumFinalize (checksumAddBytes
        (pseudoHeaderSum srcIp dstIp ipProtoTcp view.length) (view.bytes frame)) := by
      rw [tcpChecksum, length]
    simp only [if_neg wrong, dataOffset, srcPort, dstPort, flags, sequence, ackNumber,
      loadChecksum_at inside, ← verify, Option.bind_eq_bind, Option.bind_some]
    generalize (byteAt (view.bytes frame) 12 >>> 4).toNat * 4 = headerLength
    split
    next => rfl
    next header =>
      split
      next => rfl
      next =>
        split
        next => rfl
        next =>
          have payload := @loadBytes_at frame view _ headerLength
            (view.length - headerLength) inside rfl (by omega)
          rw [List.take_of_length_le (by rw [List.length_drop, length])] at payload
          rw [payload]
          rfl

end

theorem tcpClientStoreChecked_eq {client : TcpClient} :
    tcpClientStoreChecked client payload = some () := by
  rw [tcpClientStoreChecked]
  split
  next => rfl
  next =>
    dsimp only
    generalize isRemaining : (if client.rxLength < client.rxCapacity then
      client.rxCapacity - client.rxLength else 0) = remaining
    generalize isCopied : (if UInt32.ofNat payload.length > remaining then remaining
      else UInt32.ofNat payload.length) = copyLen
    have most : copyLen.toNat ≤ remaining.toNat := by
      rw [← isCopied]
      split
      next => exact Nat.le_refl _
      next fits => exact UInt32.le_iff_toNat_le.mp (UInt32.not_lt.mp fits)
    split
    next => rfl
    next some =>
      refine storeInside_fits ?_
      by_cases room : client.rxLength < client.rxCapacity
      · have order := UInt32.lt_iff_toNat_lt.mp room
        rw [if_pos room] at isRemaining
        have left := UInt32.toNat_sub_of_le _ _ (UInt32.le_of_lt room)
        rw [isRemaining] at left
        omega
      · rw [if_neg room] at isRemaining
        rw [← isRemaining, UInt32.toNat_zero] at most
        exact absurd (UInt32.toNat.inj (Nat.le_zero.mp most)) some

theorem tcpClientHandleSegmentChecked_eq {client : TcpClient} {link : TcpLink} {tick : UInt64}
    : tcpClientHandleSegmentChecked client link tick segment =
      some (tcpClientHandleSegment client link tick segment) := by
  rw [tcpClientHandleSegmentChecked, tcpClientHandleSegment]
  split
  next => rfl
  next =>
    rw [tcpClientReceiveChecked, tcpClientStoreChecked_eq]
    split <;> rfl

theorem tcpReplyChecked_eq {src : AddressRef} {dstIp : UInt32} {call : TcpCall} :
    tcpReplyChecked world state src dstIp call = some (tcpReply world state src dstIp call) :=
  netSendTcpIpv4Checked_eq

theorem tcpClientDeliverChecked_eq :
    tcpClientDeliverChecked world state segment = some (tcpClientDeliver world state segment) := by
  rw [tcpClientDeliverChecked, tcpClientDeliver]
  simp only [tcpClientHandleSegmentChecked_eq, tcpReplyChecked_eq, Option.bind_eq_bind,
    Option.bind_some]
  generalize (pitGetTicks world state).1 = now
  generalize (pitGetTicks world state).2 = state
  cases (tcpClientHandleSegment state.client ⟨netConfigured state.config, true⟩ now segment).2.2 with
  | nil => rfl
  | cons outgoing rest =>
      dsimp only
      cases tcpReply world state .configIp state.client.remoteIp
        (tcpClientCall state.client outgoing) with
      | none => rfl
      | some answered => rfl

theorem tcpDeliverChecked_eq {dstIp : UInt32} :
    tcpDeliverChecked world state segment dstIp = some (tcpDeliver world state segment dstIp) := by
  rw [tcpDeliverChecked, tcpDeliver]
  simp only [tcpReplyChecked_eq, tcpClientDeliverChecked_eq, tcpSendResetForSegmentChecked,
    tcpSendResetForSegment, Option.bind_eq_bind, Option.bind_some]
  split
  next => rfl
  next =>
    split
    next => rfl
    next =>
      split
      next => rfl
      next =>
        split
        next => rfl
        next => split <;> rfl

theorem netHandleTcpChecked_at (inside : view.Inside frame) {srcIp dstIp : UInt32} :
    netHandleTcpChecked frame world state view srcIp dstIp =
      some (netHandleTcp world state (view.bytes frame) srcIp dstIp) := by
  rw [netHandleTcpChecked, netHandleTcp, tcpAcceptChecked_at inside, Option.bind_eq_bind,
    Option.bind_some]
  cases tcpAccept (view.bytes frame) srcIp dstIp with
  | none => rfl
  | some segment => exact tcpDeliverChecked_eq

theorem arpCacheUpdate_size {ip : UInt32} {mac : Mac} :
    (arpCacheUpdate world state ip mac).arpCache.length = state.arpCache.length := by
  rw [arpCacheUpdate]
  split
  next => rfl
  next =>
    dsimp only
    split
    next => exact List.length_modify ..
    next => exact List.length_set ..

theorem ipv4AcceptChecked_at (inside : view.Inside frame) :
    (ipv4AcceptChecked frame view = some none ∧ ipv4Accept (view.bytes frame) = none) ∨
    ∃ datagram, ipv4AcceptChecked frame view = some (some datagram) ∧
      datagram.payload.Inside frame ∧ ipv4Accept (view.bytes frame) =
        some ⟨datagram.srcIp, datagram.dstIp, datagram.protocol, datagram.payload.bytes frame⟩ := by
  have length := bytes_length inside
  rw [ipv4AcceptChecked, ipv4Accept, length]
  by_cases short : view.length < ipv4HeaderSize
  · rw [if_pos short, if_pos short]
    exact Or.inl ⟨rfl, rfl⟩
  · have long : 20 ≤ view.length := Nat.le_of_not_lt short
    have versionIhl := loadByte_at inside (Nat.add_zero view.start).symm (by omega)
    have totalLength := loadBe16_at inside rfl (show 2 + 1 < view.length by omega)
    have srcIp := loadBe32_at inside rfl (show 12 + 3 < view.length by omega)
    have dstIp := loadBe32_at inside rfl (show 16 + 3 < view.length by omega)
    have protocol := loadByte_at inside rfl (show 9 < view.length by omega)
    simp only [if_neg short, versionIhl, totalLength, srcIp, dstIp, protocol, Option.bind_eq_bind,
      Option.bind_some]
    generalize (byteAt (view.bytes frame) 0 &&& (0x0F : UInt8)).toNat * 4 = ihl
    generalize (readBe16 (view.bytes frame) 2).toNat = total
    by_cases header : byteAt (view.bytes frame) 0 >>> 4 ≠ 4 ∨ ihl < ipv4HeaderSize ∨ ihl > view.length
    · rw [if_pos header, if_pos header]
      exact Or.inl ⟨rfl, rfl⟩
    · rw [if_neg header, if_neg header]
      by_cases wrong : total < ihl ∨ total > view.length
      · rw [if_pos wrong, if_pos wrong]
        exact Or.inl ⟨rfl, rfl⟩
      · rw [if_neg wrong, if_neg wrong]
        have headerFits : 0 + ihl ≤ view.length := by omega
        have sum := @loadChecksum_at frame ⟨view.start + 0, ihl⟩ (inside_sub inside headerFits) 0
        rw [bytes_sub headerFits, List.drop_zero, ← ipv4Checksum] at sum
        have payloadFits : ihl + (total - ihl) ≤ view.length := by omega
        have payload : View.bytes ⟨view.start + ihl, total - ihl⟩ frame =
            ((view.bytes frame).take total).drop ihl := by
          rw [bytes_sub payloadFits, List.drop_take]
        rw [← payload]
        have sum' : loadChecksum frame ⟨view.start, ihl⟩ 0 =
            some (ipv4Checksum ((view.bytes frame).take ihl)) := sum
        rw [sum', Option.bind_some]
        split
        next => exact Or.inl ⟨rfl, rfl⟩
        next => exact Or.inr ⟨_, rfl, inside_sub inside payloadFits, rfl⟩

theorem ipv4DispatchChecked_at {datagram : Ipv4View} (inside : datagram.payload.Inside frame)
    (size : state.arpCache.length = arpCacheSize) {srcMac : Mac} :
    ipv4DispatchChecked frame world state datagram srcMac = some (ipv4Dispatch world state
      ⟨datagram.srcIp, datagram.dstIp, datagram.protocol, datagram.payload.bytes frame⟩ srcMac) := by
  rw [ipv4DispatchChecked, ipv4Dispatch]
  split
  next =>
    rw [netHandleIcmpChecked_at inside size]
    rfl
  next =>
    split
    next => exact netHandleUdpChecked_at inside
    next =>
      split
      next => exact netHandleTcpChecked_at inside
      next => rfl

theorem ipv4LearnSender_size {srcIp : UInt32} {srcMac : Mac} :
    (ipv4LearnSender world state srcIp srcMac).arpCache.length = state.arpCache.length := by
  rw [ipv4LearnSender]
  split
  next => exact arpCacheUpdate_size
  next => rfl

theorem netHandleIpv4Checked_at (inside : view.Inside frame)
    (size : state.arpCache.length = arpCacheSize)
    {srcMac : Mac} : netHandleIpv4Checked frame world state view srcMac =
      some (netHandleIpv4 world state (view.bytes frame) srcMac) := by
  rw [netHandleIpv4Checked, netHandleIpv4]
  rcases @ipv4AcceptChecked_at frame view inside with
    ⟨checked, accepted⟩ | ⟨datagram, checked, within, accepted⟩
  · rw [checked, accepted]
    rfl
  · have learned := (@ipv4LearnSender_size world state datagram.srcIp srcMac).trans size
    rw [checked, accepted]
    simp only [arpCacheUpdateChecked_eq size, Option.bind_eq_bind, Option.bind_some]
    rw [ipv4LearnSender] at *
    by_cases learns : srcMac ≠ macZero ∧ srcMac ≠ macBroadcast ∧ datagram.srcIp ≠ ipZero ∧
        datagram.srcIp ≠ ipBroadcast
    · simp only [if_pos learns] at learned ⊢
      split
      next => exact ipv4DispatchChecked_at within learned
      next => rfl
    · simp only [if_neg learns] at learned ⊢
      change Option.bind (some state) _ = _
      rw [Option.bind_some]
      split
      next => exact ipv4DispatchChecked_at within learned
      next => rfl

end Handlers

theorem netHandleEthernetChecked_eq {world : World} {state : NetState} {frame : List UInt8}
    (size : state.arpCache.length = arpCacheSize) :
    netHandleEthernetChecked frame world state = some (netHandleEthernet world state frame) := by
  rw [netHandleEthernetChecked, netHandleEthernet]
  by_cases short : frame.length < ethHeaderSize
  · rw [if_pos short, if_pos short]
    rfl
  · have long : 14 ≤ frame.length := Nat.le_of_not_lt short
    have whole : View.Inside ⟨0, frame.length⟩ frame := Nat.le_of_eq (Nat.zero_add _)
    have same : View.bytes ⟨0, frame.length⟩ frame = frame := by
      rw [View.bytes, List.drop_zero, List.take_length]
    have dstMac := @loadMac_at frame ⟨0, frame.length⟩ 0 0 whole rfl (by dsimp only; omega)
    have srcMac := @loadMac_at frame ⟨0, frame.length⟩ 6 6 whole rfl (by dsimp only; omega)
    have ethertype := @loadBe16_at frame ⟨0, frame.length⟩ 12 12 whole rfl (by dsimp only; omega)
    rw [same] at dstMac srcMac ethertype
    have inside : View.Inside ⟨ethHeaderSize, frame.length - ethHeaderSize⟩ frame := by
      rw [View.Inside]
      dsimp only
      omega
    have payload : View.bytes ⟨ethHeaderSize, frame.length - ethHeaderSize⟩ frame =
        frame.drop ethHeaderSize := by
      rw [View.bytes]
      exact List.take_of_length_le (by rw [List.length_drop])
    simp only [if_neg short, dstMac, srcMac, ethertype, Option.bind_eq_bind, Option.bind_some,
      netHandleArpChecked_at inside size, netHandleIpv4Checked_at inside size, payload]
    split
    next => rfl
    next =>
      split
      next => rfl
      next => split <;> rfl

/-- Every access that the receive path makes for a frame is inside, every parsing loop ends, and
what comes out is what the unchecked receive path makes of the frame.  A frame that goes out while
a handler waits for an address stays inside its buffer too. -/
theorem receive_accesses_inside (world : World) (state : NetState) (frame : List UInt8)
    (size : state.arpCache.length = arpCacheSize) :
    netHandleEthernetChecked frame world state = some (netHandleEthernet world state frame) ∧
      ∀ meanwhile dstMac ethertype payload,
        netSendEthernetFrameChecked world meanwhile dstMac ethertype payload =
          some (netSendEthernetFrame world meanwhile dstMac ethertype payload) :=
  ⟨netHandleEthernetChecked_eq size, fun _ _ _ _ => netSendEthernetFrameChecked_eq⟩

theorem receive_accesses_inside_straySyn :
    netHandleEthernetChecked lanStraySyn lanWorld lanState =
      some (netHandleEthernet lanWorld lanState lanStraySyn) :=
  (receive_accesses_inside lanWorld lanState lanStraySyn rfl).1

end Szczupak
