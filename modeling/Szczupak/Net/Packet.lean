import Szczupak.Net.PacketCore

/-!
Fields of packets read back: what `be16` and `be32` write, `readBe16` and `readBe32` read.
-/

namespace Szczupak

theorem word16_toNat (high low : UInt8) :
    (high.toUInt16 <<< 8 ||| low.toUInt16).toNat = high.toNat * 256 + low.toNat := by
  have highBound := high.toNat_lt
  have lowBound := low.toNat_lt
  have shifted : (high.toUInt16 <<< 8).toNat = high.toNat <<< 8 := by
    rw [UInt16.toNat_shiftLeft, UInt8.toNat_toUInt16]
    have count : UInt16.toNat 8 % 16 = 8 := rfl
    rw [count, Nat.shiftLeft_eq]
    omega
  rw [UInt16.toNat_or, shifted, UInt8.toNat_toUInt16, ← Nat.shiftLeft_add_eq_or_of_lt (by omega),
    Nat.shiftLeft_eq]

theorem or_below {upper low : Nat} (width : Nat) (small : low < 2 ^ width) :
    upper * 2 ^ width ||| low = upper * 2 ^ width + low := by
  rw [← Nat.shiftLeft_eq, Nat.shiftLeft_add_eq_or_of_lt small]

theorem shifted_toNat (octet : UInt8) (shift : UInt32) (small : shift.toNat ≤ 24) :
    (octet.toUInt32 <<< shift).toNat = octet.toNat * 2 ^ shift.toNat := by
  have bound : octet.toNat * 2 ^ shift.toNat < 2 ^ 32 := by
    calc octet.toNat * 2 ^ shift.toNat < 2 ^ 8 * 2 ^ shift.toNat :=
          Nat.mul_lt_mul_of_pos_right octet.toNat_lt (Nat.two_pow_pos _)
      _ ≤ 2 ^ 8 * 2 ^ 24 := Nat.mul_le_mul_left _ (Nat.pow_le_pow_right (by decide) small)
      _ = 2 ^ 32 := by decide
  have count : shift.toNat % 32 = shift.toNat := Nat.mod_eq_of_lt (by omega)
  rw [UInt32.toNat_shiftLeft, UInt8.toNat_toUInt32, count, Nat.shiftLeft_eq, Nat.mod_eq_of_lt bound]

theorem word32_toNat (first second third fourth : UInt8) :
    (first.toUInt32 <<< 24 ||| second.toUInt32 <<< 16 ||| third.toUInt32 <<< 8 ||| fourth.toUInt32).toNat =
      ((first.toNat * 256 + second.toNat) * 256 + third.toNat) * 256 + fourth.toNat := by
  have secondBound := second.toNat_lt
  have thirdBound := third.toNat_lt
  have fourthBound := fourth.toNat_lt
  have top : (first.toUInt32 <<< 24).toNat = first.toNat * 2 ^ 24 := shifted_toNat first 24 (by decide)
  have upper : (second.toUInt32 <<< 16).toNat = second.toNat * 2 ^ 16 :=
    shifted_toNat second 16 (by decide)
  have lower : (third.toUInt32 <<< 8).toNat = third.toNat * 2 ^ 8 := shifted_toNat third 8 (by decide)
  have two : first.toNat * 2 ^ 24 + second.toNat * 2 ^ 16 =
      (first.toNat * 256 + second.toNat) * 2 ^ 16 := by ring
  have three : (first.toNat * 256 + second.toNat) * 2 ^ 16 + third.toNat * 2 ^ 8 =
      ((first.toNat * 256 + second.toNat) * 256 + third.toNat) * 2 ^ 8 := by ring
  rw [UInt32.toNat_or, UInt32.toNat_or, UInt32.toNat_or, top, upper, lower, UInt8.toNat_toUInt32,
    or_below 24 (by omega), two, or_below 16 (by omega), three, or_below 8 fourthBound]
  ring

theorem highByte_toNat (value : UInt16) : (value >>> 8).toUInt8.toNat = value.toNat / 256 := by
  have bound := value.toNat_lt
  rw [UInt16.toNat_toUInt8, UInt16.toNat_shiftRight]
  have count : UInt16.toNat 8 % 16 = 8 := rfl
  rw [count, Nat.shiftRight_eq_div_pow]
  omega

theorem octet_toNat (value : UInt32) (shift : UInt32) (small : shift.toNat < 32) :
    (value >>> shift).toUInt8.toNat = value.toNat / 2 ^ shift.toNat % 256 := by
  rw [UInt32.toNat_toUInt8, UInt32.toNat_shiftRight, Nat.mod_eq_of_lt small, Nat.shiftRight_eq_div_pow]

@[simp] theorem be16_length (value : UInt16) : (be16 value).length = 2 := rfl

@[simp] theorem be32_length (value : UInt32) : (be32 value).length = 4 := rfl

theorem byteAt_append_right (front rest : List UInt8) (offset : Nat) :
    byteAt (front ++ rest) (front.length + offset) = byteAt rest offset := by
  unfold byteAt
  rw [List.getD_append_right _ _ _ _ (Nat.le_add_right _ _), Nat.add_sub_cancel_left]

theorem byteAt_append_left (front rest : List UInt8) {offset : Nat}
    (inside : offset < front.length) : byteAt (front ++ rest) offset = byteAt front offset :=
  List.getD_append _ _ _ _ inside

theorem word16_bytes (value : UInt16) :
    (value >>> 8).toUInt8.toUInt16 <<< 8 ||| value.toUInt8.toUInt16 = value := by
  have bound := value.toNat_lt
  apply UInt16.toNat.inj
  rw [word16_toNat, highByte_toNat, UInt16.toNat_toUInt8]
  omega

theorem word32_bytes (value : UInt32) :
    (value >>> 24).toUInt8.toUInt32 <<< 24 ||| (value >>> 16).toUInt8.toUInt32 <<< 16 |||
      (value >>> 8).toUInt8.toUInt32 <<< 8 ||| value.toUInt8.toUInt32 = value := by
  have bound := value.toNat_lt
  have top : (value >>> 24).toUInt8.toNat = value.toNat / 2 ^ 24 % 256 :=
    octet_toNat value 24 (by decide)
  have upper : (value >>> 16).toUInt8.toNat = value.toNat / 2 ^ 16 % 256 :=
    octet_toNat value 16 (by decide)
  have lower : (value >>> 8).toUInt8.toNat = value.toNat / 2 ^ 8 % 256 :=
    octet_toNat value 8 (by decide)
  apply UInt32.toNat.inj
  rw [word32_toNat, top, upper, lower, UInt32.toNat_toUInt8]
  omega

theorem readBe16_append_right (front rest : List UInt8) (offset : Nat) :
    readBe16 (front ++ rest) (front.length + offset) = readBe16 rest offset := by
  unfold readBe16
  rw [byteAt_append_right, Nat.add_assoc, byteAt_append_right]

theorem readBe32_append_right (front rest : List UInt8) (offset : Nat) :
    readBe32 (front ++ rest) (front.length + offset) = readBe32 rest offset := by
  unfold readBe32
  rw [byteAt_append_right, Nat.add_assoc, byteAt_append_right, Nat.add_assoc, byteAt_append_right,
    Nat.add_assoc, byteAt_append_right]

theorem drop_append_right (front rest : List UInt8) (offset : Nat) :
    (front ++ rest).drop (front.length + offset) = rest.drop offset := by
  rw [← List.drop_drop, List.drop_left]

@[simp] theorem tcpPacketWith_length (checksum : UInt16) (call : TcpCall) :
    (tcpPacketWith checksum call).length = tcpHeaderSize + call.payload.length := by
  simp [tcpPacketWith, tcpHeaderSize]
  omega

@[simp] theorem udpPacketWith_length (checksum srcPort dstPort : UInt16) (payload : List UInt8) :
    (udpPacketWith checksum srcPort dstPort payload).length = udpHeaderSize + payload.length := by
  simp [udpPacketWith, udpHeaderSize]
  omega

@[simp] theorem ipv4HeaderWith_length (checksum totalLength identification : UInt16)
    (ttl protocol : UInt8) (srcIp dstIp : UInt32) :
    (ipv4HeaderWith checksum totalLength identification ttl protocol srcIp dstIp).length =
      ipv4HeaderSize := rfl

@[simp] theorem ipv4Header_length (totalLength identification : UInt16) (ttl protocol : UInt8)
    (srcIp dstIp : UInt32) :
    (ipv4Header totalLength identification ttl protocol srcIp dstIp).length = ipv4HeaderSize := rfl

theorem tcpPacketWith_fields (checksum : UInt16) (call : TcpCall) :
    readBe16 (tcpPacketWith checksum call) 0 = call.srcPort ∧
    readBe16 (tcpPacketWith checksum call) 2 = call.dstPort ∧
    readBe32 (tcpPacketWith checksum call) 4 = call.sequence ∧
    readBe32 (tcpPacketWith checksum call) 8 = call.ackNumber ∧
    byteAt (tcpPacketWith checksum call) 12 = 0x50 ∧
    byteAt (tcpPacketWith checksum call) 13 = call.flags ∧
    readBe16 (tcpPacketWith checksum call) 16 = checksum ∧
    (tcpPacketWith checksum call).drop 20 = call.payload :=
  ⟨word16_bytes call.srcPort, word16_bytes call.dstPort, word32_bytes call.sequence,
    word32_bytes call.ackNumber, rfl, rfl, word16_bytes checksum, rfl⟩

theorem udpPacketWith_fields (checksum srcPort dstPort : UInt16) (payload : List UInt8) :
    readBe16 (udpPacketWith checksum srcPort dstPort payload) 0 = srcPort ∧
    readBe16 (udpPacketWith checksum srcPort dstPort payload) 2 = dstPort ∧
    readBe16 (udpPacketWith checksum srcPort dstPort payload) 4 =
      UInt16.ofNat (udpHeaderSize + payload.length) ∧
    readBe16 (udpPacketWith checksum srcPort dstPort payload) 6 = checksum ∧
    (udpPacketWith checksum srcPort dstPort payload).drop 8 = payload :=
  ⟨word16_bytes srcPort, word16_bytes dstPort, word16_bytes _, word16_bytes checksum, rfl⟩

end Szczupak
