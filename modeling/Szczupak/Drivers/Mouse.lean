import Szczupak.Drivers.MouseCore

/-!
The pointer as the fold over the packets of the mouse,
however their bytes are spread over interrupts.  The driver takes
the second and the third byte for signed bytes and leaves out the ninth bits,
which are in the first.
-/

namespace Szczupak.Mouse

/-- A PS/2 packet: bit 3 of its first byte is always set. -/
structure MousePacket where
  b0 : UInt8
  b1 : UInt8
  b2 : UInt8
  marked : b0 &&& 0x08 ≠ 0

namespace MousePacket

variable (packet : MousePacket)

def bytes : List UInt8 := [packet.b0, packet.b1, packet.b2]

def nineBit (negative : Bool) (low : UInt8) : Int := if negative then low.toNat - 256 else low.toNat

def dx : Int := if packet.b0 &&& 0x40 ≠ 0 then 0 else nineBit (packet.b0 &&& 0x10 != 0) packet.b1

def dy : Int := if packet.b0 &&& 0x80 ≠ 0 then 0 else nineBit (packet.b0 &&& 0x20 != 0) packet.b2

def buttons : UInt8 := packet.b0 &&& 0x07

structure Short : Prop where
  dx : -128 ≤ packet.dx ∧ packet.dx < 128
  dy : -128 ≤ packet.dy ∧ packet.dy < 128

end MousePacket

def screenSides (fb : Option FbInfo) : Int × Int :=
  match fb with
  | none => (1024, 768)
  | some fb => if fb.width > 0 ∧ fb.height > 0 then (fb.width.toNat, fb.height.toNat) else (1024, 768)

def clamp (side value : Int) : Int := max 0 (min value (side - 1))

def movePointer (sides : Int × Int) (point : Int × Int) (packet : MousePacket) : Int × Int :=
  (clamp sides.1 (point.1 + packet.dx), clamp sides.2 (point.2 - packet.dy))

def pointerAfter (fb : Option FbInfo) (packets : List MousePacket) : Int × Int :=
  packets.foldl (movePointer (screenSides fb)) ((screenSides fb).1 / 2, (screenSides fb).2 / 2)

def buttonsAfter (packets : List MousePacket) : UInt8 :=
  (packets.getLast?.map MousePacket.buttons).getD 0

def ScreenFits (fb : Option FbInfo) : Prop :=
  ∀ info, fb = some info → info.width.toNat ≤ 2 ^ 31 - 128 ∧ info.height.toNat ≤ 2 ^ 31 - 128

def bytesRead (port : List (UInt8 × UInt8)) : List UInt8 :=
  ((port.takeWhile fun answer => answer.1 &&& 0x01 != 0 && answer.1 &&& 0x20 != 0).take 16).map Prod.snd

def MouseCall.bytes : MouseCall → List UInt8
  | .interrupt port => bytesRead port
  | .poll => []

section Packet

variable {fb : Option FbInfo}

theorem screenSize_sides (fits : ScreenFits fb) :
    (screenSize fb).1.toInt = (screenSides fb).1 ∧ (screenSize fb).2.toInt = (screenSides fb).2 ∧
      (0 < (screenSides fb).1 ∧ (screenSides fb).1 ≤ 2 ^ 31 - 128) ∧
      (0 < (screenSides fb).2 ∧ (screenSides fb).2 ≤ 2 ^ 31 - 128) := by
  cases fb with
  | none => decide
  | some info =>
      obtain ⟨wide, high⟩ := fits info rfl
      simp only [screenSize, screenSides]
      split
      next shown =>
        have width := UInt32.lt_iff_toNat_lt.mp shown.1
        have height := UInt32.lt_iff_toNat_lt.mp shown.2
        rw [UInt32.toNat_zero] at width height
        exact ⟨UInt32.toInt_toInt32_fits (by omega), UInt32.toInt_toInt32_fits (by omega),
          ⟨by omega, by omega⟩, by omega, by omega⟩
      next => decide

theorem toInt_signedByte (data : UInt8) :
    data.toInt8.toInt32.toInt = if data.toNat < 128 then (data.toNat : Int) else data.toNat - 256 := by
  rw [Int8.toInt_toInt32]
  have signed : data.toInt8.toInt = data.toBitVec.toInt := rfl
  rw [signed, BitVec.toInt_eq_toNat_cond]
  have natural : data.toBitVec.toNat = data.toNat := rfl
  rw [natural]
  split
  · rw [if_pos (by omega)]
  · rw [if_neg (by omega)]
    norm_num

theorem packetDelta_iff (b0 flag data : UInt8) (negative : Bool) :
    (packetDelta b0 flag data).toInt = (if b0 &&& flag ≠ 0 then 0 else MousePacket.nineBit
      negative data) ↔ -128 ≤ (if b0 &&& flag ≠ 0 then 0 else MousePacket.nineBit negative data) ∧
        (if b0 &&& flag ≠ 0 then 0 else MousePacket.nineBit negative data) < 128 := by
  have byte := data.toNat_lt
  rw [packetDelta]
  split
  · simp
  · rw [toInt_signedByte]
    cases negative with
    | false =>
        simp only [MousePacket.nineBit, Bool.false_eq_true, if_false]
        split
        · omega
        · omega
    | true =>
        simp only [MousePacket.nineBit, if_true]
        split
        · omega
        · omega

theorem toInt_clampI32 {v hi : Int32} {side : Int} (last : hi.toInt = side - 1) (some' : 0 < side) :
    (clampI32 v 0 hi).toInt = clamp side v.toInt := by
  have zero : (0 : Int32).toInt = 0 := rfl
  rw [clampI32, clamp]
  split
  next below =>
    have order := Int32.lt_iff_toInt_lt.mp below
    omega
  next below =>
    have lower := Int32.lt_iff_toInt_lt.not.mp below
    split
    next above =>
      have order := Int32.lt_iff_toInt_lt.mp above
      omega
    next above =>
      have order := Int32.lt_iff_toInt_lt.not.mp above
      omega

theorem clamp_inside {side value : Int} (some' : 0 < side) : 0 ≤ clamp side value ∧
    clamp side value < side := by
  rw [clamp]
  omega

theorem pointerAfter_onScreen (fits : ScreenFits fb) (packets : List MousePacket) :
    (0 ≤ (pointerAfter fb packets).1 ∧ (pointerAfter fb packets).1 < (screenSides fb).1) ∧
      0 ≤ (pointerAfter fb packets).2 ∧ (pointerAfter fb packets).2 < (screenSides fb).2 := by
  obtain ⟨_, _, wide, high⟩ := screenSize_sides fits
  rcases List.eq_nil_or_concat packets with rfl | ⟨front, packet, rfl⟩
  · simp only [pointerAfter, List.foldl_nil]
    omega
  · rw [pointerAfter, List.concat_eq_append, List.foldl_append]
    exact ⟨clamp_inside wide.1, clamp_inside high.1⟩

structure Moved (fb : Option FbInfo) (packets : List MousePacket) (mouse : MouseState) : Prop where
  ps2 : mouse.usbHidActive = false
  place : (mouse.mouseX.toInt, mouse.mouseY.toInt) = pointerAfter fb packets
  buttons : mouse.buttons = buttonsAfter packets

theorem buttonsAfter_concat (packets : List MousePacket) (packet : MousePacket) :
    buttonsAfter (packets ++ [packet]) = packet.buttons := by
  simp [buttonsAfter]

theorem Moved.mouseHandlePacket (fits : ScreenFits fb) {packets : List MousePacket} {mouse : MouseState}
    {packet : MousePacket} (moved : Moved fb packets mouse) (short : packet.Short) :
    Moved fb (packets ++ [packet]) (mouseHandlePacket fb packet.b0 packet.b1 packet.b2 mouse) := by
  obtain ⟨width, height, wide, high⟩ := screenSize_sides fits
  obtain ⟨⟨left, right⟩, top, bottom⟩ := pointerAfter_onScreen fits packets
  obtain ⟨ps2, place, buttons⟩ := moved
  have moveX : (packetDelta packet.b0 0x40 packet.b1).toInt = packet.dx :=
    (packetDelta_iff _ _ _ _).mpr short.dx
  have moveY : (packetDelta packet.b0 0x80 packet.b2).toInt = packet.dy :=
    (packetDelta_iff _ _ _ _).mpr short.dy
  have shortX := short.dx
  have shortY := short.dy
  rw [← place] at left right top bottom
  dsimp only at left right top bottom
  have one : (1 : Int32).toInt = 1 := rfl
  have lastX : ((screenSize fb).1 - 1).toInt = (screenSides fb).1 - 1 := by
    rw [Int32.toInt_sub_fits (by omega) (by omega), width, one]
  have lastY : ((screenSize fb).2 - 1).toInt = (screenSides fb).2 - 1 := by
    rw [Int32.toInt_sub_fits (by omega) (by omega), height, one]
  have nx : (clampI32 (mouse.mouseX + packetDelta packet.b0 0x40 packet.b1) 0
    ((screenSize fb).1 - 1)).toInt =
      clamp (screenSides fb).1 (mouse.mouseX.toInt + packet.dx) := by
    rw [toInt_clampI32 lastX wide.1, Int32.toInt_add_fits (by omega) (by omega), moveX]
  have ny : (clampI32 (mouse.mouseY - packetDelta packet.b0 0x80 packet.b2) 0
    ((screenSize fb).2 - 1)).toInt =
      clamp (screenSides fb).2 (mouse.mouseY.toInt - packet.dy) := by
    rw [toInt_clampI32 lastY high.1, Int32.toInt_sub_fits (by omega) (by omega), moveY]
  have target : pointerAfter fb (packets ++ [packet]) =
      (clamp (screenSides fb).1 (mouse.mouseX.toInt + packet.dx),
        clamp (screenSides fb).2 (mouse.mouseY.toInt - packet.dy)) := by
    rw [pointerAfter, List.foldl_append, ← pointerAfter, ← place]
    rfl
  have pressed : packet.b0 &&& 0x07 &&& 0x07 = packet.buttons := by
    rw [UInt8.and_assoc, MousePacket.buttons]
    rfl
  rw [Mouse.mouseHandlePacket, mouseApplyDelta]
  dsimp only
  split
  next same =>
    obtain ⟨sameX, sameY, unchanged⟩ := same
    refine ⟨ps2, ?_, ?_⟩
    · rw [target, ← nx, ← ny, sameX, sameY]
    · rw [buttonsAfter_concat, ← pressed]
      exact (UInt8.xor_eq_zero_iff.mp unchanged).symm
  next =>
    refine ⟨ps2, ?_, ?_⟩
    · rw [target, ← nx, ← ny]
    · rw [buttonsAfter_concat, ← pressed]

theorem mouseHandlePacket_packet (fb : Option FbInfo) (b0 b1 b2 : UInt8) (mouse : MouseState) :
    (mouseHandlePacket fb b0 b1 b2 mouse).packet = mouse.packet := by
  rw [Mouse.mouseHandlePacket, mouseApplyDelta]
  dsimp only
  split
  · rfl
  · rfl

theorem Moved.mouseInit (fits : ScreenFits fb) : Moved fb [] (mouseInit fb) := by
  refine ⟨rfl, ?_, rfl⟩
  cases fb with
  | none => decide
  | some info =>
      obtain ⟨wide, high⟩ := fits info rfl
      have half (side : UInt32) : (side / 2).toNat = side.toNat / 2 := UInt32.toNat_div side 2
      simp only [pointerAfter, List.foldl_nil, Mouse.mouseInit, screenSides]
      split
      next =>
        rw [UInt32.toInt_toInt32_fits (by rw [half]; omega),
          UInt32.toInt_toInt32_fits (by rw [half]; omega), half, half]
        simp only [Int.natCast_ediv, Nat.cast_ofNat]
      next => decide

end Packet

section Stream

variable {fb : Option FbInfo} {packets : List MousePacket} {mouse : MouseState} {consumed : List UInt8}

/-- The state after some bytes of a stream: the packets that are complete have moved the pointer,
and the start of the next one is kept. -/
def Tracks (fb : Option FbInfo) (packets : List MousePacket) (consumed : List UInt8)
    (mouse : MouseState) : Prop :=
  ∃ done rest, packets = done ++ rest ∧ consumed = done.flatMap MousePacket.bytes ++ mouse.packet ∧
    mouse.packet.length < 3 ∧ Moved fb done mouse

theorem Tracks.mouseByte (fits : ScreenFits fb) (short : ∀ packet ∈ packets, packet.Short)
    {data : UInt8} (tracks : Tracks fb packets consumed mouse)
    (stream : consumed ++ [data] <+: packets.flatMap MousePacket.bytes) :
    Tracks fb packets (consumed ++ [data]) (mouseByte fb mouse data) := by
  obtain ⟨done, rest, rfl, rfl, few, moved⟩ := tracks
  rw [List.flatMap_append, List.append_assoc, List.prefix_append_right_inj] at stream
  cases rest with
  | nil =>
      have impossible := stream.length_le
      simp at impossible
  | cons packet rest =>
      obtain ⟨tail, whole⟩ := stream
      rw [List.flatMap_cons, MousePacket.bytes] at whole
      rw [Mouse.mouseByte]
      match received : mouse.packet, few with
      | [], _ =>
          rw [received] at whole
          simp only [List.nil_append, List.cons_append, List.cons.injEq] at whole
          rw [if_neg (by rw [whole.1]; exact fun both => packet.marked both.2)]
          exact ⟨done, packet :: rest, rfl, by simp, by simp, ⟨moved.ps2, moved.place, moved.buttons⟩⟩
      | [b0], _ =>
          rw [if_neg (fun both => absurd both.1 (by simp))]
          exact ⟨done, packet :: rest, rfl, by simp, by simp, ⟨moved.ps2, moved.place, moved.buttons⟩⟩
      | [b0, b1], _ =>
          rw [received] at whole
          simp only [List.cons_append, List.nil_append, List.cons.injEq] at whole
          obtain ⟨rfl, rfl, rfl, _⟩ := whole
          rw [if_neg (fun both => absurd both.1 (by simp))]
          have ready : Moved fb done { mouse with packet := [] } := ⟨moved.ps2, moved.place, moved.buttons⟩
          have handled := ready.mouseHandlePacket fits (short packet (by simp))
          refine ⟨done ++ [packet], rest, by simp, ?_, ?_, handled⟩
          · rw [List.cons_append, List.cons_append, List.nil_append]
            dsimp only
            rw [mouseHandlePacket_packet]
            simp [MousePacket.bytes]
          · rw [List.cons_append, List.cons_append, List.nil_append]
            dsimp only
            rw [mouseHandlePacket_packet]
            exact Nat.zero_lt_succ 2

theorem Tracks.mouseBytes (fits : ScreenFits fb) (short : ∀ packet ∈ packets, packet.Short)
    {data : List UInt8} (tracks : Tracks fb packets consumed mouse)
    (stream : consumed ++ data <+: packets.flatMap MousePacket.bytes) :
    Tracks fb packets (consumed ++ data) (data.foldl (Mouse.mouseByte fb) mouse) := by
  induction data generalizing consumed mouse with
  | nil => rwa [List.append_nil]
  | cons byte data ih =>
      have front : consumed ++ [byte] <+: packets.flatMap MousePacket.bytes := by
        refine List.IsPrefix.trans ⟨data, ?_⟩ stream
        rw [List.append_assoc, List.singleton_append]
      have next := ih (tracks.mouseByte fits short front) (by rwa [List.append_assoc, List.singleton_append])
      rwa [List.append_assoc, List.singleton_append] at next

theorem mouseHandlerLoop_bytes (left : Nat) (port : List (UInt8 × UInt8)) (mouse : MouseState) :
    mouseHandlerLoop fb left port mouse =
      (((port.takeWhile fun answer => answer.1 &&& 0x01 != 0 && answer.1 &&& 0x20 != 0).take
        left).map Prod.snd).foldl (mouseByte fb) mouse := by
  induction left generalizing port mouse with
  | zero => rfl
  | succ left ih =>
      cases port with
      | nil => rfl
      | cons answer port =>
          obtain ⟨status, data⟩ := answer
          rw [mouseHandlerLoop]
          split
          next idle => simp [idle]
          next full =>
            split
            next keyboard => simp [keyboard]
            next ours => simp [full, ours, ih]

theorem Tracks.mouseCall (fits : ScreenFits fb) (short : ∀ packet ∈ packets, packet.Short)
    (call : MouseCall) (tracks : Tracks fb packets consumed mouse)
    (stream : consumed ++ call.bytes <+: packets.flatMap MousePacket.bytes) :
    Tracks fb packets (consumed ++ call.bytes) (mouseCall fb mouse call) := by
  cases call with
  | interrupt port =>
      have ps2 : mouse.usbHidActive = false := by
        obtain ⟨_, _, _, _, _, moved⟩ := tracks
        exact moved.ps2
      rw [Mouse.mouseCall, mouseHandler, ps2, if_neg (by decide), mouseHandlerLoop_bytes]
      exact tracks.mouseBytes fits short stream
  | poll =>
      obtain ⟨done, rest, parts, bytes, few, moved⟩ := tracks
      rw [MouseCall.bytes, List.append_nil]
      exact ⟨done, rest, parts, bytes, few, ⟨moved.ps2, moved.place, moved.buttons⟩⟩

theorem Tracks.run (fits : ScreenFits fb) (short : ∀ packet ∈ packets, packet.Short)
    (calls : List MouseCall) (tracks : Tracks fb packets consumed mouse)
    (stream : consumed ++ calls.flatMap MouseCall.bytes <+: packets.flatMap MousePacket.bytes) :
    Tracks fb packets (consumed ++ calls.flatMap MouseCall.bytes)
    (calls.foldl (Mouse.mouseCall fb) mouse) := by
  induction calls generalizing consumed mouse with
  | nil => rwa [List.flatMap_nil, List.append_nil]
  | cons call calls ih =>
      rw [List.flatMap_cons, ← List.append_assoc] at stream ⊢
      exact ih (tracks.mouseCall fits short call ((List.prefix_append _ _).trans stream)) stream

theorem packetBytes_length (packets : List MousePacket) :
    (packets.flatMap MousePacket.bytes).length = 3 * packets.length := by
  induction packets with
  | nil => rfl
  | cons packet packets ih =>
      rw [List.flatMap_cons, List.length_append, ih, List.length_cons, MousePacket.bytes]
      simp only [List.length_cons, List.length_nil]
      omega

theorem Tracks.moved (tracks : Tracks fb packets consumed mouse) :
    Moved fb (packets.take (consumed.length / 3)) mouse := by
  obtain ⟨done, rest, rfl, rfl, few, moved⟩ := tracks
  have count : (done.flatMap MousePacket.bytes ++ mouse.packet).length / 3 = done.length := by
    rw [List.length_append, packetBytes_length]
    omega
  rwa [count, List.take_left']
  rfl

theorem Tracks.mouseInit (fits : ScreenFits fb) (packets : List MousePacket) :
    Tracks fb packets [] (mouseInit fb) :=
  ⟨[], packets, rfl, rfl, Nat.zero_lt_succ 2, .mouseInit fits⟩

end Stream

/-- Where eight bits are enough for every movement, the pointer is the fold over the packets that
have arrived; and eight bits are what the driver takes from a packet. -/
theorem mouse_pointer_folds {fb : Option FbInfo} (fits : ScreenFits fb) {packets : List MousePacket}
    (short : ∀ packet ∈ packets, packet.Short) {calls : List MouseCall}
    (stream : calls.flatMap MouseCall.bytes <+: packets.flatMap MousePacket.bytes) :
    (((calls.foldl (mouseCall fb) (mouseInit fb)).mouseX.toInt,
      (calls.foldl (mouseCall fb) (mouseInit fb)).mouseY.toInt) =
        pointerAfter fb (packets.take ((calls.flatMap MouseCall.bytes).length / 3)) ∧
      (calls.foldl (mouseCall fb) (mouseInit fb)).buttons =
        buttonsAfter (packets.take ((calls.flatMap MouseCall.bytes).length / 3))) ∧
    ∀ packet : MousePacket,
      (packetDelta packet.b0 0x40 packet.b1).toInt = packet.dx ∧
        (packetDelta packet.b0 0x80 packet.b2).toInt = packet.dy ↔ packet.Short := by
  have moved := ((Tracks.mouseInit fits packets).run fits short calls stream).moved
  refine ⟨⟨moved.place, moved.buttons⟩, fun packet => ?_⟩
  constructor
  · rintro ⟨moveX, moveY⟩
    exact ⟨(packetDelta_iff _ _ _ _).mp moveX, (packetDelta_iff _ _ _ _).mp moveY⟩
  · rintro ⟨shortX, shortY⟩
    exact ⟨(packetDelta_iff _ _ _ _).mpr shortX, (packetDelta_iff _ _ _ _).mpr shortY⟩

def slowPackets : List MousePacket :=
  [⟨0x19, 0xFB, 0x03, by decide⟩, ⟨0x08, 0x0A, 0x00, by decide⟩, ⟨0x2C, 0x00, 0xF6, by decide⟩,
   ⟨0x08, 0x01, 0x01, by decide⟩]

/-- Three packets and the first byte of a fourth; the last byte of the controller is from the
keyboard. -/
def slowCalls : List MouseCall :=
  [.interrupt [(0x21, 0x19), (0x21, 0xFB)], .poll, .interrupt [(0x21, 0x03), (0x21, 0x08),
   (0x21, 0x0A)], .interrupt [(0x21, 0x00), (0x21, 0x2C), (0x21, 0x00)], .poll,
   .interrupt [(0x21, 0xF6), (0x21, 0x08), (0x01, 0x1E)]]

theorem slowCalls_fold :
    ((slowCalls.foldl (mouseCall none) (mouseInit none)).mouseX.toInt,
        (slowCalls.foldl (mouseCall none) (mouseInit none)).mouseY.toInt) = (517, 391) ∧
      (slowCalls.foldl (mouseCall none) (mouseInit none)).buttons = 4 := by
  have short : ∀ packet ∈ slowPackets, packet.Short := by
    simp only [slowPackets, List.forall_mem_cons]
    refine ⟨⟨?_, ?_⟩, ⟨?_, ?_⟩, ⟨?_, ?_⟩, ⟨?_, ?_⟩, List.forall_mem_nil _⟩
    all_goals decide
  obtain ⟨⟨place, buttons⟩, -⟩ := @mouse_pointer_folds none (by rintro info ⟨⟩) slowPackets short
    slowCalls (by decide)
  rw [place, buttons]
  decide

/-- A move of 128 to the right, whose ninth bit is clear: the pointer goes 128 to the left. -/
theorem fastMove_reversed :
    ((mouseCall none (mouseInit none) (.interrupt [(0x21, 0x08), (0x21, 0x80), (0x21, 0x00)])).mouseX.toInt,
      (pointerAfter none [⟨0x08, 0x80, 0x00, by decide⟩]).1) = (384, 640) := by
  decide

end Szczupak.Mouse
