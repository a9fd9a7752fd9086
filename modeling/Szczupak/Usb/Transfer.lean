import Szczupak.Usb.TransferCore

/-!
The number of bytes of a transfer.  A control transfer gives what the device has sent; an interrupt
transfer takes a packet without bytes for a full one.
-/

namespace Szczupak.Usb

def UhciTd.maxLen (td : UhciTd) : Nat := ((td.token >>> (21 : UInt32)).toNat + 1) % 2048

structure InDone (host : UhciHost) (td : UhciTd) (status : UInt32) (packet : List UInt8)
    (before after : Mem) : Prop where
  fits : packet.length ≤ td.maxLen
  clean : uhciTdHasError status false = false
  actLen : status.toNat % 2048 = (packet.length + 2047) % 2048
  stored : after = before.store (td.bufferPtr.toNat - host.dataPhys.toNat) packet

/-- A data stage: nothing comes after a short packet. -/
def Served (host : UhciHost) : List UhciTd → List UInt32 → List (List UInt8) → Mem → Mem → Prop
  | [], [], [], before, after => after = before
  | td :: tds, status :: statuses, packet :: packets, before, after =>
      (packet.length < td.maxLen → packets.flatten = []) ∧
        ∃ between, InDone host td status packet before between ∧ Served host tds statuses packets between after
  | _, _, _, _, _ => False

/-- A control transfer to the driver's buffer whose descriptors have all been completed.  The
controller reads 32-bit addresses, so it has found them below 4 GiB. -/
structure ControlIn where
  run : UhciRun
  host : UhciHost
  lowSpeed : Bool
  addr : UInt8
  maxPacket : UInt8
  setup : List UInt8
  buffer : List UInt8
  dataLen : UInt16
  tds : List UhciTd
  packets : List (List UInt8)
  ready : host.ready = true
  reach : host.pagesPhys.toNat + 8192 ≤ 2 ^ 32
  sized : 0 < maxPacket.toNat ∧ maxPacket.toNat ≤ 64
  asked : 0 < dataLen.toNat ∧ dataLen.toNat + 32 ≤ uhciDataPoolSize
  queued : dataTds host lowSpeed addr maxPacket true (uhciTdPoolCount - 2) dataLen 0 true = some tds
  setupDone : uhciTdHasError
    ((run (controlQueue host lowSpeed addr true tds)
      (controlPool host setup (some buffer) dataLen true)).1 0) false = false
  statusDone : uhciTdHasError ((run (controlQueue host lowSpeed addr true tds)
    (controlPool host setup (some buffer) dataLen true)).1 (tds.length + 1)) false = false
  served : Served host tds ((List.range tds.length).map fun i =>
      (run (controlQueue host lowSpeed addr true tds)
        (controlPool host setup (some buffer) dataLen true)).1 (i + 1))
    packets (controlPool host setup (some buffer) dataLen true)
    (run (controlQueue host lowSpeed addr true tds) (controlPool host setup (some buffer) dataLen true)).2

/-- An interrupt transfer whose descriptor has been completed; endpoints have numbers of four bits.
-/
structure InterruptIn where
  run : UhciRun
  host : UhciHost
  lowSpeed : Bool
  addr : UInt8
  ep : UInt8
  maxPacket : UInt8
  toggle : Bool
  out : List UInt8
  outLen : UInt16
  packet : List UInt8
  ready : host.ready = true
  reach : host.pagesPhys.toNat + 8192 ≤ 2 ^ 32
  sized : maxPacket ≠ 0
  endpoint : ep.toNat < 16
  done : InDone host (interruptTd host lowSpeed addr ep toggle (interruptLength maxPacket outLen))
    ((run [interruptTd host lowSpeed addr ep toggle (interruptLength maxPacket outLen)]
    (host.dataPool.fill 0 64 0)).1 0) packet (host.dataPool.fill 0 64 0)
    (run [interruptTd host lowSpeed addr ep toggle (interruptLength maxPacket outLen)]
      (host.dataPool.fill 0 64 0)).2

def ControlIn.result (transfer : ControlIn) : Int × Option (List UInt8) × Mem :=
  uhciControlTransfer transfer.run transfer.host transfer.lowSpeed transfer.addr transfer.maxPacket
    transfer.setup (some transfer.buffer) transfer.dataLen true

def InterruptIn.result (transfer : InterruptIn) : Int × Bool × List UInt8 × Mem :=
  uhciInterruptIn transfer.run transfer.host transfer.lowSpeed transfer.addr transfer.ep
    transfer.maxPacket transfer.toggle transfer.out transfer.outLen

def InterruptIn.reqLen (transfer : InterruptIn) : UInt16 :=
  interruptLength transfer.maxPacket transfer.outLen

theorem low_eleven (word : UInt32) : (word &&& 0x7FF).toNat = word.toNat % 2048 := by
  have mask : (0x7FF : UInt32).toNat = 2 ^ 11 - 1 := rfl
  rw [UInt32.toNat_and, mask, Nat.and_two_pow_sub_one_eq_mod]

theorem controlActual_toNat (status : UInt32) : (controlActual status).toNat =
    (status.toNat % 2048 + 1) % 2048 := by
  have field := low_eleven status
  have most : (0x7FF : UInt32).toNat = 2047 := rfl
  rw [controlActual]
  split
  next some' =>
    have different : status.toNat % 2048 ≠ 2047 := by
      intro same
      exact some' (UInt32.toNat_inj.mp (by rw [field, same, most]))
    have one : (1 : UInt32).toNat = 1 := rfl
    rw [UInt32.toNat_add, field, one]
    omega
  next none' =>
    rw [ne_eq, not_not] at none'
    rw [none', most] at field
    rw [← field]
    rfl

theorem interruptActual_toNat (status : UInt32) {reqLen : UInt16}
    (fits : (status.toNat % 2048 + 1) % 2048 ≤ reqLen.toNat) : (interruptActual status reqLen).toNat =
      if (status.toNat % 2048 + 1) % 2048 = 0 then reqLen.toNat else (status.toNat % 2048 + 1) % 2048 := by
  have one : (1 : UInt32).toNat = 1 := rfl
  have field : ((status + 1) &&& 0x7FF).toNat = (status.toNat % 2048 + 1) % 2048 := by
    rw [low_eleven, UInt32.toNat_add, one]
    omega
  have req : reqLen.toUInt32.toNat = reqLen.toNat := UInt16.toNat_toUInt32 reqLen
  have bounded : ¬(status + 1 &&& 0x7FF) > reqLen.toUInt32 := by
    rw [gt_iff_lt, UInt32.lt_iff_toNat_lt, field, req]
    omega
  rw [interruptActual]
  simp only [bounded, or_false]
  split
  next zero =>
    have none' : (status.toNat % 2048 + 1) % 2048 = 0 := by
      rw [← field, zero]
      rfl
    rw [if_pos none', req]
  next some' =>
    rw [if_neg, field]
    intro zero
    rw [zero] at field
    exact some' (UInt32.toNat_inj.mp field)

theorem shiftRight_low {word : UInt32} (low : word.toNat < 2 ^ 21) : word >>> (21 : UInt32) = 0 := by
  apply UInt32.toNat_inj.mp
  rw [UInt32.toNat_shiftRight]
  exact Nat.shiftRight_eq_zero _ _ low

theorem shiftLeft_toNat {word : UInt32} {count : Nat} (small : count < 32)
    (fits : word.toNat * 2 ^ count < 2 ^ 32) :
    (word <<< UInt32.ofNat count).toNat = word.toNat * 2 ^ count := by
  rw [UInt32.toNat_shiftLeft, UInt32.toNat_ofNat_of_lt' (by show count < 2 ^ 32; omega),
    Nat.mod_eq_of_lt small, Nat.shiftLeft_eq, Nat.mod_eq_of_lt fits]

theorem uhciTdSet_maxLen (link : UInt32) (pid addr : UInt8) {ep : UInt8} (toggle : Bool)
    {len : UInt16} (buf : UInt32)
    (lowSpeed allowShort : Bool) (endpoint : ep.toNat < 16) (short : len.toNat ≤ 64) :
    (uhciTdSet link pid addr ep toggle len buf lowSpeed allowShort).maxLen = len.toNat := by
  have pidLow := pid.toNat_lt
  have addrLow := addr.toNat_lt
  have first : pid.toUInt32 >>> (21 : UInt32) = 0 := shiftRight_low (by rw [UInt8.toNat_toUInt32]; omega)
  have second : (addr.toUInt32 <<< (8 : UInt32)) >>> (21 : UInt32) = 0 :=
    shiftRight_low (by
      have shifted := @shiftLeft_toNat addr.toUInt32 8 (by decide) (by rw [UInt8.toNat_toUInt32]; omega)
      rw [UInt8.toNat_toUInt32] at shifted
      exact lt_of_eq_of_lt shifted (by omega))
  have third : (ep.toUInt32 <<< (15 : UInt32)) >>> (21 : UInt32) = 0 :=
    shiftRight_low (by
      have shifted := @shiftLeft_toNat ep.toUInt32 15 (by decide) (by rw [UInt8.toNat_toUInt32]; omega)
      rw [UInt8.toNat_toUInt32] at shifted
      exact lt_of_eq_of_lt shifted (by omega))
  have fourth : (toggle.toUInt32 <<< (19 : UInt32)) >>> (21 : UInt32) = 0 := by
    cases toggle <;> rfl
  have last (tokenLen : UInt32) (low : tokenLen.toNat < 2048) :
      (tokenLen <<< (21 : UInt32)) >>> (21 : UInt32) = tokenLen := by
    apply UInt32.toNat_inj.mp
    have shifted := @shiftLeft_toNat tokenLen 21 (by decide) (by omega)
    have count : (21 : UInt32).toNat % 32 = 21 := rfl
    rw [UInt32.toNat_shiftRight, count, Nat.shiftRight_eq_div_pow]
    refine (congrArg (· / 2 ^ 21) shifted).trans ?_
    exact Nat.mul_div_cancel _ (by decide)
  rw [UhciTd.maxLen, uhciTdSet]
  dsimp only
  rw [UInt32.shiftRight_or, UInt32.shiftRight_or, UInt32.shiftRight_or, UInt32.shiftRight_or, first,
    second, third, fourth]
  split
  next zero =>
    rw [last _ (by decide), zero]
    rfl
  next some' =>
    have positive : len.toNat ≠ 0 := fun zero => some' (UInt16.toNat_inj.mp zero)
    have one : (1 : UInt32).toNat = 1 := rfl
    have field : ((len.toUInt32 - 1) &&& 0x7FF).toNat = len.toNat - 1 := by
      rw [low_eleven, UInt32.toNat_sub_of_le, UInt16.toNat_toUInt32, one]
      · omega
      · rw [UInt32.le_iff_toNat_le, UInt16.toNat_toUInt32, one]
        omega
    rw [last _ (by rw [field]; omega)]
    simp only [UInt32.zero_or, field]
    omega

section Data

variable {host : UhciHost} {lowSpeed : Bool} {addr maxPacket : UInt8} {room : Nat}
    {remaining offset : UInt16}
  {toggle : Bool} {tds : List UhciTd} {statuses : List UInt32} {packets : List (List UInt8)}
  {before after : Mem}

theorem dataTds_length {dataIn : Bool}
    (queued : dataTds host lowSpeed addr maxPacket dataIn room remaining offset toggle = some tds) :
    tds.length ≤ room := by
  induction room generalizing remaining offset toggle tds with
  | zero =>
      rw [dataTds] at queued
      split at queued
      · rw [← Option.some.inj queued]
        exact Nat.le_refl _
      · exact absurd queued (by simp)
  | succ room ih =>
      rw [dataTds] at queued
      split at queued
      · rw [← Option.some.inj queued]
        exact Nat.zero_le _
      · obtain ⟨rest, tail, rfl⟩ := Option.map_eq_some_iff.mp queued
        exact Nat.succ_le_succ (ih tail)

theorem dataTds_done {dataIn : Bool}
    (queued : dataTds host lowSpeed addr maxPacket dataIn room 0 offset toggle = some tds) :
    tds = [] := by
  cases room with
  | zero => exact (Option.some.inj queued).symm
  | succ room => exact (Option.some.inj queued).symm

theorem dataPhys_toNat (reach : host.pagesPhys.toNat + 8192 ≤ 2 ^ 32) :
    host.dataPhys.toNat = host.pagesPhys.toNat + 5152 := by
  have pool : (5152 : UInt64).toNat = 5152 := rfl
  rw [UhciHost.dataPhys, UInt64.toNat_add, pool, Nat.mod_eq_of_lt (by omega)]

theorem bufferPlace (reach : host.pagesPhys.toNat + 8192 ≤ 2 ^ 32) {offset : Nat}
    (inside : offset ≤ 2048) {place : UInt64}
    (there : place.toNat = host.dataPhys.toNat + offset) :
    place.toUInt32.toNat - host.dataPhys.toNat = offset := by
  have base := dataPhys_toNat reach
  rw [UInt64.toNat_toUInt32, there, Nat.mod_eq_of_lt (by omega)]
  omega

section

variable (served : Served host tds statuses packets before after)
include served

theorem Served.nothing (empty : packets.flatten = []) :
    after = before := by
  induction tds generalizing statuses packets before with
  | nil =>
      match statuses, packets, served with
      | [], [], served => exact served
  | cons td tds ih =>
      match statuses, packets, served with
      | status :: statuses, packet :: packets, ⟨_, between, done, served⟩ =>
          rw [List.flatten_cons, List.append_eq_nil_iff] at empty
          rw [ih served empty.2, done.stored, empty.1, Mem.store_nil]

theorem Served.sum
    (reach : host.pagesPhys.toNat + 8192 ≤ 2 ^ 32) (sized : 0 < maxPacket.toNat ∧ maxPacket.toNat ≤ 64)
    (queued : dataTds host lowSpeed addr maxPacket true room remaining offset toggle = some tds)
    (fits : offset.toNat + remaining.toNat + 32 ≤ uhciDataPoolSize) {total dataLen : UInt32}
    (taken : total.toNat = offset.toNat) (asked : dataLen.toNat = offset.toNat + remaining.toNat) :
    (sumActual maxPacket.toUInt32 dataLen statuses total).toNat = offset.toNat +
      packets.flatten.length ∧ after = before.store (16 + offset.toNat) packets.flatten := by
  have size : uhciDataPoolSize = 2048 := rfl
  induction room generalizing remaining offset toggle tds statuses packets before total with
  | zero =>
      rw [dataTds] at queued
      split at queued
      · rw [← Option.some.inj queued] at served
        match statuses, packets, served with
        | [], [], served => exact ⟨taken, by rw [served]; exact (Mem.store_nil _ _).symm⟩
      · exact absurd queued (by simp)
  | succ room ih =>
      rw [dataTds] at queued
      split at queued
      next =>
        rw [← Option.some.inj queued] at served
        match statuses, packets, served with
        | [], [], served => exact ⟨taken, by rw [served]; exact (Mem.store_nil _ _).symm⟩
      next some' =>
        obtain ⟨rest, tail, rfl⟩ := Option.map_eq_some_iff.mp queued
        generalize part : (if remaining > maxPacket.toUInt16 then maxPacket.toUInt16
          else remaining) = chunk at served tail
        have most : maxPacket.toUInt16.toNat = maxPacket.toNat := UInt8.toNat_toUInt16 maxPacket
        have chunkSize : chunk.toNat = min remaining.toNat maxPacket.toNat := by
          rw [← part]
          split
          next long =>
            have order := UInt16.lt_iff_toNat_lt.mp long
            omega
          next long =>
            have order := UInt16.lt_iff_toNat_lt.not.mp long
            omega
        match statuses, packets, served with
        | status :: statuses, packet :: packets, ⟨short, between, done, served⟩ =>
            have base : host.dataPhys.toNat = host.pagesPhys.toNat + 5152 := dataPhys_toNat reach
            have place : (host.dataPhys + 16 + offset.toUInt64).toNat =
              host.dataPhys.toNat + (16 + offset.toNat) := by
              have sixteen : (16 : UInt64).toNat = 16 := rfl
              rw [UInt64.toNat_add, UInt64.toNat_add, UInt16.toNat_toUInt64, sixteen]
              omega
            have stored := done.stored
            have fitted := done.fits
            rw [uhciTdSet_maxLen _ _ _ _ _ _ _ (by decide) (by omega)] at fitted short
            rw [uhciTdSet] at stored
            dsimp only at stored
            rw [bufferPlace reach (by omega) place] at stored
            have count : (controlActual status).toNat = packet.length := by
              rw [controlActual_toNat, done.actLen]
              omega
            have left : (remaining - chunk).toNat = remaining.toNat - chunk.toNat :=
              UInt16.toNat_sub_of_le _ _ (UInt16.le_iff_toNat_le.mpr (by omega))
            have moved : (offset + chunk).toNat = offset.toNat + chunk.toNat := by
              rw [UInt16.toNat_add, Nat.mod_eq_of_lt (by omega)]
            have limit : maxPacket.toUInt32.toNat = maxPacket.toNat := UInt8.toNat_toUInt32 maxPacket
            have sum : (total + controlActual status).toNat = offset.toNat + packet.length := by
              rw [UInt32.toNat_add, taken, count, Nat.mod_eq_of_lt (by omega)]
            have uncut : ¬controlActual status > maxPacket.toUInt32 := by
              rw [gt_iff_lt, UInt32.lt_iff_toNat_lt, limit, count]
              omega
            have inside : ¬total + controlActual status > dataLen := by
              rw [gt_iff_lt, UInt32.lt_iff_toNat_lt, sum, asked]
              omega
            rw [sumActual]
            simp only [uncut, if_false, inside]
            rw [List.flatten_cons, List.length_append]
            split
            next ends =>
              have few : packet.length < maxPacket.toNat := by
                rw [UInt32.lt_iff_toNat_lt, limit, count] at ends
                exact ends
              have nothing : packets.flatten = [] := by
                by_cases partial' : packet.length < chunk.toNat
                · exact short partial'
                · have finished : remaining - chunk = 0 := UInt16.toNat_inj.mp (by rw [left]; show _ = 0; omega)
                  rw [finished] at tail
                  rw [dataTds_done tail] at served
                  match statuses, packets, served with
                  | [], [], _ => rfl
              rw [nothing, List.length_nil, List.append_nil, served.nothing nothing]
              exact ⟨sum, stored⟩
            next full =>
              rw [UInt32.lt_iff_toNat_lt, limit, count] at full
              have whole : packet.length = chunk.toNat := by omega
              obtain ⟨added, pool⟩ := ih served tail (by omega) (by rw [sum, moved, whole]) (by omega)
              refine ⟨by rw [added, moved, whole]; omega, ?_⟩
              rw [pool, stored, moved, ← whole, ← Nat.add_assoc]
              exact Mem.store_append _ _ _ _

theorem Served.clean :
    ∀ status ∈ statuses, uhciTdHasError status false = false := by
  induction tds generalizing statuses packets before with
  | nil =>
      match statuses, packets, served with
      | [], [], _ => exact fun _ member => absurd member List.not_mem_nil
  | cons td tds ih =>
      match statuses, packets, served with
      | status :: statuses, packet :: packets, ⟨_, between, done, served⟩ =>
          rw [List.forall_mem_cons]
          exact ⟨done.clean, ih served⟩

end

theorem clean_bits {status : UInt32} (clean : uhciTdHasError status false = false) :
    status &&& uhciTdStatusActive = 0 ∧ status &&& uhciTdStatusNak = 0 := by
  rw [uhciTdHasError] at clean
  split at clean
  · exact absurd clean (by decide)
  next inactive =>
    split at clean
    · exact absurd clean (by decide)
    · simp only [Bool.not_false, Bool.true_and, bne_eq_false_iff_eq] at clean
      exact ⟨not_not.mp inactive, clean⟩

end Data

theorem ControlIn.result_exact (transfer : ControlIn) :
    transfer.result.1 = transfer.packets.flatten.length ∧
      transfer.result.2.1 =
      some (transfer.packets.flatten ++ transfer.buffer.drop transfer.packets.flatten.length) := by
  obtain ⟨run, host, lowSpeed, addr, maxPacket, setup, buffer, dataLen, tds, packets, ready, reach,
    sized, asked, queued, setupDone, statusDone, served⟩ := transfer
  have most : (64 : UInt8).toNat = 64 := rfl
  have count := dataTds_length queued
  have size : uhciDataPoolSize = 2048 := rfl
  have slots : uhciTdPoolCount = 64 := rfl
  have accepted : ¬((!host.ready) = true ∨ maxPacket = 0 ∨ maxPacket > 64) := by
    rw [ready, ← UInt8.toNat_inj, gt_iff_lt, UInt8.lt_iff_toNat_lt, most]
    simp only [Bool.not_true, Bool.false_eq_true, false_or, UInt8.toNat_zero]
    omega
  rw [ControlIn.result]
  dsimp only
  rw [uhciControlTransfer, if_neg accepted, if_neg (by omega), queued]
  dsimp only
  rw [if_neg (by omega)]
  generalize run (controlQueue host lowSpeed addr true tds)
    (controlPool host setup (some buffer) dataLen true) = result at setupDone statusDone served ⊢
  obtain ⟨status, pool⟩ := result
  dsimp only at setupDone statusDone served ⊢
  have dataDone : ¬(((List.range tds.length).map fun i => status (i + 1)).any fun status =>
      uhciTdHasError status false) = true := by
    rw [List.any_eq_true]
    rintro ⟨word, member, wrong⟩
    rw [served.clean word member] at wrong
    exact absurd wrong (by decide)
  obtain ⟨added, stored⟩ := @Served.sum host lowSpeed addr maxPacket _ dataLen 0 true _ _ _ _ _
    served reach sized queued
    (by rw [UInt16.toNat_zero]; omega) 0 dataLen.toUInt32 rfl
    (by rw [UInt16.toNat_zero, UInt16.toNat_toUInt32]; omega)
  rw [UInt16.toNat_zero, Nat.zero_add] at added
  have some' : dataLen > 0 := UInt16.lt_iff_toNat_lt.mpr asked.1
  rw [if_neg (by rw [(clean_bits statusDone).1]; exact fun wrong => wrong rfl),
    if_neg (by rw [setupDone]; decide),
    if_neg dataDone, if_neg (by rw [statusDone]; decide), if_pos ⟨rfl, some'⟩, added]
  refine ⟨rfl, ?_⟩
  dsimp only
  rw [stored, UInt16.toNat_zero, Nat.add_zero, Mem.read_store_same]

theorem InterruptIn.result_exact (transfer : InterruptIn) :
    (transfer.result.1 = transfer.packet.length ∧
        transfer.result.2.2.1 = transfer.packet ++ transfer.out.drop transfer.packet.length) ↔
      ¬(transfer.packet = [] ∧ 0 < transfer.reqLen.toNat) := by
  obtain ⟨run, host, lowSpeed, addr, ep, maxPacket, toggle, out, outLen, packet, ready, reach,
    sized, endpoint, done⟩ :=
    transfer
  have base := dataPhys_toNat reach
  have accepted : ¬((!host.ready) = true ∨ maxPacket = 0) := by
    rw [ready]
    simp [sized]
  have short : (interruptLength maxPacket outLen).toNat ≤ 64 := by
    rw [interruptLength]
    have most : (64 : UInt16).toNat = 64 := rfl
    generalize (if outLen > maxPacket.toUInt16 then maxPacket.toUInt16 else outLen) = asked
    split
    next => exact Nat.le_refl _
    next small =>
      rw [gt_iff_lt, UInt16.lt_iff_toNat_lt, most] at small
      omega
  rw [InterruptIn.result, InterruptIn.reqLen]
  dsimp only
  rw [uhciInterruptIn, if_neg accepted]
  generalize interruptLength maxPacket outLen = reqLen at done short ⊢
  dsimp only
  generalize run [interruptTd host lowSpeed addr ep toggle reqLen] (host.dataPool.fill 0 64 0) =
    result at done ⊢
  obtain ⟨status, pool⟩ := result
  dsimp only at done ⊢
  obtain ⟨fits, clean, actLen, stored⟩ := done
  have place : (host.dataPhys + 512).toNat = host.dataPhys.toNat + 512 := by
    have offset : (512 : UInt64).toNat = 512 := rfl
    rw [UInt64.toNat_add, offset, Nat.mod_eq_of_lt (by omega)]
  rw [interruptTd, uhciTdSet_maxLen _ _ _ _ _ _ _ endpoint short] at fits
  rw [interruptTd, uhciTdSet] at stored
  dsimp only at stored
  rw [bufferPlace reach (by omega) place] at stored
  have count : ((status 0).toNat % 2048 + 1) % 2048 = packet.length := by omega
  have actual := @interruptActual_toNat (status 0) reqLen (by omega)
  rw [count] at actual
  rw [if_neg (by rw [(clean_bits clean).1]; exact fun wrong => wrong rfl),
    if_neg (by rw [(clean_bits clean).2]; exact fun wrong => wrong rfl),
    if_neg (by rw [clean]; decide), actual, stored]
  dsimp only
  split
  next none' =>
    rw [List.length_eq_zero_iff] at none'
    subst none'
    constructor
    · rintro ⟨same, _⟩ ⟨_, asked⟩
      rw [List.length_nil] at same
      omega
    · intro idle
      have zero : reqLen.toNat = 0 := by
        by_contra some'
        exact idle ⟨rfl, Nat.pos_of_ne_zero some'⟩
      rw [zero]
      exact ⟨rfl, rfl⟩
  next some' =>
    refine iff_of_true ⟨rfl, ?_⟩ fun both => some' (by rw [both.1]; rfl)
    rw [Mem.read_store_same]

/-- Both functions decode the length and give the bytes of the device, but for an interrupt transfer
of no bytes where some were asked for. -/
theorem uhci_actual_length (control : ControlIn) (interrupt : InterruptIn) :
    (∀ status : UInt32, (controlActual status).toNat = (status.toNat % 2048 + 1) % 2048 ∧
      ∀ reqLen : UInt16, (status.toNat % 2048 + 1) % 2048 ≤ reqLen.toNat →
        ((interruptActual status reqLen).toNat = (status.toNat % 2048 + 1) % 2048 ↔
          ¬((status.toNat % 2048 + 1) % 2048 = 0 ∧ 0 < reqLen.toNat))) ∧
    (control.result.1 = control.packets.flatten.length ∧
      control.result.2.1 =
      some (control.packets.flatten ++ control.buffer.drop control.packets.flatten.length)) ∧
    ((interrupt.result.1 = interrupt.packet.length ∧
        interrupt.result.2.2.1 = interrupt.packet ++ interrupt.out.drop interrupt.packet.length) ↔
      ¬(interrupt.packet = [] ∧ 0 < interrupt.reqLen.toNat)) := by
  refine ⟨fun status => ⟨controlActual_toNat status, fun reqLen fits => ?_⟩, control.result_exact,
    interrupt.result_exact⟩
  rw [interruptActual_toNat status fits]
  split
  · omega
  · omega

def fourBytes : ControlIn where
  run := fun _ pool => (fun i => if i = 1 then 3 else 0x7FF, pool.store 16 [9, 2, 34, 0])
  host := { ready := true, pagesPhys := 0x100000, dataPool := fun _ => 0xAA }
  lowSpeed := true
  addr := 1
  maxPacket := 8
  setup := [0x80, 6, 0, 2, 0, 0, 4, 0]
  buffer := List.replicate 9 0
  dataLen := 4
  tds := [uhciTdSet uhciLinkTerminate uhciPidIn 1 0 true 4 0x101430 true true]
  packets := [[9, 2, 34, 0]]
  ready := rfl
  reach := by decide
  sized := by decide
  asked := by decide
  queued := rfl
  setupDone := by decide
  statusDone := by decide
  served := ⟨fun short => absurd short (by decide), _, ⟨by decide, by decide, by decide, rfl⟩, rfl⟩

def threeBytes : InterruptIn where
  run := fun _ pool => (fun _ => 2, pool.store 512 [1, 5, 0xFB])
  host := { ready := true, pagesPhys := 0x100000, dataPool := fun _ => 0xAA }
  lowSpeed := true
  addr := 1
  ep := 1
  maxPacket := 4
  toggle := false
  out := List.replicate 8 0
  outLen := 8
  packet := [1, 5, 0xFB]
  ready := rfl
  reach := by decide
  sized := by decide
  endpoint := by decide
  done := ⟨by decide, by decide, by decide, rfl⟩

theorem reports_exact : (fourBytes.result.2.1 = some [9, 2, 34, 0, 0, 0, 0, 0, 0] ∧
    threeBytes.result.2.2.1 = [1, 5, 0xFB, 0, 0, 0, 0, 0]) ∧ (interruptActual 2 4).toNat = 3 :=
  ⟨⟨(uhci_actual_length fourBytes threeBytes).2.1.2,
    ((uhci_actual_length fourBytes threeBytes).2.2.mpr (by decide)).2⟩,
    (((uhci_actual_length fourBytes threeBytes).1 2).2 4 (by decide)).mpr (by decide)⟩

/-- A keyboard that answers with an empty packet, while the pool has an earlier report with the key
`a`. -/
def emptyPacket : InterruptIn where
  run := fun _ pool => (fun _ => 0x7FF, pool)
  host := { ready := true, pagesPhys := 0x100000, dataPool := Mem.store (fun _ => 0) 512 [0, 0, 4,
    0, 0, 0, 0, 0] }
  lowSpeed := true
  addr := 1
  ep := 1
  maxPacket := 8
  toggle := false
  out := List.replicate 8 0
  outLen := 8
  packet := []
  ready := rfl
  reach := by decide
  sized := by decide
  endpoint := by decide
  done := ⟨by decide, by decide, by decide, (Mem.store_nil _ _).symm⟩

theorem emptyPacket_stale : emptyPacket.packet = [] ∧ emptyPacket.result.1 = 8 ∧
    emptyPacket.result.2.2.1 = [0, 0, 4, 0, 0, 0, 0, 0] := by
  decide

end Szczupak.Usb
