import Szczupak.Net.E1000Receive

/-!
Runs of driver and card over the two rings.  The card stops at `TDT`, and with 32 frames waiting
`TDT` is where it is: it takes the ring for empty, and the driver waits for it.
-/

namespace Szczupak

structure E1000Agrees (l : E1000Layout) (outCapacity : Nat) (s : E1000) : Prop where
  send : SendAgrees l s.mem s.phase s.tx
  receive : ReceiveAgrees l outCapacity s.mem s.phase s.rx
  initialized : s.initialized = true

/-- What a step does to the frames that are sent: it hands one over, or none, and the card reads on
only where it does not find its ring empty. -/
def SendsStep (s after : E1000) (event : E1000Event) : Prop :=
  (∃ frame, event = .drive ∧ s.phase = .ring frame ∧ after.tx = s.tx.handOver frame) ∨
    (event = .drive → ∀ frame, s.phase ≠ .ring frame) ∧ after.tx.handed = s.tx.handed ∧
      (after.tx.readTo = s.tx.readTo ∨ after.tx.readTo = s.tx.readTo + 1 ∧ s.tx.tdh ≠ s.tx.tdt)

section Steps

variable {l : E1000Layout} {outCapacity : Nat} {s after : E1000} {event : E1000Event}
    {next : E1000Phase}

section

variable (agrees : E1000Agrees l outCapacity s)
include agrees

theorem E1000Agrees.go (notFills : ¬s.phase.Fills)
    (notReleases : ¬s.phase.Releases) (sends : next.Sends l s.mem s.tx)
    (polls : next.Polls outCapacity s.rx)
    (notNext : ¬next.Releases) : E1000Agrees l outCapacity { s with phase := next } :=
  ⟨agrees.send.go notFills sends, agrees.receive.go notReleases polls notNext, agrees.initialized⟩

theorem send_agrees {frame : List UInt8} (called : e1000HwSendFrame frame s = some after) :
    E1000Agrees l outCapacity after ∧ after.tx = s.tx := by
  rw [e1000HwSendFrame] at called
  split at called
  next idle =>
    split at called
    next =>
      cases called
      exact ⟨agrees, rfl⟩
    next valid =>
      cases called
      have most : frame.length ≤ e1000TxBufSize := by
        simp only [Bool.or_eq_true, decide_eq_true_eq, not_or] at valid
        exact Nat.le_of_not_lt valid.2
      exact ⟨agrees.go (by rw [idle]; exact id) (by rw [idle]; exact id) most trivial id, rfl⟩
  next => cases called

theorem poll_agrees (called : e1000HwPollFrame l outCapacity s = some after) :
    E1000Agrees l outCapacity after ∧ after.tx = s.tx := by
  rw [e1000HwPollFrame] at called
  split at called
  next idle =>
    have notFills : ¬s.phase.Fills := by rw [idle]; exact id
    have notReleases : ¬s.phase.Releases := by rw [idle]; exact id
    split at called
    next =>
      cases called
      exact ⟨agrees, rfl⟩
    next =>
      split at called
      next =>
        cases called
        exact ⟨agrees, rfl⟩
      next done =>
        cases called
        rw [Bool.not_eq_true', Bool.not_eq_false] at done
        exact ⟨agrees.go notFills notReleases trivial ((agrees.receive.dd notReleases).mp done) id, rfl⟩
  next => cases called

theorem E1000Agrees.goes (notFills : ¬s.phase.Fills)
    (notReleases : ¬s.phase.Releases) (notRing : ∀ frame, s.phase ≠ .ring frame)
    (sends : next.Sends l s.mem s.tx)
    (polls : next.Polls outCapacity s.rx) (notNext : ¬next.Releases) :
    E1000Agrees l outCapacity { s with phase := next } ∧ SendsStep s { s with phase := next } .drive :=
  ⟨agrees.go notFills notReleases sends polls notNext, Or.inr ⟨fun _ => notRing, rfl, Or.inl rfl⟩⟩

end

theorem fill_agrees {frame bytes : List UInt8} {stores address : Nat} (apart : l.Apart)
    (agrees : E1000Agrees l outCapacity s)
    (phase : s.phase = .fill frame stores)
    (here : (e1000SendStores l s.tx.tail frame)[stores]? = some (address, bytes)) :
    E1000Agrees l outCapacity
    { s with mem := s.mem.store address bytes, phase := .fill frame (stores + 1) } := by
  obtain ⟨send, receive, ready⟩ := agrees
  rw [phase] at send receive
  have only := @sendStores_onlySlot l s.mem s.tx.tail frame (address, bytes) send.sends.1
    (List.mem_of_getElem? here)
  have bound : s.tx.tail < l.tx.count := by
    rw [send.tail]
    exact Nat.mod_lt _ (Nat.succ_pos _)
  have kept : l.rx.Kept s.mem (s.mem.store address bytes) :=
    only.kept bound fun other inTx inRx => apart.disjoint other inRx inTx
  exact ⟨send.fillStore apart here, (receive.kept kept).go id trivial id, ready⟩

theorem confirm_agrees {index : Nat} (agrees : E1000Agrees l outCapacity s) (notFills : ¬s.phase.Fills)
    (notReleases : ¬s.phase.Releases) (last : 0 < s.tx.handed.length ∧ index =
    (s.tx.handed.length - 1) % 32) (done : e1000StatDd (s.mem (l.tx.descAt index + 12)) = true) :
    E1000Agrees l outCapacity { s with tx := s.tx.confirm, phase := .idle } :=
  ⟨agrees.send.confirm notFills last.1 (last.2 ▸ done), agrees.receive.go notReleases trivial id,
    agrees.initialized⟩

theorem drive_agrees (apart : l.Apart) (some' : 0 < outCapacity)
    (agrees : E1000Agrees l outCapacity s) (driven : e1000Drive l outCapacity s = some after) :
    E1000Agrees l outCapacity after ∧ SendsStep s after .drive := by
  have same : ∀ other : E1000, (∀ frame, s.phase ≠ .ring frame) → other.tx.handed = s.tx.handed →
      other.tx.readTo = s.tx.readTo → SendsStep s other .drive :=
    fun _ notRing handed read => Or.inr ⟨fun _ => notRing, handed, Or.inl read⟩
  have goes := @E1000Agrees.goes l outCapacity s
  have confirms := @confirm_agrees l outCapacity s
  have sends := agrees.send.sends
  obtain ⟨send, receive, ready⟩ := agrees
  rw [e1000Drive] at driven
  cases phase : s.phase with
  | idle =>
      rw [phase] at driven
      cases driven
  | awaitFree frame turn =>
      rw [phase] at sends driven goes
      have checks : E1000Agrees l outCapacity { s with phase := .checkFree frame } ∧
          SendsStep s { s with phase := .checkFree frame } .drive :=
        goes ⟨send, receive, ready⟩ id id (by simp) sends trivial id
      dsimp only at driven
      split at driven
      next =>
        split at driven
        next =>
          cases driven
          exact checks
        next =>
          cases driven
          exact goes ⟨send, receive, ready⟩ id id (by simp) sends trivial id
      next =>
        cases driven
        exact checks
  | checkFree frame =>
      rw [phase] at send driven goes
      dsimp only at driven
      split at driven
      next done =>
        cases driven
        exact ⟨⟨send.startFill done, receive.go (by rw [phase]; exact id) trivial id, ready⟩, same _
          (by simp [phase]) rfl rfl⟩
      next =>
        cases driven
        exact goes ⟨phase ▸ send, receive, ready⟩ id id (by simp) trivial trivial id
  | fill frame stores =>
      have fills := @fill_agrees l outCapacity s frame
      rw [phase] at driven
      dsimp only at driven
      split at driven
      next address bytes here =>
        cases driven
        exact ⟨fills apart ⟨send, receive, ready⟩ phase here, same _ (by simp [phase]) rfl rfl⟩
      next ends =>
        cases driven
        rw [phase] at send receive
        exact ⟨⟨send.fillEnd ends, receive.go id trivial id, ready⟩, same _ (by simp [phase]) rfl rfl⟩
  | ring frame =>
      rw [phase] at send receive driven
      cases driven
      exact ⟨⟨send.ring, receive.go id trivial id, ready⟩, Or.inl ⟨frame, rfl, phase, rfl⟩⟩
  | awaitSent index turn =>
      rw [phase] at sends driven goes confirms
      dsimp only at driven
      split at driven
      next =>
        split at driven
        next done =>
          cases driven
          exact ⟨confirms ⟨send, receive, ready⟩ id id sends done, same _ (by simp [phase]) rfl rfl⟩
        next =>
          cases driven
          exact goes ⟨send, receive, ready⟩ id id (by simp) sends trivial id
      next =>
        cases driven
        exact goes ⟨send, receive, ready⟩ id id (by simp) sends trivial id
  | checkSent index =>
      rw [phase] at sends driven goes confirms
      dsimp only at driven
      split at driven
      next done =>
        cases driven
        exact ⟨confirms ⟨send, receive, ready⟩ id id sends done, same _ (by simp [phase]) rfl rfl⟩
      next =>
        cases driven
        exact goes ⟨send, receive, ready⟩ id id (by simp) trivial trivial id
  | copy =>
      rw [phase] at send receive driven
      cases driven
      exact ⟨⟨send.go id trivial, receive.copy, ready⟩, same _ (by simp [phase]) rfl rfl⟩
  | release out =>
      rw [phase] at send receive driven
      cases driven
      obtain ⟨released, kept⟩ := receive.release apart
      exact ⟨⟨(send.kept kept).go id trivial, released, ready⟩, same _ (by simp [phase]) rfl rfl⟩
  | handBack out =>
      rw [phase] at send receive driven
      cases driven
      exact ⟨⟨send.go id trivial, (receive.handBack some').1, ready⟩, same _ (by simp [phase]) rfl rfl⟩

theorem e1000Step_agrees (apart : l.Apart) (some' : 0 < outCapacity)
    (agrees : E1000Agrees l outCapacity s)
    (stepped : e1000Step l outCapacity s event = some after) :
    E1000Agrees l outCapacity after ∧ SendsStep s after event := by
  obtain ⟨send, receive, ready⟩ := agrees
  cases event with
  | send frame =>
      obtain ⟨agrees', same⟩ := send_agrees ⟨send, receive, ready⟩ stepped
      exact ⟨agrees', Or.inr ⟨by simp, by rw [same]; exact ⟨rfl, Or.inl rfl⟩⟩⟩
  | poll =>
      obtain ⟨agrees', same⟩ := poll_agrees ⟨send, receive, ready⟩ stepped
      exact ⟨agrees', Or.inr ⟨by simp, by rw [same]; exact ⟨rfl, Or.inl rfl⟩⟩⟩
  | drive => exact drive_agrees apart some' ⟨send, receive, ready⟩ stepped
  | fetch =>
      obtain ⟨tx, taken, rfl⟩ := Option.map_eq_some_iff.mp stepped
      obtain ⟨agrees', handed, -, read⟩ := send.fetch taken
      have waits : s.tx.tdh ≠ s.tx.tdt := by
        rw [E1000Tx.fetch] at taken
        split at taken
        next waits => exact waits.2
        next => cases taken
      exact ⟨⟨agrees', receive, ready⟩, Or.inr ⟨by simp, handed, Or.inr ⟨read, waits⟩⟩⟩
  | transmit =>
      obtain ⟨tx, taken, rfl⟩ := Option.map_eq_some_iff.mp stepped
      obtain ⟨agrees', handed, read, -⟩ := send.transmit taken
      exact ⟨⟨agrees', receive, ready⟩, Or.inr ⟨by simp, handed, Or.inl read⟩⟩
  | writeBackTx =>
      obtain ⟨⟨mem, tx⟩, taken, rfl⟩ := Option.map_eq_some_iff.mp stepped
      obtain ⟨agrees', kept, handed, read, -⟩ := send.writeBack apart taken
      exact ⟨⟨agrees', receive.kept kept, ready⟩, Or.inr ⟨by simp, handed, Or.inl read⟩⟩
  | receive packet =>
      obtain ⟨⟨mem, rx⟩, taken, rfl⟩ := Option.map_eq_some_iff.mp stepped
      obtain ⟨agrees', kept, -⟩ := receive.receive apart taken
      exact ⟨⟨send.kept kept, agrees', ready⟩, Or.inr ⟨by simp, rfl, Or.inl rfl⟩⟩
  | writeBackRx report =>
      obtain ⟨⟨mem, rx⟩, taken, rfl⟩ := Option.map_eq_some_iff.mp stepped
      obtain ⟨agrees', kept, -⟩ := receive.writeBack apart taken
      exact ⟨⟨send.kept kept, agrees', ready⟩, Or.inr ⟨by simp, rfl, Or.inl rfl⟩⟩

theorem e1000HwInit_agrees {mem : Mem} {start : E1000} (apart : l.Apart)
    (begun : e1000HwInit l mem = some start) : E1000Agrees l outCapacity start := by
  obtain ⟨⟨rxMem, rx⟩, setRx, rest⟩ := Option.bind_eq_some_iff.mp begun
  obtain ⟨⟨txMem, tx⟩, setTx, rfl⟩ := Option.map_eq_some_iff.mp rest
  obtain ⟨send, kept⟩ := setupTx_spec apart setTx
  exact ⟨send, (setupRx_spec apart setRx).kept kept, rfl⟩

end Steps

section Runs

variable {l : E1000Layout} {outCapacity : Nat} {mem : Mem} {start s later : E1000}
    {events more : List E1000Event}

theorem e1000_agrees (apart : l.Apart) (some' : 0 < outCapacity) (agrees : E1000Agrees l outCapacity s)
    (reached : runActions (e1000Step l outCapacity) s events = some later) :
    E1000Agrees l outCapacity later :=
  runActions_invariant (fun _ _ _ agrees stepped => (e1000Step_agrees apart some' agrees stepped).1)
    agrees reached

def smallLayout : E1000Layout := ⟨0x1000, 0x1200, 0x2000, 0x12000⟩

theorem smallLayout_apart : smallLayout.Apart := by
  refine ⟨Or.inl (by decide), Or.inl (by decide), fun address inRx inTx => ?_, by decide, by decide⟩
  simp only [DescriptorRing.Inside, E1000Layout.rx, E1000Layout.tx, smallLayout, e1000RxDescCount,
    e1000TxDescCount, e1000RxBufSize, e1000TxBufSize] at inRx inTx
  omega

def smallStart : E1000 := (e1000HwInit smallLayout fun _ => 0).get rfl

theorem smallStart_begun : e1000HwInit smallLayout (fun _ => 0) = some smallStart :=
  (Option.some_get _).symm

def handsOver (frame : List UInt8) : List E1000Event := .send frame :: List.replicate 12 .drive

/-- The third frame is handed over, but the card does not get to it. -/
def threeFramesSent : List E1000Event :=
  handsOver [7] ++ [.fetch, .transmit, .writeBackTx, .drive] ++
    handsOver [8, 9] ++ [.drive, .fetch, .drive, .transmit, .writeBackTx, .drive] ++ handsOver [6]

def receivedFrame (byte : UInt8) : E1000Frame :=
  ⟨List.replicate 60 byte, Vector.replicate 4 0, by simp, by simp⟩

/-- The third frame comes in while the first one is copied out. -/
def threeFramesReceived : List E1000Event :=
  [.receive (receivedFrame 1), .receive (receivedFrame 2), .writeBackRx ⟨0, 3, 0, 0, rfl⟩,
    .poll, .drive, .drive,
    .receive (receivedFrame 3), .drive, .writeBackRx ⟨0, 3, 0, 0, rfl⟩, .poll, .drive, .drive, .drive]

/-- Whatever the order in which driver and card get to the memory, the frames on the wire are the
first of those handed over, in their order and padded to the least length, and a call that returned
true has its frame among them. -/
theorem e1000_sends_in_order (apart : l.Apart) (some' : 0 < outCapacity)
    (begun : e1000HwInit l mem = some start)
    (reached : runActions (e1000Step l outCapacity) start events = some s) :
    s.tx.sent <+: s.tx.handed.map e1000Pad ∧ ∀ place ∈ s.tx.confirmed, place < s.tx.sent.length := by
  have send := (e1000_agrees apart some' (e1000HwInit_agrees apart begun) reached).send
  refine ⟨?_, send.confirmed⟩
  rw [send.sent]
  exact (List.take_prefix _ _).map _

theorem threeFrames_send_in_order : ∃ s,
    runActions (e1000Step smallLayout 1518) smallStart threeFramesSent = some s ∧
      s.tx.handed = [[7], [8, 9], [6]] ∧ s.tx.confirmed = [0, 1] ∧
      s.tx.sent <+: s.tx.handed.map e1000Pad ∧ ∀ place ∈ s.tx.confirmed, place < s.tx.sent.length := by
  have runs : (runActions (e1000Step smallLayout 1518) smallStart threeFramesSent).map
      (fun s => (s.tx.handed, s.tx.confirmed)) = some ([[7], [8, 9], [6]], [0, 1]) := by decide +kernel
  obtain ⟨s, reached, same⟩ := Option.map_eq_some_iff.mp runs
  obtain ⟨handed, confirmed⟩ := Prod.mk.inj same
  exact ⟨s, reached, handed, confirmed,
    e1000_sends_in_order smallLayout_apart (by decide : 0 < 1518) smallStart_begun reached⟩

/-- The frames that polls return are the first of those that the card has put into buffers, in
their order and as far as they go into the caller's buffer; the card refuses a frame
exactly while 31 wait, and a poll finds one exactly where one that the card has reported waits. -/
theorem e1000_receives_in_order (apart : l.Apart) (some' : 0 < outCapacity)
    (begun : e1000HwInit l mem = some start)
    (reached : runActions (e1000Step l outCapacity) start events = some s) :
    s.rx.returned <+: s.rx.stored.map (List.take outCapacity) ∧
      (∀ packet, s.rx.receive packet s.mem = none ↔ s.rx.stored.length = s.rx.returned.length +
      31) ∧ (s.phase = .idle → ∃ polled, e1000HwPollFrame l outCapacity s = some polled ∧
        (polled.phase = .copy ↔ s.rx.returned.length < s.rx.writtenBack)) := by
  obtain ⟨-, receive, initialized⟩ := e1000_agrees apart some' (e1000HwInit_agrees apart begun) reached
  refine ⟨?_, fun packet => ?_, fun idle => ?_⟩
  · rw [receive.returned]
    exact (List.take_prefix _ _).map _
  · rw [← receive.full, E1000Rx.receive]
    simp [receive.enabled]
  · have notReleases : ¬s.phase.Releases := by
      rw [idle]
      exact id
    have callable : (!s.initialized || outCapacity == 0) = false := by
      rw [initialized, Bool.not_true, Bool.false_or, beq_eq_false_iff_ne]
      omega
    rw [e1000HwPollFrame, idle, ← receive.dd notReleases]
    dsimp only
    rw [if_neg (by rw [callable]; exact Bool.false_ne_true)]
    cases done : e1000StatDd (s.mem (l.rx.descAt s.rx.head + 12)) with
    | false => exact ⟨s, rfl, by
      rw [idle]; exact iff_of_false (fun same => by cases same) Bool.false_ne_true⟩
    | true => exact ⟨_, rfl, iff_of_true rfl rfl⟩

theorem threeFrames_receive_in_order : ∃ s,
    runActions (e1000Step smallLayout 1518) smallStart threeFramesReceived = some s ∧
      s.rx.stored.length = 3 ∧ s.rx.returned.length = 2 ∧
      s.rx.returned <+: s.rx.stored.map (List.take 1518) ∧
      (∀ packet, s.rx.receive packet s.mem = none ↔ s.rx.stored.length = s.rx.returned.length +
      31) ∧ (s.phase = .idle → ∃ polled, e1000HwPollFrame smallLayout 1518 s = some polled ∧
        (polled.phase = .copy ↔ s.rx.returned.length < s.rx.writtenBack)) := by
  have runs : (runActions (e1000Step smallLayout 1518) smallStart threeFramesReceived).map
      (fun s => (s.rx.stored.length, s.rx.returned.length)) = some (3, 2) := by decide +kernel
  obtain ⟨s, reached, same⟩ := Option.map_eq_some_iff.mp runs
  obtain ⟨stored, returned⟩ := Prod.mk.inj same
  exact ⟨s, reached, stored, returned,
    e1000_receives_in_order smallLayout_apart (by decide : 0 < 1518) smallStart_begun reached⟩

def E1000.Awake (s : E1000) : Prop := s.tx.readTo < s.tx.handed.length → s.tx.tdh ≠ s.tx.tdt

/-- A frame is handed over while the card has at most 30 descriptors left to read. -/
def E1000Event.HandsWithin (s : E1000) : E1000Event → Prop
  | .drive => ∀ frame, s.phase = .ring frame → s.tx.handed.length - s.tx.readTo < 31
  | _ => True

instance (s : E1000) (event : E1000Event) : Decidable (event.HandsWithin s) :=
  match event with
  | .drive =>
      decidable_of_iff
        ((match s.phase with
          | .ring _ => decide (s.tx.handed.length - s.tx.readTo < 31)
          | _ => true) = true)
        (by cases phase : s.phase <;> simp [E1000Event.HandsWithin, phase])
  | .send _ | .poll | .fetch | .transmit | .writeBackTx | .receive _ | .writeBackRx _ => .isTrue trivial

theorem E1000Agrees.awake_iff (agrees : E1000Agrees l outCapacity s) :
    s.Awake ↔ s.tx.handed.length < s.tx.readTo + 32 := by
  have order := agrees.send.order
  rw [E1000.Awake, ne_eq, agrees.send.empty]
  omega

theorem handsWithin_iff (agrees : E1000Agrees l outCapacity s) {event : E1000Event} {after : E1000}
    (agrees' : E1000Agrees l outCapacity after) (step : SendsStep s after event) (awake : s.Awake) :
    after.Awake ↔ event.HandsWithin s := by
  have order := agrees.send.order
  rw [agrees'.awake_iff]
  rw [agrees.awake_iff] at awake
  rcases step with ⟨frame, rfl, phase, tx⟩ | ⟨notRing, handed, reads⟩
  · have longer : after.tx.handed.length = s.tx.handed.length + 1 := by
      rw [tx]
      exact List.length_append
    have same : after.tx.readTo = s.tx.readTo := by
      rw [tx]
      rfl
    rw [longer, same]
    constructor
    · intro room _ _
      omega
    · intro within
      have room := within frame phase
      omega
  · refine iff_of_true (by rw [handed]; omega) ?_
    cases event with
    | drive => exact fun frame phase => absurd phase (notRing rfl frame)
    | send | poll | fetch | transmit | writeBackTx | receive | writeBackRx => trivial

theorem stuck_stays (apart : l.Apart) (some' : 0 < outCapacity) {event : E1000Event} {after : E1000}
    (agrees : E1000Agrees l outCapacity s) (stuck : ¬s.Awake)
    (stepped : e1000Step l outCapacity s event = some after) :
    ¬after.Awake ∧ after.tx.handed = s.tx.handed ∧ after.tx.sent = s.tx.sent := by
  obtain ⟨agrees', step⟩ := e1000Step_agrees apart some' agrees stepped
  have full : s.tx.readTo + 32 ≤ s.tx.handed.length := Nat.le_of_not_lt (mt agrees.awake_iff.mpr stuck)
  have empty : s.tx.tdh = s.tx.tdt := by
    have order := agrees.send.order
    rw [agrees.send.empty]
    omega
  obtain ⟨handed, reads⟩ : after.tx.handed = s.tx.handed ∧ after.tx.readTo = s.tx.readTo := by
    rcases step with ⟨frame, -, phase, -⟩ | ⟨-, handed, reads | ⟨-, notEmpty⟩⟩
    · have sends := agrees.send.sends
      rw [phase] at sends
      have room := sends.2.1
      have order := agrees.send.order
      omega
    · exact ⟨handed, reads⟩
    · exact absurd empty notEmpty
  have order := agrees.send.order
  have order' := agrees'.send.order
  rw [handed, reads] at order'
  refine ⟨?_, handed, ?_⟩
  · rw [agrees'.awake_iff, handed, reads]
    omega
  · rw [agrees'.send.sent, agrees.send.sent, handed, show after.tx.sent.length = s.tx.sent.length by omega]

/-- The card sees every frame that waits in every state of a run exactly when the driver hands
frames over while the card has at most 30 descriptors left to read; from the first frame handed over
without that room on, none is handed over and none is sent any more. -/
theorem e1000_awake_iff (apart : l.Apart) (some' : 0 < outCapacity)
    (begun : e1000HwInit l mem = some start)
    (reached : runActions (e1000Step l outCapacity) start events = some s) :
    ((∀ before rest middle, events = before ++ rest →
      runActions (e1000Step l outCapacity) start before = some middle →
      middle.Awake) ↔ RunMeets (e1000Step l outCapacity) (fun s event => event.HandsWithin s) start events) ∧
    (¬s.Awake → ∀ more later, runActions (e1000Step l outCapacity) s more = some later →
      later.tx.handed = s.tx.handed ∧ later.tx.sent = s.tx.sent) := by
  have begins : E1000Agrees l outCapacity start := e1000HwInit_agrees apart begun
  refine ⟨?_, fun stuck more later goes => ?_⟩
  · have awake : start.Awake := by
      obtain ⟨⟨rxMem, rx⟩, -, rest⟩ := Option.bind_eq_some_iff.mp begun
      obtain ⟨⟨txMem, tx⟩, set, rfl⟩ := Option.map_eq_some_iff.mp rest
      rw [e1000SetupTx] at set
      split at set
      next => cases set
      next =>
        cases set
        exact fun waits => absurd waits (Nat.lt_irrefl 0)
    exact runActions_exact_reached
      (fun _ _ _ agrees stepped => (e1000Step_agrees apart some' agrees stepped).1)
      (fun _ _ _ agrees awake stepped => by
        obtain ⟨agrees', step⟩ := e1000Step_agrees apart some' agrees stepped
        exact handsWithin_iff agrees agrees' step awake)
      begins awake reached
  · have agrees := e1000_agrees apart some' begins reached
    have stays := @runActions_invariant E1000 E1000Event (e1000Step l outCapacity) (fun now =>
      E1000Agrees l outCapacity now ∧ ¬now.Awake ∧ now.tx.handed = s.tx.handed ∧ now.tx.sent = s.tx.sent)
      (fun now event next kept stepped => by
        obtain ⟨agrees, stuck, handed, sent⟩ := kept
        obtain ⟨stuck', handed', sent'⟩ := stuck_stays apart some' agrees stuck stepped
        exact ⟨(e1000Step_agrees apart some' agrees stepped).1, stuck', handed'.trans handed, sent'.trans sent⟩)
      s later more ⟨agrees, stuck, rfl, rfl⟩ goes
    exact stays.2.2

theorem threeFrames_awake : ∃ s, runActions (e1000Step smallLayout 1518) smallStart
    threeFramesSent = some s ∧ ∀ before rest middle, threeFramesSent = before ++ rest →
      runActions (e1000Step smallLayout 1518) smallStart before = some middle → middle.Awake := by
  have runs : (runActions (e1000Step smallLayout 1518) smallStart threeFramesSent).isSome =
    true := by decide +kernel
  obtain ⟨s, reached⟩ := Option.isSome_iff_exists.mp runs
  obtain ⟨awake, -⟩ := e1000_awake_iff smallLayout_apart (by decide : 0 < 1518) smallStart_begun reached
  exact ⟨s, reached, awake.mpr (by decide +kernel)⟩

end Runs

end Szczupak
