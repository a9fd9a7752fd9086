import Szczupak.Usb.KeyboardCore

/-!
What the keyboard types against what is held.  The driver compares a report with the one before it,
whatever that is, and goes through a report key by key.
-/

namespace Szczupak.Usb

def Printable (key : UInt8) : Prop := usbHidUsageToAscii key false false ≠ 0

def Acts (key : UInt8) : Prop := key = usageCapsLock ∨ Printable key

/-- The keys that are held, with the ticks of their presses. -/
abbrev Held : Type := UInt8 → Option UInt64

def Phantom (report : BootReport) : Prop := ∀ key ∈ report.keys, key = 1

instance (report : BootReport) : Decidable (Phantom report) :=
  inferInstanceAs (Decidable (∀ key ∈ report.keys, key = 1))

def heldAfter (held : Held) (report : BootReport) (now : UInt64) : Held :=
  if Phantom report then held
  else fun key => if key ∈ report.keys then some ((held key).getD now) else none

def KeyEvent.presses (key : UInt8) : KeyEvent → Bool
  | .typed usage _ => usage == key
  | .capsLock => usageCapsLock == key
  | .repeated _ _ => false

/-- A key acts once when it is pressed; what it types later is a repeat, after the delay. -/
structure RightStep (held : Held) (report : BootReport) (now : UInt64) (before after : HidKeyboard)
    (events : List KeyEvent) : Prop where
  pressed : ∀ key, Acts key →
    events.countP (KeyEvent.presses key) = if key ∈ report.keys ∧ held key = none then 1 else 0
  repeats : ∀ key c, .repeated key c ∈ events →
    ∃ press, held key = some press ∧ key ∈ report.keys ∧
    press.toNat + usbKbdRepeatDelayTicks.toNat ≤ now.toNat
  caps : after.capsLock =
    (before.capsLock ^^ decide (usageCapsLock ∈ report.keys ∧ held usageCapsLock = none))

def RightRun : Held → HidKeyboard → List (BootReport × UInt64) →
    List (HidKeyboard × List KeyEvent) → Prop
  | _, _, [], [] => True
  | held, before, (report, now) :: inputs, (after, events) :: outputs =>
      RightStep held report now before after events ∧ RightRun (heldAfter held report now) after inputs outputs
  | _, _, _, _ => False

/-- A held key is not reported right after a phantom report, and a key that is pressed is reported
in one place. -/
structure TidyStep (held : Held) (last report : BootReport) : Prop where
  fresh : Phantom last → ∀ key ∈ report.keys, Acts key → held key = none
  once : ∀ key ∈ report.keys, Acts key → held key = none → report.keys.count key = 1

def TidyRun : Held → BootReport → List (BootReport × UInt64) → Prop
  | _, _, [] => True
  | held, last, (report, now) :: inputs =>
      TidyStep held last report ∧ TidyRun (heldAfter held report now) report inputs

/-- The clock never goes back, and stays where a delay can be added. -/
def ClockRuns : Nat → List (BootReport × UInt64) → Prop
  | _, [] => True
  | latest, (_, now) :: inputs => latest ≤ now.toNat ∧ now.toNat < 2 ^ 64 - 40 ∧
    ClockRuns now.toNat inputs

theorem usageToAscii_zero (key : UInt8) (shift capsLock : Bool) :
    usbHidUsageToAscii key shift capsLock = 0 ↔ usbHidUsageToAscii key false false = 0 := by
  have every : ∀ n : Fin 256, ∀ shift capsLock : Bool,
      usbHidUsageToAscii (UInt8.ofNat n) shift capsLock = 0 ↔
      usbHidUsageToAscii (UInt8.ofNat n) false false = 0 := by
    decide +kernel
  have here := every ⟨key.toNat, key.toNat_lt⟩ shift capsLock
  rwa [UInt8.ofNat_toNat] at here

theorem usageToAscii_printable (key : UInt8) (shift capsLock : Bool) :
    usbHidUsageToAscii key shift capsLock ≠ 0 ↔ Printable key :=
  not_congr (usageToAscii_zero key shift capsLock)

theorem Printable.usage {key : UInt8} (printable : Printable key) : key ≠ 0 ∧ key ≠ 1 ∧
    key ≠ usageCapsLock := by
  refine ⟨?_, ?_, ?_⟩ <;> rintro rfl <;> exact printable (by decide)

theorem Acts.usage {key : UInt8} (acts : Acts key) : key ≠ 0 ∧ key ≠ 1 := by
  rcases acts with rfl | printable
  · decide
  · exact ⟨printable.usage.1, printable.usage.2.1⟩

section Pressed

variable {shift : Bool} {last keys : List UInt8} {capsLock : Bool} {candidate key : UInt8}

theorem pressKeys_count (acts : Acts key) :
    (pressKeys shift last keys capsLock candidate).2.2.countP (KeyEvent.presses key) =
      if key ∈ last then 0 else keys.count key := by
  induction keys generalizing capsLock candidate with
  | nil => simp [pressKeys]
  | cons first keys ih =>
      have some' := acts.usage.1
      rw [pressKeys, List.count_cons]
      split
      next empty =>
        rw [ih, empty]
        simp [some'.symm]
      next =>
        split
        next held =>
          rw [ih]
          split
          · rfl
          next fresh =>
            have other : first ≠ key := by
              rintro rfl
              exact fresh held
            simp [other]
        next free =>
          split
          next caps =>
            dsimp only
            rw [List.countP_cons, ih, KeyEvent.presses, caps]
            by_cases same : usageCapsLock = key
            · have fresh : key ∉ last := by
                rw [← same, ← caps]
                exact free
              simp [same, fresh]
            · simp [same]
          next letter =>
            dsimp only
            split
            next =>
              dsimp only
              rw [List.countP_cons, ih, KeyEvent.presses]
              by_cases same : first = key
              · have fresh : key ∉ last := by
                  rw [← same]
                  exact free
                simp [same, fresh]
              · simp [same]
            next silent =>
              rw [ih]
              have other : first ≠ key := by
                rintro rfl
                rcases acts with caps | printable
                · exact letter caps
                · exact silent ((usageToAscii_printable _ _ _).mpr printable)
              simp [other]

theorem pressKeys_caps :
    (pressKeys shift last keys capsLock candidate).1 =
      (capsLock ^^ decide ((pressKeys shift last keys capsLock candidate).2.2.countP
        (KeyEvent.presses usageCapsLock) % 2 = 1)) := by
  induction keys generalizing capsLock candidate with
  | nil => simp [pressKeys]
  | cons first keys ih =>
      rw [pressKeys]
      split
      · exact ih
      · split
        · exact ih
        · split
          next =>
            dsimp only
            rw [ih, List.countP_cons, KeyEvent.presses]
            generalize List.countP _ _ = count
            rcases Nat.mod_two_eq_zero_or_one count with even | odd
            · simp [Nat.add_mod, even]
            · simp [Nat.add_mod, odd]
          next letter =>
            dsimp only
            split
            · dsimp only
              rw [ih, List.countP_cons, KeyEvent.presses]
              simp [letter]
            · exact ih

theorem pressKeys_candidate :
    (pressKeys shift last keys capsLock candidate).2.1 = candidate ∨
      (pressKeys shift last keys capsLock candidate).2.1 ∈ keys ∧
        Printable (pressKeys shift last keys capsLock candidate).2.1 := by
  induction keys generalizing capsLock candidate with
  | nil => exact Or.inl rfl
  | cons first keys ih =>
      have later {capsLock : Bool} : (pressKeys shift last keys capsLock candidate).2.1 =
          candidate ∨ (pressKeys shift last keys capsLock candidate).2.1 ∈ first :: keys ∧
            Printable (pressKeys shift last keys capsLock candidate).2.1 :=
        ih.imp_right fun both => ⟨List.mem_cons_of_mem _ both.1, both.2⟩
      rw [pressKeys]
      split
      · exact later
      · split
        · exact later
        · split
          · exact later
          · dsimp only
            split
            next typed =>
              dsimp only
              split
              next =>
                rcases @ih capsLock first with same | ⟨member, printable⟩
                · rw [same]
                  exact Or.inr ⟨List.mem_cons_self, (usageToAscii_printable _ _ _).mp typed⟩
                · exact Or.inr ⟨List.mem_cons_of_mem _ member, printable⟩
              next => exact later
            next => exact later

theorem pressKeys_no_repeat {c : UInt8} :
    .repeated key c ∉ (pressKeys shift last keys capsLock candidate).2.2 := by
  induction keys generalizing capsLock candidate with
  | nil => exact List.not_mem_nil
  | cons first keys ih =>
      rw [pressKeys]
      split
      · exact ih
      · split
        · exact ih
        · split
          · simp only [List.mem_cons, reduceCtorEq, false_or]
            exact ih
          · dsimp only
            split
            · simp only [List.mem_cons, reduceCtorEq, false_or]
              exact ih
            · exact ih

theorem firstPrintable_spec : firstPrintable shift capsLock keys = 0 ∨
    firstPrintable shift capsLock keys ∈ keys ∧ Printable (firstPrintable shift capsLock keys) := by
  rw [firstPrintable]
  cases found : keys.find? fun key => key ≠ 0 ∧ key ≠ usageCapsLock ∧
    usbHidUsageToAscii key shift capsLock ≠ 0 with
  | none => exact Or.inl rfl
  | some key =>
      have right := List.find?_some found
      simp only [decide_eq_true_eq] at right
      exact Or.inr ⟨List.mem_of_find?_eq_some found, (usageToAscii_printable _ _ _).mp right.2.2⟩

end Pressed

theorem advanceRepeat_some {turns : Nat} {next now : UInt64} (due : next.toNat ≤ now.toNat)
    (room : now.toNat < 2 ^ 64 - 40) (enough : now.toNat < next.toNat + 5 * turns) :
    ∃ later, advanceRepeat turns next now = some later ∧ now.toNat < later.toNat := by
  induction turns generalizing next with
  | zero => omega
  | succ turns ih =>
      have step : (next + usbKbdRepeatRateTicks).toNat = next.toNat + 5 := by
        rw [UInt64.toNat_add, Nat.mod_eq_of_lt]
        · rfl
        · have rate : usbKbdRepeatRateTicks.toNat = 5 := rfl
          omega
      rw [advanceRepeat]
      split
      next behind => exact ih (UInt64.le_iff_toNat_le.mp behind) (by omega)
      next ahead => exact ⟨_, rfl, by rw [UInt64.le_iff_toNat_le] at ahead; omega⟩

structure Follows (held : Held) (hid : HidKeyboard) (latest : Nat) : Prop where
  seen : ¬Phantom hid.lastReport → ∀ key, Acts key → ((held key).isSome ↔ key ∈ hid.lastReport.keys)
  times : ∀ key press, held key = some press → press.toNat ≤ latest
  repeating : hid.repeatUsage ≠ 0 → ∃ press, held hid.repeatUsage = some press ∧
    press.toNat + usbKbdRepeatDelayTicks.toNat ≤ hid.repeatNextTick.toNat

section Repeat

variable {held : Held} {hid : HidKeyboard} {report : BootReport} {candidate : UInt8} {now : UInt64}
    {latest : Nat}

def Candidate (report : BootReport) (candidate : UInt8) : Prop :=
  candidate = 0 ∨ candidate ∈ report.keys ∧ Printable candidate

theorem heldAfter_candidate (held : Held) (given : candidate ∈ report.keys ∧ Printable candidate)
    (now : UInt64) :
    ¬Phantom report ∧ heldAfter held report now candidate = some ((held candidate).getD now) := by
  have real : ¬Phantom report := fun phantom => given.2.usage.2.1 (phantom candidate given.1)
  refine ⟨real, ?_⟩
  rw [heldAfter, if_neg real, if_pos given.1]

theorem heldAfter_times (follows : Follows held hid latest) (later : latest ≤ now.toNat) :
    ∀ key press, heldAfter held report now key = some press → press.toNat ≤ now.toNat := by
  intro key press pressed
  rw [heldAfter] at pressed
  split at pressed
  · exact Nat.le_trans (follows.times key press pressed) later
  · dsimp only at pressed
    split at pressed
    · rw [Option.some.injEq] at pressed
      subst pressed
      cases before : held key with
      | none => exact Nat.le_refl _
      | some press => exact Nat.le_trans (follows.times key press before) later
    · exact absurd pressed (by simp)

theorem repeatKey_spec (follows : Follows held hid latest) (later : latest ≤ now.toNat)
    (room : now.toNat < 2 ^ 64 - 40) (given : Candidate report candidate) (shift capsLock : Bool) :
    ∃ after events, repeatKey shift candidate now { hid with capsLock } = some (after, events) ∧
      after.capsLock = capsLock ∧
      (after.repeatUsage ≠ 0 → ∃ press, heldAfter held report now after.repeatUsage = some press ∧
        press.toNat + usbKbdRepeatDelayTicks.toNat ≤ after.repeatNextTick.toNat) ∧
      ∀ event ∈ events, ∃ key c press, event = .repeated key c ∧ held key = some press ∧
        key ∈ report.keys ∧ press.toNat + usbKbdRepeatDelayTicks.toNat ≤ now.toNat := by
  have delay : usbKbdRepeatDelayTicks.toNat = 35 := rfl
  rw [repeatKey]
  split
  next => exact ⟨_, _, rfl, rfl, fun some' => absurd rfl some', by simp⟩
  next some' =>
    have real := given.resolve_left some'
    obtain ⟨_, heldNow⟩ := heldAfter_candidate held real now
    split
    next =>
      refine ⟨_, _, rfl, rfl, fun _ => ⟨_, heldNow, ?_⟩, by simp⟩
      have pressed := heldAfter_times follows later candidate _ heldNow
      dsimp only
      rw [UInt64.toNat_add, Nat.mod_eq_of_lt (by omega)]
      omega
    next same =>
      rw [ne_eq, not_not] at same
      obtain ⟨press, heldBefore, delayed⟩ := follows.repeating (by rw [← same]; exact some')
      have kept : heldAfter held report now hid.repeatUsage = some press := by
        rw [same] at heldNow
        rw [heldNow, heldBefore]
        rfl
      split
      next due =>
        have reached : hid.repeatNextTick.toNat ≤ now.toNat := UInt64.le_iff_toNat_le.mp due.2
        obtain ⟨next, advanced, ahead⟩ := @advanceRepeat_some (2 ^ 64) _ _ reached room (by omega)
        rw [advanced]
        refine ⟨_, _, rfl, rfl, fun _ => ⟨press, kept, ?_⟩, ?_⟩
        · dsimp only
          omega
        · intro event member
          split at member
          · rw [List.mem_singleton] at member
            refine ⟨candidate, _, press, member, ?_, real.1, by omega⟩
            rw [same]
            exact heldBefore
          · exact absurd member List.not_mem_nil
      next => exact ⟨_, _, rfl, rfl, fun _ => ⟨press, kept, delayed⟩, by simp⟩

theorem processKeyboard_spec (follows : Follows held hid latest) (later : latest ≤ now.toNat)
    (room : now.toNat < 2 ^ 64 - 40) (report : BootReport) :
    ∃ after events, usbHidProcessKeyboard hid report 8 now = some (after, events) ∧
      after.lastReport = report ∧ Follows (heldAfter held report now) after now.toNat ∧
      (RightStep held report now hid after events ↔ TidyStep held hid.lastReport report) := by
  rw [usbHidProcessKeyboard, if_neg (by decide)]
  have counts {key : UInt8} (acts : Acts key) :=
    @pressKeys_count report.shift hid.lastReport.keys report.keys hid.capsLock 0 key acts
  have caps := @pressKeys_caps report.shift hid.lastReport.keys report.keys hid.capsLock 0
  have chosen := @pressKeys_candidate report.shift hid.lastReport.keys report.keys hid.capsLock 0
  have quiet {key c : UInt8} := @pressKeys_no_repeat report.shift hid.lastReport.keys report.keys
    hid.capsLock 0 key c
  generalize pressKeys report.shift hid.lastReport.keys report.keys hid.capsLock 0 =
    result at counts caps chosen quiet
  obtain ⟨capsLock, candidate, typed⟩ := result
  dsimp only at counts caps chosen quiet ⊢
  have given : Candidate report
      (if candidate = 0 then firstPrintable report.shift capsLock report.keys else candidate) := by
    split
    next => exact firstPrintable_spec
    next some' => exact Or.inr (chosen.resolve_left some')
  obtain ⟨after, repeated, ran, sameCaps, repeating, delayed⟩ :=
    repeatKey_spec follows later room given report.shift capsLock
  rw [ran]
  refine ⟨_, _, rfl, rfl, ⟨?_, heldAfter_times follows later, repeating⟩, ?_⟩
  · intro real key acts
    dsimp only at real ⊢
    rw [heldAfter, if_neg real]
    split
    · simp [*]
    · simp [*]
  have presses {key : UInt8} (acts : Acts key) : (typed ++ repeated).countP (KeyEvent.presses key) =
      if key ∈ hid.lastReport.keys then 0 else report.keys.count key := by
    have none' : repeated.countP (KeyEvent.presses key) = 0 := by
      rw [List.countP_eq_zero]
      intro event member
      obtain ⟨other, c, _, rfl, _⟩ := delayed event member
      exact Bool.false_ne_true
    rw [List.countP_append, none', counts acts, Nat.add_zero]
  have phantom {key : UInt8} (acts : Acts key) (member : key ∈ hid.lastReport.keys) :
    ¬Phantom hid.lastReport :=
    fun phantom => acts.usage.2 (phantom key member)
  have absent {key : UInt8} (acts : Acts key) (free : held key = none) : key ∉ hid.lastReport.keys := by
    intro before
    have heldBefore := (follows.seen (phantom acts before) key acts).mpr before
    rw [free] at heldBefore
    exact absurd heldBefore (by decide)
  constructor
  · intro right
    constructor
    · intro rolled key member acts
      have once := right.pressed key acts
      rw [presses acts, if_neg fun before => phantom acts before rolled] at once
      by_contra heldBefore
      rw [if_neg fun both => heldBefore both.2] at once
      exact List.count_eq_zero.mp once member
    · intro key member acts free
      have once := right.pressed key acts
      rwa [presses acts, if_neg (absent acts free), if_pos ⟨member, free⟩] at once
  · intro tidy
    have pressed : ∀ key, Acts key → (typed ++ repeated).countP (KeyEvent.presses key) =
        if key ∈ report.keys ∧ held key = none then 1 else 0 := by
      intro key acts
      rw [presses acts]
      by_cases before : key ∈ hid.lastReport.keys
      · rw [if_pos before, if_neg fun both => absent acts both.2 before]
      · rw [if_neg before]
        by_cases member : key ∈ report.keys
        · have free : held key = none := by
            by_cases rolled : Phantom hid.lastReport
            · exact tidy.fresh rolled key member acts
            · rw [← Option.not_isSome_iff_eq_none, follows.seen rolled key acts]
              exact before
          rw [if_pos ⟨member, free⟩]
          exact tidy.once key member acts free
        · rw [if_neg fun both => member both.1]
          exact List.count_eq_zero.mpr member
    refine ⟨pressed, ?_, ?_⟩
    · intro key c member
      rcases List.mem_append.mp member with early | late
      · exact absurd early quiet
      · obtain ⟨_, _, press, same, heldBefore, again, waited⟩ := delayed _ late
        obtain ⟨rfl, rfl⟩ := KeyEvent.repeated.inj same
        exact ⟨press, heldBefore, again, waited⟩
    · have acts : Acts usageCapsLock := Or.inl rfl
      have toggles := pressed usageCapsLock acts
      rw [presses acts, ← counts acts] at toggles
      dsimp only
      rw [sameCaps, caps, toggles]
      split
      next pressedNow => simp [pressedNow]
      next idle => simp [idle]

end Repeat

section Run

variable {held : Held} {hid : HidKeyboard} {inputs : List (BootReport × UInt64)} {latest : Nat}

theorem runKeyboard_spec (follows : Follows held hid latest) (clock : ClockRuns latest inputs) :
    ∃ outputs, runKeyboard hid inputs = some outputs ∧
      (RightRun held hid inputs outputs ↔ TidyRun held hid.lastReport inputs) := by
  induction inputs generalizing held hid latest with
  | nil => exact ⟨[], rfl, Iff.rfl⟩
  | cons input inputs ih =>
      obtain ⟨report, now⟩ := input
      obtain ⟨later, room, clock⟩ := clock
      obtain ⟨after, events, step, last, follows, right⟩ := processKeyboard_spec follows later room report
      obtain ⟨outputs, run, rest⟩ := ih follows clock
      refine ⟨(after, events) :: outputs, ?_, ?_⟩
      · rw [runKeyboard, step]
        dsimp only
        rw [run]
        rfl
      · rw [last] at rest
        exact and_congr right rest

end Run

theorem keyboardInit_follows : Follows (fun _ => none) keyboardInit 0 := by
  refine ⟨fun _ key acts => ?_, fun _ _ pressed => absurd pressed (by simp),
    fun some' => absurd rfl some'⟩
  have empty : key ∉ keyboardInit.lastReport.keys := fun member =>
    acts.usage.1 (List.eq_of_mem_replicate member)
  simp [empty]

/-- Every press of a printable key or of caps lock acts once, and every further character is a
repeat after the delay, exactly where no held key follows a phantom report and no report presses a
key in two places. -/
theorem keyboard_presses_once {inputs : List (BootReport × UInt64)} (clock : ClockRuns 0 inputs) :
    ∃ outputs, runKeyboard keyboardInit inputs = some outputs ∧
      (RightRun (fun _ => none) keyboardInit inputs outputs ↔
        TidyRun (fun _ => none) keyboardInit.lastReport inputs) :=
  runKeyboard_spec keyboardInit_follows clock

/-- `a` is held for half a second, then `b` is pressed too and `a` released. -/
def longPress : List (BootReport × UInt64) :=
  [(⟨0, 0, [4, 0, 0, 0, 0, 0], rfl⟩, 100), (⟨0, 0, [4, 0, 0, 0, 0, 0], rfl⟩, 150),
   (⟨0, 0, [4, 5, 0, 0, 0, 0], rfl⟩, 151), (⟨0, 0, [5, 0, 0, 0, 0, 0], rfl⟩, 152)]

theorem longPress_once : ∃ outputs, runKeyboard keyboardInit longPress = some outputs ∧
    outputs.map Prod.snd = [[.typed 4 97], [.repeated 4 97], [.typed 5 98], []] ∧
    RightRun (fun _ => none) keyboardInit longPress outputs := by
  obtain ⟨outputs, runs, right⟩ := @keyboard_presses_once longPress
    ⟨by decide, by decide, by decide, by decide, by decide, by decide, by decide, by decide, trivial⟩
  have events : (runKeyboard keyboardInit longPress).map (fun outputs => outputs.map Prod.snd) =
      some [[.typed 4 97], [.repeated 4 97], [.typed 5 98], []] := by decide +kernel
  rw [runs] at events
  have plain : ∀ keys : List UInt8, (∀ key ∈ keys, key = 0 ∨ keys.count key = 1) →
      ∀ key ∈ keys, Acts key → keys.count key = 1 :=
    fun keys once key member acts => (once key member).resolve_left acts.usage.1
  refine ⟨outputs, runs, Option.some_inj.mp events, right.mpr ⟨?_, ?_, ?_, ?_, trivial⟩⟩
  all_goals exact ⟨fun phantom => absurd phantom (by decide), fun key member acts _ =>
    plain _ (by decide +kernel) key member acts⟩

def rolledOver : List (BootReport × UInt64) :=
  [(⟨0, 0, [4, 0, 0, 0, 0, 0], rfl⟩, 100), (⟨0, 0, [1, 1, 1, 1, 1, 1], rfl⟩, 101),
    (⟨0, 0, [4, 0, 0, 0, 0, 0], rfl⟩, 102)]

theorem rolledOver_twice : (runKeyboard keyboardInit rolledOver).map
      (fun outputs => outputs.map Prod.snd) = some [[.typed 4 97], [], [.typed 4 97]] ∧
    (rolledOver.take 2).foldl (fun held input => heldAfter held input.1 input.2) (fun _ => none) 4 =
    some 100 := by
  decide +kernel

end Szczupak.Usb
