import TbsMedia.Lib.Run
import TbsMedia.Rc.KeyEvents

/-!
The timer that releases a key (`timer_keyup`). It is armed by `rc_keydown` and
`rc_repeat` and serves whatever key is down when it expires. Time runs in
jiffies from zero and the code sees it modulo `2 ^ 64`. A timer that has expired
starts its callback, which may have to wait for the lock while other calls run.
-/

namespace TbsMedia.Rc

open Lib List Option

/-- A device with its clock. Beside the device the state keeps what the reports
tell about the key that is down, with the time of the last `rc_keydown` or
`rc_repeat` for it, and the releases that the timer has made: that time, and
the time of the release. -/
structure TimedDev where
  key : KeyDev
  now : Nat
  /-- The callback of the timer has been started and has not got the lock yet. -/
  callback : Bool
  held : Option (Option Nat)
  timerReleases : List (Option Nat × Nat)

inductive TimedInput
  | wait (jiffies : Nat)
  | keydown (scancode : UInt32) (toggle : UInt8)
  | keydownNotimeout (scancode : UInt32) (toggle : UInt8)
  | repeated
  | keyup
  | table (rcMap : RcMap)
  /-- The pending timer expires and its callback is started. -/
  | expire
  /-- The callback runs `ir_timer_keyup`. -/
  | timerKeyup

/-- What the reports of a call make of the key that is down; a press is one of
the given kind. -/
def heldByReports (held : Option (Option Nat)) (kind : Option Nat)
    (reports : List (UInt32 × Bool)) : Option (Option Nat) :=
  match reports.getLast? with
  | none => held
  | some (_, false) => none
  | some (_, true) => some kind

variable (timeout : KeypressTimeout)

def jiffies (s : TimedDev) : UInt64 := UInt64.ofNat s.now

def timedStep (s : TimedDev) : TimedInput → Option TimedDev
  | .wait n => some { s with now := s.now + n }
  | .keydown scancode toggle => do
    let (key, events) ← rcKeydown timeout s.key scancode toggle (jiffies s)
    -- a key that is down behind the call was pressed or renewed by it
    let held := (heldByReports s.held (some s.now) (keyReports events)).map
      (fun _ => some s.now)
    some { s with key := key, held := held }
  | .keydownNotimeout scancode toggle => do
    let (key, events) ← rcKeydownNotimeout s.key scancode toggle
    some { s with key := key, held := heldByReports s.held none (keyReports events) }
  | .repeated =>
    some { s with key := (rcRepeat timeout s.key (jiffies s)).1,
                  held := s.held.map (fun _ => some s.now) }
  | .keyup =>
    let (key, events) := rcKeyup s.key
    some { s with key := key, held := heldByReports s.held none (keyReports events) }
  | .table rcMap => some { s with key := { s.key with dev := { s.key.dev with rcMap := rcMap } } }
  | .expire =>
    match s.key.timerKeyup with
    | none => none
    | some expires =>
      if timeBeforeEq expires (jiffies s) && !s.callback then
        some { s with key := { s.key with timerKeyup := none }, callback := true }
      else none
  | .timerKeyup =>
    if s.callback then
      let (key, events) := irTimerKeyup s.key (jiffies s)
      let held := heldByReports s.held none (keyReports events)
      let released := if keyReports events = [] then [] else [(s.held.getD none, s.now)]
      some { s with key := key, callback := false, held := held,
                    timerReleases := s.timerReleases ++ released }
    else none

def timedStart (dev : RcDev) : TimedDev where
  key := newKeyDev dev
  now := 0
  callback := false
  held := none
  timerReleases := []

def ReleasedInTime (s : TimedDev) : Prop :=
  ∀ release ∈ s.timerReleases, ∀ renewed, release.1 = some renewed →
    renewed + timeout.jiffies.toNat ≤ release.2

/-- The timer has only released keys that `rc_keydown` or `rc_repeat` was called for. -/
def ReleasedTimed (s : TimedDev) : Prop :=
  ∀ release ∈ s.timerReleases, release.1 ≠ none

/-- A call of `rc_keydown_notimeout` that presses a key finds the timer at rest:
neither pending nor with a callback on its way. -/
def TimerAtRest (s : TimedDev) : TimedInput → Prop
  | .keydownNotimeout scancode toggle =>
    newEvent s.key scancode toggle = true →
      s.key.timerKeyup = none ∧ s.callback = false
  | _ => True

/-- What the timer's state says about the key that is down; two parts need that
every step has met the condition. -/
structure TimerInv (rested : Prop) (s : TimedDev) : Prop where
  down : s.held.isSome = s.key.keypressed
  untimed : rested → s.held = some none → s.key.timerKeyup = none ∧ s.callback = false
  timed : ∀ renewed, s.held = some (some renewed) →
    renewed ≤ s.now ∧ s.key.keyupJiffies = UInt64.ofNat renewed + timeout.jiffies
  inTime : ReleasedInTime timeout s
  released : rested → ReleasedTimed s

/-- The check of `keyup_jiffies` is never passed early, also when jiffies wrap. -/
theorem not_early {renewed now : Nat} (hle : renewed ≤ now)
    (hdue : timeBeforeEq (UInt64.ofNat renewed + timeout.jiffies) (UInt64.ofNat now) = true) :
    renewed + timeout.jiffies.toNat ≤ now := by
  have hbound := timeout.bound
  simp only [timeBeforeEq, decide_eq_true_eq, UInt64.lt_iff_toNat_lt, UInt64.toNat_sub,
    UInt64.toNat_add, UInt64.toNat_ofNat', UInt64.reduceToNat] at hdue
  unfold maxJiffyOffset at hbound
  omega

theorem irDoKeydown_frame (d : KeyDev) (scancode keycode : UInt32) (toggle : UInt8) :
    (irDoKeydown d scancode keycode toggle).1.keyupJiffies = d.keyupJiffies ∧
      (irDoKeydown d scancode keycode toggle).1.timerKeyup = d.timerKeyup ∧
      (irDoKeydown d scancode keycode toggle).1.keypressed =
        if newEvent d scancode toggle then decide (keycode ≠ keyReserved) else true := by
  cases hnew : newEvent d scancode toggle <;> cases hdown : d.keypressed <;>
    by_cases hkey : keycode = keyReserved <;>
    simp_all [irDoKeydown, irDoKeyup, newEvent]

variable {held : Option (Option Nat)} {d : KeyDev} {next s : TimedDev} {toggle : UInt8}
  {scancode : UInt32}

theorem heldByReports_keydown (hdown : held.isSome = d.keypressed) (kind : Option Nat)
    (scancode keycode : UInt32) (toggle : UInt8) :
    heldByReports held kind (keyReports (irDoKeydown d scancode keycode toggle).2) =
      if newEvent d scancode toggle then
        if keycode = keyReserved then none else some kind
      else held := by
  rw [irDoKeydown_reports]
  rcases hnew : newEvent d scancode toggle with _ | _
  · rfl
  by_cases hkey : keycode = keyReserved
  · cases hpress : d.keypressed with
    | false =>
      rw [hpress, isSome_eq_false_iff, isNone_iff_eq_none] at hdown
      simp [heldByReports, hkey, hdown]
    | true => simp [heldByReports, hkey]
  · simp [heldByReports, hkey]

theorem heldByReports_keyup (hdown : held.isSome = d.keypressed) (kind : Option Nat) :
    heldByReports held kind (keyReports (irDoKeyup d true).2) = none := by
  rw [irDoKeyup_reports]
  cases hpress : d.keypressed with
  | false =>
    rw [hpress, isSome_eq_false_iff, isNone_iff_eq_none] at hdown
    exact hdown
  | true => rfl

theorem irDoKeyup_keypressed (d : KeyDev) : (irDoKeyup d true).1.keypressed = false := by
  cases hpress : d.keypressed <;> simp [irDoKeyup, hpress]

variable {timeout} {rested : Prop}

section

variable (hinv : TimerInv timeout rested s)
include hinv

theorem TimerInv.keydown (hstep : timedStep timeout s (.keydown scancode toggle) = some next) :
    TimerInv timeout rested next := by
  simp only [timedStep, rcKeydown, bind_eq_bind, bind_eq_some_iff, Option.some.injEq] at hstep
  obtain ⟨_, ⟨keycode, -, rfl⟩, rfl⟩ := hstep
  obtain ⟨-, -, hpress⟩ := irDoKeydown_frame s.key scancode keycode toggle
  simp only [heldByReports_keydown hinv.down]
  have hheld : ((if newEvent s.key scancode toggle = true then
      if keycode = keyReserved then none else some (some s.now) else s.held).map
        (fun _ => some s.now)).isSome =
      (irDoKeydown s.key scancode keycode toggle).1.keypressed := by
    rw [hpress]
    cases hnew : newEvent s.key scancode toggle with
    | false =>
      have hdown : s.key.keypressed = true := by
        simp only [newEvent, Bool.or_eq_false_iff, Bool.not_eq_false'] at hnew
        exact hnew.1.1
      simp [hinv.down, hdown]
    | true => by_cases hkey : keycode = keyReserved <;> simp [hkey]
  refine ⟨?_, ?_, ?_, hinv.inTime, hinv.released⟩
  · rw [hheld]
    split <;> rfl
  · intro _ huntimed
    simp at huntimed
  intro renewed htimed
  simp only at htimed
  rw [htimed, isSome_some] at hheld
  simp only [map_eq_some_iff, Option.some.injEq] at htimed
  obtain ⟨_, -, rfl⟩ := htimed
  rw [if_pos hheld.symm]
  exact ⟨le_rfl, rfl⟩

theorem TimerInv.keydownNotimeout
    (hstep : timedStep timeout s (.keydownNotimeout scancode toggle) = some next)
    (hrest : rested → TimerAtRest s (.keydownNotimeout scancode toggle)) :
    TimerInv timeout rested next := by
  simp only [timedStep, rcKeydownNotimeout, bind_eq_bind, bind_eq_some_iff,
    Option.some.injEq] at hstep
  obtain ⟨_, ⟨keycode, -, rfl⟩, rfl⟩ := hstep
  obtain ⟨hjiffies, htimer, hpress⟩ := irDoKeydown_frame s.key scancode keycode toggle
  simp only [heldByReports_keydown hinv.down]
  cases hnew : newEvent s.key scancode toggle with
  | false =>
    have hdown : s.key.keypressed = true := by
      simp only [newEvent, Bool.or_eq_false_iff, Bool.not_eq_false'] at hnew
      exact hnew.1.1
    rw [hnew] at hpress
    refine ⟨?_, ?_, ?_, hinv.inTime, hinv.released⟩
    · simp [hpress, hinv.down, hdown]
    · simpa [htimer] using hinv.untimed
    · simpa [hjiffies] using hinv.timed
  | true =>
    rw [hnew] at hpress
    refine ⟨?_, ?_, ?_, hinv.inTime, hinv.released⟩
    · simp only [hpress, if_true]
      by_cases hkey : keycode = keyReserved <;> simp [hkey]
    · intro hrested _
      simpa [htimer] using hrest hrested hnew
    · by_cases hkey : keycode = keyReserved <;> simp [hkey]

theorem TimerInv.repeated :
    TimerInv timeout rested
      { s with key := (rcRepeat timeout s.key (jiffies s)).1,
               held := s.held.map (fun _ => some s.now) } := by
  refine ⟨?_, ?_, ?_, hinv.inTime, hinv.released⟩
  · simp only [isSome_map, hinv.down, rcRepeat]
    split <;> rfl
  · intro _ huntimed
    simp at huntimed
  intro renewed htimed
  simp only [map_eq_some_iff, Option.some.injEq] at htimed
  obtain ⟨kind, hkind, rfl⟩ := htimed
  have hdown := hinv.down
  rw [hkind, isSome_some] at hdown
  simp only [rcRepeat, if_pos hdown.symm]
  exact ⟨le_rfl, rfl⟩

theorem TimerInv.keyup (hkey : next.key = (irDoKeyup s.key true).1)
    (hheld : next.held = heldByReports s.held none (keyReports (irDoKeyup s.key true).2))
    (hinTime : ReleasedInTime timeout next) (hrel : rested → ReleasedTimed next) :
    TimerInv timeout rested next := by
  rw [heldByReports_keyup hinv.down] at hheld
  refine ⟨?_, by simp [hheld], by simp [hheld], hinTime, hrel⟩
  rw [hheld, hkey, irDoKeyup_keypressed]
  rfl

theorem TimerInv.timerRelease (hcallback : s.callback = true)
    (hdue : timeBeforeEq s.key.keyupJiffies (jiffies s) = true) {release : Option Nat × Nat}
    (hmem : release ∈ if keyReports (irDoKeyup s.key true).2 = [] then []
      else [(s.held.getD none, s.now)]) :
    (∀ renewed, release.1 = some renewed → renewed + timeout.jiffies.toNat ≤ release.2) ∧
      (rested → release.1 ≠ none) := by
  rw [irDoKeyup_reports] at hmem
  have hdown : s.key.keypressed = true := by
    by_contra hup
    simp [hup] at hmem
  simp only [hdown, if_true, cons_ne_nil, if_false, mem_singleton] at hmem
  subst hmem
  obtain ⟨kind, hheld⟩ := isSome_iff_exists.mp (hinv.down.trans hdown)
  rw [hheld]
  constructor
  · rintro renewed rfl
    obtain ⟨hle, hjiffies⟩ := hinv.timed renewed hheld
    rw [hjiffies] at hdue
    exact not_early timeout hle hdue
  · rintro hrested rfl
    exact absurd (hinv.untimed hrested hheld).2 (by simp [hcallback])

theorem TimerInv.timerKeyup (hstep : timedStep timeout s .timerKeyup = some next) :
    TimerInv timeout rested next := by
  simp only [timedStep] at hstep
  split at hstep
  case isFalse => exact absurd hstep (by simp)
  case isTrue hcallback =>
    cases hstep
    unfold irTimerKeyup
    split
    · rename_i hdue
      apply hinv.keyup rfl rfl
      · intro release hmem
        rcases mem_append.mp hmem with hmem | hmem
        · exact hinv.inTime release hmem
        · exact (hinv.timerRelease hcallback hdue hmem).1
      · intro hrested release hmem
        rcases mem_append.mp hmem with hmem | hmem
        · exact hinv.released hrested release hmem
        · exact (hinv.timerRelease hcallback hdue hmem).2 hrested
    · refine ⟨hinv.down, ?_, hinv.timed, ?_, ?_⟩
      · intro hrested huntimed
        exact ⟨(hinv.untimed hrested huntimed).1, rfl⟩
      · simpa [keyReports, ReleasedInTime] using hinv.inTime
      · simpa [keyReports, ReleasedTimed] using hinv.released

end

theorem TimerInv.step {input : TimedInput} (hinv : TimerInv timeout rested s)
    (hstep : timedStep timeout s input = some next) (hrest : rested → TimerAtRest s input) :
    TimerInv timeout rested next := by
  cases input with
  | wait n =>
    cases hstep
    refine ⟨hinv.down, hinv.untimed, ?_, hinv.inTime, hinv.released⟩
    intro renewed htimed
    obtain ⟨hle, hjiffies⟩ := hinv.timed renewed htimed
    exact ⟨Nat.le_add_right_of_le hle, hjiffies⟩
  | keydown scancode toggle => exact hinv.keydown hstep
  | keydownNotimeout scancode toggle => exact hinv.keydownNotimeout hstep hrest
  | repeated =>
    cases hstep
    exact hinv.repeated
  | keyup =>
    cases hstep
    exact hinv.keyup rfl rfl hinv.inTime hinv.released
  | table rcMap =>
    cases hstep
    exact { hinv with }
  | expire =>
    rw [timedStep] at hstep
    split at hstep
    · exact absurd hstep (by simp)
    rename_i expires hpend
    split at hstep
    · cases hstep
      refine ⟨hinv.down, ?_, hinv.timed, hinv.inTime, hinv.released⟩
      intro hrested huntimed
      have hidle := (hinv.untimed hrested huntimed).1
      exact absurd (hpend.symm.trans hidle) (by simp)
    · exact absurd hstep (by simp)
  | timerKeyup => exact hinv.timerKeyup hstep

theorem TimerInv.start (dev : RcDev) : TimerInv timeout rested (timedStart dev) :=
  ⟨rfl, by simp [timedStart], by simp [timedStart], by simp [ReleasedInTime, timedStart],
    by simp [ReleasedTimed, timedStart]⟩

/-- The timer never releases a key before its time. If `rc_keydown_notimeout`
never presses a key while the timer is pending or its callback on its way, the
timer only releases keys that `rc_keydown` or `rc_repeat` was called for. -/
theorem timer_releases_rightly (timeout : KeypressTimeout) (dev : RcDev)
    (inputs : List TimedInput) :
    Always (timedStep timeout) (ReleasedInTime timeout) (timedStart dev) inputs ∧
      (Along (timedStep timeout) TimerAtRest (timedStart dev) inputs →
        Always (timedStep timeout) ReleasedTimed (timedStart dev) inputs) := by
  constructor
  · apply Always.of_inv (TimerInv timeout False) ?_ ?_ (TimerInv.start dev)
    · intro s input next hinv hstep
      exact hinv.step hstep False.elim
    · intro s hinv
      exact hinv.inTime
  intro hrest
  apply Along.always (TimerInv timeout True) ?_ ?_ (TimerInv.start dev) hrest
  · intro s input next hinv hstep hcond
    exact hinv.step hstep (fun _ => hcond)
  · intro s hinv
    exact hinv.released trivial

theorem quiet_timer_releases_rightly :
    Always (timedStep quarterSecond) ReleasedTimed (timedStart oneKeyDevice)
      [.keydownNotimeout 5 0, .keyup, .keydown 5 0, .wait 250, .expire, .timerKeyup] := by
  apply (timer_releases_rightly quarterSecond oneKeyDevice _).2
  intro _ _
  refine ⟨fun _ => ⟨rfl, rfl⟩, ?_⟩
  iterate 5
    intro _ _
    refine ⟨trivial, ?_⟩
  trivial

/-- `rc_keydown` arms the timer; a press by `rc_keydown_notimeout` follows
before it expires, and the timer releases that press. -/
theorem timer_releases_untimed_press :
    ([TimedInput.keydown 5 0, .wait 100, .keydownNotimeout 5 1, .wait 150, .expire,
        .timerKeyup].foldlM (timedStep quarterSecond) (timedStart oneKeyDevice)).any
      (fun s => s.timerReleases = [(none, 250)] && !s.key.keypressed) = true := by
  decide +kernel

end TbsMedia.Rc
