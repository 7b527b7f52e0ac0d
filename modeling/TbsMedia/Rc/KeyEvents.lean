import TbsMedia.Rc.KeyTable

/-!
Key events of a remote control (`rc-main.c`): the decoders report scancodes,
and the core turns them into presses and releases of keys. Every call gives the
events it sends to the input device. The five entry points run under one lock,
so a history is a sequence of calls; the scancode table may be another one at
every call.
-/

namespace TbsMedia.Rc

open List Option

inductive InputEvent
  /-- `EV_KEY`: a press or a release. -/
  | key (keycode : UInt32) (pressed : Bool)
  /-- `EV_MSC` with `MSC_SCAN`. -/
  | scan (scancode : UInt32)
  | sync
  deriving DecidableEq, Repr

/-- `struct rc_dev` with the fields of the key events. `timerKeyup` is the
expiry time of the timer while it is pending. -/
structure KeyDev where
  dev : RcDev
  keypressed : Bool
  keyupJiffies : UInt64
  timerKeyup : Option UInt64
  lastKeycode : UInt32
  lastScancode : UInt32
  lastToggle : UInt8

/-- `MAX_JIFFY_OFFSET`, the largest answer of `msecs_to_jiffies`. -/
def maxJiffyOffset : Nat := 2 ^ 62 - 2

/-- `msecs_to_jiffies(IR_KEYPRESS_TIMEOUT)`; its value depends on `HZ`. -/
structure KeypressTimeout where
  jiffies : UInt64
  bound : jiffies.toNat ≤ maxJiffyOffset

/-- `time_before_eq`: the difference as a signed number is not negative. -/
def timeBeforeEq (a b : UInt64) : Bool := b - a < 0x8000000000000000

def irDoKeyup (d : KeyDev) (sync : Bool) : KeyDev × List InputEvent :=
  if !d.keypressed then (d, [])
  else ({ d with keypressed := false },
    InputEvent.key d.lastKeycode false :: if sync then [InputEvent.sync] else [])

def rcKeyup (d : KeyDev) : KeyDev × List InputEvent := irDoKeyup d true

def irTimerKeyup (d : KeyDev) (jiffies : UInt64) : KeyDev × List InputEvent :=
  if timeBeforeEq d.keyupJiffies jiffies then irDoKeyup d true else (d, [])

variable (timeout : KeypressTimeout)

/-- `keyup_jiffies` is set and the timer armed with it. -/
def renew (d : KeyDev) (jiffies : UInt64) : KeyDev :=
  { d with keyupJiffies := jiffies + timeout.jiffies,
           timerKeyup := some (jiffies + timeout.jiffies) }

def rcRepeat (d : KeyDev) (jiffies : UInt64) : KeyDev × List InputEvent :=
  (if d.keypressed then renew timeout d jiffies else d,
    [InputEvent.scan d.lastScancode, InputEvent.sync])

def newEvent (d : KeyDev) (scancode : UInt32) (toggle : UInt8) : Bool :=
  !d.keypressed || d.lastScancode != scancode || d.lastToggle != toggle

def irDoKeydown (d : KeyDev) (scancode keycode : UInt32) (toggle : UInt8) :
    KeyDev × List InputEvent :=
  let fresh := newEvent d scancode toggle
  let released := if fresh && d.keypressed then irDoKeyup d false else (d, [])
  let pressed :=
    if fresh && keycode != keyReserved then
      ({ released.1 with keypressed := true, lastScancode := scancode, lastToggle := toggle,
                         lastKeycode := keycode }, [InputEvent.key keycode true])
    else (released.1, [])
  (pressed.1, released.2 ++ InputEvent.scan scancode :: pressed.2 ++ [InputEvent.sync])

def rcKeydown (d : KeyDev) (scancode : UInt32) (toggle : UInt8) (jiffies : UInt64) :
    Option (KeyDev × List InputEvent) := do
  let keycode ← rcGKeycodeFromTable d.dev scancode
  let (d, events) := irDoKeydown d scancode keycode toggle
  some (if d.keypressed then renew timeout d jiffies else d, events)

def rcKeydownNotimeout (d : KeyDev) (scancode : UInt32) (toggle : UInt8) :
    Option (KeyDev × List InputEvent) := do
  let keycode ← rcGKeycodeFromTable d.dev scancode
  some (irDoKeydown d scancode keycode toggle)

inductive KeyCall
  | keydown (scancode : UInt32) (toggle : UInt8) (jiffies : UInt64)
  | keydownNotimeout (scancode : UInt32) (toggle : UInt8)
  | repeated (jiffies : UInt64)
  | keyup
  | timerKeyup (jiffies : UInt64)
  /-- The scancode table becomes another one. -/
  | table (rcMap : RcMap)

def keyCall (d : KeyDev) : KeyCall → Option (KeyDev × List InputEvent)
  | .keydown scancode toggle jiffies => rcKeydown timeout d scancode toggle jiffies
  | .keydownNotimeout scancode toggle => rcKeydownNotimeout d scancode toggle
  | .repeated jiffies => some (rcRepeat timeout d jiffies)
  | .keyup => some (rcKeyup d)
  | .timerKeyup jiffies => some (irTimerKeyup d jiffies)
  | .table rcMap => some ({ d with dev := { d.dev with rcMap := rcMap } }, [])

abbrev History := List (KeyCall × List InputEvent)

def keyRun (d : KeyDev) : List KeyCall → Option (KeyDev × History)
  | [] => some (d, [])
  | call :: rest => do
    let (d, events) ← keyCall timeout d call
    let (d, history) ← keyRun d rest
    some (d, (call, events) :: history)

def newKeyDev (dev : RcDev) : KeyDev where
  dev := dev
  keypressed := false
  keyupJiffies := 0
  timerKeyup := none
  lastKeycode := 0
  lastScancode := 0
  lastToggle := 0

/-! Presses and releases -/

/-- The `EV_KEY` reports among events: a keycode and whether it is a press. -/
def keyReports (events : List InputEvent) : List (UInt32 × Bool) :=
  events.filterMap fun
    | .key keycode pressed => some (keycode, pressed)
    | _ => none

def reports (history : History) : List (UInt32 × Bool) :=
  history.flatMap (fun call => keyReports call.2)

/-- Presses and releases that take turns, each release for the key pressed
before it; with the key that is down at the end. -/
inductive Paired : List (UInt32 × Bool) → Option UInt32 → Prop
  | nil : Paired [] none
  | press {list : List (UInt32 × Bool)} (keycode : UInt32) (hup : Paired list none) :
      Paired (list ++ [(keycode, true)]) (some keycode)
  | release {list : List (UInt32 × Bool)} {keycode : UInt32} (hdown : Paired list (some keycode)) :
      Paired (list ++ [(keycode, false)]) none

def KeyCall.origin : KeyCall → Option (UInt32 × UInt8)
  | .keydown scancode toggle _ => some (scancode, toggle)
  | .keydownNotimeout scancode toggle => some (scancode, toggle)
  | _ => none

def heldAfter (held : Option (UInt32 × UInt8)) (call : KeyCall × List InputEvent) :
    Option (UInt32 × UInt8) :=
  match (keyReports call.2).getLast? with
  | none => held
  | some (_, false) => none
  | some (_, true) => call.1.origin

def heldBy (history : History) : Option (UInt32 × UInt8) :=
  history.foldl heldAfter none

inductive KeyEffect (d : KeyDev) (call : KeyCall) : KeyDev → List (UInt32 × Bool) → Prop
  | idle (d' : KeyDev) (hpressed : d'.keypressed = d.keypressed)
      (hkeycode : d'.lastKeycode = d.lastKeycode) (hscancode : d'.lastScancode = d.lastScancode)
      (htoggle : d'.lastToggle = d.lastToggle) : KeyEffect d call d' []
  | release (d' : KeyDev) (hdown : d.keypressed = true) (hup : d'.keypressed = false) :
      KeyEffect d call d' [(d.lastKeycode, false)]
  | press (d' : KeyDev) (keycode : UInt32)
      (horigin : call.origin = some (d'.lastScancode, d'.lastToggle))
      (hpressed : d'.keypressed = true) (hkeycode : d'.lastKeycode = keycode) :
      KeyEffect d call d'
        ((if d.keypressed then [(d.lastKeycode, false)] else []) ++ [(keycode, true)])

open KeyEffect

theorem irDoKeyup_reports (d : KeyDev) (sync : Bool) :
    keyReports (irDoKeyup d sync).2 = if d.keypressed then [(d.lastKeycode, false)] else [] := by
  cases hdown : d.keypressed <;> cases sync <;> simp [irDoKeyup, hdown, keyReports]

theorem irDoKeyup_effect (d : KeyDev) (sync : Bool) (call : KeyCall) :
    KeyEffect d call (irDoKeyup d sync).1 (keyReports (irDoKeyup d sync).2) := by
  rw [irDoKeyup_reports]
  cases hdown : d.keypressed with
  | false =>
    simp only [irDoKeyup, hdown]
    exact idle d rfl rfl rfl rfl
  | true => exact release _ hdown (by simp [irDoKeyup, hdown])

section

variable (d : KeyDev) (scancode keycode : UInt32) (toggle : UInt8)

theorem irDoKeydown_reports :
    keyReports (irDoKeydown d scancode keycode toggle).2 =
      if newEvent d scancode toggle then
        (if d.keypressed then [(d.lastKeycode, false)] else []) ++
          if keycode = keyReserved then [] else [(keycode, true)]
      else [] := by
  cases hnew : newEvent d scancode toggle <;> cases hdown : d.keypressed <;>
    by_cases hkey : keycode = keyReserved <;>
    simp [irDoKeydown, irDoKeyup, keyReports, hnew, hdown, hkey]

theorem irDoKeydown_effect (call : KeyCall) (horig : call.origin = some (scancode, toggle)) :
    KeyEffect d call (irDoKeydown d scancode keycode toggle).1
      (keyReports (irDoKeydown d scancode keycode toggle).2) := by
  rw [irDoKeydown_reports]
  rcases hnew : newEvent d scancode toggle with _ | _
  · simp only [irDoKeydown, hnew]
    exact idle d rfl rfl rfl rfl
  by_cases hkey : keycode = keyReserved
  · rcases hdown : d.keypressed with _ | _
    · simp only [irDoKeydown, hnew, hkey, hdown]
      exact idle d rfl rfl rfl rfl
    simp only [hkey, if_true, append_nil]
    apply release _ hdown
    simp [irDoKeydown, irDoKeyup, hnew, hdown]
  · simp only [if_true, hkey, if_false]
    apply press <;> simp [irDoKeydown, hnew, hkey, horig]

end

variable {d d' : KeyDev} {call : KeyCall}

theorem KeyEffect.renewed {list : List (UInt32 × Bool)} (heffect : KeyEffect d call d' list)
    (jiffies : UInt64) :
    KeyEffect d call (if d'.keypressed then renew timeout d' jiffies else d') list := by
  split
  · cases heffect with
    | idle hpress hkeycode hscancode htog => exact idle _ hpress hkeycode hscancode htog
    | release hdown hup => exact release _ hdown hup
    | press keycode horig hpress hkeycode => exact press _ keycode horig hpress hkeycode
  · exact heffect

variable {events : List InputEvent}

theorem keyCall_effect (hcall : keyCall timeout d call = some (d', events)) :
    KeyEffect d call d' (keyReports events) := by
  cases call with
  | keydown scancode toggle jiffies =>
    simp only [keyCall, rcKeydown, bind_eq_bind, bind_eq_some_iff] at hcall
    obtain ⟨keycode, -, hres⟩ := hcall
    cases hres
    exact (irDoKeydown_effect d scancode keycode toggle _ rfl).renewed timeout jiffies
  | keydownNotimeout scancode toggle =>
    simp only [keyCall, rcKeydownNotimeout, bind_eq_bind, bind_eq_some_iff] at hcall
    obtain ⟨keycode, -, hres⟩ := hcall
    cases hres
    exact irDoKeydown_effect d scancode keycode toggle _ rfl
  | repeated jiffies =>
    cases hcall
    exact (idle d rfl rfl rfl rfl).renewed timeout jiffies
  | keyup =>
    obtain ⟨rfl, rfl⟩ := Prod.mk.inj (Option.some.inj hcall)
    exact irDoKeyup_effect d true _
  | timerKeyup jiffies =>
    have hres := Option.some.inj hcall
    unfold irTimerKeyup at hres
    split at hres
    · have heffect := irDoKeyup_effect d true (.timerKeyup jiffies)
      rwa [hres] at heffect
    · cases hres
      exact idle d rfl rfl rfl rfl
  | table rcMap =>
    cases hcall
    exact idle _ rfl rfl rfl rfl

def downKey (d : KeyDev) : Option UInt32 := if d.keypressed then some d.lastKeycode else none

structure Remembers (d : KeyDev) (history : History) : Prop where
  paired : Paired (reports history) (downKey d)
  held : heldBy history = if d.keypressed then some (d.lastScancode, d.lastToggle) else none

variable {history : History}

theorem Remembers.next (hinv : Remembers d history)
    (heffect : KeyEffect d call d' (keyReports events)) :
    Remembers d' (history ++ [(call, events)]) := by
  have hreports : reports (history ++ [(call, events)]) = reports history ++ keyReports events := by
    simp [reports]
  have hheld : heldBy (history ++ [(call, events)]) =
      heldAfter (heldBy history) (call, events) := by
    simp [heldBy]
  have hpair := hinv.paired
  generalize hlist : keyReports events = list at heffect hreports
  cases heffect with
  | idle hpress hkeycode hscancode htog =>
    constructor
    · rw [hreports, append_nil, downKey, hpress, hkeycode]
      exact hpair
    · rw [hheld, heldAfter, hlist, hpress, hscancode, htog]
      exact hinv.held
  | release hdown hup =>
    constructor
    · rw [downKey, if_pos hdown] at hpair
      simp only [hreports, downKey, hup]
      exact Paired.release hpair
    · simp [hheld, heldAfter, hlist, hup]
  | press keycode horig hpress hkeycode =>
    constructor
    · simp only [hreports, downKey, hpress, hkeycode, if_true, ← append_assoc]
      apply Paired.press
      rcases hdown : d.keypressed with _ | _
      · simpa [downKey, hdown] using hpair
      rw [downKey, if_pos hdown] at hpair
      exact Paired.release hpair
    · simp [hheld, heldAfter, hlist, hpress, horig]

theorem keyRun_remembers {final : KeyDev} {past : History} (hinv : Remembers d past)
    {calls : List KeyCall} (hrun : keyRun timeout d calls = some (final, history)) :
    Remembers final (past ++ history) := by
  induction calls generalizing d past history with
  | nil =>
    cases hrun
    rwa [append_nil]
  | cons call rest ih =>
    simp only [keyRun, bind_eq_bind, bind_eq_some_iff] at hrun
    obtain ⟨⟨d', events⟩, hcall, ⟨final', tail⟩, htail, hres⟩ := hrun
    cases hres
    have hnext := ih (hinv.next (keyCall_effect timeout hcall)) htail
    simpa using hnext

/-- A press is the last report exactly while a key is down, and it is for that key. -/
theorem Paired.getLast_press {list : List (UInt32 × Bool)} {down : Option UInt32}
    (hpair : Paired list down) (keycode : UInt32) :
    list.getLast? = some (keycode, true) ↔ down = some keycode := by
  cases hpair with
  | nil => simp
  | press _ hup => simp
  | release hdown => simp

theorem press_iff (hinv : Remembers d history) {scancode : UInt32} {toggle : UInt8}
    (horig : call.origin = some (scancode, toggle))
    (hcall : keyCall timeout d call = some (d', events)) (keycode : UInt32) :
    (keycode, true) ∈ keyReports events ↔ rcGKeycodeFromTable d.dev scancode = some keycode ∧
      keycode ≠ keyReserved ∧ heldBy history ≠ some (scancode, toggle) := by
  have hkeydown : ∃ keycode, rcGKeycodeFromTable d.dev scancode = some keycode ∧
      events = (irDoKeydown d scancode keycode toggle).2 := by
    cases call <;> simp only [KeyCall.origin, reduceCtorEq, Option.some.injEq, Prod.mk.injEq]
      at horig
    · obtain ⟨rfl, rfl⟩ := horig
      simp only [keyCall, rcKeydown, bind_eq_bind, bind_eq_some_iff] at hcall
      obtain ⟨keycode, hlook, hres⟩ := hcall
      exact ⟨keycode, hlook, (Prod.mk.inj (Option.some.inj hres)).2.symm⟩
    · obtain ⟨rfl, rfl⟩ := horig
      simp only [keyCall, rcKeydownNotimeout, bind_eq_bind, bind_eq_some_iff] at hcall
      obtain ⟨keycode, hlook, hres⟩ := hcall
      exact ⟨keycode, hlook, (Prod.mk.inj (Option.some.inj hres)).2.symm⟩
  obtain ⟨key, hlook, rfl⟩ := hkeydown
  have hnew : newEvent d scancode toggle = true ↔ heldBy history ≠ some (scancode, toggle) := by
    rw [hinv.held]
    cases hdown : d.keypressed <;> simp [newEvent, hdown]
    grind
  rw [irDoKeydown_reports, hlook, ← hnew]
  cases hfresh : newEvent d scancode toggle <;> cases hdown : d.keypressed <;>
    by_cases hkey : key = keyReserved <;> simp [hkey] <;> grind

/-- Over every history the reports take turns, the device knows the key that is
down, and a keydown reports a press of the key of its scancode exactly if there is
one and the key that is down was not pressed by the same scancode and toggle value. -/
theorem presses_and_releases_pair (dev : RcDev) (calls : List KeyCall) (final : KeyDev)
    (history : History) (hrun : keyRun timeout (newKeyDev dev) calls = some (final, history)) :
    Paired (reports history) (downKey final) ∧
      (∀ keycode, (reports history).getLast? = some (keycode, true) ↔
        final.keypressed = true ∧ final.lastKeycode = keycode) ∧
      ∀ call scancode toggle next events, call.origin = some (scancode, toggle) →
        keyCall timeout final call = some (next, events) →
        ∀ keycode, (keycode, true) ∈ keyReports events ↔
          rcGKeycodeFromTable final.dev scancode = some keycode ∧ keycode ≠ keyReserved ∧
            heldBy history ≠ some (scancode, toggle) := by
  have hstart : Remembers (newKeyDev dev) [] := ⟨.nil, rfl⟩
  have hinv := keyRun_remembers timeout hstart hrun
  rw [nil_append] at hinv
  refine ⟨hinv.paired, ?_, ?_⟩
  · intro keycode
    rw [hinv.paired.getLast_press, downKey]
    cases final.keypressed <;> simp
  · intro call scancode toggle next events horigin hcall
    exact press_iff timeout hinv horigin hcall

def oneKeyDevice : RcDev where
  rcMap := { scan := some (fun _ => { scancode := 5, keycode := 30 }), size := 1, len := 1,
             alloc := 8 }
  scanmask := 0
  keybit := fun _ => false

def quarterSecond : KeypressTimeout where
  jiffies := 250
  bound := by decide

def oneKeyHistory : History :=
  [(.keydown 5 0 100, [.scan 5, .key 30 true, .sync]), (.keydown 5 0 200, [.scan 5, .sync]),
   (.timerKeyup 300, []), (.keydownNotimeout 5 1, [.key 30 false, .scan 5, .key 30 true, .sync])]

def oneKeyDown : KeyDev where
  dev := oneKeyDevice
  keypressed := true
  keyupJiffies := 450
  timerKeyup := some 450
  lastKeycode := 30
  lastScancode := 5
  lastToggle := 1

theorem one_key_history :
    keyRun quarterSecond (newKeyDev oneKeyDevice) (oneKeyHistory.map Prod.fst) =
        some (oneKeyDown, oneKeyHistory) ∧
      Paired (reports oneKeyHistory) (downKey oneKeyDown) ∧
      ((30, true) ∈ keyReports [.key 30 false, .scan 5, .key 30 true, .sync] ↔
        rcGKeycodeFromTable oneKeyDevice 5 = some 30 ∧ 30 ≠ keyReserved ∧
          heldBy oneKeyHistory ≠ some (5, 0)) := by
  have hrun : keyRun quarterSecond (newKeyDev oneKeyDevice) (oneKeyHistory.map Prod.fst) =
      some (oneKeyDown, oneKeyHistory) := rfl
  obtain ⟨hpaired, -, hpress⟩ := presses_and_releases_pair quarterSecond oneKeyDevice _ _ _ hrun
  exact ⟨hrun, hpaired,
    hpress (.keydownNotimeout 5 0) 5 0 { oneKeyDown with lastToggle := 0 } _ rfl rfl 30⟩

end TbsMedia.Rc
