import TbsMedia.Lib.Run
import TbsMedia.DvbCore.Interference

/-!
`DMX_ONESHOT` under every interleaving of requests, section callbacks and timers. A
filter that has its section is DONE, which still counts as active:
`dvb_dmxdev_feed_restart` may pick it in order to restart a shared feed, and sets it
going again.
-/

namespace TbsMedia.DvbCore

open Lib Option

variable {nd nf nq : Nat}

/-- What is kept of a filter since its last start: whether that was one with
`DMX_ONESHOT`, how many sections its callback has gone on to write, and whether it
has been DONE or TIMEDOUT. -/
structure Watch where
  oneshot : Bool
  written : Nat
  spent : Bool

def Watch.next (w : Watch) (started wrote : Bool) (flt : DmxdevFilter nf nq) : Watch where
  oneshot :=
    if started then flt.type = .sec ∧ flt.paramsSec.flags &&& dmxOneshot ≠ 0 else w.oneshot
  written := if started then 0 else if wrote then w.written + 1 else w.written
  spent := (!started && w.spent) || (flt.state = .done ∨ flt.state = .timedout)

structure Watched (nd nf nq : Nat) where
  shared : Shared (Dmxdev nd nf nq) (Mark nd) Unit
  watch : Fin nd → Watch

abbrev DeviceTurn (nd : Nat) := Turn (HandleCall nd) (DmxdevEvent nd)

section

variable (c : Watched nd nf nq) (turn : DeviceTurn nd)

def startsNow (i : Fin nd) : Bool :=
  match turn with
  | .tick => c.shared.tag = some (.start i)
  | _ => false

def writesNow (i : Fin nd) : Bool :=
  match turn with
  | .env (.callbackLocked k _ _) => k = i ∧ (c.shared.state.filter i).calling = true ∧
      (c.shared.state.filter i).state = .go
  | _ => false

/-- One access of the request that runs, the arrival of a request when none runs, or
one event outside. Which handles are open makes no difference here. -/
def watchedStep : Option (Watched nd nf nq) :=
  (c.shared.turn (fun _ call => some (handleCode call)) dmxdevEvent turn).map (fun next =>
    { shared := next
      watch := fun i => (c.watch i).next (startsNow c turn i) (writesNow c turn i)
        (next.state.filter i) })

/-- At most one section since a start with `DMX_ONESHOT`, and no way back to GO from
DONE or TIMEDOUT but a start. -/
def OneshotKept : Prop :=
  ∀ i, ((c.watch i).oneshot = true → (c.watch i).written ≤ 1) ∧
    ((c.watch i).spent = true → (c.shared.state.filter i).state ≠ .go)

/-- The access that restarts a shared feed finds the filter that it sets going in
state GO. -/
def RestartsRunning : Prop :=
  turn = .tick → ∀ j, c.shared.tag = some (.feedStart j) →
    (c.shared.state.filter j).state = .go

end

structure Follows (flt : DmxdevFilter nf nq) (w : Watch) : Prop where
  spent : w.spent = true → flt.state ≠ .go
  tracked : flt.state = .done ∨ flt.state = .timedout → w.spent = true
  once : w.oneshot = true → w.written ≤ 1
  armed : w.oneshot = true → flt.state = .go →
    w.written = 0 ∧ flt.paramsSec.flags &&& dmxOneshot ≠ 0

theorem next_spent_iff (w : Watch) (started wrote : Bool) (flt : DmxdevFilter nf nq) :
    (w.next started wrote flt).spent = true ↔
      (started = false ∧ w.spent = true) ∨ (flt.state = .done ∨ flt.state = .timedout) := by
  simp [Watch.next]

theorem Follows.started (flt : DmxdevFilter nf nq) (w : Watch) (wrote : Bool) :
    Follows flt (w.next true wrote flt) := by
  constructor
  · rw [next_spent_iff]
    rintro (h | h | h) hgo
    · exact absurd h.1 (by decide)
    all_goals simp [hgo] at h
  · intro hend
    exact (next_spent_iff w true wrote flt).mpr (.inr hend)
  · intro _
    simp [Watch.next]
  · intro hshot _
    simp only [Watch.next, if_true, decide_eq_true_eq] at hshot
    exact ⟨rfl, hshot.2⟩

variable {flt' flt : DmxdevFilter nf nq} {w : Watch} {c : Watched nd nf nq}

theorem Follows.kept (hfoll : Follows flt w)
    (hgoing : flt'.state = .go → flt.state = .go ∧ flt'.paramsSec.flags = flt.paramsSec.flags) :
    Follows flt' (w.next false false flt') := by
  refine ⟨?_, ?_, hfoll.once, ?_⟩
  · rw [next_spent_iff]
    rintro (h | h | h) hgo
    · exact hfoll.spent h.2 (hgoing hgo).1
    all_goals simp [hgo] at h
  · intro hend
    exact (next_spent_iff w false false flt').mpr (.inr hend)
  · intro hshot hgo
    obtain ⟨hgo', hflags⟩ := hgoing hgo
    rw [hflags]
    exact hfoll.armed hshot hgo'

/-- The filter was in state GO and stays there only without `DMX_ONESHOT`. -/
theorem Follows.wrote (hfoll : Follows flt w) (hgo : flt.state = .go)
    (hstays : flt'.state = .go → flt.paramsSec.flags &&& dmxOneshot = 0) :
    Follows flt' (w.next false true flt') := by
  constructor
  · rw [next_spent_iff]
    rintro (h | h | h) hgo'
    · exact hfoll.spent h.2 hgo
    all_goals simp [hgo'] at h
  · intro hend
    exact (next_spent_iff w false true flt').mpr (.inr hend)
  · intro hshot
    have hnone := (hfoll.armed hshot hgo).1
    simp [Watch.next, hnone]
  · intro hshot hgo'
    exact absurd (hstays hgo') (hfoll.armed hshot hgo).2

structure WatchedInv (c : Watched nd nf nq) : Prop where
  tied : Tied c.shared.state
  running : ∀ p, c.shared.running = some p → device.Wp p (fun _ _ => True) c.shared.state
  follows : ∀ i, Follows (c.shared.state.filter i) (c.watch i)

theorem WatchedInv.kept (hinv : WatchedInv c) : OneshotKept c :=
  fun i => ⟨(hinv.follows i).once, (hinv.follows i).spent⟩

theorem callback_follows (buffer1 buffer2 : Bytes) (flt : DmxdevFilter nf nq) (w : Watch)
    (hfoll : Follows flt w) (hgo : flt.state = .go) :
    Follows { dvbDmxdevSectionCallback buffer1 buffer2 flt with calling := false }
      (w.next false true
        { dvbDmxdevSectionCallback buffer1 buffer2 flt with calling := false }) := by
  apply hfoll.wrote hgo
  intro hstays
  by_contra hflag
  simp [dvbDmxdevSectionCallback, hgo, hflag] at hstays

theorem event_follows (c : Watched nd nf nq) (hinv : WatchedInv c) (event : DmxdevEvent nd)
    (i : Fin nd) :
    Follows ((dmxdevEvent c.shared.state event).filter i)
      ((c.watch i).next false (writesNow c (.env event) i)
        ((dmxdevEvent c.shared.state event).filter i)) := by
  have hfoll := hinv.follows i
  have hout := dmxdevEvent_outside c.shared.state event i
  rcases hwrites : writesNow c (.env event) i with _ | _
  · apply hfoll.kept
    intro hgo
    exact ⟨hout.going hgo, by rw [hout.paramsSec]⟩
  cases event with
  | callbackLocked k buffer1 buffer2 =>
    obtain ⟨rfl, hcall, hgo⟩ := of_decide_eq_true hwrites
    simp only [dmxdevEvent, hcall, if_true, Dmxdev.upd_filter, Function.update_self]
    exact callback_follows buffer1 buffer2 _ _ hfoll hgo
  | callback k => cases hwrites
  | timeout k => cases hwrites
  | timeoutLocked k => cases hwrites

/-- An access that is not the end of a filter's start: the contract tells what it can
have done. -/
theorem tick_follows (hinv : WatchedInv c) {next : Dmxdev nd nf nq}
    (hguar : device.guar c.shared.tag c.shared.state next) (i : Fin nd) :
    Follows (next.filter i)
      ((c.watch i).next (startsNow c .tick i) (writesNow c .tick i) (next.filter i)) := by
  cases hstart : startsNow c .tick i with
  | true => exact .started _ _ _
  | false =>
    apply (hinv.follows i).kept
    intro hgo
    exact hguar i (of_decide_eq_false hstart) hgo

section

variable (c : Watched nd nf nq) (turn : DeviceTurn nd) (next : Watched nd nf nq)
  (hinv : WatchedInv c) (hstep : watchedStep c turn = some next)
include hinv hstep

theorem watchedStep_keeps (hcond : RestartsRunning c turn) : WatchedInv next := by
  obtain ⟨shared, hturn, rfl⟩ := map_eq_some_iff.mp hstep
  have hsame : ∀ i, Follows (c.shared.state.filter i)
      ((c.watch i).next false false (c.shared.state.filter i)) :=
    fun i => (hinv.follows i).kept (fun hgo => ⟨hgo, rfl⟩)
  cases turn with
  | enter call =>
    cases hruns : c.shared.running with
    | some p => simp [Shared.turn, hruns] at hturn
    | none =>
      simp only [Shared.turn, hruns, map_some, Option.some.injEq] at hturn
      subst hturn
      refine ⟨hinv.tied, ?_, hsame⟩
      intro p hp
      cases hp
      exact handleCode_runs call _
  | env event =>
    simp only [Shared.turn, Option.some.injEq] at hturn
    subst hturn
    have hout := dmxdevEvent_outside c.shared.state event
    refine ⟨hinv.tied.outside hout, ?_, event_follows c hinv event⟩
    intro p hp
    exact (hinv.running p hp).later hout
  | tick =>
    rcases hruns : c.shared.running with _ | p
    · simp [Shared.turn, hruns] at hturn
    have hwp := hinv.running p hruns
    cases p with
    | oops => simp [Shared.turn, hruns] at hturn
    | done a =>
      simp only [Shared.turn, hruns, Option.some.injEq] at hturn
      subst hturn
      refine ⟨hinv.tied, nofun, ?_⟩
      intro i
      exact tick_follows hinv (guar_of_outside (.refl _)) i
    | atomic tag update rest =>
      simp only [Shared.turn, hruns, Option.some.injEq] at hturn
      subst hturn
      have htag : c.shared.tag = tag := by simp [Shared.tag, hruns]
      obtain ⟨-, hkeep⟩ := hwp _ (.refl _) hinv.tied
      obtain ⟨hguar, htied, hrest⟩ := hkeep (fun j hj => hcond rfl j (htag.trans hj))
      refine ⟨htied, ?_, ?_⟩
      · intro p hp
        cases hp
        exact hrest
      · intro i
        rw [← htag] at hguar
        exact tick_follows hinv hguar i

/-- A restart that finds its filter in another state than GO revives it. -/
theorem watchedStep_breaks (hcond : ¬ RestartsRunning c turn) : ¬ OneshotKept next := by
  obtain ⟨shared, hturn, rfl⟩ := map_eq_some_iff.mp hstep
  simp only [RestartsRunning, not_forall] at hcond
  obtain ⟨rfl, j, htag, hstate⟩ := hcond
  rcases hruns : c.shared.running with _ | p
  · simp [Shared.turn, hruns] at hturn
  have hwp := hinv.running p hruns
  cases p with
  | oops => simp [Shared.turn, hruns] at hturn
  | done a => simp [Shared.tag, hruns] at htag
  | atomic tag update rest =>
    simp only [Shared.turn, hruns, Option.some.injEq] at hturn
    subst hturn
    have htag' : tag = some (.feedStart j) := by simpa [Shared.tag, hruns] using htag
    obtain ⟨hact, hrevived⟩ := (hwp _ (.refl _) hinv.tied).1 j htag'
    have hspent : (c.watch j).spent = true := by
      apply (hinv.follows j).tracked
      revert hact hstate
      cases (c.shared.state.filter j).state <;> simp [DmxdevState.toNat]
    have hoth : startsNow c .tick j = false := by simp [startsNow, htag]
    intro hkept
    refine (hkept j).2 ?_ hrevived
    rw [next_spent_iff]
    exact .inl ⟨hoth, hspent⟩

end

def watchedInit (s : Dmxdev nd nf nq) : Watched nd nf nq where
  shared := { state := dvbDmxdevInit s, running := none }
  watch := fun _ => { oneshot := false, written := 0, spent := false }

theorem watchedInv_init (s : Dmxdev nd nf nq) : WatchedInv (watchedInit s) where
  tied := ⟨fun _ hgo => by simp [watchedInit, dvbDmxdevInit] at hgo,
    fun _ hgo => by simp [watchedInit, dvbDmxdevInit] at hgo⟩
  running := nofun
  follows := fun _ => by
    constructor
    · simp [watchedInit]
    · simp [watchedInit, dvbDmxdevInit]
    all_goals simp [watchedInit]

/-- In every interleaving, from a device that has just come up, a start with
`DMX_ONESHOT` is followed by at most one section and filters do not come back from
DONE or TIMEDOUT by themselves, exactly if every restart of a shared feed goes through
a filter in state GO. -/
theorem oneshot_kept_iff_restarts_running (s : Dmxdev nd nf nq) (turns : List (DeviceTurn nd)) :
    Always watchedStep OneshotKept (watchedInit s) turns ↔
      Along watchedStep RestartsRunning (watchedInit s) turns :=
  always_iff_along watchedStep OneshotKept RestartsRunning WatchedInv
    (fun _ hinv => hinv.kept) watchedStep_keeps watchedStep_breaks
    (watchedInit s) (watchedInv_init s) turns

/-- Two filters on one PID. The first has its one section; the second is started on the
same feed and stopped, and another section comes. A request is followed by its accesses. -/
def revivingRun : List (DeviceTurn 2) :=
  let request (call : HandleCall 2) (accesses : Nat) : List (DeviceTurn 2) :=
    .enter call :: List.replicate accesses .tick
  let onPid (flags : Nat) : DmxCmd :=
    .setFilter { (default : DmxSctFilterParams) with pid := 0x11, flags := flags }
  let aSection : List (DeviceTurn 2) :=
    [.env (.callback 0), .env (.callbackLocked 0 [0x42, 0xb0, 0x00] [])]
  request .openDemux 6 ++ request (.ioctl 0 (onPid (dmxOneshot ||| dmxImmediateStart))) 24 ++
    aSection ++ request .openDemux 7 ++ request (.ioctl 1 (onPid dmxImmediateStart)) 26 ++
    request (.ioctl 1 .stop) 16 ++ aSection

def willingDevice : Dmxdev 2 1 2 where
  filter := default
  demux := readyDemux 1 2
  world := fun _ => .ok
  fresh := 0

/-- The first filter gets a second section without a start. -/
theorem stopping_neighbour_revives_oneshot :
    ¬ Always watchedStep OneshotKept (watchedInit willingDevice) revivingRun := by
  refine not_always_of_run (fun c => (c.watch 0).oneshot = true ∧ (c.watch 0).written = 2)
    (by decide +kernel) ?_
  rintro last ⟨honeshot, hwritten⟩ hkept
  have honce := (hkept 0).1 honeshot
  omega

end TbsMedia.DvbCore
