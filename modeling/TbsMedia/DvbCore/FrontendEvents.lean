import TbsMedia.Lib.Ring
import TbsMedia.Lib.Run

/-!
The event ring of a frontend: `dvb_frontend_add_event` and the non-blocking
`dvb_frontend_get_event`. An event that finds the ring full takes the place of the
oldest one, and the next reader is told so before it gets another event.
-/

namespace TbsMedia.DvbCore

open Lib List

variable {π : Type}

/-- `struct dvb_frontend_event`; `π` is `struct dvb_frontend_parameters`. -/
structure FrontendEvent (π : Type) where
  parameters : π
  status : UInt32
deriving DecidableEq

def maxEvent : Nat := 8

/-- `struct dvb_fe_events`. -/
structure FeEvents (π : Type) where
  events : Mem (FrontendEvent π)
  eventw : Nat
  eventr : Nat
  overflow : Bool

/-- `interrupted` tells of a signal while the mutex is waited for. The parameters of the event
are `parameters_out`, which a locked frontend has filled in before. -/
def dvbFrontendAddEvent (ev : FeEvents π) (interrupted : Bool) (e : FrontendEvent π) : FeEvents π :=
  if interrupted then ev
  else
    let wp := (ev.eventw + 1) % maxEvent
    let ev := if wp = ev.eventr then
        { ev with overflow := true, eventr := (ev.eventr + 1) % maxEvent } else ev
    { ev with events := Function.update ev.events ev.eventw e, eventw := wp }

inductive GetEvent (π : Type) where
  | eoverflow
  | ewouldblock
  | erestartsys
  | event (e : FrontendEvent π)
deriving DecidableEq

/-- The call with `O_NONBLOCK`. -/
def dvbFrontendGetEvent (ev : FeEvents π) (interrupted : Bool) : GetEvent π × FeEvents π :=
  if ev.overflow then (.eoverflow, { ev with overflow := false })
  else if ev.eventw = ev.eventr then (.ewouldblock, ev)
  else if interrupted then (.erestartsys, ev)
  else (.event (ev.events ev.eventr), { ev with eventr := (ev.eventr + 1) % maxEvent })

structure Waiting (ev : FeEvents π) (waiting : List (FrontendEvent π)) : Prop where
  first : ev.eventr < maxEvent
  room : waiting.length < maxEvent
  next : ev.eventw = (ev.eventr + waiting.length) % maxEvent
  cells : ev.events.window maxEvent ev.eventr waiting.length = waiting

section Ring

variable {ev : FeEvents π} {waiting : List (FrontendEvent π)}

theorem Waiting.empty_iff (h : Waiting ev waiting) : ev.eventw = ev.eventr ↔ waiting = [] := by
  obtain ⟨hfirst, hroom, hnext, -⟩ := h
  rw [← length_eq_zero_iff]
  unfold maxEvent at *
  omega

theorem Waiting.full_iff (h : Waiting ev waiting) :
    (ev.eventw + 1) % maxEvent = ev.eventr ↔ waiting.length = maxEvent - 1 := by
  obtain ⟨hfirst, hroom, hnext, -⟩ := h
  unfold maxEvent at *
  omega

theorem Waiting.drop {e : FrontendEvent π} (h : Waiting ev (e :: waiting)) :
    ev.events ev.eventr = e ∧
      ∀ overflow, Waiting { ev with overflow := overflow, eventr := (ev.eventr + 1) % maxEvent }
        waiting := by
  obtain ⟨hfirst, hroom, hnext, hcells⟩ := h
  rw [length_cons] at hroom hnext
  rw [length_cons, add_comm, Mem.window_add] at hcells
  obtain ⟨hhead, htail⟩ := List.cons.inj hcells
  refine ⟨?_, fun _ => ⟨Nat.mod_lt _ (by decide), by omega, ?_, ?_⟩⟩
  · rw [← hhead]
    exact congrArg ev.events (Nat.mod_eq_of_lt hfirst).symm
  · rw [hnext, Nat.mod_add_mod]
    congr 1
    omega
  · exact (Mem.window_mod ..).trans htail

theorem Waiting.put (h : Waiting ev waiting) (hroom : waiting.length + 1 < maxEvent)
    (e : FrontendEvent π) :
    Waiting { ev with events := Function.update ev.events ev.eventw e,
                      eventw := (ev.eventw + 1) % maxEvent } (waiting ++ [e]) := by
  obtain ⟨hfirst, -, hnext, hcells⟩ := h
  refine ⟨hfirst, by simpa using hroom, ?_, ?_⟩
  · rw [hnext, Nat.mod_add_mod, length_append]
    rfl
  rw [length_append, Mem.window_add, hnext]
  congr 1
  · rw [Mem.window_congr, hcells]
    intro i hi
    have hlt : ev.eventr + i < ev.eventr + waiting.length := by omega
    exact Function.update_of_ne (Mem.mod_ne_of_lt maxEvent hlt (by omega)) ..
  · simp [Mem.window]

end Ring

inductive EventCall (π : Type) where
  | add (interrupted : Bool) (e : FrontendEvent π)
  | get (interrupted : Bool)

def eventStep (ev : FeEvents π) : EventCall π → FeEvents π × List (GetEvent π)
  | .add interrupted e => (dvbFrontendAddEvent ev interrupted e, [])
  | .get interrupted =>
    ((dvbFrontendGetEvent ev interrupted).2, [(dvbFrontendGetEvent ev interrupted).1])

/-- What the ring is for: a queue that drops its oldest event when `MAX_EVENT - 1` newer ones
are to be kept, and knows whether it has lost one that no reader was told of. -/
structure EventQueue (π : Type) where
  waiting : List (FrontendEvent π)
  lost : Bool

open EventQueue

/-- A reader is told once of all losses, and then gets the events that are left. -/
def EventQueue.step (q : EventQueue π) : EventCall π → EventQueue π × List (GetEvent π)
  | .add true _ => (q, [])
  | .add false e =>
    if q.waiting.length < maxEvent - 1 then ({ q with waiting := q.waiting ++ [e] }, [])
    else (⟨q.waiting.tail ++ [e], true⟩, [])
  | .get interrupted =>
    if q.lost then ({ q with lost := false }, [.eoverflow])
    else match q.waiting, interrupted with
      | [], _ => (q, [.ewouldblock])
      | _ :: _, true => (q, [.erestartsys])
      | e :: rest, false => ({ q with waiting := rest }, [.event e])

def addedEvents (calls : List (EventCall π)) : List (FrontendEvent π) :=
  calls.filterMap fun
    | .add false e => some e
    | _ => none

def returnedEvents (answers : List (GetEvent π)) : List (FrontendEvent π) :=
  answers.filterMap fun
    | .event e => some e
    | _ => none

def Shows (ev : FeEvents π) (q : EventQueue π) : Prop :=
  Waiting ev q.waiting ∧ ev.overflow = q.lost

theorem Shows.step {ev : FeEvents π} {q : EventQueue π} (call : EventCall π) (h : Shows ev q) :
    Shows (eventStep ev call).1 (q.step call).1 ∧ (eventStep ev call).2 = (q.step call).2 := by
  obtain ⟨waiting, lost⟩ := q
  obtain ⟨hring, hflag⟩ := h
  dsimp only at hring hflag
  have hempty := hring.empty_iff
  have hroom := hring.room
  rcases call with ⟨_ | _, e⟩ | interrupted
  · simp only [eventStep, EventQueue.step, dvbFrontendAddEvent, Bool.false_eq_true, if_false]
    by_cases hfull : (ev.eventw + 1) % maxEvent = ev.eventr
    · have hlen := hring.full_iff.mp hfull
      rw [if_pos hfull, if_neg (by omega)]
      cases waiting with
      | nil => simp [maxEvent] at hlen
      | cons first rest => exact ⟨⟨(hring.drop.2 true).put hroom e, rfl⟩, rfl⟩
    · have hlen := mt hring.full_iff.mpr hfull
      rw [if_neg hfull, if_pos (by omega)]
      exact ⟨⟨hring.put (by omega) e, hflag⟩, rfl⟩
  · exact ⟨⟨hring, hflag⟩, rfl⟩
  · simp only [eventStep, EventQueue.step, dvbFrontendGetEvent, hflag]
    cases lost with
    | true => exact ⟨⟨{ hring with }, rfl⟩, rfl⟩
    | false =>
      rcases waiting with _ | ⟨e, rest⟩
      · rw [if_pos (hempty.mpr rfl)]
        exact ⟨⟨hring, hflag⟩, rfl⟩
      have hsome : ¬ ev.eventw = ev.eventr := by simp [hempty]
      obtain ⟨hfirst, hrest⟩ := hring.drop
      rw [if_neg hsome, hfirst]
      cases interrupted with
      | true => exact ⟨⟨hring, hflag⟩, rfl⟩
      | false => exact ⟨⟨hrest _, rfl⟩, rfl⟩

theorem EventQueue.returned_sublist (q : EventQueue π) (calls : List (EventCall π)) :
    (returnedEvents (emitted EventQueue.step q calls)).Sublist
      (q.waiting ++ addedEvents calls) := by
  induction calls generalizing q with
  | nil => exact nil_sublist _
  | cons call rest ih =>
    obtain ⟨waiting, lost⟩ := q
    rcases call with ⟨_ | _, e⟩ | interrupted
    · simp only [emitted, step]
      split_ifs
      · simpa [addedEvents] using ih ⟨waiting ++ [e], lost⟩
      · refine (ih _).trans ?_
        simpa [addedEvents] using (tail_sublist waiting).append_right (e :: addedEvents rest)
    · exact ih _
    cases lost with
    | true => exact ih ⟨waiting, false⟩
    | false =>
      rcases waiting with _ | ⟨e, tail⟩
      · exact ih ⟨[], false⟩
      cases interrupted with
      | true => exact ih ⟨e :: tail, false⟩
      | false => exact (ih ⟨tail, false⟩).cons_cons e

/-- The answers to every sequence of calls are those of the queue, and the events among them
are some of those added, in their order. -/
theorem frontend_events_queue (ev : FeEvents π) (hempty : ev.eventw = ev.eventr)
    (hinside : ev.eventr < maxEvent) (hflag : ev.overflow = false) (calls : List (EventCall π)) :
    emitted eventStep ev calls = emitted EventQueue.step ⟨[], false⟩ calls ∧
      (returnedEvents (emitted eventStep ev calls)).Sublist (addedEvents calls) := by
  have hstart : Shows ev ⟨[], false⟩ :=
    ⟨⟨hinside, Nat.zero_lt_of_lt hinside, by rw [hempty]; exact (Nat.mod_eq_of_lt hinside).symm,
      rfl⟩, hflag⟩
  have hanswers := (emitted_eq_of_simulation eventStep step Shows
    (fun _ _ call h => h.step call) ev ⟨[], false⟩ hstart calls).2
  rw [hanswers]
  exact ⟨rfl, returned_sublist ⟨[], false⟩ calls⟩

/-- Nine events in a row: the reader is told of the loss, and gets the third. -/
theorem frontend_events_queue_nine :
    let calls := (List.range 9).map (fun i => .add false ⟨(), UInt32.ofNat i⟩) ++
      [.get false, .get false]
    emitted eventStep ⟨fun _ => ⟨(), 0⟩, 0, 0, false⟩ calls = [.eoverflow, .event ⟨(), 2⟩] ∧
      (returnedEvents (emitted eventStep ⟨fun _ => ⟨(), 0⟩, 0, 0, false⟩ calls)).Sublist
        (addedEvents calls) :=
  ⟨by decide, (frontend_events_queue ⟨fun _ => ⟨(), 0⟩, 0, 0, false⟩ rfl (by decide) rfl _).2⟩

end TbsMedia.DvbCore
