import TbsMedia.Lib.Run

/-!
The job scheduler of v4l2-mem2mem.c. What a function does under `job_spinlock` is one
step; threads and the interrupt handler are places in these functions, and any of them may
take the next step. Contexts are known by number.
-/

namespace TbsMedia.M2m

open Function

/-- `job_flags`: `TRANS_QUEUED` and `TRANS_RUNNING`. -/
structure JobFlags where
  queued : Bool
  running : Bool
  deriving DecidableEq, Repr

/-- `struct v4l2_m2m_dev`, with the flags of its contexts. -/
structure Dev where
  currCtx : Option Nat
  jobQueue : List Nat
  jobFlags : Nat → JobFlags

/-- What `v4l2_m2m_try_schedule` finds: `streaming` of both queues, a buffer on both ready
lists, and the driver's `job_ready`. -/
structure Tests where
  outStreaming : Bool
  capStreaming : Bool
  outReady : Bool
  capReady : Bool
  jobReady : Bool
  deriving DecidableEq, Repr

namespace Dev

def setFlags (d : Dev) (c : Nat) (flags : JobFlags) : Dev :=
  { d with jobFlags := update d.jobFlags c flags }

/-- The critical section of `v4l2_m2m_try_run`; `none` when it returns there. -/
def tryRunLocked (d : Dev) : Option Dev :=
  match d.currCtx, d.jobQueue with
  | some _, _ => none
  | none, [] => none
  | none, c :: _ =>
    some { d.setFlags c { d.jobFlags c with running := true } with currCtx := some c }

/-- The critical section of `v4l2_m2m_try_schedule`; `none` when it returns there. -/
def tryScheduleLocked (d : Dev) (c : Nat) (tests : Tests) : Option Dev :=
  if (d.jobFlags c).queued then none
  else if !tests.outReady then none
  else if !tests.capReady then none
  else if !tests.jobReady then none
  else
    some { d.setFlags c { d.jobFlags c with queued := true } with
      jobQueue := d.jobQueue ++ [c] }

/-- The critical section of `v4l2_m2m_job_finish`; `none` for an instance that is not
running. -/
def jobFinishLocked (d : Dev) (c : Nat) : Option Dev :=
  if d.currCtx = some c then
    some { d.setFlags c ⟨false, false⟩ with
      jobQueue := d.jobQueue.erase c
      currCtx := none }
  else none

/-- The critical section of `v4l2_m2m_ctx_release` for a context that is not running. -/
def ctxReleaseLocked (d : Dev) (c : Nat) : Dev :=
  if (d.jobFlags c).queued then
    { d.setFlags c ⟨false, false⟩ with jobQueue := d.jobQueue.erase c }
  else d

end Dev

/-- Where a thread is. In `v4l2_m2m_job_finish` (`finishing`) the last
`v4l2_m2m_try_run` is still to come. -/
inductive Place where
  | outside
  | streaming (ctx : Nat) (finishing : Bool)
  | schedule (ctx : Nat) (finishing : Bool)
  | tryRun (finishing : Bool)
  | deviceRun (finishing : Bool)
  | waiting (ctx : Nat)
  | freeing (ctx : Nat)
  deriving DecidableEq, Repr

/-- Where the thread goes on when `v4l2_m2m_try_schedule`, or a `v4l2_m2m_try_run`,
returns. -/
def Place.after (finishing : Bool) : Place :=
  if finishing then .tryRun false else .outside

/-- The device, its threads, and a record of what happened: the context of each job in
queueing order, the jobs that a release took from the queue, the calls of `device_run`. -/
structure World (n : Nat) where
  dev : Dev
  place : Fin n → Place
  /-- `device_run` was called for the job of `curr_ctx`. -/
  started : Bool
  jobs : List Nat
  /-- The last job of a context. -/
  job : Nat → Nat
  dropped : List Nat
  ran : List (Nat × Nat)
  /-- `v4l2_m2m_ctx_release` was called. -/
  released : Nat → Bool
  /-- Contexts given back, with the number of calls of `device_run` before that. -/
  freed : Nat → Option Nat

inductive Action where
  | trySchedule (ctx : Nat)
  | jobFinish (ctx : Nat)
  | ctxRelease (ctx : Nat)
  | next (tests : Tests)
  deriving DecidableEq, Repr

variable {n : Nat}

namespace World

def goto (w : World n) (t : Fin n) (p : Place) : World n :=
  { w with place := update w.place t p }

/-- The step of a thread inside one of the functions. A thread waits as long as the
context it waits for is running. -/
def next (w : World n) (t : Fin n) (tests : Tests) : Option (World n) :=
  match w.place t with
  | .outside => none
  | .streaming c finishing =>
    if tests.outStreaming && tests.capStreaming then some (w.goto t (.schedule c finishing))
    else some (w.goto t (.after finishing))
  | .schedule c finishing =>
    match w.dev.tryScheduleLocked c tests with
    | none => some (w.goto t (.after finishing))
    | some d =>
      some { w.goto t (.tryRun finishing) with
        dev := d
        jobs := w.jobs ++ [c]
        job := update w.job c w.jobs.length }
  | .tryRun finishing =>
    match w.dev.tryRunLocked with
    | none => some (w.goto t (.after finishing))
    | some d => some { w.goto t (.deviceRun finishing) with dev := d }
  | .deviceRun finishing =>
    -- `curr_ctx` is read again here, outside the lock
    match w.dev.currCtx with
    | none => none
    | some c =>
      some { w.goto t (.after finishing) with
        started := true
        ran := w.ran ++ [(w.job c, c)] }
  | .waiting c =>
    if (w.dev.jobFlags c).running then none else some (w.goto t (.freeing c))
  | .freeing c =>
    some { w.goto t .outside with freed := update w.freed c (some w.ran.length) }

/-- `v4l2_m2m_job_finish` up to the end of its critical section. -/
def jobFinish (w : World n) (t : Fin n) (c : Nat) : World n :=
  match w.dev.jobFinishLocked c with
  | none => w
  | some d => { w.goto t (.streaming c true) with dev := d, started := false }

/-- `v4l2_m2m_ctx_release` up to the end of its critical section. -/
def ctxRelease (w : World n) (t : Fin n) (c : Nat) : World n :=
  if (w.dev.jobFlags c).running then
    { w.goto t (.waiting c) with released := update w.released c true }
  else
    { w.goto t (.freeing c) with
      dev := w.dev.ctxReleaseLocked c
      dropped := if (w.dev.jobFlags c).queued then w.dropped ++ [w.job c] else w.dropped
      released := update w.released c true }

end World

/-- One step of thread `t`: a call, when it is outside, or its way through one. -/
def step (w : World n) : Fin n × Action → Option (World n)
  | (t, .trySchedule c) =>
    if w.place t = .outside then some (w.goto t (.streaming c false)) else none
  | (t, .jobFinish c) => if w.place t = .outside then some (w.jobFinish t c) else none
  | (t, .ctxRelease c) => if w.place t = .outside then some (w.ctxRelease t c) else none
  | (t, .next tests) => w.next t tests

/-- `v4l2_m2m_init` and a fresh `v4l2_m2m_ctx_init` for each context. -/
def start (n : Nat) : World n where
  dev := ⟨none, [], fun _ => ⟨false, false⟩⟩
  place := fun _ => .outside
  started := false
  jobs := []
  job := fun _ => 0
  dropped := []
  ran := []
  released := fun _ => false
  freed := fun _ => none

inductive Moves (w : World n) (t : Fin n) : Action → World n → Prop where
  | enter (c : Nat) (hplace : w.place t = .outside) :
      Moves w t (.trySchedule c) (w.goto t (.streaming c false))
  | notRunning (c : Nat) (hplace : w.place t = .outside) : Moves w t (.jobFinish c) w
  | finish (c : Nat) (d : Dev) (hplace : w.place t = .outside)
      (hd : w.dev.jobFinishLocked c = some d) :
      Moves w t (.jobFinish c) { w.goto t (.streaming c true) with dev := d, started := false }
  | abort (c : Nat) (hplace : w.place t = .outside) :
      Moves w t (.ctxRelease c)
        { w.goto t (.waiting c) with released := update w.released c true }
  | release (c : Nat) (hplace : w.place t = .outside)
      (hrunning : (w.dev.jobFlags c).running = false) :
      Moves w t (.ctxRelease c) { w.goto t (.freeing c) with
          dev := w.dev.ctxReleaseLocked c
          dropped := if (w.dev.jobFlags c).queued then w.dropped ++ [w.job c] else w.dropped
          released := update w.released c true }
  | streams (c : Nat) (finishing : Bool) (tests : Tests)
      (hplace : w.place t = .streaming c finishing) :
      Moves w t (.next tests) (w.goto t (.schedule c finishing))
  | stays (c : Nat) (finishing : Bool) (tests : Tests)
      (hplace : w.place t = .streaming c finishing ∨ w.place t = .schedule c finishing) :
      Moves w t (.next tests) (w.goto t (.after finishing))
  | queue (c : Nat) (finishing : Bool) (tests : Tests) (d : Dev)
      (hplace : w.place t = .schedule c finishing)
      (hd : w.dev.tryScheduleLocked c tests = some d) :
      Moves w t (.next tests) { w.goto t (.tryRun finishing) with
          dev := d
          jobs := w.jobs ++ [c]
          job := update w.job c w.jobs.length }
  | idle (finishing : Bool) (tests : Tests) (hplace : w.place t = .tryRun finishing)
      (hnone : w.dev.tryRunLocked = none) : Moves w t (.next tests) (w.goto t (.after finishing))
  | select (finishing : Bool) (tests : Tests) (d : Dev) (hplace : w.place t = .tryRun finishing)
      (hd : w.dev.tryRunLocked = some d) :
      Moves w t (.next tests) { w.goto t (.deviceRun finishing) with dev := d }
  | run (c : Nat) (finishing : Bool) (tests : Tests) (hplace : w.place t = .deviceRun finishing)
      (hcurr : w.dev.currCtx = some c) :
      Moves w t (.next tests)
        { w.goto t (.after finishing) with started := true, ran := w.ran ++ [(w.job c, c)] }
  | woken (c : Nat) (tests : Tests) (hplace : w.place t = .waiting c)
      (hrunning : (w.dev.jobFlags c).running = false) :
      Moves w t (.next tests) (w.goto t (.freeing c))
  | free (c : Nat) (tests : Tests) (hplace : w.place t = .freeing c) :
      Moves w t (.next tests)
        { w.goto t .outside with freed := update w.freed c (some w.ran.length) }

theorem moves_of_next {w next : World n} {t : Fin n} {tests : Tests}
    (hnext : w.next t tests = some next) : Moves w t (.next tests) next := by
  cases hplace : w.place t with rw [World.next, hplace] at hnext
  | outside => cases hnext
  | streaming c finishing =>
    split_ifs at hnext
    · cases hnext
      exact .streams c finishing tests hplace
    · cases hnext
      exact .stays c finishing tests (.inl hplace)
  | schedule c finishing =>
    dsimp only at hnext
    cases hd : w.dev.tryScheduleLocked c tests with
    | none =>
      rw [hd] at hnext
      cases hnext
      exact .stays c finishing tests (.inr hplace)
    | some d =>
      rw [hd] at hnext
      cases hnext
      exact .queue c finishing tests d hplace hd
  | tryRun finishing =>
    cases hd : w.dev.tryRunLocked with
    | none =>
      rw [hd] at hnext
      cases hnext
      exact .idle finishing tests hplace hd
    | some d =>
      rw [hd] at hnext
      cases hnext
      exact .select finishing tests d hplace hd
  | deviceRun finishing =>
    rcases hcurr : w.dev.currCtx with _ | c
    · rw [hcurr] at hnext
      cases hnext
    rw [hcurr] at hnext
    cases hnext
    exact .run c finishing tests hplace hcurr
  | waiting c =>
    dsimp only at hnext
    split_ifs at hnext with hruns
    cases hnext
    exact .woken c tests hplace (Bool.eq_false_iff.mpr hruns)
  | freeing c =>
    cases hnext
    exact .free c tests hplace

theorem step_moves {w next : World n} {t : Fin n} {action : Action}
    (hnext : step w (t, action) = some next) : Moves w t action next := by
  cases action with
  | trySchedule c =>
    rw [step] at hnext
    split_ifs at hnext with hplace
    cases hnext
    exact .enter c hplace
  | jobFinish c =>
    rw [step] at hnext
    split_ifs at hnext with hplace
    cases hnext
    rw [World.jobFinish]
    cases hd : w.dev.jobFinishLocked c with
    | none => exact .notRunning c hplace
    | some d => exact .finish c d hplace hd
  | ctxRelease c =>
    rw [step] at hnext
    split_ifs at hnext with hplace
    cases hnext
    rw [World.ctxRelease]
    split
    · exact .abort c hplace
    · rename_i hruns
      exact .release c hplace (Bool.eq_false_iff.mpr hruns)
  | next tests => exact moves_of_next hnext

end TbsMedia.M2m
