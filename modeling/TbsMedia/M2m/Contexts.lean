import TbsMedia.M2m.Scheduler
import TbsMedia.Vb2.Queue

/-!
Mem2mem contexts with their two videobuf2 queues, for a driver whose `buf_queue` is
`v4l2_m2m_buf_queue` and that has no `stop_streaming`. A job takes one buffer from each
ready list and gives both back with `vb2_buffer_done` before it ends.
-/

namespace TbsMedia.M2m

open Function
open Vb2 (Vb2Queue BufType BufState V4l2Buffer QbufAnswers)

/-- `struct v4l2_m2m_queue_ctx`; `num_rdy` is a byte. -/
structure QueueCtx where
  q : Vb2Queue
  rdyQueue : List Nat
  numRdy : Nat

namespace QueueCtx

/-- `v4l2_m2m_buf_queue`. -/
def bufQueue (x : QueueCtx) (p : Nat) : QueueCtx :=
  { x with rdyQueue := x.rdyQueue ++ [p], numRdy := (x.numRdy + 1) % 256 }

/-- `v4l2_m2m_buf_remove`. -/
def bufRemove (x : QueueCtx) : Option Nat × QueueCtx :=
  match x.rdyQueue with
  | [] => (none, x)
  | p :: rest => (some p, { x with rdyQueue := rest, numRdy := (x.numRdy + 255) % 256 })

/-- `vb2_qbuf`, with the buffer that `__enqueue_in_driver` gives to `buf_queue`. -/
def qbuf (x : QueueCtx) (b : V4l2Buffer) (answers : QbufAnswers) : Int × QueueCtx :=
  let result := Vb2.vb2Qbuf x.q b answers
  let given := if result.1 = 0 ∧ x.q.streaming = true then x.q.bufs[b.index]?.toList else []
  (result.1, given.foldl bufQueue { x with q := result.2 })

def dqbuf (x : QueueCtx) (type : BufType) (nonblocking : Bool) (bufFinish : Int) :
    Option QueueCtx :=
  (Vb2.vb2Dqbuf x.q type nonblocking bufFinish).map fun result => { x with q := result.2 }

/-- `vb2_streamon`, with the buffers that `__enqueue_in_driver` gives to `buf_queue`. -/
def streamon (x : QueueCtx) (type : BufType) (startStreaming : Int) : Option (Int × QueueCtx) :=
  (Vb2.vb2Streamon x.q type startStreaming).map fun result =>
    (result.1, (if result.1 = 0 then x.q.queuedList else []).foldl bufQueue
      { x with q := result.2 })

def streamoff (x : QueueCtx) (type : BufType) : QueueCtx :=
  { x with q := (Vb2.vb2Streamoff x.q type).2 }

end QueueCtx

inductive Side where
  | out
  | cap
  deriving DecidableEq, Repr

/-- `get_queue_ctx`. -/
def Side.ofType (type : BufType) : Side := if type.isOutput then .out else .cap

inductive Taken where
  | ready
  | removed (p : Nat)
  | done
  deriving DecidableEq, Repr

/-- `ran` records what each call of `device_run` found. -/
structure Device where
  dev : Dev
  ctx : Nat → Side → QueueCtx
  taken : Side → Taken
  ran : List Tests

namespace Device

def setQueue (w : Device) (c : Nat) (side : Side) (x : QueueCtx) : Device :=
  { w with ctx := update w.ctx c (update (w.ctx c) side x) }

def tests (w : Device) (c : Nat) (jobReady : Bool) : Tests where
  outStreaming := (w.ctx c .out).q.streaming
  capStreaming := (w.ctx c .cap).q.streaming
  outReady := !(w.ctx c .out).rdyQueue.isEmpty
  capReady := !(w.ctx c .cap).rdyQueue.isEmpty
  jobReady := jobReady

/-- `v4l2_m2m_try_run`. -/
def tryRun (w : Device) : Device :=
  match w.dev.tryRunLocked with
  | none => w
  | some d =>
    { w with
      dev := d
      taken := fun _ => .ready
      ran := w.ran ++ d.currCtx.toList.map fun c => w.tests c true }

/-- `v4l2_m2m_try_schedule`. -/
def trySchedule (w : Device) (c : Nat) (jobReady : Bool) : Device :=
  if !(w.tests c jobReady).outStreaming || !(w.tests c jobReady).capStreaming then w
  else
    match w.dev.tryScheduleLocked c (w.tests c jobReady) with
    | none => w
    | some d => tryRun { w with dev := d }

/-- `v4l2_m2m_job_finish`. -/
def jobFinish (w : Device) (c : Nat) (jobReady : Bool) : Device :=
  match w.dev.jobFinishLocked c with
  | none => w
  | some d => tryRun (trySchedule { w with dev := d } c jobReady)

end Device

/-- Requests for the queues of context `c`, and what the running job does. -/
inductive Request where
  | qbuf (c : Nat) (b : V4l2Buffer) (answers : QbufAnswers) (jobReady : Bool)
  | dqbuf (c : Nat) (type : BufType) (nonblocking : Bool) (bufFinish : Int)
  | streamon (c : Nat) (type : BufType) (startStreaming : Int) (jobReady : Bool)
  | streamoff (c : Nat) (type : BufType)
  | remove (side : Side)
  | done (side : Side) (error : Bool)
  | finish (jobReady : Bool)

namespace Device

/-- `v4l2_m2m_qbuf`. -/
def qbuf (w : Device) (c : Nat) (b : V4l2Buffer) (answers : QbufAnswers) (jobReady : Bool) :
    Device :=
  let side := Side.ofType b.type
  let result := (w.ctx c side).qbuf b answers
  let w := w.setQueue c side result.2
  if result.1 = 0 then w.trySchedule c jobReady else w

/-- `v4l2_m2m_streamon`. -/
def streamon (w : Device) (c : Nat) (type : BufType) (startStreaming : Int) (jobReady : Bool) :
    Option Device :=
  let side := Side.ofType type
  ((w.ctx c side).streamon type startStreaming).map fun result =>
    let w := w.setQueue c side result.2
    if result.1 = 0 then w.trySchedule c jobReady else w

def remove (w : Device) (c : Nat) (side : Side) : Option Device :=
  match w.taken side, (w.ctx c side).bufRemove with
  | .ready, (some p, x) =>
    some { w.setQueue c side x with taken := update w.taken side (.removed p) }
  | _, _ => none

def done (w : Device) (c : Nat) (side : Side) (error : Bool) : Option Device :=
  match w.taken side with
  | .removed p =>
    (Vb2.vb2BufferDone (w.ctx c side).q p (if error then .error else .done)).map fun q =>
      { w.setQueue c side { w.ctx c side with q := q } with
        taken := update w.taken side .done }
  | _ => none

end Device

def requestStep (w : Device) : Request → Option Device
  | .qbuf c b answers jobReady => some (w.qbuf c b answers jobReady)
  | .dqbuf c type nonblocking bufFinish =>
    ((w.ctx c (.ofType type)).dqbuf type nonblocking bufFinish).map (w.setQueue c (.ofType type))
  | .streamon c type startStreaming jobReady => w.streamon c type startStreaming jobReady
  | .streamoff c type =>
    some (w.setQueue c (.ofType type) ((w.ctx c (.ofType type)).streamoff type))
  | .remove side => w.dev.currCtx.bind fun c => w.remove c side
  | .done side error => w.dev.currCtx.bind fun c => w.done c side error
  | .finish jobReady =>
    w.dev.currCtx.bind fun c =>
      if w.taken .out = .done ∧ w.taken .cap = .done then some (w.jobFinish c jobReady) else none

end TbsMedia.M2m
