import TbsMedia.M2m.Jobs
import TbsMedia.M2m.Contexts
import TbsMedia.Vb2.QueueLists

/-!
A job runs only when its requirements hold, and the ready lists match the states of the
buffers, as long as no stream is turned off while buffers are ready or a job of the
context is queued.
-/

namespace TbsMedia.Vb2

/-- `vb2_qbuf` fails and no state changes, or it queues a dequeued buffer. -/
theorem qbuf_result (q : Vb2Queue) (b : V4l2Buffer) (answers : QbufAnswers) :
    (vb2Qbuf q b answers).1 ≠ 0 ∧ SameStates q (vb2Qbuf q b answers).2 ∨
      ∃ p r, q.bufs[b.index]? = some p ∧ (q.vb p).state = .dequeued ∧ SameStates q r ∧
        vb2Qbuf q b answers = prepareAndQueue r p 0 := by
  have hrefl : SameStates q q := ⟨rfl, rfl, rfl, rfl, rfl, rfl, fun _ => rfl⟩
  have heinval : einval ≠ 0 := by decide
  have hprep : ∀ p r, q.bufs[b.index]? = some p → (q.vb p).state = .dequeued →
      SameStates q r →
      ((prepareAndQueue r p answers.bufPrepare).1 ≠ 0 ∧
          SameStates q (prepareAndQueue r p answers.bufPrepare).2 ∨
        ∃ p' r', q.bufs[b.index]? = some p' ∧ (q.vb p').state = .dequeued ∧ SameStates q r' ∧
          prepareAndQueue r p answers.bufPrepare = prepareAndQueue r' p' 0) := by
    intro p r hp hstate hsame
    by_cases hans : answers.bufPrepare = 0
    · exact .inr ⟨p, r, hp, hstate, hsame, by rw [hans]⟩
    left
    rw [prepareAndQueue, if_pos hans]
    exact ⟨hans, hsame⟩
  by_cases htype : b.type ≠ q.type
  · rw [vb2Qbuf, if_pos htype]
    exact .inl ⟨heinval, hrefl⟩
  rcases hp : q.bufs[b.index]? with _ | p
  · rw [vb2Qbuf, if_neg htype, hp]
    exact .inl ⟨heinval, hrefl⟩
  simp only [vb2Qbuf, htype, if_false, hp]
  split_ifs with hmemory hstate hmmap hret huser hret
  · exact .inl ⟨heinval, hrefl⟩
  · exact .inl ⟨heinval, hrefl⟩
  · exact .inl ⟨hret, hrefl⟩
  · rw [← hp]
    exact hprep p q hp (not_not.mp hstate) hrefl
  · exact .inl ⟨hret, afterUserptr_same q p b answers⟩
  · rw [← hp]
    exact hprep p _ hp (not_not.mp hstate) (afterUserptr_same q p b answers)
  · exact .inl ⟨heinval, hrefl⟩

end TbsMedia.Vb2

namespace TbsMedia.M2m

open Lib List Option QueueCtx Device Function Vb2
open Vb2 (Vb2Queue BufType BufState V4l2Buffer QbufAnswers SameStates enqueueInDriver)

/-- The ready list of a queue holds the ACTIVE buffers, but for one that the running job
holds. While the queue does not stream, no buffer is ACTIVE. -/
structure QueueInv (x : QueueCtx) (held : Option Nat) : Prop where
  few : x.q.bufs.length ≤ Vb2.videoMaxFrame
  once : x.rdyQueue.Nodup
  active : ∀ p, p ∈ x.rdyQueue ↔ p ∈ x.q.bufs ∧ (x.q.vb p).state = .active ∧ held ≠ some p
  holds : ∀ p, held = some p → p ∈ x.q.bufs ∧ (x.q.vb p).state = .active
  count : x.numRdy = x.rdyQueue.length
  idle : x.q.streaming = false → ∀ p ∈ x.q.bufs, (x.q.vb p).state ≠ .active
  listOnce : x.q.streaming = false → x.q.queuedList.Nodup
  listed : x.q.streaming = false → ∀ p ∈ x.q.queuedList,
    p ∈ x.q.bufs ∧ (x.q.vb p).state = .queued

structure Grows (x y : QueueCtx) : Prop where
  streaming : x.q.streaming = true → y.q.streaming = true
  ready : x.rdyQueue ≠ [] → y.rdyQueue ≠ []

namespace QueueInv

variable {x : QueueCtx} {held : Option Nat}

theorem numRdy_lt (hx : QueueInv x held) : x.rdyQueue.length ≤ Vb2.videoMaxFrame := by
  have hsub : x.rdyQueue ⊆ x.q.bufs := fun p hp => ((hx.active p).mp hp).1
  exact (hx.once.subperm hsub).length_le.trans hx.few

variable {q : Vb2Queue} {p : Nat} {state : BufState} {y : QueueCtx} {type : BufType}

section

variable (hx : QueueInv x held)
include hx

theorem of_same (hsame : SameStates x.q q) : QueueInv { x with q := q } held := by
  obtain ⟨hbufs, hq, -, -, hstream, -, hstate⟩ := hsame
  constructor <;> simp only [hbufs, hq, hstream, hstate]
  · exact hx.few
  · exact hx.once
  · exact hx.active
  · exact hx.holds
  · exact hx.count
  · exact hx.idle
  · exact hx.listOnce
  · exact hx.listed

/-- `__enqueue_in_driver`, with its call of `buf_queue`. -/
def give (x : QueueCtx) (p : Nat) : QueueCtx :=
  QueueCtx.bufQueue { x with q := enqueueInDriver x.q p } p

omit hx in
theorem foldl_give (list : List Nat) (x : QueueCtx) :
    list.foldl QueueCtx.bufQueue { x with q := list.foldl enqueueInDriver x.q } =
      list.foldl give x := by
  induction list generalizing x with
  | nil => rfl
  | cons p rest ih => exact ih (give x p)

theorem give_inv (hp : p ∈ x.q.bufs) (hstate : (x.q.vb p).state ≠ .active)
    (hstream : x.q.streaming = true) : QueueInv (give x p) held := by
  have hnotin : p ∉ x.rdyQueue := fun hmem => hstate ((hx.active p).mp hmem).2.1
  have hnot : held ≠ some p := fun heq => hstate (hx.holds p heq).2
  have hon : (give x p).q.streaming ≠ false := by
    intro hoff
    exact Bool.false_ne_true (hoff.symm.trans hstream)
  refine ⟨hx.few, nodup_concat hx.once hnotin, ?_, ?_, ?_, fun hoff => absurd hoff hon,
    fun hoff => absurd hoff hon, fun hoff => absurd hoff hon⟩
  · intro p'
    rcases eq_or_ne p' p with rfl | heq
    · simp [give, bufQueue, enqueueInDriver, hp, hnot]
    · simpa [give, bufQueue, enqueueInDriver, heq] using hx.active p'
  · intro p' hheld
    have hne : p' ≠ p := fun heq => hnot (heq ▸ hheld)
    simpa [give, bufQueue, enqueueInDriver, hne] using hx.holds p' hheld
  · have hlt := hx.numRdy_lt
    have hmax : videoMaxFrame = 32 := rfl
    simp only [give, bufQueue, hx.count, length_append, length_singleton]
    omega

omit hx in
theorem give_all (list : List Nat) (hnodup : list.Nodup) {x : QueueCtx} (hx : QueueInv x held)
    (hstream : x.q.streaming = true)
    (hlist : ∀ p ∈ list, p ∈ x.q.bufs ∧ (x.q.vb p).state ≠ .active) :
    QueueInv (list.foldl give x) held := by
  induction list generalizing x with
  | nil => exact hx
  | cons p rest ih =>
    obtain ⟨hnotin, hrest⟩ := nodup_cons.mp hnodup
    obtain ⟨hp, hstate⟩ := hlist p mem_cons_self
    refine ih hrest (hx.give_inv hp hstate hstream) hstream ?_
    intro p' hmem
    have hne : p' ≠ p := fun heq => hnotin (heq ▸ hmem)
    simpa [give, bufQueue, enqueueInDriver, hne] using hlist p' (mem_cons_of_mem _ hmem)

omit hx in
theorem give_grows (list : List Nat) (x : QueueCtx) : Grows x (list.foldl give x) := by
  induction list generalizing x with
  | nil => exact ⟨id, id⟩
  | cons p rest ih =>
    refine ⟨fun hon => (ih (give x p)).streaming hon, fun _ => (ih (give x p)).ready ?_⟩
    exact append_ne_nil_of_right_ne_nil _ (cons_ne_nil p [])

/-- A dequeued buffer is queued while the queue does not stream. -/
theorem queue (hp : p ∈ x.q.bufs) (hstate : (x.q.vb p).state = .dequeued)
    (hstream : x.q.streaming = false) :
    QueueInv { x with q := { x.q.setState p .queued with
      queuedList := x.q.queuedList ++ [p] } } held := by
  have hnone : ∀ p', ¬ (p' ∈ x.q.bufs ∧ (x.q.vb p').state = .active) :=
    fun p' hact => hx.idle hstream p' hact.1 hact.2
  have hempty : ∀ p', p' ∉ x.rdyQueue := fun p' hmem =>
    hnone p' ⟨((hx.active p').mp hmem).1, ((hx.active p').mp hmem).2.1⟩
  have hnotin : p ∉ x.q.queuedList := fun hmem => by
    have hq := (hx.listed hstream p hmem).2
    rw [hstate] at hq
    cases hq
  have hidle : ∀ p' ∈ x.q.bufs, ((x.q.setState p .queued).vb p').state ≠ .active := by
    intro p' hp'
    rcases eq_or_ne p' p with rfl | heq
    · simp
    · simpa [heq] using hx.idle hstream p' hp'
  refine ⟨hx.few, hx.once, ?_, ?_, hx.count, fun _ => hidle, ?_, ?_⟩
  · intro p'
    exact ⟨fun hmem => absurd hmem (hempty p'), fun hact =>
      absurd hact.2.1 (hidle p' hact.1)⟩
  · intro p' hheld
    exact absurd (hx.holds p' hheld) (hnone p')
  · intro _
    exact nodup_concat (hx.listOnce hstream) hnotin
  intro _ p' hmem
  rcases mem_append.mp hmem with hmem | hmem
  · have hne : p' ≠ p := fun heq => hnotin (heq ▸ hmem)
    simpa [hne] using hx.listed hstream p' hmem
  · obtain rfl := mem_singleton.mp hmem
    simpa using hp

theorem of_active (hbufs : q.bufs = x.q.bufs) (hon : q.streaming = true)
    (hact : ∀ p, (q.vb p).state = .active ↔ (x.q.vb p).state = .active) :
    QueueInv { x with q := q } held := by
  have hnotoff : q.streaming ≠ false := by
    rw [hon]
    exact Bool.true_eq_false_eq_False
  refine ⟨?_, hx.once, ?_, ?_, hx.count, fun hoff => absurd hoff hnotoff,
    fun hoff => absurd hoff hnotoff, fun hoff => absurd hoff hnotoff⟩
  · simpa [hbufs] using hx.few
  · simpa [hbufs, hact] using hx.active
  · simpa [hbufs, hact] using hx.holds

omit hx in
theorem active_setState (hold : (q.vb p).state ≠ .active) (hnew : state ≠ .active) (p' : Nat) :
    ((q.setState p state).vb p').state = .active ↔ (q.vb p').state = .active := by
  rcases eq_or_ne p' p with rfl | heq
  · simp [hold, hnew]
  · simp [heq]

theorem qbuf (b : V4l2Buffer) (answers : QbufAnswers) :
    QueueInv (x.qbuf b answers).2 held ∧ Grows x (x.qbuf b answers).2 := by
  rcases qbuf_result x.q b answers with ⟨hret, hsame⟩ | ⟨p, r, hp, hstate, hsame, hres⟩
  · simp only [QueueCtx.qbuf, hret, false_and, if_false, foldl_nil]
    exact ⟨hx.of_same hsame, fun hon => hsame.streaming.trans hon, id⟩
  have hr : QueueInv { x with q := r } held := hx.of_same hsame
  have hmem : p ∈ r.bufs := hsame.bufs ▸ mem_of_getElem? hp
  have hdequeued : (r.vb p).state = .dequeued := (hsame.state p).trans hstate
  let queued : Vb2Queue := { r.setState p .queued with queuedList := r.queuedList ++ [p] }
  by_cases hstream : x.q.streaming = true
  · have hon : r.streaming = true := hsame.streaming.trans hstream
    have heq : (x.qbuf b answers).2 = give { x with q := queued } p := by
      have hret : (vb2Qbuf x.q b answers).1 = 0 := by rw [hres]; rfl
      have hq : (vb2Qbuf x.q b answers).2 = enqueueInDriver queued p := by
        rw [hres]
        exact if_pos hon
      simp only [QueueCtx.qbuf, hret, hq, hstream, hp, and_self, if_true, toList_some,
        foldl_cons, foldl_nil]
      rfl
    have hqueued : QueueInv { x with q := queued } held :=
      hr.of_active rfl hon (active_setState (by rw [hdequeued]; nofun) nofun)
    have hnot : (queued.vb p).state ≠ .active := by simp [queued]
    rw [heq]
    exact ⟨hqueued.give_inv hmem hnot hon, fun _ => hon,
      fun _ => append_ne_nil_of_right_ne_nil _ (cons_ne_nil p [])⟩
  · have hoff : r.streaming = false := hsame.streaming.trans (Bool.eq_false_iff.mpr hstream)
    have heq : (x.qbuf b answers).2 = { x with q := queued } := by
      have hq : (vb2Qbuf x.q b answers).2 = queued := by
        rw [hres]
        exact if_neg (Bool.eq_false_iff.mp hoff)
      simp [QueueCtx.qbuf, hstream, hq]
    rw [heq]
    exact ⟨hr.queue hmem hdequeued hoff, fun hon => absurd hon hstream, id⟩

theorem dqbuf {nonblocking : Bool} {bufFinish : Int}
    (hy : x.dqbuf type nonblocking bufFinish = some y) : QueueInv y held ∧ Grows x y := by
  obtain ⟨⟨ret, r⟩, hdqbuf, rfl⟩ := map_eq_some_iff.mp hy
  rcases dqbuf_cases hdqbuf with ⟨-, -, rfl⟩ | ⟨p, rest, -, -, hon, -, hcases⟩
  · exact ⟨hx, id, id⟩
  rcases hcases with ⟨-, -, rfl⟩ | ⟨-, hdone, -, rfl⟩
  · exact ⟨hx.of_active rfl hon fun _ => .rfl, id, id⟩
  have hold : (x.q.vb p).state ≠ .active := by
    rcases hdone with hdone | hdone <;> rw [hdone] <;> nofun
  exact ⟨hx.of_active rfl hon (active_setState hold nofun), id, id⟩

theorem streamon {startStreaming ret : Int} (hy : x.streamon type startStreaming = some (ret, y)) :
    QueueInv y held ∧ Grows x y := by
  obtain ⟨⟨ret', r⟩, hon, heq⟩ := map_eq_some_iff.mp hy
  cases heq
  rw [vb2Streamon] at hon
  split_ifs at hon with htype hstream houtput hstart hlive
  · cases hon
    exact ⟨hx, id, id⟩
  · cases hon
    exact ⟨hx, id, id⟩
  · cases hon
    exact ⟨hx, id, id⟩
  · cases hon
    simp only [hstart, if_false, foldl_nil]
    exact ⟨hx, id, id⟩
  cases hon
  have hoff : x.q.streaming = false := Bool.eq_false_iff.mpr hstream
  let started : QueueCtx := { x with q := { x.q with streaming := true } }
  have hstarted : QueueInv started held := hx.of_active rfl rfl fun _ => .rfl
  simp only [if_true]
  rw [foldl_give x.q.queuedList started]
  refine ⟨give_all x.q.queuedList (hx.listOnce hoff) hstarted rfl ?_, ?_, ?_⟩
  · intro p hmem
    obtain ⟨hp, hstate⟩ := hx.listed hoff p hmem
    exact ⟨hp, by rw [show (started.q.vb p).state = .queued from hstate]; nofun⟩
  · exact fun _ => (give_grows x.q.queuedList started).streaming rfl
  · exact (give_grows x.q.queuedList started).ready

end

/-- The stream is turned off while no buffer is ready and the job holds none. -/
theorem streamoff (hx : QueueInv x none) (hempty : x.rdyQueue = []) (type : BufType) :
    QueueInv (x.streamoff type) none := by
  rw [QueueCtx.streamoff, vb2Streamoff]
  split_ifs
  · exact hx
  · exact hx
  have hidle : ∀ p ∈ x.q.bufs, ((vb2QueueCancel x.q).vb p).state ≠ .active := by
    intro p hp
    simp [vb2QueueCancel, hp]
  refine ⟨hx.few, hx.once, ?_, by simp, hx.count, fun _ => hidle, fun _ => nodup_nil,
    fun _ p hmem => absurd hmem not_mem_nil⟩
  intro p
  refine ⟨fun hmem => ?_, fun hact => absurd hact.2.1 (hidle p hact.1)⟩
  rw [hempty] at hmem
  cases hmem

theorem remove (hx : QueueInv x none) (hy : x.bufRemove = (some p, y)) : QueueInv y (some p) := by
  rw [bufRemove] at hy
  split at hy
  · cases hy
  next p' rest hqueue =>
  obtain ⟨hp, rfl⟩ := Prod.mk.inj hy
  obtain rfl := Option.some.inj hp
  have honce := hx.once
  have hcount := hx.count
  rw [hqueue] at honce hcount
  obtain ⟨hnotin, hrest⟩ := nodup_cons.mp honce
  obtain ⟨hbufs, hact, -⟩ := (hx.active p').mp (by rw [hqueue]; exact mem_cons_self)
  refine ⟨hx.few, hrest, ?_, ?_, ?_, hx.idle, hx.listOnce, hx.listed⟩
  · intro p
    have hp := hx.active p
    rw [hqueue] at hp
    rcases eq_or_ne p p' with rfl | heq
    · simp [hnotin]
    · simpa [heq, Ne.symm heq] using hp
  · intro p hheld
    cases hheld
    exact ⟨hbufs, hact⟩
  · have hlt := hx.numRdy_lt
    have hmax : videoMaxFrame = 32 := rfl
    rw [hqueue] at hlt
    simp only [length_cons] at hcount hlt
    change (x.numRdy + 255) % 256 = rest.length
    omega

theorem done (hx : QueueInv x (some p)) (hstate : state ≠ .active)
    (hdone : state = .done ∨ state = .error) (hq : Vb2.vb2BufferDone x.q p state = some q) :
    QueueInv { x with q := q } none := by
  obtain ⟨hbufs, hact⟩ := hx.holds p rfl
  have hon : x.q.streaming = true := by
    by_contra hoff
    exact hx.idle (Bool.eq_false_iff.mpr hoff) p hbufs hact
  have hnotoff : x.q.streaming ≠ false := by
    rw [hon]
    exact Bool.true_eq_false_eq_False
  rw [vb2BufferDone, if_neg (not_not.mpr hbufs), if_neg (not_not.mpr hact),
    if_neg (by tauto)] at hq
  cases hq
  refine ⟨hx.few, hx.once, ?_, fun _ => nofun, hx.count, fun hoff => absurd hoff hnotoff,
    fun hoff => absurd hoff hnotoff, fun hoff => absurd hoff hnotoff⟩
  intro p'
  have hp := hx.active p'
  rcases eq_or_ne p' p with rfl | heq
  · simpa [hstate] using hp
  · simpa [heq, Ne.symm heq] using hp

end QueueInv

structure Requirements (tests : Tests) : Prop where
  outStreaming : tests.outStreaming = true
  capStreaming : tests.capStreaming = true
  outReady : tests.outReady = true
  capReady : tests.capReady = true

def Taken.buffer : Taken → Option Nat
  | .removed p => some p
  | .ready | .done => none

def Device.held (w : Device) (c : Nat) (side : Side) : Option Nat :=
  if w.dev.currCtx = some c then (w.taken side).buffer else none

structure DeviceInv (w : Device) : Prop where
  dev : w.dev.Ordered
  queue : ∀ c side, QueueInv (w.ctx c side) (w.held c side)
  waiting : ∀ c ∈ w.dev.jobQueue, w.dev.currCtx ≠ some c → Requirements (w.tests c true)
  ran : ∀ tests ∈ w.ran, Requirements tests

theorem Dev.tryScheduleLocked_ready {d next : Dev} {c : Nat} {tests : Tests}
    (hnext : d.tryScheduleLocked c tests = some next) :
    tests.outReady = true ∧ tests.capReady = true := by
  rw [tryScheduleLocked] at hnext
  split_ifs at hnext with hq hout hcap hjob
  exact ⟨by simpa using hout, by simpa using hcap⟩

namespace Device

variable {w : Device} {c : Nat} {side : Side} {x : QueueCtx}

theorem setQueue_same : (w.setQueue c side x).ctx c side = x := by simp [setQueue]

theorem setQueue_other {c' : Nat} {side' : Side} (hne : ¬ (c' = c ∧ side' = side)) :
    (w.setQueue c side x).ctx c' side' = w.ctx c' side' := by
  rcases eq_or_ne c' c with rfl | hc
  · have hside : side' ≠ side := fun heq => hne ⟨rfl, heq⟩
    simp [setQueue, hside]
  · simp [setQueue, hc]

theorem setQueue_tests_other {c' : Nat} (hne : c' ≠ c) (jobReady : Bool) :
    (w.setQueue c side x).tests c' jobReady = w.tests c' jobReady := by
  simp only [tests]
  rw [setQueue_other fun h => hne h.1, setQueue_other fun h => hne h.1]

theorem requirements_grow (hgrows : Grows (w.ctx c side) x) (jobReady : Bool)
    (hold : Requirements (w.tests c jobReady)) :
    Requirements ((w.setQueue c side x).tests c jobReady) := by
  have hstream : ∀ side', (w.ctx c side').q.streaming = true →
      ((w.setQueue c side x).ctx c side').q.streaming = true := by
    intro side' hon
    rcases eq_or_ne side' side with rfl | heq
    · rw [setQueue_same]
      exact hgrows.streaming hon
    · rwa [setQueue_other fun h => heq h.2]
  have hready : ∀ side', (!(w.ctx c side').rdyQueue.isEmpty) = true →
      (!((w.setQueue c side x).ctx c side').rdyQueue.isEmpty) = true := by
    intro side' hsome
    rcases eq_or_ne side' side with rfl | heq
    · rw [setQueue_same]
      simpa using hgrows.ready (by simpa using hsome)
    · rwa [setQueue_other fun h => heq h.2]
  exact ⟨hstream .out hold.outStreaming, hstream .cap hold.capStreaming,
    hready .out hold.outReady, hready .cap hold.capReady⟩

end Device

namespace DeviceInv

variable {w next : Device} {c : Nat}

section

variable (hw : DeviceInv w)
include hw

variable {side : Side} {x : QueueCtx}

/-- One queue of a context changes; a context that waits for its job keeps what it needs. -/
theorem setQueue (hx : QueueInv x (w.held c side))
    (hgrows : c ∈ w.dev.jobQueue → w.dev.currCtx ≠ some c → Grows (w.ctx c side) x) :
    DeviceInv (w.setQueue c side x) := by
  refine ⟨hw.dev, ?_, ?_, hw.ran⟩
  · intro c' side'
    by_cases heq : c' = c ∧ side' = side
    · obtain ⟨rfl, rfl⟩ := heq
      rw [setQueue_same]
      exact hx
    · rw [setQueue_other heq]
      exact hw.queue c' side'
  · intro c' hmem hcurr
    rcases eq_or_ne c' c with rfl | heq
    · exact requirements_grow (hgrows hmem hcurr) true (hw.waiting c' hmem hcurr)
    · rw [setQueue_tests_other heq]
      exact hw.waiting c' hmem hcurr

theorem tryRun : DeviceInv w.tryRun := by
  rw [Device.tryRun]
  rcases hd : w.dev.tryRunLocked with _ | d
  · exact hw
  have hord := hw.dev.tryRunLocked hd
  obtain ⟨c, rest, hcurr, hqueue, rfl⟩ := Dev.tryRunLocked_some hd
  have hmem : c ∈ w.dev.jobQueue := by rw [hqueue]; exact mem_cons_self
  have hidle : ∀ c', w.dev.currCtx ≠ some c' := fun c' => by rw [hcurr]; exact nofun
  refine ⟨hord, ?_, ?_, ?_⟩
  · intro c' side
    have hpre := hw.queue c' side
    rw [Device.held, if_neg (hidle c')] at hpre
    simpa [Device.held, Taken.buffer] using hpre
  · intro c' hmem' _
    exact hw.waiting c' hmem' (hidle c')
  · intro tests htests
    rcases mem_append.mp htests with htests | htests
    · exact hw.ran tests htests
    · obtain rfl := mem_singleton.mp htests
      exact hw.waiting c hmem (hidle c)

theorem trySchedule (c : Nat) (jobReady : Bool) : DeviceInv (w.trySchedule c jobReady) := by
  rw [Device.trySchedule]
  split_ifs with hstream
  · exact hw
  rcases hd : w.dev.tryScheduleLocked c (w.tests c jobReady) with _ | d
  · exact hw
  have hord := hw.dev.tryScheduleLocked hd
  obtain ⟨hout, hcap⟩ := Dev.tryScheduleLocked_ready hd
  obtain ⟨-, rfl⟩ := Dev.tryScheduleLocked_some hd
  simp only [Bool.or_eq_true, Bool.not_eq_true', not_or, Bool.not_eq_false] at hstream
  apply tryRun
  refine ⟨hord, hw.queue, ?_, hw.ran⟩
  intro c' hmem hcurr
  rcases mem_append.mp hmem with hmem | hmem
  · exact hw.waiting c' hmem hcurr
  · obtain rfl := mem_singleton.mp hmem
    exact ⟨hstream.1, hstream.2, hout, hcap⟩

theorem jobFinish (hout : w.taken .out = .done) (hcap : w.taken .cap = .done)
    (jobReady : Bool) : DeviceInv (w.jobFinish c jobReady) := by
  rw [Device.jobFinish]
  rcases hd : w.dev.jobFinishLocked c with _ | d
  · exact hw
  have hord := hw.dev.jobFinishLocked hd
  obtain ⟨hcurr, rfl⟩ := Dev.jobFinishLocked_some hd
  apply tryRun
  apply trySchedule
  refine ⟨hord, ?_, ?_, hw.ran⟩
  · intro c' side
    have hnone : w.held c' side = none := by
      rw [Device.held]
      cases side <;> simp [hout, hcap, Taken.buffer]
    have hpre := hw.queue c' side
    rw [hnone] at hpre
    exact hpre
  · intro c' hmem _
    obtain ⟨hne, hmem⟩ := hw.dev.mem_erase_iff.mp hmem
    refine hw.waiting c' hmem ?_
    rw [hcurr]
    exact fun heq => hne (Option.some.inj heq).symm

theorem of_grows (hx : QueueInv x (w.held c side) ∧ Grows (w.ctx c side) x) :
    DeviceInv (w.setQueue c side x) :=
  hw.setQueue hx.1 fun _ _ => hx.2

theorem qbuf (c : Nat) (b : V4l2Buffer) (answers : QbufAnswers)
    (jobReady : Bool) : DeviceInv (w.qbuf c b answers jobReady) := by
  have hset := hw.of_grows ((hw.queue c (.ofType b.type)).qbuf b answers)
  rw [Device.qbuf]
  split_ifs
  · exact hset.trySchedule c jobReady
  · exact hset

theorem streamon {type : BufType} {startStreaming : Int} {jobReady : Bool}
    (hnext : w.streamon c type startStreaming jobReady = some next) : DeviceInv next := by
  obtain ⟨⟨ret, x⟩, hx, rfl⟩ := map_eq_some_iff.mp hnext
  have hset := hw.of_grows ((hw.queue c (.ofType type)).streamon hx)
  split_ifs
  · exact hset.trySchedule c jobReady
  · exact hset

/-- While its job runs, a queue of the context changes and so does what the job holds. -/
theorem setTaken (hcurr : w.dev.currCtx = some c) (taken : Taken) (hx : QueueInv x taken.buffer) :
    DeviceInv { w.setQueue c side x with taken := update w.taken side taken } := by
  refine ⟨hw.dev, ?_, ?_, hw.ran⟩
  · intro c' side'
    by_cases heq : c' = c ∧ side' = side
    · obtain ⟨rfl, rfl⟩ := heq
      have hctx : (w.setQueue c' side' x).ctx c' side' = x := Device.setQueue_same
      simp only [Device.held, hctx]
      simpa [Device.setQueue, hcurr] using hx
    have hctx : (w.setQueue c side x).ctx c' side' = w.ctx c' side' := Device.setQueue_other heq
    have hheld : Device.held { w.setQueue c side x with
        taken := update w.taken side taken } c' side' = w.held c' side' := by
      by_cases hc : c' = c
      · have hside : side' ≠ side := fun hs => heq ⟨hc, hs⟩
        simp [Device.held, Device.setQueue, update_of_ne hside]
      have hoth : w.dev.currCtx ≠ some c' := by
        rw [hcurr]
        exact fun h => hc (Option.some.inj h).symm
      simp [Device.held, Device.setQueue, hoth]
    rw [hheld]
    exact hctx ▸ hw.queue c' side'
  · intro c' hmem hoth
    have hne : c' ≠ c := fun heq => hoth (heq ▸ hcurr)
    have htests : (w.setQueue c side x).tests c' true = w.tests c' true :=
      Device.setQueue_tests_other hne true
    exact htests ▸ hw.waiting c' hmem hoth

end

theorem held_eq (hcurr : w.dev.currCtx = some c) (side : Side) :
    w.held c side = (w.taken side).buffer := if_pos hcurr

theorem remove (hw : DeviceInv w) (hcurr : w.dev.currCtx = some c) {side : Side}
    (hnext : w.remove c side = some next) : DeviceInv next := by
  rw [Device.remove] at hnext
  split at hnext
  · next p x htaken hrem =>
    cases hnext
    have hqueue := hw.queue c side
    rw [held_eq hcurr, htaken] at hqueue
    exact hw.setTaken hcurr (.removed p) (hqueue.remove hrem)
  · cases hnext

theorem done (hw : DeviceInv w) (hcurr : w.dev.currCtx = some c) {side : Side} {error : Bool}
    (hnext : w.done c side error = some next) : DeviceInv next := by
  rw [Device.done] at hnext
  split at hnext
  · next p htaken =>
    obtain ⟨q, hq, rfl⟩ := map_eq_some_iff.mp hnext
    have hqueue := hw.queue c side
    rw [held_eq hcurr, htaken] at hqueue
    refine hw.setTaken hcurr .done (hqueue.done ?_ ?_ hq)
    · cases error <;> exact nofun
    cases error
    · exact .inl rfl
    · exact .inr rfl
  · cases hnext

end DeviceInv

/-- A stream is turned off only while no buffer is ready on its queue and the context has no
job queued or running. -/
def StreamoffIdle (w : Device) : Request → Prop
  | .streamoff c type => (w.ctx c (.ofType type)).rdyQueue = [] ∧
      (w.dev.jobFlags c).queued = false
  | _ => True

instance (w : Device) : (request : Request) → Decidable (StreamoffIdle w request)
  | .streamoff c type => inferInstanceAs (Decidable
      ((w.ctx c (.ofType type)).rdyQueue = [] ∧ (w.dev.jobFlags c).queued = false))
  | .qbuf .. | .dqbuf .. | .streamon .. | .remove _ | .done .. | .finish _ => isTrue trivial

theorem DeviceInv.step {w next : Device} {request : Request} (hw : DeviceInv w)
    (hidle : StreamoffIdle w request) (hnext : requestStep w request = some next) :
    DeviceInv next := by
  cases request with
  | qbuf c b answers jobReady =>
    cases hnext
    exact hw.qbuf c b answers jobReady
  | dqbuf c type nonblocking bufFinish =>
    obtain ⟨x, hx, rfl⟩ := map_eq_some_iff.mp hnext
    exact hw.of_grows ((hw.queue c (.ofType type)).dqbuf hx)
  | streamon c type startStreaming jobReady => exact hw.streamon hnext
  | streamoff c type =>
    obtain ⟨hempty, hq⟩ := hidle
    cases hnext
    have hnotin : c ∉ w.dev.jobQueue := fun hmem =>
      Bool.false_ne_true (hq.symm.trans ((hw.dev.queued c).mpr hmem))
    have hnone : w.held c (.ofType type) = none :=
      if_neg fun hcurr => hnotin (hw.dev.mem_of_currCtx hcurr)
    have hqueue := hw.queue c (.ofType type)
    rw [hnone] at hqueue
    refine hw.setQueue ?_ fun hmem => absurd hmem hnotin
    rw [hnone]
    exact hqueue.streamoff hempty type
  | remove side =>
    obtain ⟨c, hcurr, hrem⟩ := bind_eq_some_iff.mp hnext
    exact hw.remove hcurr hrem
  | done side error =>
    obtain ⟨c, hcurr, hdone⟩ := bind_eq_some_iff.mp hnext
    exact hw.done hcurr hdone
  | finish jobReady =>
    obtain ⟨c, hcurr, hfin⟩ := bind_eq_some_iff.mp hnext
    split_ifs at hfin with htaken
    cases hfin
    exact hw.jobFinish htaken.1 htaken.2 jobReady

structure FreshQueue (x : QueueCtx) : Prop where
  few : x.q.bufs.length ≤ Vb2.videoMaxFrame
  streaming : x.q.streaming = false
  queuedList : x.q.queuedList = []
  dequeued : ∀ p ∈ x.q.bufs, (x.q.vb p).state = .dequeued
  rdyQueue : x.rdyQueue = []
  numRdy : x.numRdy = 0

theorem FreshQueue.inv {x : QueueCtx} (hx : FreshQueue x) : QueueInv x none := by
  have hidle : ∀ p ∈ x.q.bufs, (x.q.vb p).state ≠ .active := by
    intro p hp
    rw [hx.dequeued p hp]
    exact nofun
  refine ⟨hx.few, ?_, ?_, fun _ => nofun, ?_, fun _ => hidle, fun _ => ?_, fun _ => ?_⟩
  · rw [hx.rdyQueue]
    exact nodup_nil
  · intro p
    rw [hx.rdyQueue]
    exact ⟨fun hmem => absurd hmem not_mem_nil, fun hact =>
      absurd hact.2.1 (hidle p hact.1)⟩
  · rw [hx.numRdy, hx.rdyQueue]
    rfl
  · rw [hx.queuedList]
    exact nodup_nil
  · rw [hx.queuedList]
    exact fun p hmem => absurd hmem not_mem_nil

def freshDevice (ctx : Nat → Side → QueueCtx) : Device where
  dev := ⟨none, [], fun _ => ⟨false, false⟩⟩
  ctx := ctx
  taken := fun _ => .ready
  ran := []

/-- Each call of `device_run` found both queues streaming and a buffer on both ready lists,
and each ready list holds the ACTIVE buffers of its queue once each, but for one that the
running job has removed. -/
structure ReadyListsMatch (w : Device) : Prop where
  ran : ∀ tests ∈ w.ran, Requirements tests
  once : ∀ c side, (w.ctx c side).rdyQueue.Nodup
  active : ∀ c side p, p ∈ (w.ctx c side).rdyQueue ↔
    p ∈ (w.ctx c side).q.bufs ∧ ((w.ctx c side).q.vb p).state = .active ∧ w.held c side ≠ some p
  count : ∀ c side, (w.ctx c side).numRdy = (w.ctx c side).rdyQueue.length

theorem DeviceInv.readyListsMatch {w : Device} (hw : DeviceInv w) : ReadyListsMatch w where
  ran := hw.ran
  once := fun c side => (hw.queue c side).once
  active := fun c side => (hw.queue c side).active
  count := fun c side => (hw.queue c side).count

theorem DeviceInv.fresh {ctx : Nat → Side → QueueCtx} (hfresh : ∀ c side, FreshQueue (ctx c side)) :
    DeviceInv (freshDevice ctx) where
  dev := ⟨nodup_nil, by simp [freshDevice], by simp [freshDevice], by simp [freshDevice]⟩
  queue := fun c side => (hfresh c side).inv
  waiting := fun c hmem => absurd hmem not_mem_nil
  ran := fun tests hmem => absurd hmem not_mem_nil

/-- The ready lists match the queues along every run that turns streams off only while they
are idle. -/
theorem ready_lists_match (ctx : Nat → Side → QueueCtx) (hfresh : ∀ c side, FreshQueue (ctx c side))
    (requests : List Request) (hidle : Along requestStep StreamoffIdle (freshDevice ctx) requests) :
    Always requestStep ReadyListsMatch (freshDevice ctx) requests := by
  refine Along.always DeviceInv ?_ (fun w hw => hw.readyListsMatch) (DeviceInv.fresh hfresh) hidle
  intro w request next hw hnext hcond
  exact hw.step hcond hnext

def oneBuffer (type : BufType) : QueueCtx where
  q := { Vb2.vb2QueueInit type true false with memory := .mmap, bufs := [0] }
  rdyQueue := []
  numRdy := 0

def oneBufferEach (_ : Nat) : Side → QueueCtx
  | .out => oneBuffer .videoOutput
  | .cap => oneBuffer .videoCapture

def queueFirst (c : Nat) (type : BufType) : Request :=
  .qbuf c ⟨0, type, .mmap, 0, 0, none⟩ ⟨fun _ => ⟨0, 0⟩, fun _ => ⟨0, false⟩, 0, 0⟩ true

/-- Both buffers of context `c` are queued and both streams turned on. -/
def begin (c : Nat) : List Request :=
  [queueFirst c .videoOutput, queueFirst c .videoCapture, .streamon c .videoOutput 0 true,
    .streamon c .videoCapture 0 true]

def wholeJob : List Request :=
  [.remove .out, .remove .cap, .done .out false, .done .cap false, .finish true]

theorem oneBufferEach_fresh (c : Nat) (side : Side) : FreshQueue (oneBufferEach c side) := by
  have hone : (1 : Nat) ≤ videoMaxFrame := by decide
  cases side <;> exact ⟨hone, rfl, rfl, fun _ _ => rfl, rfl, rfl⟩

/-- Two contexts run their jobs one after the other, then a stream is turned off. -/
theorem ready_lists_match_two :
    let requests := begin 0 ++ begin 1 ++ wholeJob ++ wholeJob ++
      [Request.streamoff 1 .videoCapture]
    ((requests.foldlM requestStep (freshDevice oneBufferEach)).any fun w =>
        w.ran.length == 2) = true ∧
      Always requestStep ReadyListsMatch (freshDevice oneBufferEach) requests := by
  intro requests
  have hrun : ((requests.foldlM requestStep (freshDevice oneBufferEach)).any fun w =>
      w.ran.length == 2) = true := by decide +kernel
  have hidle : Along requestStep StreamoffIdle (freshDevice oneBufferEach) requests := by
    decide +kernel
  exact ⟨hrun, ready_lists_match oneBufferEach oneBufferEach_fresh requests hidle⟩

/-- The stream of context 1 is turned off while its job waits: its buffer stays on the ready
list though it is not ACTIVE any more, the job runs on a queue that does not stream, and when
the buffer is queued again it is on the list twice. -/
theorem ready_lists_differ :
    ∃ w last : Device,
      (begin 0 ++ begin 1 ++ [Request.streamoff 1 .videoCapture] ++ wholeJob).foldlM requestStep
        (freshDevice oneBufferEach) = some w ∧
      0 ∈ (w.ctx 1 .cap).rdyQueue ∧ ((w.ctx 1 .cap).q.vb 0).state = .dequeued ∧
      w.dev.currCtx = some 1 ∧ (∃ tests ∈ w.ran, tests.capStreaming = false) ∧
      [queueFirst 1 .videoCapture, .streamon 1 .videoCapture 0 true].foldlM requestStep w =
        some last ∧
      (last.ctx 1 .cap).rdyQueue = [0, 0] := by
  obtain ⟨w, hw, hmem, hstate, hcurr, htests, last, hlast, htwice⟩ :
      ∃ w ∈ (begin 0 ++ begin 1 ++ [Request.streamoff 1 .videoCapture] ++ wholeJob).foldlM
          requestStep (freshDevice oneBufferEach),
        0 ∈ (w.ctx 1 .cap).rdyQueue ∧ ((w.ctx 1 .cap).q.vb 0).state = .dequeued ∧
        w.dev.currCtx = some 1 ∧ (∃ tests ∈ w.ran, tests.capStreaming = false) ∧
        ∃ last ∈ [queueFirst 1 .videoCapture, .streamon 1 .videoCapture 0 true].foldlM
          requestStep w, (last.ctx 1 .cap).rdyQueue = [0, 0] := by
    decide +kernel
  exact ⟨w, last, hw, hmem, hstate, hcurr, htests, hlast, htwice⟩

end TbsMedia.M2m
