import TbsMedia.Lib.Run
import TbsMedia.Vb2.Allocation

/-!
The two lists of a videobuf2 queue, its counter and the states of its buffers.
They agree as long as no request frees buffers that are still queued and the
driver finishes every buffer that is dequeued; either one breaks the agreement
at once.
-/

namespace TbsMedia.Vb2

open Lib List Option

def activeCount (q : Vb2Queue) : Nat := q.bufs.countP fun p => (q.vb p).state = .active

structure ListsAgree (q : Vb2Queue) : Prop where
  queuedOnce : q.queuedList.Nodup
  queued : ∀ p, p ∈ q.queuedList ↔
    p ∈ q.bufs ∧ (q.vb p).state ∈ [BufState.queued, .active, .done, .error]
  doneOnce : q.doneList.Nodup
  done : ∀ p, p ∈ q.doneList ↔ p ∈ q.bufs ∧ (q.vb p).state ∈ [BufState.done, .error]
  count : q.queuedCount = activeCount q
  live : ∀ p, p ∈ q.queuedList ∨ p ∈ q.doneList → p ∈ q.bufs

structure Consistent (q : Vb2Queue) : Prop extends ListsAgree q where
  nodup : q.bufs.Nodup
  fresh : ∀ p ∈ q.bufs, p < q.fresh
  idle : q.streaming = false → ∀ p ∈ q.bufs,
    (q.vb p).state = .dequeued ∨ (q.vb p).state = .queued

variable {p : Nat} {q : Vb2Queue}

section States

@[simp] theorem setState_same (q : Vb2Queue) (p : Nat) (state : BufState) :
    ((q.setState p state).vb p).state = state := by
  simp [Vb2Queue.setState]

@[simp] theorem setState_other (q : Vb2Queue) {p' : Nat} (state : BufState) (hne : p' ≠ p) :
    (q.setState p state).vb p' = q.vb p' := by
  simp [Vb2Queue.setState, hne]

section

variable (q : Vb2Queue) (p : Nat) (state : BufState)

@[simp] theorem setState_bufs : (q.setState p state).bufs = q.bufs := rfl

@[simp] theorem setState_queuedList : (q.setState p state).queuedList = q.queuedList := rfl

@[simp] theorem setState_doneList : (q.setState p state).doneList = q.doneList := rfl

@[simp] theorem setState_queuedCount : (q.setState p state).queuedCount = q.queuedCount := rfl

end

theorem activeCount_setState (state : BufState) (hnodup : q.bufs.Nodup) (hp : p ∈ q.bufs) :
    activeCount (q.setState p state) + (if (q.vb p).state = .active then 1 else 0) =
      activeCount q + (if state = .active then 1 else 0) := by
  have hperm := perm_cons_erase hp
  have hoth : (q.bufs.erase p).countP (fun p' => ((q.setState p state).vb p').state = .active) =
      (q.bufs.erase p).countP (fun p' => (q.vb p').state = .active) := by
    apply countP_congr
    intro p' hp'
    rw [setState_other q state ((hnodup.mem_erase_iff.mp hp').1)]
  unfold activeCount
  rw [setState_bufs, hperm.countP_eq, hperm.countP_eq, countP_cons, countP_cons, hoth,
    setState_same]
  simp only [decide_eq_true_eq]
  omega

end States

theorem Consistent.queued_iff (h : Consistent q) (hp : p ∈ q.bufs) :
    p ∈ q.queuedList ↔ (q.vb p).state ≠ .dequeued := by
  rw [h.queued p]
  cases (q.vb p).state <;> simp [hp]

theorem Consistent.doneList_nil (h : Consistent q) (hq : q.queuedList = []) : q.doneList = [] := by
  apply eq_nil_iff_forall_not_mem.mpr
  intro p hp
  obtain ⟨hmem, hstate⟩ := (h.done p).mp hp
  have hin : p ∈ q.queuedList := (h.queued p).mpr ⟨hmem, by cases hs : (q.vb p).state <;> simp_all⟩
  simp [hq] at hin

theorem Consistent.queuedCount_zero (h : Consistent q) (hq : q.queuedList = []) :
    q.queuedCount = 0 := by
  rw [h.count, activeCount, countP_eq_zero.mpr]
  · rfl
  · intro p hp hact
    have hin : p ∈ q.queuedList := (h.queued_iff hp).mpr (by simp_all)
    simp [hq] at hin

variable {r : Vb2Queue}

theorem Consistent.of_reallocated (hr : Reallocated q r) (hq : q.queuedList = [])
    (hdone : q.doneList = []) (hcount : q.queuedCount = 0) : Consistent r where
  queuedOnce := by rw [hr.queuedList, hq]; exact nodup_nil
  queued := by
    intro p
    rw [hr.queuedList, hq]
    refine ⟨fun hp => absurd hp not_mem_nil, fun hp => ?_⟩
    simp [(hr.new p hp.1).dequeued] at hp
  doneOnce := by rw [hr.doneList, hdone]; exact nodup_nil
  done := by
    intro p
    rw [hr.doneList, hdone]
    refine ⟨fun hp => absurd hp not_mem_nil, fun hp => ?_⟩
    simp [(hr.new p hp.1).dequeued] at hp
  count := by
    rw [hr.queuedCount, hcount, activeCount, countP_eq_zero.mpr]
    · rfl
    · intro p hp
      simp [(hr.new p hp).dequeued]
  live := by simp [hr.queuedList, hq, hr.doneList, hdone]
  nodup := hr.nodup
  fresh := fun p hp => (hr.fresh p hp).2
  idle := fun _ p hp => .inl (hr.new p hp).dequeued

structure SameStates (q r : Vb2Queue) : Prop where
  bufs : r.bufs = q.bufs
  queuedList : r.queuedList = q.queuedList
  doneList : r.doneList = q.doneList
  queuedCount : r.queuedCount = q.queuedCount
  streaming : r.streaming = q.streaming
  fresh : r.fresh = q.fresh
  state : ∀ p, (r.vb p).state = (q.vb p).state

theorem Consistent.of_same (h : Consistent q) (hsame : SameStates q r) : Consistent r := by
  obtain ⟨hbufs, hq, hdone, hcount, hstream, hfresh, hstate⟩ := hsame
  constructor
  · constructor <;> simp only [hbufs, hq, hdone, hcount, hstate, activeCount]
    · exact h.queuedOnce
    · exact h.queued
    · exact h.doneOnce
    · exact h.done
    · exact h.count
    · exact h.live
  · rw [hbufs]; exact h.nodup
  · rw [hbufs, hfresh]; exact h.fresh
  · simp only [hbufs, hstream, hstate]
    exact h.idle

/-- One buffer changes its state and its place in the lists; the other buffers keep theirs. -/
theorem Consistent.change (h : Consistent q) (hp : p ∈ q.bufs) (state : BufState)
    {queuedList doneList : List Nat} {queuedCount : Int} (hqueuedOnce : queuedList.Nodup)
    (hdoneOnce : doneList.Nodup) (hoth : ∀ p' ≠ p,
      (p' ∈ queuedList ↔ p' ∈ q.queuedList) ∧ (p' ∈ doneList ↔ p' ∈ q.doneList))
    (hq : p ∈ queuedList ↔ state ≠ .dequeued)
    (hdone : p ∈ doneList ↔ state = .done ∨ state = .error)
    (hcount : queuedCount + (if (q.vb p).state = .active then 1 else 0) =
      q.queuedCount + (if state = .active then 1 else 0))
    (hidle : q.streaming = false → state = .dequeued ∨ state = .queued) :
    Consistent { q.setState p state with
                 queuedList := queuedList, doneList := doneList, queuedCount := queuedCount } := by
  refine ⟨⟨hqueuedOnce, ?_, hdoneOnce, ?_, ?_, ?_⟩, h.nodup, h.fresh, ?_⟩
  · intro p'
    rcases eq_or_ne p' p with rfl | hne
    · cases state <;> simp [hq, hp]
    · simp [(hoth p' hne).1, h.queued, hne]
  · intro p'
    rcases eq_or_ne p' p with rfl | hne
    · simp [hdone, hp]
    · simp [(hoth p' hne).2, h.done, hne]
  · change queuedCount = (activeCount (q.setState p state) : Int)
    have hact := activeCount_setState state h.nodup hp
    have hpre := h.count
    split_ifs at hcount hact <;> omega
  · intro p' hin
    rcases eq_or_ne p' p with rfl | hne
    · exact hp
    · rw [(hoth p' hne).1, (hoth p' hne).2] at hin
      exact h.live p' hin
  · intro hstream p' hp'
    rcases eq_or_ne p' p with rfl | hne
    · simpa using hidle hstream
    · simpa [hne] using h.idle hstream p' hp'

theorem nodup_concat {list : List Nat} (hnodup : list.Nodup) (hout : p ∉ list) :
    (list ++ [p]).Nodup := by
  rw [← concat_eq_append]
  exact hnodup.concat hout

theorem Consistent.enqueueInDriver (h : Consistent q) (hp : p ∈ q.bufs)
    (hstate : (q.vb p).state = .queued) (hstream : q.streaming = true) :
    Consistent (enqueueInDriver q p) := by
  refine h.change hp .active h.queuedOnce h.doneOnce (fun _ _ => ⟨.rfl, .rfl⟩) ?_ ?_ ?_ ?_
  · simp [h.queued_iff hp, hstate]
  · simp [h.done, hstate]
  · simp [hstate]
  · simp [hstream]

theorem Consistent.enqueueAll (h : Consistent q) (hstream : q.streaming = true) (list : List Nat)
    (hnodup : list.Nodup) (hlist : ∀ p ∈ list, p ∈ q.bufs ∧ (q.vb p).state = .queued) :
    Consistent (list.foldl Vb2.enqueueInDriver q) := by
  induction list generalizing q with
  | nil => exact h
  | cons p rest ih =>
    obtain ⟨hp, hstate⟩ := hlist p (by simp)
    obtain ⟨hnotin, hrest⟩ := nodup_cons.mp hnodup
    apply ih (h.enqueueInDriver hp hstate hstream) hstream hrest
    intro p' hp'
    obtain ⟨hmem, hq⟩ := hlist p' (mem_cons_of_mem _ hp')
    refine ⟨hmem, ?_⟩
    have hne : p' ≠ p := fun heq => hnotin (heq ▸ hp')
    simpa [Vb2.enqueueInDriver, hne] using hq

theorem Consistent.prepareAndQueue (h : Consistent q) (hp : p ∈ q.bufs)
    (hstate : (q.vb p).state = .dequeued) (bufPrepare : Int) :
    Consistent (prepareAndQueue q p bufPrepare).2 := by
  have hout : p ∉ q.queuedList := fun hin => (h.queued_iff hp).mp hin hstate
  have hq : Consistent { q.setState p .queued with queuedList := q.queuedList ++ [p] } := by
    refine h.change hp .queued (nodup_concat h.queuedOnce hout) h.doneOnce ?_ ?_ ?_ ?_ ?_
    · intro p' hne
      simp [hne]
    · simp
    · simp [h.done, hstate]
    · simp [hstate]
    · simp
  unfold Vb2.prepareAndQueue
  split
  · exact h
  dsimp only
  split_ifs with hstream
  · exact hq.enqueueInDriver hp (by simp) hstream
  · exact hq

theorem qbufUserptr_state (vb : Vb2Buffer) (b : V4l2Buffer) (answers : QbufAnswers)
    (maps : Mappings) : (qbufUserptr vb b answers maps).2.1.state = vb.state := by
  unfold qbufUserptr
  split
  · rfl
  · dsimp only
    split_ifs <;> rfl

/-- The queue after `__qbuf_userptr` has worked on one of its buffers. -/
def afterUserptr (q : Vb2Queue) (p : Nat) (result : Int × Vb2Buffer × Mappings) : Vb2Queue :=
  { q with vb := Function.update q.vb p result.2.1, maps := result.2.2 }

/-- A call of `vb2_qbuf` is refused, or it finds a dequeued buffer and works on it. -/
theorem qbuf_cases (q : Vb2Queue) (b : V4l2Buffer) (answers : QbufAnswers) :
    (vb2Qbuf q b answers).2 = q ∨
      ∃ p, q.bufs[b.index]? = some p ∧ b.type = q.type ∧ b.memory = q.memory ∧
        (q.vb p).state = .dequeued ∧
        (q.memory = .mmap ∧ (vb2Qbuf q b answers).2 = (prepareAndQueue q p answers.bufPrepare).2 ∨
          q.memory = .userptr ∧
            let result := qbufUserptr (q.vb p) b answers q.maps
            (vb2Qbuf q b answers).2 = if result.1 ≠ 0 then afterUserptr q p result
              else (prepareAndQueue (afterUserptr q p result) p answers.bufPrepare).2) := by
  by_cases htype : b.type ≠ q.type
  · exact .inl (by simp [vb2Qbuf, htype])
  rcases hp : q.bufs[b.index]? with _ | p
  · exact .inl (by simp [vb2Qbuf, hp])
  simp only [vb2Qbuf, htype, if_false, hp]
  split_ifs with hmemory hstate hmmap hret huser hret
  · exact .inl rfl
  · exact .inl rfl
  · exact .inl rfl
  · exact .inr ⟨p, rfl, not_not.mp htype, not_not.mp hmemory, not_not.mp hstate, .inl ⟨hmmap, rfl⟩⟩
  · exact .inr ⟨p, rfl, not_not.mp htype, not_not.mp hmemory, not_not.mp hstate,
      .inr ⟨huser, (if_pos hret).symm⟩⟩
  · exact .inr ⟨p, rfl, not_not.mp htype, not_not.mp hmemory, not_not.mp hstate,
      .inr ⟨huser, (if_neg hret).symm⟩⟩
  · exact .inl rfl

theorem afterUserptr_same (q : Vb2Queue) (p : Nat) (b : V4l2Buffer) (answers : QbufAnswers) :
    SameStates q (afterUserptr q p (qbufUserptr (q.vb p) b answers q.maps)) := by
  refine ⟨rfl, rfl, rfl, rfl, rfl, rfl, ?_⟩
  intro p'
  rcases eq_or_ne p' p with rfl | hne
  · simpa [afterUserptr] using qbufUserptr_state (q.vb p') b answers q.maps
  · simp [afterUserptr, hne]

theorem Consistent.qbuf (h : Consistent q) (b : V4l2Buffer) (answers : QbufAnswers) :
    Consistent (vb2Qbuf q b answers).2 := by
  rcases qbuf_cases q b answers with heq | ⟨p, hp, -, -, hstate, ⟨-, heq⟩ | ⟨-, heq⟩⟩
  · rw [heq]
    exact h
  · rw [heq]
    exact h.prepareAndQueue (mem_of_getElem? hp) hstate _
  have hsame := afterUserptr_same q p b answers
  have h' := h.of_same hsame
  rw [heq]
  split_ifs
  · exact h'
  · exact h'.prepareAndQueue (mem_of_getElem? hp) ((hsame.state p).trans hstate) _

theorem Consistent.bufferDone (h : Consistent q) {state : BufState}
    (hdone : vb2BufferDone q p state = some r) : Consistent r := by
  unfold vb2BufferDone at hdone
  split_ifs at hdone with hp hact hstate
  · cases hdone
    exact h
  · cases hdone
    exact h
  cases hdone
  rw [not_not] at hact
  have hfinal : state = .done ∨ state = .error := by tauto
  have hout : p ∉ q.doneList := by simp [h.done, hact]
  refine h.change hp state h.queuedOnce (nodup_concat h.doneOnce hout) ?_ ?_ ?_ ?_ ?_
  · intro p' hne
    simp [hne]
  · rcases hfinal with rfl | rfl <;> simp [h.queued_iff hp, hact]
  · simp [hfinal]
  · rcases hfinal with rfl | rfl <;> simp [hact]
  · intro hidle
    rcases h.idle hidle p hp with hbad | hbad <;> simp [hact] at hbad

variable {rest : List Nat} {req : RequestBuffers} {answers : ReqbufsAnswers} {bufFinish : Int}
  {nonblocking : Bool} {call : Call}

theorem Consistent.dequeue (h : Consistent q) (hlist : q.doneList = p :: rest) :
    Consistent { q.setState p .dequeued with
                 doneList := rest, queuedList := q.queuedList.erase p } := by
  have hdone : p ∈ q.doneList := by simp [hlist]
  obtain ⟨hp, hstate⟩ := (h.done p).mp hdone
  obtain ⟨hout, hrest⟩ := nodup_cons.mp (hlist ▸ h.doneOnce)
  have hinactive : (q.vb p).state ≠ .active := by
    intro hact
    simp [hact] at hstate
  refine h.change hp .dequeued (h.queuedOnce.erase p) hrest ?_ ?_ ?_ ?_ ?_
  · intro p' hne
    simp [h.queuedOnce.mem_erase_iff, hlist, hne]
  · simp [h.queuedOnce.mem_erase_iff]
  · simp [hout]
  · simp [hinactive]
  · simp

theorem Consistent.cancel (h : Consistent q) : Consistent (vb2QueueCancel q) := by
  have hstate : ∀ p ∈ q.bufs, ((vb2QueueCancel q).vb p).state = .dequeued := by
    intro p hp
    simp [vb2QueueCancel, hp]
  refine ⟨⟨nodup_nil, ?_, nodup_nil, ?_, ?_, ?_⟩, h.nodup, h.fresh, ?_⟩
  · intro p
    refine ⟨fun hp => absurd hp not_mem_nil, fun ⟨hp, hin⟩ => ?_⟩
    simp [hstate p hp] at hin
  · intro p
    refine ⟨fun hp => absurd hp not_mem_nil, fun ⟨hp, hin⟩ => ?_⟩
    simp [hstate p hp] at hin
  · rw [activeCount, countP_eq_zero.mpr]
    · rfl
    · intro p hp
      simp [hstate p hp]
  · rintro p (hp | hp) <;> exact absurd hp not_mem_nil
  · exact fun _ p hp => .inl (hstate p hp)

theorem queueRelease_consistent (q : Vb2Queue) : Consistent (vb2QueueRelease q) := by
  have hfree : Reallocated (vb2QueueRelease q) (vb2QueueRelease q) := by
    constructor <;> simp [vb2QueueRelease, vb2QueueFree]
  exact .of_reallocated hfree rfl rfl rfl

/-- What a call has to meet for the lists to go on agreeing: a request that
frees the buffers finds none queued, and the driver finishes the buffer that is
dequeued. -/
def KeepsLists (q : Vb2Queue) : Call → Prop
  | .reqbufs req answers => ReqbufsFrees q req answers → q.queuedList = []
  | .dqbuf type _ bufFinish =>
    type = q.type → q.streaming = true → q.doneList ≠ [] → bufFinish = 0
  | _ => True

theorem Consistent.reqbufs (h : Consistent q)
    (hcond : ReqbufsFrees q req answers → q.queuedList = []) :
    Consistent (vb2Reqbufs q req answers).2.2 := by
  by_cases hfrees : ReqbufsFrees q req answers
  · have hq := hcond hfrees
    exact .of_reallocated (reqbufs_frees hfrees) hq (h.doneList_nil hq)
      (h.queuedCount_zero hq)
  rcases reqbufs_keeps hfrees with heq | ⟨hbufs, -, hr⟩
  · rw [heq]
    exact h
  have hq : q.queuedList = [] := by
    apply eq_nil_iff_forall_not_mem.mpr
    intro p hp
    simpa [hbufs] using h.live p (.inl hp)
  exact .of_reallocated hr hq (h.doneList_nil hq) (h.queuedCount_zero hq)

variable {type : BufType} {ret : Int}

/-- A call of `vb2_dqbuf` finds no buffer, or it takes the first done one off its list. -/
theorem dqbuf_cases (hdqbuf : vb2Dqbuf q type nonblocking bufFinish = some (ret, r)) :
    ((type ≠ q.type ∨ q.streaming = false ∨ q.doneList = []) ∧ ret ≠ 0 ∧ r = q) ∨
      ∃ p rest, q.doneList = p :: rest ∧ type = q.type ∧ q.streaming = true ∧ p ∈ q.bufs ∧
        ((bufFinish ≠ 0 ∨ ¬ ((q.vb p).state = .done ∨ (q.vb p).state = .error)) ∧
            ret ≠ 0 ∧ r = { q with doneList := rest } ∨
          bufFinish = 0 ∧ ((q.vb p).state = .done ∨ (q.vb p).state = .error) ∧ ret = 0 ∧
            r = { q.setState p .dequeued with
                  doneList := rest, queuedList := q.queuedList.erase p }) := by
  by_cases htype : type ≠ q.type
  · simp only [vb2Dqbuf, if_pos htype] at hdqbuf
    cases hdqbuf
    exact .inl ⟨.inl htype, by decide, rfl⟩
  by_cases hstream : q.streaming = false
  · simp only [vb2Dqbuf, vb2GetDoneVb, if_neg htype, if_pos hstream] at hdqbuf
    cases hdqbuf
    exact .inl ⟨.inr (.inl hstream), by decide, rfl⟩
  rcases hlist : q.doneList with _ | ⟨p, rest⟩
  · simp only [vb2Dqbuf, vb2GetDoneVb, if_neg htype, if_neg hstream, hlist] at hdqbuf
    cases hdqbuf
    exact .inl ⟨by simp, by cases nonblocking <;> decide, rfl⟩
  have hget : vb2GetDoneVb q nonblocking = .ok (p, { q with doneList := rest }) := by
    simp [vb2GetDoneVb, hstream, hlist]
  simp only [vb2Dqbuf, htype, hget, if_false] at hdqbuf
  split_ifs at hdqbuf with hp hfin hfinal
  all_goals
    cases hdqbuf
    refine .inr ⟨p, rest, rfl, not_not.mp htype, by simpa using hstream, hp, ?_⟩
  · exact .inl ⟨.inl hfin, hfin, rfl⟩
  · exact .inr ⟨not_not.mp hfin, hfinal, rfl, rfl⟩
  · exact .inl ⟨.inr hfinal, by decide, rfl⟩

section

variable (h : Consistent q)
include h

theorem Consistent.dqbuf (hdqbuf : vb2Dqbuf q type nonblocking bufFinish = some (ret, r))
    (hcond : type = q.type → q.streaming = true → q.doneList ≠ [] → bufFinish = 0) :
    Consistent r := by
  rcases dqbuf_cases hdqbuf with ⟨-, -, rfl⟩ | ⟨p, rest, hlist, htype, hstream, -, hcases⟩
  · exact h
  have hfinal : (q.vb p).state = .done ∨ (q.vb p).state = .error := by
    simpa using ((h.done p).mp (by simp [hlist])).2
  have hfin := hcond htype hstream (by simp [hlist])
  rcases hcases with ⟨hbad, -⟩ | ⟨-, -, -, rfl⟩
  · exact absurd hbad (by tauto)
  · exact h.dequeue hlist

theorem Consistent.streamon {startStreaming : Int}
    (hon : vb2Streamon q type startStreaming = some (ret, r)) : Consistent r := by
  unfold vb2Streamon at hon
  split_ifs at hon with htype hstream houtput hstart hlive
  iterate 4
    cases hon
    exact h
  cases hon
  have hidle : q.streaming = false := by simpa using hstream
  have hon : Consistent { q with streaming := true } :=
    ⟨⟨h.queuedOnce, h.queued, h.doneOnce, h.done, h.count, h.live⟩, h.nodup, h.fresh,
      fun hoff => absurd hoff (by simp)⟩
  apply hon.enqueueAll rfl q.queuedList h.queuedOnce
  intro p hp
  refine ⟨hlive p hp, ?_⟩
  rcases h.idle hidle p (hlive p hp) with hstate | hstate
  · exact absurd hstate ((h.queued_iff (hlive p hp)).mp hp)
  · exact hstate

theorem Consistent.step (hstep : callStep q call = some r) (hcond : KeepsLists q call) :
    Consistent r := by
  cases call with
  | reqbufs req answers =>
    cases hstep
    exact h.reqbufs hcond
  | qbuf b answers =>
    cases hstep
    exact h.qbuf b answers
  | bufferDone p state => exact h.bufferDone hstep
  | dqbuf type nonblocking bufFinish =>
    obtain ⟨⟨ret, r⟩, hdqbuf, rfl⟩ := map_eq_some_iff.mp hstep
    exact h.dqbuf hdqbuf hcond
  | streamon type startStreaming =>
    obtain ⟨⟨ret, r⟩, hon, rfl⟩ := map_eq_some_iff.mp hstep
    exact h.streamon hon
  | streamoff type =>
    cases hstep
    unfold vb2Streamoff
    split_ifs
    · exact h
    · exact h
    · exact h.cancel
  | queueRelease =>
    cases hstep
    exact queueRelease_consistent q

/-- Buffers that were queued when the request freed them stay on the list. -/
theorem Consistent.freed_stay (hfrees : ReqbufsFrees q req answers) (hq : q.queuedList ≠ []) :
    ¬ ListsAgree (vb2Reqbufs q req answers).2.2 := by
  intro hagree
  have hr := reqbufs_frees hfrees
  obtain ⟨p, hp⟩ := exists_mem_of_ne_nil _ hq
  have hold : p < q.fresh := h.fresh p (h.live p (.inl hp))
  have hin : p ∈ (vb2Reqbufs q req answers).2.2.queuedList := by
    rw [hr.queuedList]
    exact hp
  have hnew := (hr.fresh p (hagree.live p (.inl hin))).1
  exact absurd hnew (Nat.not_le_of_lt hold)

/-- A buffer that the driver does not finish is done and on no list of such buffers. -/
theorem Consistent.unfinished_lost (hlist : q.doneList = p :: rest) :
    ¬ ListsAgree { q with doneList := rest } := by
  intro hagree
  have hdone := (h.done p).mp (by simp [hlist])
  have hin : p ∈ rest := (hagree.done p).mpr hdone
  exact (nodup_cons.mp (hlist ▸ h.doneOnce)).1 hin

theorem Consistent.broken (hstep : callStep q call = some r) (hcond : ¬ KeepsLists q call) :
    ¬ ListsAgree r := by
  cases call with
  | reqbufs req answers =>
    cases hstep
    obtain ⟨hfrees, hq⟩ := Classical.not_imp.mp hcond
    exact h.freed_stay hfrees hq
  | dqbuf type nonblocking bufFinish =>
    obtain ⟨⟨ret, r⟩, hdqbuf, rfl⟩ := map_eq_some_iff.mp hstep
    simp only [KeepsLists, Classical.not_imp] at hcond
    obtain ⟨htype, hstream, hsome, hfin⟩ := hcond
    rcases dqbuf_cases hdqbuf with ⟨hnone, -⟩ | ⟨p, rest, hlist, -, -, -, hcases⟩
    · simp_all
    rcases hcases with ⟨-, -, rfl⟩ | ⟨hzero, -⟩
    · exact h.unfinished_lost hlist
    · exact absurd hzero hfin
  | _ => exact absurd trivial hcond

end

theorem queueInit_consistent (type : BufType) (mmapOps userptrOps : Bool) :
    Consistent (vb2QueueInit type mmapOps userptrOps) := by
  constructor
  · constructor <;> simp [vb2QueueInit, activeCount]
  all_goals simp [vb2QueueInit]

/-- The lists, the counter and the states agree in every state of a run exactly
if every call of it keeps them. -/
theorem lists_agree_iff (type : BufType) (mmapOps userptrOps : Bool) (calls : List Call) :
    Always callStep ListsAgree (vb2QueueInit type mmapOps userptrOps) calls ↔
      Along callStep KeepsLists (vb2QueueInit type mmapOps userptrOps) calls :=
  always_iff_along callStep ListsAgree KeepsLists Consistent
    (fun _ h => h.toListsAgree) (fun _ _ _ h hstep hcond => h.step hstep hcond)
    (fun _ _ _ h hstep hcond => h.broken hstep hcond)
    _ (queueInit_consistent type mmapOps userptrOps) calls

def grantedRequest (count : Nat) : Call :=
  .reqbufs ⟨count, .videoCapture, .mmap⟩
    { numUsers := fun _ _ => 1
      queueSetup := fun numBuffers => ⟨0, numBuffers, 1, fun _ => 4096⟩
      buffers := fun _ => ⟨true, fun _ => true, 0⟩
      queueSetupAgain := fun numBuffers => ⟨0, numBuffers, 1, fun _ => 4096⟩ }

def grantedQbuf : Call :=
  .qbuf ⟨0, .videoCapture, .mmap, 0, 0, none⟩ ⟨fun _ => ⟨0, 0⟩, fun _ => ⟨0, false⟩, 0, 0⟩

/-- A buffer is queued and the buffers are released; and the driver fails to
finish a buffer that is done. -/
theorem lists_disagree_after :
    (∃ last, [grantedRequest 1, grantedQbuf, grantedRequest 0].foldlM callStep
        (vb2QueueInit .videoCapture true true) = some last ∧ ¬ ListsAgree last) ∧
      ∃ last, [grantedRequest 1, grantedQbuf, .streamon .videoCapture 0, .bufferDone 0 .done,
          .dqbuf .videoCapture true (-5)].foldlM callStep
        (vb2QueueInit .videoCapture true true) = some last ∧ ¬ ListsAgree last := by
  constructor
  · refine exists_of_run (fun q => q.queuedList = [0] ∧ q.bufs = []) (by decide +kernel) ?_
    rintro last ⟨hqueued, hbufs⟩ hagree
    have hlive := hagree.live 0 (.inl (by simp [hqueued]))
    simp [hbufs] at hlive
  · refine exists_of_run (fun q => q.doneList = [] ∧ q.bufs = [0] ∧ (q.vb 0).state = .done)
      (by decide +kernel) ?_
    rintro last ⟨hdone, hbufs, hstate⟩ hagree
    have hin := (hagree.done 0).mpr (by simp [hbufs, hstate])
    simp [hdone] at hin

end TbsMedia.Vb2
