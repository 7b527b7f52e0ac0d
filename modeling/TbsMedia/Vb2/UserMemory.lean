import TbsMedia.Vb2.QueueLists
import TbsMedia.Vb2.UserPlanes

/-!
The user memory that the buffers of a videobuf2 queue hold. Every mapping that
was obtained is either held by one plane or has been given back once. That the
planes of a queued buffer hold theirs needs one thing more: a plane that is
passed with the address and length it was last queued with is not acquired
again, so it must still hold its mapping then.
-/

namespace TbsMedia.Vb2

open Lib List Option

def heldIn (q : Vb2Queue) (mapping : Nat) : Nat :=
  (q.bufs.map fun p => heldBy (q.vb p).numPlanes (q.vb p).planes mapping).sum

/-- In a queue of user memory every queued or active buffer holds, for each
plane, a mapping of the plane's address and length that has not been given back;
and a queue without buffers has given back every mapping once. -/
structure MemoryHeld (q : Vb2Queue) : Prop where
  held : q.memory = .userptr → ∀ p ∈ q.bufs,
    ((q.vb p).state = .queued ∨ (q.vb p).state = .active) → ∀ i, i < (q.vb p).numPlanes →
      ∃ mapping, ((q.vb p).planes i).memPriv = some (.user mapping) ∧
        q.maps.got[mapping]? = some ((q.vb p).planes i).v4l2 ∧
        some (.user mapping) ∉ q.maps.put
  freed : q.bufs = [] → ∀ mapping, mapping < q.maps.got.length →
    q.maps.put.count (some (.user mapping)) = 1

structure MemoryInv (q : Vb2Queue) : Prop where
  nodup : q.bufs.Nodup
  fresh : ∀ p ∈ q.bufs, p < q.fresh
  listed : ∀ p ∈ q.queuedList, p < q.fresh ∧ (p ∈ q.bufs → (q.vb p).state ≠ .dequeued)
  listedOnce : q.queuedList.Nodup
  mapped : q.memory = .userptr → ∀ p ∈ q.bufs, ∀ i, i < (q.vb p).numPlanes →
    PlaneMapped q.maps.got ((q.vb p).planes i)
  video : q.memory ≠ .userptr → ∀ p ∈ q.bufs, ∀ i mapping,
    ((q.vb p).planes i).memPriv ≠ some (.user mapping)
  held : q.memory = .userptr → ∀ p ∈ q.bufs, (q.vb p).state ≠ .dequeued →
    ∀ i, i < (q.vb p).numPlanes → ((q.vb p).planes i).memPriv.isSome
  accounted : Accounted q.maps (heldIn q)

variable {q : Vb2Queue} {p : Nat}

theorem MemoryInv.putCount_zero (h : MemoryInv q) {i mapping : Nat} (hp : p ∈ q.bufs)
    (hi : i < (q.vb p).numPlanes) (hmem : ((q.vb p).planes i).memPriv = some (.user mapping)) :
    putCount q.maps mapping = 0 := by
  have hplane : holds ((q.vb p).planes i).memPriv mapping = 1 := by simp [holds, hmem]
  have hbuf : holds ((q.vb p).planes i).memPriv mapping ≤
      heldBy (q.vb p).numPlanes (q.vb p).planes mapping :=
    Finset.single_le_sum (f := fun i => holds ((q.vb p).planes i).memPriv mapping)
      (fun _ _ => Nat.zero_le _) (Finset.mem_range.mpr hi)
  have hqueue : heldBy (q.vb p).numPlanes (q.vb p).planes mapping ≤ heldIn q mapping :=
    single_le_sum (fun _ _ => Nat.zero_le _) _ (List.mem_map.mpr ⟨p, hp, rfl⟩)
  have hmap := h.accounted mapping
  split_ifs at hmap <;> omega

theorem MemoryInv.memoryHeld (h : MemoryInv q) : MemoryHeld q where
  held := by
    intro hmemory p hp hstate i hi
    have hsome := h.held hmemory p hp (by rcases hstate with hs | hs <;> simp [hs]) i hi
    obtain ⟨memPriv, hmem⟩ := isSome_iff_exists.mp hsome
    obtain ⟨mapping, rfl, hfor⟩ := h.mapped hmemory p hp i hi memPriv hmem
    exact ⟨mapping, hmem, hfor, count_eq_zero.mp (h.putCount_zero hp hi hmem)⟩
  freed := by
    intro hbufs mapping hlt
    have hmap := h.accounted mapping
    simpa [heldIn, hbufs, hlt, putCount] using hmap

variable {r : Vb2Queue}

section Calls

structure SameMemory (q r : Vb2Queue) : Prop where
  bufs : r.bufs = q.bufs
  fresh : r.fresh = q.fresh
  memory : r.memory = q.memory
  maps : r.maps = q.maps
  numPlanes : ∀ p, (r.vb p).numPlanes = (q.vb p).numPlanes
  planes : ∀ p, (r.vb p).planes = (q.vb p).planes

theorem SameMemory.refl (q : Vb2Queue) : SameMemory q q :=
  ⟨rfl, rfl, rfl, rfl, fun _ => rfl, fun _ => rfl⟩

theorem SameMemory.setState (q : Vb2Queue) (p : Nat) (state : BufState) (queued done : List Nat)
    (count : Int) : SameMemory q { q.setState p state with
      queuedList := queued, doneList := done, queuedCount := count } := by
  refine ⟨rfl, rfl, rfl, rfl, fun p' => ?_, fun p' => ?_⟩ <;>
    rcases eq_or_ne p' p with rfl | hne <;> simp [Vb2Queue.setState, *]

theorem MemoryInv.of_same (h : MemoryInv q) (hsame : SameMemory q r)
    (hheld : q.memory = .userptr → ∀ p ∈ q.bufs, (r.vb p).state ≠ .dequeued →
      (q.vb p).state ≠ .dequeued ∨ ∀ i < (q.vb p).numPlanes, ((q.vb p).planes i).memPriv.isSome)
    (hlist : ∀ p ∈ r.queuedList, p < q.fresh ∧ (p ∈ q.bufs → (r.vb p).state ≠ .dequeued))
    (honce : r.queuedList.Nodup) : MemoryInv r := by
  obtain ⟨hbufs, hfresh, hmemory, hmaps, hnumPlanes, hplane⟩ := hsame
  have hheldIn : heldIn r = heldIn q := by
    funext mapping
    simp only [heldIn, hbufs, hnumPlanes, hplane]
  refine ⟨?_, ?_, ?_, honce, ?_, ?_, ?_, ?_⟩
  · rw [hbufs]
    exact h.nodup
  · rw [hbufs, hfresh]
    exact h.fresh
  · rw [hbufs, hfresh]
    exact hlist
  · simp only [hmemory, hbufs, hnumPlanes, hplane, hmaps]
    exact h.mapped
  · simp only [hmemory, hbufs, hplane]
    exact h.video
  · simp only [hmemory, hbufs, hnumPlanes, hplane]
    intro huser p hp hstate
    rcases hheld huser p hp hstate with hold | hsome
    · exact h.held huser p hp hold
    · exact hsome
  · rw [hmaps, hheldIn]
    exact h.accounted

theorem MemoryInv.setState (h : MemoryInv q) (p : Nat) (state : BufState)
    (hstate : state ≠ .dequeued) (hq : (q.vb p).state ≠ .dequeued) (done : List Nat)
    (count : Int) :
    MemoryInv { q.setState p state with doneList := done, queuedCount := count } := by
  have hstates : ∀ p', ((q.setState p state).vb p').state ≠ .dequeued ↔
      (q.vb p').state ≠ .dequeued := by
    intro p'
    rcases eq_or_ne p' p with rfl | hne
    · simp [hstate, hq]
    · simp [hne]
  refine h.of_same (.setState q p ..) (fun _ p' _ hp' => .inl ((hstates p').mp hp')) ?_ h.listedOnce
  intro p' hp'
  exact ⟨(h.listed p' hp').1, fun hin => (hstates p').mpr ((h.listed p' hp').2 hin)⟩

theorem MemoryInv.prepareAndQueue (h : MemoryInv q) (hp : p ∈ q.bufs)
    (hdequeued : (q.vb p).state = .dequeued) {bufPrepare : Int}
    (hheld : q.memory = .userptr → bufPrepare = 0 →
      ∀ i < (q.vb p).numPlanes, ((q.vb p).planes i).memPriv.isSome) :
    MemoryInv (prepareAndQueue q p bufPrepare).2 := by
  unfold Vb2.prepareAndQueue
  split
  · exact h
  rename_i hprep
  have hout : p ∉ q.queuedList := fun hin => (h.listed p hin).2 hp hdequeued
  have hq : MemoryInv { q.setState p .queued with queuedList := q.queuedList ++ [p] } := by
    refine h.of_same (.setState q p ..) ?_ ?_ (nodup_concat h.listedOnce hout)
    · intro huser p' hp' hstate
      rcases eq_or_ne p' p with rfl | hne
      · exact .inr (hheld huser (not_not.mp hprep))
      · exact .inl (by simpa [hne] using hstate)
    · intro p' hp'
      rcases eq_or_ne p' p with rfl | hne
      · exact ⟨h.fresh p' hp, fun _ => by simp⟩
      · have hin : p' ∈ q.queuedList := by simpa [hne] using hp'
        simpa [hne] using h.listed p' hin
  dsimp only
  split_ifs
  · exact hq.setState p .active nofun (by simp) ..
  · exact hq

theorem heldIn_afterUserptr (hnodup : q.bufs.Nodup) (hp : p ∈ q.bufs) :
    ∃ others : Nat → Nat,
      (∀ mapping, heldIn q mapping =
        heldBy (q.vb p).numPlanes (q.vb p).planes mapping + others mapping) ∧
      ∀ result mapping, heldIn (afterUserptr q p result) mapping =
        heldBy result.2.1.numPlanes result.2.1.planes mapping + others mapping := by
  refine ⟨fun mapping => ((q.bufs.erase p).map fun p' =>
    heldBy (q.vb p').numPlanes (q.vb p').planes mapping).sum, fun mapping => ?_,
    fun result mapping => ?_⟩
  · exact (sum_map_erase _ hp).symm
  have hoth : (q.bufs.erase p).map (fun p' => heldBy
      ((afterUserptr q p result).vb p').numPlanes
        ((afterUserptr q p result).vb p').planes mapping) =
      (q.bufs.erase p).map fun p' => heldBy (q.vb p').numPlanes (q.vb p').planes mapping := by
    apply map_congr_left
    intro p' hp'
    have hne : p' ≠ p := (hnodup.mem_erase_iff.mp hp').1
    simp [afterUserptr, hne]
  change ((q.bufs.map fun p' => heldBy ((afterUserptr q p result).vb p').numPlanes
    ((afterUserptr q p result).vb p').planes mapping).sum) = _
  rw [← sum_map_erase _ hp, hoth]
  simp [afterUserptr]

theorem MemoryInv.afterUserptr (h : MemoryInv q) (hp : p ∈ q.bufs) (hmemory : q.memory = .userptr)
    (hdequeued : (q.vb p).state = .dequeued) (b : V4l2Buffer) (answers : QbufAnswers) :
    MemoryInv (afterUserptr q p (qbufUserptr (q.vb p) b answers q.maps)) := by
  have hres := qbufUserptr_result (q.vb p) b answers q.maps
  have hstates := (afterUserptr_same q p b answers).state
  obtain ⟨others, hpre, hafter⟩ := heldIn_afterUserptr h.nodup hp
  generalize qbufUserptr (q.vb p) b answers q.maps = result at *
  obtain ⟨ret, vb, maps⟩ := result
  have hoth : ∀ p' ≠ p, (Vb2.afterUserptr q p (ret, vb, maps)).vb p' = q.vb p' := by
    intro p' hne
    simp [Vb2.afterUserptr, hne]
  have hself : (Vb2.afterUserptr q p (ret, vb, maps)).vb p = vb := by simp [Vb2.afterUserptr]
  refine ⟨h.nodup, h.fresh, ?_, h.listedOnce, ?_, ?_, ?_, ?_⟩
  · intro p' hp'
    refine ⟨(h.listed p' hp').1, fun hin => ?_⟩
    rw [hstates]
    exact (h.listed p' hp').2 hin
  · intro _ p' hp' i hi
    rcases eq_or_ne p' p with rfl | hne
    · rw [hself] at hi ⊢
      rw [hres.numPlanes] at hi
      exact hres.mapped (h.mapped hmemory p' hp) i hi
    · rw [hoth p' hne] at hi ⊢
      exact (h.mapped hmemory p' hp' i hi).mono hres.got
  · intro hbad
    exact absurd hmemory hbad
  · intro _ p' hp' hstate i hi
    rw [hstates] at hstate
    rcases eq_or_ne p' p with rfl | hne
    · exact absurd hdequeued hstate
    · rw [hoth p' hne] at hi ⊢
      exact h.held hmemory p' hp' hstate i hi
  · have hheld : heldIn (Vb2.afterUserptr q p (ret, vb, maps)) = fun mapping =>
        heldBy (q.vb p).numPlanes vb.planes mapping + others mapping := by
      funext mapping
      rw [hafter, ← hres.numPlanes]
    rw [hheld]
    refine hres.accounted others ?_
    have := h.accounted
    rwa [funext hpre] at this

section

variable (todo plane : Nat) (planes : Nat → Plane) (maps : Mappings)

theorem bufUserptrPut_count (mapping : Nat) :
    putCount (vb2BufUserptrPut todo plane planes maps) mapping =
      putCount maps mapping +
        ∑ i ∈ Finset.range todo, holds (planes (plane + i)).memPriv mapping := by
  induction todo generalizing plane maps with
  | zero => simp [vb2BufUserptrPut]
  | succ todo ih =>
    rw [vb2BufUserptrPut, ih, Finset.sum_range_succ']
    have hshift : ∀ i, plane + 1 + i = plane + (i + 1) := fun i => by omega
    simp only [hshift, add_zero]
    rcases hmem : (planes plane).memPriv with _ | memPriv
    · simp
    simp only [isSome_some, if_true, putCount_putUserptr]
    omega

theorem bufUserptrPut_got : (vb2BufUserptrPut todo plane planes maps).got = maps.got := by
  induction todo generalizing plane maps with
  | zero => rfl
  | succ todo ih =>
    rw [vb2BufUserptrPut, ih]
    split <;> rfl

end

theorem MemoryInv.free (h : MemoryInv q) : Accounted (vb2FreeMem q) fun _ => 0 := by
  have hacct := h.accounted
  unfold vb2FreeMem
  split_ifs with hmmap
  · have hzero : heldIn q = fun _ => 0 := by
      funext mapping
      apply sum_eq_zero
      intro count hcount
      obtain ⟨p, hp, rfl⟩ := List.mem_map.mp hcount
      apply Finset.sum_eq_zero
      intro i _
      exact if_neg (h.video (by simp [hmmap]) p hp i mapping)
    rwa [hzero] at hacct
  · unfold heldIn at hacct
    generalize q.bufs = bufs at hacct
    generalize q.maps = maps at hacct
    induction bufs generalizing maps with
    | nil => simpa using hacct
    | cons p rest ih =>
      apply ih
      intro mapping
      have hmap := hacct mapping
      have hcount := bufUserptrPut_count (q.vb p).numPlanes 0 (q.vb p).planes maps mapping
      simp only [zero_add] at hcount
      simp only [map_cons, sum_cons, heldBy] at hmap
      rw [hcount, bufUserptrPut_got, ← hmap]
      simp only [heldBy]
      omega

theorem MemoryInv.of_reallocated (hr : Reallocated q r) (hlist : ∀ p ∈ q.queuedList, p < q.fresh)
    (honce : q.queuedList.Nodup) (hacct : Accounted q.maps fun _ => 0) : MemoryInv r := by
  have hzero : heldIn r = fun _ => 0 := by
    funext mapping
    apply sum_eq_zero
    intro count hcount
    obtain ⟨p, hp, rfl⟩ := List.mem_map.mp hcount
    apply Finset.sum_eq_zero
    intro i _
    exact if_neg ((hr.new p hp).video i mapping)
  refine ⟨hr.nodup, fun p hp => (hr.fresh p hp).2, ?_, ?_, ?_, ?_, ?_, ?_⟩
  · intro p hp
    rw [hr.queuedList] at hp
    refine ⟨lt_of_lt_of_le (hlist p hp) hr.older, fun hin => ?_⟩
    exact absurd (hr.fresh p hin).1 (Nat.not_le_of_lt (hlist p hp))
  · rw [hr.queuedList]
    exact honce
  · intro huser p hp i _ memPriv hmem
    rw [(hr.new p hp).unmapped (by simp [huser]) i] at hmem
    contradiction
  · intro _ p hp
    exact (hr.new p hp).video
  · intro _ p hp hstate
    exact absurd (hr.new p hp).dequeued hstate
  · rw [hr.maps, hzero]
    exact hacct

variable (h : MemoryInv q)
include h

theorem MemoryInv.reqbufs (req : RequestBuffers) (answers : ReqbufsAnswers) :
    MemoryInv (vb2Reqbufs q req answers).2.2 := by
  have hlist : ∀ p ∈ q.queuedList, p < q.fresh := fun p hp => (h.listed p hp).1
  by_cases hfrees : ReqbufsFrees q req answers
  · exact .of_reallocated (reqbufs_frees hfrees) hlist h.listedOnce h.free
  rcases reqbufs_keeps hfrees with heq | ⟨hbufs, -, hr⟩
  · rw [heq]
    exact h
  have hacct := h.accounted
  have hzero : heldIn q = fun _ => 0 := by
    funext mapping
    simp [heldIn, hbufs]
  rw [hzero] at hacct
  exact .of_reallocated hr hlist h.listedOnce hacct

theorem MemoryInv.cancel : MemoryInv (vb2QueueCancel q) := by
  refine h.of_same ⟨rfl, rfl, rfl, rfl, fun p => ?_, fun p => ?_⟩ ?_ ?_ nodup_nil
  · simp only [vb2QueueCancel]
    split <;> rfl
  · simp only [vb2QueueCancel]
    split <;> rfl
  · intro _ p hp hstate
    simp [vb2QueueCancel, hp] at hstate
  · intro p hp
    exact absurd hp not_mem_nil

theorem MemoryInv.release : MemoryInv (vb2QueueRelease q) := by
  have hfree : Reallocated (vb2QueueRelease q) (vb2QueueRelease q) := by
    constructor <;> simp [vb2QueueRelease, vb2QueueFree]
  exact .of_reallocated hfree (fun p hp => absurd hp not_mem_nil) nodup_nil h.cancel.free

theorem MemoryInv.bufferDone {state : BufState} (hdone : vb2BufferDone q p state = some r) :
    MemoryInv r := by
  unfold vb2BufferDone at hdone
  split_ifs at hdone with hp hact hstate
  · cases hdone
    exact h
  · cases hdone
    exact h
  cases hdone
  have hfinal : state ≠ .dequeued := by
    rintro rfl
    simp at hstate
  exact h.setState p state hfinal (by simp [not_not.mp hact]) ..

theorem MemoryInv.dqbuf {type : BufType} {nonblocking : Bool} {bufFinish ret : Int}
    (hdqbuf : vb2Dqbuf q type nonblocking bufFinish = some (ret, r)) : MemoryInv r := by
  rcases dqbuf_cases hdqbuf with
    ⟨-, -, rfl⟩ | ⟨p, rest, hlist, -, -, -, ⟨-, -, rfl⟩ | ⟨-, -, -, rfl⟩⟩
  · exact h
  · exact h.of_same ⟨rfl, rfl, rfl, rfl, fun _ => rfl, fun _ => rfl⟩
      (fun _ _ _ hstate => .inl hstate) h.listed h.listedOnce
  refine h.of_same (.setState q p ..) ?_ ?_ (h.listedOnce.erase p)
  · intro _ p' _ hstate
    rcases eq_or_ne p' p with rfl | hne
    · simp at hstate
    · exact .inl (by simpa [hne] using hstate)
  · intro p' hp'
    obtain ⟨hne, hin⟩ := h.listedOnce.mem_erase_iff.mp hp'
    simpa [hne] using h.listed p' hin

theorem MemoryInv.enqueueAll (list : List Nat)
    (hlist : ∀ p ∈ list, p ∈ q.bufs ∧ (q.vb p).state ≠ .dequeued) :
    MemoryInv (list.foldl Vb2.enqueueInDriver q) := by
  induction list generalizing q with
  | nil => exact h
  | cons p rest ih =>
    obtain ⟨hp, hstate⟩ := hlist p (by simp)
    apply ih (h.setState _ .active nofun hstate q.doneList _)
    intro p' hp'
    obtain ⟨hin, hstate'⟩ := hlist p' (mem_cons_of_mem _ hp')
    refine ⟨hin, ?_⟩
    rcases eq_or_ne p' p with rfl | hne
    · simp
    · simpa [Vb2.enqueueInDriver, hne] using hstate'

theorem MemoryInv.streamon {type : BufType} {startStreaming ret : Int}
    (hon : vb2Streamon q type startStreaming = some (ret, r)) : MemoryInv r := by
  unfold vb2Streamon at hon
  split_ifs at hon with htype hstream houtput hstart hlive
  iterate 4
    cases hon
    exact h
  cases hon
  have hon : MemoryInv { q with streaming := true } :=
    h.of_same ⟨rfl, rfl, rfl, rfl, fun _ => rfl, fun _ => rfl⟩
      (fun _ _ _ hstate => .inl hstate) h.listed h.listedOnce
  exact hon.enqueueAll q.queuedList fun p hp => ⟨hlive p hp, (h.listed p hp).2 (hlive p hp)⟩

end Calls

/-- The call queues the buffer `p` with the planes `new`: it passes the checks of
`vb2_qbuf`, and the allocator and the driver grant all they are asked for. -/
structure QbufGranted (q : Vb2Queue) (b : V4l2Buffer) (answers : QbufAnswers) (p : Nat)
    (new : Nat → V4l2Plane) : Prop where
  type : b.type = q.type
  index : q.bufs[b.index]? = some p
  memory : b.memory = q.memory
  dequeued : (q.vb p).state = .dequeued
  userptr : UserptrGranted (q.vb p) b answers new
  bufPrepare : answers.bufPrepare = 0

/-- What a call has to meet for queued buffers to hold their memory: a plane that
is queued with the address and length it already has still holds a mapping, and the
allocator does not give `NULL` for another one. -/
def KeepsMemory (q : Vb2Queue) : Call → Prop
  | .qbuf b answers => q.memory = .userptr → ∀ p new, QbufGranted q b answers p new →
      ∀ i, i < (q.vb p).numPlanes →
        HeldAfter ((q.vb p).planes i) (new i) (answers.getUserptr i)
  | _ => True

variable {b : V4l2Buffer} {answers : QbufAnswers}

theorem MemoryInv.qbuf (h : MemoryInv q) (hcond : KeepsMemory q (.qbuf b answers)) :
    MemoryInv (vb2Qbuf q b answers).2 := by
  rcases qbuf_cases q b answers with
    heq | ⟨p, hindex, htype, hmemory, hstate, ⟨hmmap, heq⟩ | ⟨huser, heq⟩⟩
  · rw [heq]
    exact h
  · rw [heq]
    refine h.prepareAndQueue (mem_of_getElem? hindex) hstate fun hbad => ?_
    exact absurd (hmmap.symm.trans hbad) (by decide)
  · have hp := mem_of_getElem? hindex
    have h' := h.afterUserptr hp huser hstate b answers
    have hres := qbufUserptr_result (q.vb p) b answers q.maps
    have hdequeued := ((afterUserptr_same q p b answers).state p).trans hstate
    rw [heq]
    split_ifs with hret
    · exact h'
    refine h'.prepareAndQueue hp hdequeued fun _ hprep i hi => ?_
    obtain ⟨new, hnew⟩ := hres.granted.mp (not_not.mp hret)
    have hself : (Vb2.afterUserptr q p (qbufUserptr (q.vb p) b answers q.maps)).vb p =
        (qbufUserptr (q.vb p) b answers q.maps).2.1 := by simp [Vb2.afterUserptr]
    rw [hself] at hi ⊢
    rw [hres.numPlanes] at hi
    rw [hres.kept (not_not.mp hret) new hnew i hi]
    exact hcond huser p new ⟨htype, hindex, hmemory, hstate, hnew, hprep⟩ i hi

theorem prepareAndQueue_queued (q : Vb2Queue) (p : Nat) :
    ((prepareAndQueue q p 0).2.vb p).state = .queued ∨
      ((prepareAndQueue q p 0).2.vb p).state = .active := by
  simp only [prepareAndQueue, ne_eq, not_true, if_false]
  split_ifs
  · exact .inr (by simp [enqueueInDriver])
  · exact .inl (by simp)

theorem prepareAndQueue_memory (q : Vb2Queue) (p : Nat) (bufPrepare : Int) :
    SameMemory q (prepareAndQueue q p bufPrepare).2 := by
  simp only [prepareAndQueue]
  split
  · exact .refl q
  split_ifs
  · refine ⟨rfl, rfl, rfl, rfl, fun p' => ?_, fun p' => ?_⟩ <;>
      rcases eq_or_ne p' p with rfl | hne <;> simp [Vb2Queue.setState, enqueueInDriver, *]
  · exact .setState q p ..

variable {new : Nat → V4l2Plane} {call : Call}

theorem qbuf_granted (hgrant : QbufGranted q b answers p new) (huser : q.memory = .userptr) :
    (vb2Qbuf q b answers).2 = (prepareAndQueue
      (afterUserptr q p (qbufUserptr (q.vb p) b answers q.maps)) p 0).2 := by
  obtain ⟨htype, hindex, hmemory, hstate, hnew, hprep⟩ := hgrant
  have hret := (qbufUserptr_result (q.vb p) b answers q.maps).granted.mpr ⟨new, hnew⟩
  simp [vb2Qbuf, htype, hindex, hmemory, hstate, huser, hret, hprep, afterUserptr]

/-- A plane that holds nothing and is not acquired again, or for which the allocator gives
`NULL`, is queued without memory. -/
theorem queued_without_memory (hgrant : QbufGranted q b answers p new)
    (huser : q.memory = .userptr) {i : Nat} (hi : i < (q.vb p).numPlanes)
    (hnone : ¬ HeldAfter ((q.vb p).planes i) (new i) (answers.getUserptr i)) :
    ¬ MemoryHeld (vb2Qbuf q b answers).2 := by
  intro hgood
  have hres := qbufUserptr_result (q.vb p) b answers q.maps
  have hret := hres.granted.mpr ⟨new, hgrant.userptr⟩
  have hkept := hres.kept hret new hgrant.userptr i hi
  rw [qbuf_granted hgrant huser] at hgood
  let acquired := afterUserptr q p (qbufUserptr (q.vb p) b answers q.maps)
  have hmem := prepareAndQueue_memory acquired p 0
  have hself : acquired.vb p = (qbufUserptr (q.vb p) b answers q.maps).2.1 := by
    simp [acquired, afterUserptr]
  have hbuf : p ∈ (prepareAndQueue acquired p 0).2.bufs := by
    rw [hmem.bufs]
    exact mem_of_getElem? hgrant.index
  have hi' : i < ((prepareAndQueue acquired p 0).2.vb p).numPlanes := by
    rw [hmem.numPlanes, hself, hres.numPlanes]
    exact hi
  obtain ⟨mapping, hheld, -⟩ := hgood.held (hmem.memory.trans huser) p hbuf
    (prepareAndQueue_queued acquired p) i hi'
  rw [hmem.planes, hself] at hheld
  exact hnone (hkept.mp (by rw [hheld]; rfl))

theorem MemoryInv.step (h : MemoryInv q) (hstep : callStep q call = some r)
    (hcond : KeepsMemory q call) : MemoryInv r := by
  cases call with
  | reqbufs req answers =>
    cases hstep
    exact h.reqbufs req answers
  | qbuf b answers =>
    cases hstep
    exact h.qbuf hcond
  | bufferDone p state => exact h.bufferDone hstep
  | dqbuf type nonblocking bufFinish =>
    obtain ⟨⟨ret, r⟩, hdqbuf, rfl⟩ := map_eq_some_iff.mp hstep
    exact h.dqbuf hdqbuf
  | streamon type startStreaming =>
    obtain ⟨⟨ret, r⟩, hon, rfl⟩ := map_eq_some_iff.mp hstep
    exact h.streamon hon
  | streamoff type =>
    cases hstep
    unfold vb2Streamoff
    split_ifs
    · exact h
    · exact h
    · exact h.cancel
  | queueRelease =>
    cases hstep
    exact h.release

theorem not_memoryHeld_of_step (hstep : callStep q call = some r) (hcond : ¬ KeepsMemory q call) :
    ¬ MemoryHeld r := by
  cases call with
  | qbuf b answers =>
    cases hstep
    simp only [KeepsMemory, not_forall] at hcond
    obtain ⟨huser, p, new, hgrant, i, hi, hnone⟩ := hcond
    exact queued_without_memory hgrant huser hi hnone
  | _ => exact absurd trivial hcond

theorem queueInit_memory (type : BufType) (mmapOps userptrOps : Bool) :
    MemoryInv (vb2QueueInit type mmapOps userptrOps) := by
  constructor <;> simp [vb2QueueInit, Accounted, putCount, heldIn]

/-- Queued buffers hold their memory, and every mapping is given back once, in
every state of a run exactly if every call of it keeps the memory. -/
theorem memory_held_iff (type : BufType) (mmapOps userptrOps : Bool) (calls : List Call) :
    Always callStep MemoryHeld (vb2QueueInit type mmapOps userptrOps) calls ↔
      Along callStep KeepsMemory (vb2QueueInit type mmapOps userptrOps) calls :=
  always_iff_along callStep MemoryHeld KeepsMemory MemoryInv
    (fun _ h => h.memoryHeld) (fun _ _ _ h hstep hcond => h.step hstep hcond)
    (fun _ _ _ _ hstep hcond => not_memoryHeld_of_step hstep hcond)
    _ (queueInit_memory type mmapOps userptrOps) calls

def userptrRequest : Call :=
  .reqbufs ⟨1, .videoCapture, .userptr⟩
    { numUsers := fun _ _ => 1
      queueSetup := fun numBuffers => ⟨0, numBuffers, 1, fun _ => 4096⟩
      buffers := fun _ => ⟨true, fun _ => true, 0⟩
      queueSetupAgain := fun numBuffers => ⟨0, numBuffers, 1, fun _ => 4096⟩ }

def userptrQbuf (userptr : Nat) (getUserptr : Int) : Call :=
  .qbuf ⟨0, .videoCapture, .userptr, userptr, 4096, none⟩
    ⟨fun _ => ⟨0, 0⟩, fun _ => ⟨getUserptr, false⟩, 0, 0⟩

/-- After a buffer has been streamed, mapping other memory for it fails, and it
is queued again with the memory it had. -/
theorem retry_queues_unmapped :
    ∃ last, [userptrRequest, userptrQbuf 0x1000 0, .streamon .videoCapture 0,
        .streamoff .videoCapture, userptrQbuf 0x2000 (-14), userptrQbuf 0x1000 0].foldlM callStep
        (vb2QueueInit .videoCapture true true) = some last ∧ ¬ MemoryHeld last := by
  refine exists_of_run (fun q => q.memory = .userptr ∧ q.bufs = [0] ∧ (q.vb 0).state = .queued ∧
    0 < (q.vb 0).numPlanes ∧ ((q.vb 0).planes 0).memPriv = none) (by decide +kernel) ?_
  rintro last ⟨hmemory, hbufs, hqueued, hplanes, hnone⟩ hgood
  obtain ⟨mapping, hheld, -⟩ := hgood.held hmemory 0 (by simp [hbufs]) (.inl hqueued) 0 hplanes
  rw [hnone] at hheld
  contradiction

end TbsMedia.Vb2
