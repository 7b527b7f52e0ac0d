import TbsMedia.Vb2.Queue

/-!
What `vb2_reqbufs` can do to a queue. The buffers it allocates are new, lie in
no list, are dequeued and hold no user memory; whatever fails on the way leaves
the queue with such buffers or with none.
-/

namespace TbsMedia.Vb2

open List Function

/-- A buffer as `__vb2_queue_alloc` leaves it. -/
structure NewBuffer (memory : Memory) (vb : Vb2Buffer) : Prop where
  dequeued : vb.state = .dequeued
  unmapped : memory ≠ .mmap → ∀ plane, (vb.planes plane).memPriv = none
  video : ∀ plane mapping, (vb.planes plane).memPriv ≠ some (.user mapping)

variable {planeSizes : Nat → Nat} {memory : Memory} {q : Vb2Queue} {req : RequestBuffers}
  {answers : ReqbufsAnswers}

theorem bufMemAlloc_video {alloc : Nat → Bool} {todo plane : Nat} {planes planes' : Nat → Plane}
    (hplane : ∀ i mapping, (planes i).memPriv ≠ some (.user mapping))
    (halloc : vb2BufMemAlloc planeSizes alloc todo plane planes = some planes') :
    ∀ i mapping, (planes' i).memPriv ≠ some (.user mapping) := by
  induction todo generalizing plane planes with
  | zero =>
    cases halloc
    exact hplane
  | succ todo ih =>
    rw [vb2BufMemAlloc] at halloc
    split_ifs at halloc with hmem
    refine ih ?_ halloc
    intro i mapping
    rcases eq_or_ne i plane with rfl | hne
    · simp
    · simpa [hne] using hplane i mapping

theorem allocBuffer_new {numPlanes : Nat} {answers : BufferAnswers} {vb : Vb2Buffer}
    (halloc : allocBuffer memory numPlanes planeSizes answers = some vb) : NewBuffer memory vb := by
  unfold allocBuffer at halloc
  split at halloc
  · contradiction
  split at halloc
  · rename_i hmmap
    split at halloc
    · contradiction
    rename_i planes hplane
    split at halloc
    · contradiction
    cases halloc
    exact ⟨rfl, fun hne => absurd hmmap hne,
      bufMemAlloc_video (fun _ _ => by simp [zeroedPlane]) hplane⟩
  · cases halloc
    exact ⟨rfl, fun _ _ => rfl, fun _ _ => by simp [zeroedPlane]⟩

/-- The buffers `bufs` are new in `r`, which otherwise agrees with `q`. -/
structure Allocates (memory : Memory) (q r : Vb2Queue) (bufs : List Nat) : Prop where
  rest : r = { q with vb := r.vb, fresh := r.fresh }
  older : q.fresh ≤ r.fresh
  nodup : bufs.Nodup
  fresh : ∀ p ∈ bufs, q.fresh ≤ p ∧ p < r.fresh
  same : ∀ p, p < q.fresh → r.vb p = q.vb p
  new : ∀ p ∈ bufs, NewBuffer memory (r.vb p)

theorem allocBuffers_allocates (memory : Memory) (numPlanes : Nat) (planeSizes : Nat → Nat)
    (answers : Nat → BufferAnswers) (todo buffer : Nat) (q : Vb2Queue) :
    Allocates memory q (allocBuffers memory numPlanes planeSizes answers todo buffer q).2
      (allocBuffers memory numPlanes planeSizes answers todo buffer q).1 := by
  have hnone : Allocates memory q q [] := by constructor <;> simp
  induction todo generalizing buffer q with
  | zero => exact hnone
  | succ todo ih =>
    rw [allocBuffers]
    split
    · exact hnone
    rename_i vb hvb
    have hnew := allocBuffer_new hvb
    obtain ⟨hrest, holder, hnodup, hfresh, hsame, hbufs⟩ :=
      ih (buffer + 1) { q with vb := update q.vb q.fresh vb, fresh := q.fresh + 1 }
        (by constructor <;> simp)
    constructor
    · rw [hrest]
    · exact Nat.le_of_succ_le holder
    · refine nodup_cons.mpr ⟨?_, hnodup⟩
      intro hmem
      exact absurd (hfresh _ hmem).1 (by simp)
    · intro p hp
      rcases mem_cons.mp hp with rfl | hp
      · exact ⟨Nat.le_refl _, holder⟩
      · exact ⟨Nat.le_of_succ_le (hfresh p hp).1, (hfresh p hp).2⟩
    · intro p hp
      rw [hsame p (Nat.lt_succ_of_lt hp)]
      exact update_of_ne (Nat.ne_of_lt hp) _ _
    · intro p hp
      rcases mem_cons.mp hp with rfl | hp
      · rw [hsame q.fresh (Nat.lt_succ_self _)]
        simpa using hnew
      · exact hbufs p hp

theorem setupPlaneOffsets_memPriv (todo plane off : Nat) (planes : Nat → Plane) (i : Nat) :
    ((setupPlaneOffsets todo plane off planes).1 i).memPriv = (planes i).memPriv := by
  induction todo generalizing plane off planes with
  | zero => rfl
  | succ todo ih =>
    rw [setupPlaneOffsets]
    rw [ih]
    rcases eq_or_ne i plane with rfl | hne
    · simp
    · simp [hne]

theorem setupOffsets_new (bufs : List Nat) (off : Nat) (vb : Nat → Vb2Buffer) (p : Nat)
    (hnew : NewBuffer memory (vb p)) : NewBuffer memory (setupOffsets bufs off vb p) := by
  induction bufs generalizing off vb with
  | nil => exact hnew
  | cons p' rest ih =>
    apply ih
    rcases eq_or_ne p p' with rfl | hne
    · rw [update_self]
      exact ⟨hnew.dequeued,
        fun hmem plane =>
          (setupPlaneOffsets_memPriv _ _ _ _ plane).trans (hnew.unmapped hmem plane),
        fun plane mapping => by
          rw [setupPlaneOffsets_memPriv]
          exact hnew.video plane mapping⟩
    · simpa [hne] using hnew

/-- The state `r` that a request for buffers leaves of a queue `q` without any. -/
structure Reallocated (q r : Vb2Queue) : Prop where
  queuedList : r.queuedList = q.queuedList
  doneList : r.doneList = q.doneList
  queuedCount : r.queuedCount = q.queuedCount
  streaming : r.streaming = q.streaming
  maps : r.maps = q.maps
  nodup : r.bufs.Nodup
  older : q.fresh ≤ r.fresh
  fresh : ∀ p ∈ r.bufs, q.fresh ≤ p ∧ p < r.fresh
  new : ∀ p ∈ r.bufs, NewBuffer r.memory (r.vb p)

theorem queueAlloc_reallocated (q : Vb2Queue) (numBuffers numPlanes : Nat)
    (planeSizes : Nat → Nat) (answers : Nat → BufferAnswers) :
    Reallocated q (vb2QueueAlloc q q.memory numBuffers numPlanes planeSizes answers) := by
  obtain ⟨hrest, holder, hnodup, hfresh, -, hnew⟩ :=
    allocBuffers_allocates q.memory numPlanes planeSizes answers numBuffers 0 q
  rw [vb2QueueAlloc]
  generalize allocBuffers q.memory numPlanes planeSizes answers numBuffers 0 q = result at *
  obtain ⟨bufs, r⟩ := result
  simp only at hrest holder hnodup hfresh hnew
  refine ⟨?_, ?_, ?_, ?_, ?_, hnodup, holder, hfresh, ?_⟩
  case refine_6 =>
    intro p hp
    have hmemory : r.memory = q.memory := by rw [hrest]
    have hp := setupOffsets_new bufs 0 r.vb p (hnew p hp)
    rwa [← hmemory] at hp
  all_goals rw [hrest]

theorem bufUserptrPut_unmapped (todo plane : Nat) (planes : Nat → Plane) (maps : Mappings)
    (hunmapped : ∀ i, (planes i).memPriv = none) :
    vb2BufUserptrPut todo plane planes maps = maps := by
  induction todo generalizing plane with
  | zero => rfl
  | succ todo ih =>
    simp only [vb2BufUserptrPut, hunmapped, Option.isSome_none, Bool.false_eq_true, if_false]
    exact ih (plane + 1)

theorem freeMem_new (hnew : ∀ p ∈ q.bufs, NewBuffer q.memory (q.vb p)) : vb2FreeMem q = q.maps := by
  unfold vb2FreeMem
  split_ifs with hmmap
  · rfl
  generalize q.bufs = bufs at hnew
  generalize q.maps = maps
  induction bufs with
  | nil => rfl
  | cons p rest ih =>
    rw [foldl_cons, bufUserptrPut_unmapped _ _ _ _ ((hnew p (by simp)).unmapped hmmap)]
    exact ih fun p hp => hnew p (mem_cons_of_mem _ hp)

theorem Reallocated.free {r : Vb2Queue} (h : Reallocated q r) : Reallocated q (vb2QueueFree r) where
  queuedList := h.queuedList
  doneList := h.doneList
  queuedCount := h.queuedCount
  streaming := h.streaming
  maps := (freeMem_new h.new).trans h.maps
  nodup := nodup_nil
  older := h.older
  fresh := fun _ hp => absurd hp not_mem_nil
  new := fun _ hp => absurd hp not_mem_nil

theorem requestBuffers_reallocated (q : Vb2Queue) (req : RequestBuffers) (answers : ReqbufsAnswers)
    (hbufs : q.bufs = []) : Reallocated q (requestBuffers q req answers).2.2 := by
  have hstart : Reallocated q { q with memory := req.memory } := by constructor <;> simp [hbufs]
  let setup := answers.queueSetup (min req.count videoMaxFrame)
  have halloc : Reallocated q (vb2QueueAlloc { q with memory := req.memory } req.memory
      setup.numBuffers setup.numPlanes setup.planeSizes answers.buffers) := by
    obtain ⟨h1, h2, h3, h4, h5, h6, h7, h8, h9⟩ := queueAlloc_reallocated
      { q with memory := req.memory } setup.numBuffers setup.numPlanes setup.planeSizes
      answers.buffers
    exact ⟨h1, h2, h3, h4, h5, h6, h7, h8, h9⟩
  simp only [requestBuffers]
  split_ifs
  · exact hstart
  · exact halloc
  · exact halloc.free
  · exact halloc.free
  all_goals exact halloc

def ReqbufsFrees (q : Vb2Queue) (req : RequestBuffers) (answers : ReqbufsAnswers) : Prop :=
  (req.memory = .mmap ∧ q.mmapOps ∨ req.memory = .userptr ∧ q.userptrOps) ∧
    req.type = q.type ∧ q.streaming = false ∧
    (req.count = 0 ∨ q.bufs ≠ [] ∨ q.memory ≠ req.memory) ∧
    ¬ (q.memory = .mmap ∧ buffersInUse q answers.numUsers)

theorem reqbufs_frees (hfrees : ReqbufsFrees q req answers) :
    Reallocated (vb2QueueFree q) (vb2Reqbufs q req answers).2.2 := by
  obtain ⟨hmemory, htype, hstream, hsome, huse⟩ := hfrees
  have hnone : Reallocated (vb2QueueFree q) (vb2QueueFree q) := by
    constructor <;> simp [vb2QueueFree]
  have hreq := requestBuffers_reallocated (vb2QueueFree q) req answers rfl
  unfold vb2Reqbufs
  rw [if_neg (by tauto), if_neg (by tauto), if_neg (by simp [hstream]),
    if_neg (by rcases hmemory with h | h <;> simp [h]),
    if_neg (by rcases hmemory with h | h <;> simp [h])]
  split_ifs
  · exact hnone
  · exact hreq

theorem reqbufs_keeps (hkeeps : ¬ ReqbufsFrees q req answers) :
    (vb2Reqbufs q req answers).2.2 = q ∨
      q.bufs = [] ∧ q.streaming = false ∧ Reallocated q (vb2Reqbufs q req answers).2.2 := by
  unfold vb2Reqbufs
  split_ifs with hmemory htype hstream hmmap huser hsome huse hcount
  iterate 6 exact .inl rfl
  case pos | neg =>
    refine absurd ⟨?_, not_not.mp htype, by simpa using hstream, hsome, huse⟩ hkeeps
    cases hmem : req.memory <;> simp_all
  case neg =>
    have hbufs : q.bufs = [] := by tauto
    exact .inr ⟨hbufs, by simpa using hstream, requestBuffers_reallocated q req answers hbufs⟩

end TbsMedia.Vb2
