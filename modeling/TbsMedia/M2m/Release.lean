import TbsMedia.M2m.Jobs

/-!
What is left of a context that `v4l2_m2m_ctx_release` gave back. It waits only until the
job is not running any more, while `v4l2_m2m_job_finish` wakes it and then tries to
schedule the same context again.
-/

namespace TbsMedia.M2m

open Lib Function List

/-- The thread will still use the memory of context `c`. -/
def Place.accesses (d : Dev) (c : Nat) : Place → Prop
  | .outside => False
  | .streaming ctx _ | .schedule ctx _ | .waiting ctx | .freeing ctx => ctx = c
  | .tryRun _ => d.currCtx = none ∧ d.jobQueue.head? = some c
  | .deviceRun _ => d.currCtx = some c

open Place

/-- The thread is in `v4l2_m2m_try_schedule` for context `c`. -/
def Place.schedules (c : Nat) : Place → Prop
  | .streaming ctx _ | .schedule ctx _ => ctx = c
  | _ => False

/-- The thread is in `v4l2_m2m_ctx_release` for context `c`. -/
def Place.closes (c : Nat) : Place → Prop
  | .waiting ctx | .freeing ctx => ctx = c
  | _ => False

instance (c : Nat) : (p : Place) → Decidable (p.schedules c)
  | .streaming ctx _ | .schedule ctx _ => inferInstanceAs (Decidable (ctx = c))
  | .outside | .tryRun _ | .deviceRun _ | .waiting _ | .freeing _ => isFalse id

variable {n : Nat}

section

variable (w : World n)

/-- A context is released once, and then only the driver's `v4l2_m2m_job_finish` for its
running job is called for it. -/
def ClosesOnce : Fin n × Action → Prop
  | (_, .trySchedule c) | (_, .ctxRelease c) => w.released c = false
  | (_, .jobFinish c) => w.dev.currCtx = some c → w.started = true
  | (_, .next _) => True

instance : (input : Fin n × Action) → Decidable (ClosesOnce w input)
  | (_, .trySchedule c) | (_, .ctxRelease c) => inferInstanceAs (Decidable (w.released c = false))
  | (_, .jobFinish c) =>
    inferInstanceAs (Decidable (w.dev.currCtx = some c → w.started = true))
  | (_, .next _) => isTrue trivial

/-- A thread that waits in `v4l2_m2m_ctx_release` goes on only when its context is not queued
again and no thread is about to schedule it. -/
def World.WakesUnused : Place → Prop
  | .waiting c => (w.dev.jobFlags c).running = false →
      (w.dev.jobFlags c).queued = false ∧ ∀ t, ¬ (w.place t).schedules c
  | _ => True

/-- When `v4l2_m2m_ctx_release` sees that its context is not running, at once or after the
wait, no thread is about to schedule the context; after the wait it is not queued again. -/
def ReleasesUnused : Fin n × Action → Prop
  | (_, .ctxRelease c) =>
    (w.dev.jobFlags c).running = false → ∀ t, ¬ (w.place t).schedules c
  | (t, .next _) => w.WakesUnused (w.place t)
  | _ => True

instance : (p : Place) → Decidable (w.WakesUnused p)
  | .waiting c => inferInstanceAs (Decidable ((w.dev.jobFlags c).running = false →
      (w.dev.jobFlags c).queued = false ∧ ∀ t, ¬ (w.place t).schedules c))
  | .outside | .streaming _ _ | .schedule _ _ | .tryRun _ | .deviceRun _ | .freeing _ =>
    isTrue trivial

instance : (input : Fin n × Action) → Decidable (ReleasesUnused w input)
  | (_, .ctxRelease c) => inferInstanceAs (Decidable
      ((w.dev.jobFlags c).running = false → ∀ t, ¬ (w.place t).schedules c))
  | (t, .next _) => inferInstanceAs (Decidable (w.WakesUnused (w.place t)))
  | (_, .trySchedule _) | (_, .jobFinish _) => isTrue trivial

end

/-- Context `c` is given back, or its release will do nothing else any more. -/
def Gone (place : Fin n → Place) (freed : Nat → Option Nat) (c : Nat) : Prop :=
  freed c ≠ none ∨ ∃ t, place t = .freeing c

structure Closing (place : Fin n → Place) (released : Nat → Bool) (freed : Nat → Option Nat) :
    Prop where
  closing : ∀ t c, (place t).closes c → released c = true ∧ freed c = none
  one : ∀ t t' c, (place t).closes c → (place t').closes c → t = t'
  freed : ∀ c, freed c ≠ none → released c = true

structure Unused (d : Dev) (place : Fin n → Place) (freed : Nat → Option Nat) : Prop where
  queue : ∀ c, Gone place freed c → c ∉ d.jobQueue
  schedules : ∀ c, Gone place freed c → ∀ t, ¬ (place t).schedules c

section Places

variable {d d' : Dev} {place : Fin n → Place} {released : Nat → Bool} {freed : Nat → Option Nat}
  {t : Fin n} {p : Place} {c : Nat} {finishing : Bool}

theorem Place.closes_after : ¬ (Place.after finishing).closes c := by cases finishing <;> exact id

theorem Place.schedules_after : ¬ (Place.after finishing).schedules c := by
  cases finishing <;> exact id

theorem Place.after_ne_freeing (c : Nat) : Place.after finishing ≠ .freeing c := by
  cases finishing <;> exact nofun

theorem Gone.of_goto (hp : p ≠ .freeing c) (hgone : Gone (update place t p) freed c) :
    Gone place freed c := by
  rcases hgone with hfreed | ⟨t', hfreeing⟩
  · exact .inl hfreed
  rw [update_apply] at hfreeing
  split_ifs at hfreeing
  · exact absurd hfreeing hp
  · exact .inr ⟨t', hfreeing⟩

section

variable (hclosing : Closing place released freed)
include hclosing

theorem Closing.not_gone (hopen : released c = false) : ¬ Gone place freed c := by
  rintro (hfreed | ⟨t, hfreeing⟩)
  · exact Bool.false_ne_true (hopen.symm.trans (hclosing.freed c hfreed))
  · have hclose : (place t).closes c := by rw [hfreeing]; rfl
    exact Bool.false_ne_true (hopen.symm.trans (hclosing.closing t c hclose).1)

/-- A thread goes on, to a place in no other release than it was in. -/
theorem Closing.goto (hp : ∀ c, p.closes c → (place t).closes c) :
    Closing (update place t p) released freed := by
  have hold : ∀ t' c, (update place t p t').closes c → (place t').closes c := by
    rw [forall_update_iff place fun t' q => ∀ c, q.closes c → (place t').closes c]
    exact ⟨hp, fun _ _ _ => id⟩
  exact ⟨fun t' c hclose => hclosing.closing t' c (hold t' c hclose),
    fun t1 t2 c h1 h2 => hclosing.one t1 t2 c (hold t1 c h1) (hold t2 c h2), hclosing.freed⟩

theorem Closing.close (hopen : released c = false) (hp : ∀ c', p.closes c' ↔ c' = c) :
    Closing (update place t p) (update released c true) freed := by
  have hnone : ∀ t', ¬ (place t').closes c := by
    intro t' hclose
    exact Bool.false_ne_true (hopen.symm.trans (hclosing.closing t' c hclose).1)
  have hfreed : freed c = none := by
    by_contra hfreed
    exact Bool.false_ne_true (hopen.symm.trans (hclosing.freed c hfreed))
  have hrel : ∀ c', released c' = true → update released c true c' = true := by
    rw [forall_update_iff released fun c' r => released c' = true → r = true]
    exact ⟨fun _ => rfl, fun _ _ => id⟩
  constructor
  · intro t' c' hclose
    rw [update_apply] at hclose
    split_ifs at hclose
    · obtain rfl := (hp c').mp hclose
      exact ⟨update_self .., hfreed⟩
    · exact (hclosing.closing t' c' hclose).imp_left (hrel c')
  · intro t1 t2 c' h1 h2
    rcases eq_or_ne c' c with rfl | heq
    · have hself : ∀ t', (update place t p t').closes c' → t' = t := by
        rw [forall_update_iff place fun t' q => q.closes c' → t' = t]
        exact ⟨fun _ => rfl, fun t' _ hclose => absurd hclose (hnone t')⟩
      exact (hself t1 h1).trans (hself t2 h2).symm
    · have hoth : ∀ t', (update place t p t').closes c' → (place t').closes c' := by
        rw [forall_update_iff place fun t' q => q.closes c' → (place t').closes c']
        exact ⟨fun hclose => absurd ((hp c').mp hclose) heq, fun _ _ => id⟩
      exact hclosing.one t1 t2 c' (hoth t1 h1) (hoth t2 h2)
  · intro c' hc
    exact hrel c' (hclosing.freed c' hc)

theorem Closing.free (hplace : place t = .freeing c) (k : Nat) :
    Closing (update place t .outside) released (update freed c (some k)) := by
  have hclose : (place t).closes c := by rw [hplace]; rfl
  have hgoto : Closing (update place t .outside) released freed :=
    hclosing.goto fun c' hc => hc.elim
  refine ⟨?_, hgoto.one, ?_⟩
  · intro t' c' hclose'
    obtain ⟨hrel, hnone⟩ := hgoto.closing t' c' hclose'
    have hne : c' ≠ c := by
      rintro rfl
      rw [update_apply] at hclose'
      split_ifs at hclose' with ht
      · exact hclose'
      · exact ht (hclosing.one t' t c' hclose' hclose)
    rw [update_of_ne hne]
    exact ⟨hrel, hnone⟩
  · intro c' hc
    by_cases heq : c' = c
    · rw [heq]
      exact (hclosing.closing t c hclose).1
    · rw [update_of_ne heq] at hc
      exact hclosing.freed c' hc

end

/-- A thread goes on: no context that is gone is queued or about to be scheduled. -/
theorem Unused.goto (hunused : Unused d place freed) (hp : ∀ c, p ≠ .freeing c)
    (hschedules : ∀ c, Gone place freed c → ¬ p.schedules c)
    (hqueue : ∀ c, Gone place freed c → c ∈ d'.jobQueue → c ∈ d.jobQueue) :
    Unused d' (update place t p) freed := by
  constructor
  · intro c hgone hmem
    have hpre := hgone.of_goto (hp c)
    exact hunused.queue c hpre (hqueue c hpre hmem)
  intro c hgone t' hsched
  have hpre := hgone.of_goto (hp c)
  rw [update_apply] at hsched
  split_ifs at hsched
  · exact hschedules c hpre hsched
  · exact hunused.schedules c hpre t' hsched

theorem Unused.freeing (hunused : Unused d place freed)
    (hqueue : ∀ c' ∈ d'.jobQueue, c' ∈ d.jobQueue) (hnotin : c ∉ d'.jobQueue)
    (hnone : ∀ t, ¬ (place t).schedules c) : Unused d' (update place t (.freeing c)) freed := by
  have hgone : ∀ c', Gone (update place t (.freeing c)) freed c' →
      c' = c ∨ Gone place freed c' := by
    intro c' hgone
    by_cases heq : c' = c
    · exact .inl heq
    refine .inr (hgone.of_goto ?_)
    intro hfreeing
    exact heq (freeing.inj hfreeing).symm
  have hpre : ∀ c', Gone (update place t (.freeing c)) freed c' →
      c' ∉ d'.jobQueue ∧ ∀ t', ¬ (place t').schedules c' := by
    intro c' hc
    rcases hgone c' hc with rfl | hold
    · exact ⟨hnotin, hnone⟩
    · exact ⟨fun hmem => hunused.queue c' hold (hqueue c' hmem), hunused.schedules c' hold⟩
  refine ⟨fun c' hc => (hpre c' hc).1, ?_⟩
  intro c' hc t' hsched
  rw [update_apply] at hsched
  split_ifs at hsched
  · exact hsched
  · exact (hpre c' hc).2 t' hsched

theorem Unused.free (hunused : Unused d place freed) (hplace : place t = .freeing c) (k : Nat) :
    Unused d (update place t .outside) (update freed c (some k)) := by
  have hgone : ∀ c', Gone (update place t .outside) (update freed c (some k)) c' →
      Gone place freed c' := by
    intro c' hc
    by_cases heq : c' = c
    · exact .inr ⟨t, heq ▸ hplace⟩
    have hpre : Gone (update place t .outside) freed c' := by
      rw [Gone, update_of_ne heq] at hc
      exact hc
    exact .of_goto (p := .outside) nofun hpre
  refine ⟨fun c' hc => hunused.queue c' (hgone c' hc), ?_⟩
  intro c' hc t' hsched
  rw [update_apply] at hsched
  split_ifs at hsched
  · exact hsched
  · exact hunused.schedules c' (hgone c' hc) t' hsched

end Places

/-- No `device_run` was called for a context after it was given back. -/
def NoneLater (ran : List (Nat × Nat)) (freed : Nat → Option Nat) : Prop :=
  ∀ c k, freed c = some k → k ≤ ran.length ∧ ∀ run ∈ ran.drop k, run.2 ≠ c

variable {freed : Nat → Option Nat} {ran : List (Nat × Nat)}

theorem NoneLater.run (hlater : NoneLater ran freed) {j c : Nat} (hc : freed c = none) :
    NoneLater (ran ++ [(j, c)]) freed := by
  intro c' k hk
  obtain ⟨hle, hnone⟩ := hlater c' k hk
  refine ⟨by rw [length_append]; exact Nat.le_add_right_of_le hle, ?_⟩
  intro run hrun
  rw [drop_append_of_le_length hle] at hrun
  rcases mem_append.mp hrun with hrun | hrun
  · exact hnone run hrun
  obtain rfl := mem_singleton.mp hrun
  rintro rfl
  rw [hc] at hk
  cases hk

theorem NoneLater.free (hlater : NoneLater ran freed) (c : Nat) :
    NoneLater ran (update freed c (some ran.length)) := by
  intro c' k hk
  rw [update_apply] at hk
  split_ifs at hk
  · cases hk
    simp
  · exact hlater c' k hk

structure ReleaseInv (w : World n) : Prop where
  scheduler : SchedulerInv w
  closing : Closing w.place w.released w.freed
  unused : Unused w.dev w.place w.freed
  later : NoneLater w.ran w.freed

namespace ReleaseInv

variable {w next : World n} {t : Fin n} {action : Action}

section

variable (hw : ReleaseInv w)
include hw

theorem closing_moves (hclose : ClosesOnce w (t, action))
    (hmoves : Moves w t action next) : Closing next.place next.released next.freed := by
  cases hmoves with
  | enter | finish | streams | queue | select => exact hw.closing.goto fun c hc => hc.elim
  | stays | idle | run => exact hw.closing.goto fun c hc => (closes_after hc).elim
  | notRunning => exact hw.closing
  | abort c hplace | release c hplace hruns =>
    exact hw.closing.close hclose fun c' => ⟨.symm, .symm⟩
  | woken c tests hplace hruns =>
    refine hw.closing.goto fun c' hc => ?_
    rw [hplace]
    exact hc
  | free c tests hplace => exact hw.closing.free hplace w.ran.length

theorem not_gone_of_mem {c : Nat} (hmem : c ∈ w.dev.jobQueue) : ¬ Gone w.place w.freed c :=
  fun hgone => hw.unused.queue c hgone hmem

/-- A thread goes on, and schedules no context that it did not schedule before. -/
theorem unused_goto (p : Place) (hp : ∀ c, p ≠ .freeing c)
    (hsched : ∀ c, p.schedules c → (w.place t).schedules c) {d : Dev}
    (hqueue : d.jobQueue = w.dev.jobQueue) : Unused d (update w.place t p) w.freed := by
  refine hw.unused.goto hp ?_ ?_
  · intro c hgone hc
    exact hw.unused.schedules c hgone t (hsched c hc)
  · intro c _ hmem
    rwa [hqueue] at hmem

theorem unused_moves (hclose : ClosesOnce w (t, action)) (hreleases : ReleasesUnused w (t, action))
    (hmoves : Moves w t action next) : Unused next.dev next.place next.freed := by
  cases hmoves with
  | enter c hplace =>
    refine hw.unused.goto (by simp) ?_ fun _ _ => id
    rintro c' hgone rfl
    exact hw.closing.not_gone hclose hgone
  | notRunning => exact hw.unused
  | finish c d hplace hd =>
    obtain ⟨hcurr, rfl⟩ := Dev.jobFinishLocked_some hd
    refine hw.unused.goto (by simp) ?_ fun c' _ hmem => mem_of_mem_erase hmem
    rintro c' hgone rfl
    exact hw.not_gone_of_mem (hw.scheduler.dev.mem_of_currCtx hcurr) hgone
  | abort c hplace => exact hw.unused_goto (.waiting c) (by simp) (fun c' hc => hc.elim) rfl
  | release c hplace hruns =>
    have hdev := hw.scheduler.dev
    have hqueue : ∀ c' ∈ (w.dev.ctxReleaseLocked c).jobQueue, c' ∈ w.dev.jobQueue := by
      intro c' hmem
      rw [Dev.ctxReleaseLocked] at hmem
      split_ifs at hmem
      · exact mem_of_mem_erase hmem
      · exact hmem
    have hnotin : c ∉ (w.dev.ctxReleaseLocked c).jobQueue := by
      rw [Dev.ctxReleaseLocked]
      split_ifs with hq
      · exact fun hmem => (hdev.mem_erase_iff.mp hmem).1 rfl
      · exact fun hmem => hq ((hdev.queued c).mpr hmem)
    exact hw.unused.freeing hqueue hnotin (hreleases hruns)
  | streams c finishing tests hplace =>
    refine hw.unused_goto (.schedule c finishing) (by simp) (fun c' hc => ?_) rfl
    rw [hplace]
    exact hc
  | stays c finishing tests hplace =>
    exact hw.unused_goto (.after finishing) after_ne_freeing
      (fun c' hc => (schedules_after hc).elim) rfl
  | queue c finishing tests d hplace hd =>
    obtain ⟨hq, rfl⟩ := Dev.tryScheduleLocked_some hd
    refine hw.unused.goto (by simp) (fun c' _ hc => hc) ?_
    intro c' hgone hmem
    rcases mem_append.mp hmem with hmem | hmem
    · exact hmem
    obtain rfl := mem_singleton.mp hmem
    have hsched : (w.place t).schedules c' := by rw [hplace]; rfl
    exact absurd hsched (hw.unused.schedules c' hgone t)
  | idle finishing tests hplace hnone =>
    exact hw.unused_goto (.after finishing) after_ne_freeing
      (fun c' hc => (schedules_after hc).elim) rfl
  | select finishing tests d hplace hd =>
    obtain ⟨c, rest, hcurr, hqueue, rfl⟩ := Dev.tryRunLocked_some hd
    exact hw.unused_goto (.deviceRun finishing) (by simp) (fun c' hc => hc.elim) rfl
  | run c finishing tests hplace hcurr =>
    exact hw.unused_goto (.after finishing) after_ne_freeing
      (fun c' hc => (schedules_after hc).elim) rfl
  | woken c tests hplace hruns =>
    rw [ReleasesUnused, hplace] at hreleases
    obtain ⟨hq, hnone⟩ := hreleases hruns
    refine hw.unused.freeing (fun _ => id) (fun hmem => ?_) hnone
    exact Bool.false_ne_true (hq.symm.trans ((hw.scheduler.dev.queued c).mpr hmem))
  | free c tests hplace => exact hw.unused.free hplace w.ran.length

theorem later_moves (hmoves : Moves w t action next) : NoneLater next.ran next.freed := by
  cases hmoves with
  | run c finishing tests hplace hcurr =>
    have hmem := hw.scheduler.dev.mem_of_currCtx hcurr
    refine hw.later.run ?_
    by_contra hfreed
    exact hw.not_gone_of_mem hmem (.inl hfreed)
  | free c tests hplace => exact hw.later.free c
  | _ => exact hw.later

theorem moves (hclose : ClosesOnce w (t, action)) (hreleases : ReleasesUnused w (t, action))
    (hmoves : Moves w t action next) : ReleaseInv next := by
  have hfin : FinishesStarted w (t, action) := by
    cases action with
    | jobFinish c => exact hclose
    | _ => trivial
  exact ⟨hw.scheduler.moves hfin hmoves, hw.closing_moves hclose hmoves,
    hw.unused_moves hclose hreleases hmoves, hw.later_moves hmoves⟩

end

theorem start : ReleaseInv (M2m.start n) where
  scheduler := .start
  closing := ⟨fun _ _ hclose => hclose.elim, fun _ _ _ hclose => hclose.elim,
    fun _ hfreed => absurd rfl hfreed⟩
  unused := ⟨fun _ _ => not_mem_nil, fun _ _ _ => id⟩
  later := fun _ _ hfreed => nomatch hfreed

end ReleaseInv

/-- Nothing is left of context `c`. -/
structure NoTrace (w : World n) (c : Nat) : Prop where
  queue : c ∉ w.dev.jobQueue
  curr : w.dev.currCtx ≠ some c
  accesses : ∀ t, ¬ (w.place t).accesses w.dev c
  later : ∀ k, w.freed c = some k → ∀ run ∈ w.ran.drop k, run.2 ≠ c

theorem ReleaseInv.noTrace {w : World n} (hw : ReleaseInv w) {c : Nat} (hfreed : w.freed c ≠ none) :
    NoTrace w c := by
  have hqueue := hw.unused.queue c (.inl hfreed)
  have hcurr : w.dev.currCtx ≠ some c := fun hcurr => hqueue (hw.scheduler.dev.mem_of_currCtx hcurr)
  have hclose : ∀ t, ¬ (w.place t).closes c := fun t hclose =>
    hfreed (hw.closing.closing t c hclose).2
  have hsched := hw.unused.schedules c (.inl hfreed)
  refine ⟨hqueue, hcurr, ?_, fun k hk => (hw.later c k hk).2⟩
  intro t hacc
  cases hplace : w.place t with
  | outside =>
    rw [hplace] at hacc
    exact hacc
  | streaming ctx finishing | schedule ctx finishing =>
    apply hsched t
    rw [hplace] at hacc ⊢
    exact hacc
  | tryRun finishing =>
    rw [hplace] at hacc
    exact hqueue (mem_of_head? hacc.2)
  | deviceRun finishing =>
    rw [hplace] at hacc
    exact hcurr hacc
  | waiting ctx | freeing ctx =>
    apply hclose t
    rw [hplace] at hacc ⊢
    exact hacc

/-- If each release finds its context unused then nothing is left of what it gives back. -/
theorem release_leaves_no_trace (n : Nat) (inputs : List (Fin n × Action))
    (halong : Along step (fun w input => ClosesOnce w input ∧ ReleasesUnused w input)
      (start n) inputs) :
    Always step (fun w => ∀ c, w.freed c ≠ none → NoTrace w c) (start n) inputs := by
  refine Along.always ReleaseInv ?_ (fun w hw c => hw.noTrace) ReleaseInv.start halong
  rintro w ⟨t, action⟩ next hw hnext ⟨hcloses, hreleases⟩
  exact hw.moves hcloses hreleases (step_moves hnext)

/-- The job of context 0 is finished while it is being released, and before the waiting release
goes on, `v4l2_m2m_job_finish` has queued the context again behind context 1: it is given back
while it is on the queue, and run when the job of context 1 is finished. -/
theorem release_leaves_traces :
    ∃ (inputs rest : List (Fin 3 × Action)) (w last : World 3),
      Along step ClosesOnce (start 3) (inputs ++ rest) ∧
        inputs.foldlM step (start 3) = some w ∧ w.freed 0 = some 2 ∧ 0 ∈ w.dev.jobQueue ∧
        rest.foldlM step w = some last ∧ last.dev.currCtx = some 0 ∧ (2, 0) ∈ last.ran.drop 2 := by
  let inputs : List (Fin 3 × Action) :=
    [(0, .trySchedule 0), (0, .next allReady), (0, .next allReady), (0, .next allReady),
      (0, .next allReady), (0, .trySchedule 1), (0, .next allReady), (0, .next allReady),
      (0, .next allReady), (1, .ctxRelease 0), (2, .jobFinish 0), (2, .next allReady),
      (2, .next allReady), (2, .next allReady), (2, .next allReady), (2, .next allReady),
      (1, .next allReady), (1, .next allReady)]
  let rest : List (Fin 3 × Action) :=
    [(2, .jobFinish 1), (2, .next allReady), (2, .next { allReady with outReady := false }),
      (2, .next allReady), (2, .next allReady)]
  obtain ⟨w, hw, hfreed, hmem, last, hlast, hcurr, hran⟩ : ∃ w ∈ inputs.foldlM step (start 3),
      w.freed 0 = some 2 ∧ 0 ∈ w.dev.jobQueue ∧ ∃ last ∈ rest.foldlM step w,
        last.dev.currCtx = some 0 ∧ (2, 0) ∈ last.ran.drop 2 := by
    decide +kernel
  have halong : Along step ClosesOnce (start 3) (inputs ++ rest) := by decide +kernel
  exact ⟨inputs, rest, w, last, halong, hw, hfreed, hmem, hlast, hcurr, hran⟩

/-- The job of context 0 is finished while it is being released and has no buffers left, and
the release goes on when `v4l2_m2m_job_finish` has returned. -/
theorem release_leaves_no_trace_finished : let inputs : List (Fin 3 × Action) :=
      [(0, .trySchedule 0), (0, .next allReady), (0, .next allReady), (0, .next allReady),
        (0, .next allReady), (1, .ctxRelease 0), (2, .jobFinish 0),
        (2, .next { allReady with outStreaming := false }), (2, .next allReady),
        (1, .next allReady), (1, .next allReady)]
    (inputs.foldlM step (start 3)).any (fun w => w.freed 0 == some 1) = true ∧
    Along step (fun w input => ClosesOnce w input ∧ ReleasesUnused w input) (start 3) inputs ∧
    Always step (fun w => ∀ c, w.freed c ≠ none → NoTrace w c) (start 3) inputs := by
  intro inputs
  have hrun : (inputs.foldlM step (start 3)).any (fun w => w.freed 0 == some 1) = true := by
    decide +kernel
  have halong : Along step (fun w input => ClosesOnce w input ∧ ReleasesUnused w input)
      (start 3) inputs := by decide +kernel
  exact ⟨hrun, halong, release_leaves_no_trace 3 inputs halong⟩

end TbsMedia.M2m
