import TbsMedia.M2m.Scheduler

/-!
At most one job runs and none is lost. The invariant says which thread will select the
next job while none is selected, and which one will call `device_run` for a selected one.
-/

namespace TbsMedia.M2m

open Lib Function List Option Dev Bool

/-- What `job_queue`, the flags and `curr_ctx` say of each other. -/
structure Dev.Ordered (d : Dev) : Prop where
  nodup : d.jobQueue.Nodup
  queued : ∀ c, (d.jobFlags c).queued = true ↔ c ∈ d.jobQueue
  running : ∀ c, (d.jobFlags c).running = true ↔ d.currCtx = some c
  head : ∀ c, d.currCtx = some c → d.jobQueue.head? = some c

namespace Dev

variable {d next : Dev} {c : Nat}

theorem tryRunLocked_none (hnone : d.tryRunLocked = none) : d.currCtx ≠ none ∨ d.jobQueue = [] := by
  rw [tryRunLocked] at hnone
  split at hnone
  · next hcurr => exact .inl (by rw [hcurr]; exact some_ne_none _)
  · next hqueue => exact .inr hqueue
  · cases hnone

theorem tryRunLocked_some (hnext : d.tryRunLocked = some next) :
    ∃ c rest, d.currCtx = none ∧ d.jobQueue = c :: rest ∧
      next = { d.setFlags c { d.jobFlags c with running := true } with currCtx := some c } := by
  rw [tryRunLocked] at hnext
  split at hnext
  · cases hnext
  · cases hnext
  · next c rest hcurr hqueue => exact ⟨c, rest, hcurr, hqueue, (Option.some.inj hnext).symm⟩

theorem tryScheduleLocked_some {tests : Tests} (hnext : d.tryScheduleLocked c tests = some next) :
    (d.jobFlags c).queued = false ∧
      next = { d.setFlags c { d.jobFlags c with queued := true } with
        jobQueue := d.jobQueue ++ [c] } := by
  rw [tryScheduleLocked] at hnext
  split_ifs at hnext with hq
  exact ⟨eq_false_iff.mpr hq, (Option.some.inj hnext).symm⟩

theorem jobFinishLocked_some (hnext : d.jobFinishLocked c = some next) :
    d.currCtx = some c ∧
      next = { d.setFlags c ⟨false, false⟩ with
        jobQueue := d.jobQueue.erase c, currCtx := none } := by
  rw [jobFinishLocked] at hnext
  split_ifs at hnext with hcurr
  exact ⟨hcurr, (Option.some.inj hnext).symm⟩

namespace Ordered

variable (hd : d.Ordered)

include hd

theorem queue_of_currCtx (hcurr : d.currCtx = some c) : ∃ rest, d.jobQueue = c :: rest :=
  List.head?_eq_some_iff.mp (hd.head c hcurr)

theorem mem_of_currCtx (hcurr : d.currCtx = some c) : c ∈ d.jobQueue :=
  mem_of_head? (hd.head c hcurr)

theorem currCtx_ne_of_not_running (hruns : (d.jobFlags c).running = false) : d.currCtx ≠ some c :=
  fun hcurr => false_ne_true (hruns.symm.trans ((hd.running c).mpr hcurr))

theorem tryRunLocked (hnext : d.tryRunLocked = some next) : next.Ordered := by
  obtain ⟨c, rest, hcurr, hqueue, rfl⟩ := tryRunLocked_some hnext
  refine ⟨hd.nodup, ?_, ?_, ?_⟩
  · intro c'
    rcases eq_or_ne c' c with rfl | hc
    · simpa [setFlags] using hd.queued c'
    · simpa [setFlags, hc] using hd.queued c'
  · intro c'
    rcases eq_or_ne c' c with rfl | hc
    · simp [setFlags]
    have hnot := hd.running c'
    rw [hcurr] at hnot
    simpa [setFlags, hc, Ne.symm hc] using hnot
  · intro c' hc
    cases hc
    exact List.head?_eq_some_iff.mpr ⟨rest, hqueue⟩

theorem tryScheduleLocked {tests : Tests} (hnext : d.tryScheduleLocked c tests = some next) :
    next.Ordered := by
  obtain ⟨hq, rfl⟩ := tryScheduleLocked_some hnext
  have hnotin : c ∉ d.jobQueue := fun hmem =>
    false_ne_true (hq.symm.trans ((hd.queued c).mpr hmem))
  constructor
  · exact nodup_append.mpr ⟨hd.nodup, nodup_singleton c, fun a ha b hb hab =>
      hnotin (mem_singleton.mp hb ▸ hab ▸ ha)⟩
  · intro c'
    rcases eq_or_ne c' c with rfl | hc
    · simp [setFlags]
    · simpa [setFlags, hc] using hd.queued c'
  · intro c'
    rcases eq_or_ne c' c with rfl | hc
    · simpa [setFlags] using hd.running c'
    · simpa [setFlags, hc] using hd.running c'
  · intro c' hcurr
    obtain ⟨rest, hqueue⟩ := hd.queue_of_currCtx hcurr
    exact List.head?_eq_some_iff.mpr ⟨rest ++ [c], congrArg (· ++ [c]) hqueue⟩

theorem mem_erase_iff {c' : Nat} : c' ∈ d.jobQueue.erase c ↔ c' ≠ c ∧ c' ∈ d.jobQueue :=
  hd.nodup.mem_erase_iff

theorem queued_erase (c' : Nat) : ((d.setFlags c ⟨false, false⟩).jobFlags c').queued = true ↔
    c' ∈ d.jobQueue.erase c := by
  rw [hd.mem_erase_iff]
  rcases eq_or_ne c' c with rfl | hc
  · simp [setFlags]
  · simpa [setFlags, hc] using hd.queued c'

theorem jobFinishLocked (hnext : d.jobFinishLocked c = some next) : next.Ordered := by
  obtain ⟨hcurr, rfl⟩ := jobFinishLocked_some hnext
  refine ⟨hd.nodup.erase c, hd.queued_erase, ?_, ?_⟩
  · intro c'
    rcases eq_or_ne c' c with rfl | hc
    · simp [setFlags]
    have hoth := hd.running c'
    rw [hcurr] at hoth
    simpa [setFlags, hc, Ne.symm hc] using hoth
  · intro c' hnone
    cases hnone

theorem ctxReleaseLocked (hruns : (d.jobFlags c).running = false) :
    (d.ctxReleaseLocked c).Ordered := by
  rw [Dev.ctxReleaseLocked]
  split_ifs with hq
  · have hcurr := hd.currCtx_ne_of_not_running hruns
    refine ⟨hd.nodup.erase c, hd.queued_erase, ?_, ?_⟩
    · intro c'
      rcases eq_or_ne c' c with rfl | hc
      · simpa [setFlags] using hcurr
      · simpa [setFlags, hc] using hd.running c'
    intro c' hcurr'
    obtain ⟨rest, hqueue⟩ := hd.queue_of_currCtx hcurr'
    have hne : c' ≠ c := fun heq => hcurr (heq ▸ hcurr')
    have hhead : d.jobQueue.erase c = c' :: rest.erase c := by
      rw [hqueue, erase_cons_tail (by simpa using hne)]
    exact List.head?_eq_some_iff.mpr ⟨rest.erase c, hhead⟩
  · exact hd

end Ordered

end Dev

variable {n : Nat}

/-- The thread will come to a `v4l2_m2m_try_run` whatever it finds before. -/
def Place.heading : Place → Bool
  | .streaming _ finishing | .schedule _ finishing => finishing
  | .tryRun _ => true
  | _ => false

def Place.calling : Place → Bool
  | .deviceRun _ => true
  | _ => false

variable {finishing : Bool}

theorem Place.heading_after : (Place.after finishing).heading = finishing := by
  cases finishing <;> rfl

theorem Place.calling_after : (Place.after finishing).calling = false := by cases finishing <;> rfl

/-- While no job is selected, a thread will select the next one; while the selected one is
not started, one thread will start it, and no thread will start it again. -/
structure Manned (d : Dev) (place : Fin n → Place) (started : Bool) : Prop where
  selects : d.currCtx = none → d.jobQueue ≠ [] → ∃ t, (place t).heading = true
  calls : d.currCtx ≠ none → started = false → ∃ t, (place t).calling = true
  calling : ∀ t, (place t).calling = true → d.currCtx ≠ none ∧ started = false
  one : ∀ t t', (place t).calling = true → (place t').calling = true → t = t'
  started : started = true → d.currCtx ≠ none

namespace Manned

variable {d : Dev} {place : Fin n → Place} {started : Bool} {t : Fin n} {p : Place}

theorem exists_goto {f : Place → Bool} (hex : ∃ t, f (place t) = true)
    (hkeep : f (place t) = true → f p = true) : ∃ t', f (update place t p t') = true := by
  obtain ⟨t', ht⟩ := hex
  rcases eq_or_ne t' t with rfl | heq
  · exact ⟨t', by rw [update_self]; exact hkeep ht⟩
  · exact ⟨t', by rw [update_of_ne heq]; exact ht⟩

theorem calling_goto {t' : Fin n} (hp : p.calling = false)
    (hcall : (update place t p t').calling = true) : t' ≠ t ∧ (place t').calling = true := by
  rcases eq_or_ne t' t with rfl | heq
  · rw [update_self, hp] at hcall
    cases hcall
  · rw [update_of_ne heq] at hcall
    exact ⟨heq, hcall⟩

variable (hm : Manned d place started)
include hm

/-- A thread goes on, and if no job is selected then a thread will still select one. -/
theorem goto_of_selects {d' : Dev} (hcurr : d'.currCtx = d.currCtx)
    (hselects : d'.currCtx = none → d'.jobQueue ≠ [] → ∃ t', (update place t p t').heading = true)
    (hold : (place t).calling = false) (hp : p.calling = false) :
    Manned d' (update place t p) started := by
  refine ⟨hselects, ?_, ?_, ?_, ?_⟩
  · intro hnone hstart
    refine exists_goto (hm.calls (hcurr ▸ hnone) hstart) ?_
    intro hcall
    rw [hold] at hcall
    cases hcall
  · intro t' hcall
    rw [hcurr]
    exact hm.calling t' (calling_goto hp hcall).2
  · intro t1 t2 hcall1 hcall2
    exact hm.one t1 t2 (calling_goto hp hcall1).2 (calling_goto hp hcall2).2
  · rw [hcurr]
    exact hm.started

theorem goto (hhead : (place t).heading = true → p.heading = true)
    (hold : (place t).calling = false) (hp : p.calling = false) :
    Manned d (update place t p) started :=
  hm.goto_of_selects rfl (fun hcurr hqueue => exists_goto (hm.selects hcurr hqueue) hhead) hold hp

theorem finish {d' : Dev} {c : Nat} (hstart : started = true) (hd : d.jobFinishLocked c = some d')
    : Manned d' (update place t (.streaming c true)) false := by
  obtain ⟨hcurr, rfl⟩ := jobFinishLocked_some hd
  have hnone : ∀ t', (update place t (.streaming c true) t').calling ≠ true := by
    intro t' hcall
    have hnot := (hm.calling t' (calling_goto rfl hcall).2).2
    rw [hstart] at hnot
    cases hnot
  constructor
  · intro _ _
    exact ⟨t, by rw [update_self]; rfl⟩
  · intro hsome _
    exact absurd rfl hsome
  · intro t' hcall
    exact absurd hcall (hnone t')
  · intro t1 _ hcall _
    exact absurd hcall (hnone t1)
  · intro hfalse
    cases hfalse

theorem select {d' : Dev} (finishing : Bool) (hd : d.tryRunLocked = some d') :
    Manned d' (update place t (.deviceRun finishing)) started := by
  obtain ⟨c, rest, hcurr, hqueue, rfl⟩ := tryRunLocked_some hd
  have honly : ∀ t', (update place t (.deviceRun finishing) t').calling = true →
      t' = t := by
    intro t' hcall
    by_contra hne
    rw [update_of_ne hne] at hcall
    exact (hm.calling t' hcall).1 hcurr
  have hstart : started = false := by
    apply eq_false_iff.mpr
    intro htrue
    exact hm.started htrue hcurr
  constructor
  · intro hnone _
    cases hnone
  · intro _ _
    exact ⟨t, by rw [update_self]; rfl⟩
  · intro _ _
    exact ⟨some_ne_none c, hstart⟩
  · intro t1 t2 hcall1 hcall2
    exact (honly t1 hcall1).trans (honly t2 hcall2).symm
  · intro _
    exact some_ne_none c

theorem run (hplace : place t = .deviceRun finishing) :
    Manned d (update place t (.after finishing)) true := by
  have hcall : (place t).calling = true := by rw [hplace]; rfl
  have hcurr := (hm.calling t hcall).1
  have hnone : ∀ t', (update place t (.after finishing) t').calling ≠ true := by
    intro t' hcall'
    obtain ⟨hne, hoth⟩ := calling_goto Place.calling_after hcall'
    exact hne (hm.one t' t hoth hcall)
  constructor
  · intro hcurr' _
    exact absurd hcurr' hcurr
  · intro _ hfalse
    cases hfalse
  · intro t' hcall'
    exact absurd hcall' (hnone t')
  · intro t1 _ hcall' _
    exact absurd hcall' (hnone t1)
  · intro _
    exact hcurr

end Manned

def Dev.waiting (d : Dev) (started : Bool) : List Nat :=
  if started then d.jobQueue.tail else d.jobQueue

/-- Of all jobs in queueing order, those that no release took from the queue are the jobs
`device_run` was called for, once each, and after them those that wait. -/
structure Accounts (d : Dev) (started : Bool) (jobs : List Nat) (job : Nat → Nat)
    (dropped : List Nat) (ran : List (Nat × Nat)) : Prop where
  served : ran.map Prod.fst ++ (d.waiting started).map job =
    (List.range jobs.length).filter fun j => decide (j ∉ dropped)
  owner : ∀ run ∈ ran, jobs[run.1]? = some run.2
  owned : ∀ c ∈ d.jobQueue, jobs[job c]? = some c
  dropped : ∀ j ∈ dropped, j < jobs.length

namespace Accounts

variable {d d' : Dev} {started : Bool} {jobs dropped : List Nat} {job : Nat → Nat}
  {ran : List (Nat × Nat)} {c : Nat} (ha : Accounts d started jobs job dropped ran)
include ha

theorem queue (hd : d.Ordered) {tests : Tests} (hstart : started = true → d.currCtx ≠ none)
    (hnext : d.tryScheduleLocked c tests = some d') :
    Accounts d' started (jobs ++ [c]) (update job c jobs.length) dropped ran := by
  obtain ⟨hq, rfl⟩ := tryScheduleLocked_some hnext
  have hnotin : c ∉ d.jobQueue := fun hmem =>
    false_ne_true (hq.symm.trans ((hd.queued c).mpr hmem))
  have hoth : ∀ c' ∈ d.jobQueue, update job c jobs.length c' = job c' := by
    intro c' hmem
    have hne : c' ≠ c := fun heq => hnotin (heq ▸ hmem)
    exact update_of_ne hne _ _
  have hkeep : ∀ {j a : Nat}, jobs[j]? = some a → (jobs ++ [c])[j]? = some a := by
    intro j a hj
    rw [List.getElem?_append_left (List.getElem?_eq_some_iff.mp hj).1]
    exact hj
  refine ⟨?_, fun run hrun => hkeep (ha.owner run hrun), ?_, ?_⟩
  · have hsub : ∀ c' ∈ d.waiting started, c' ∈ d.jobQueue := by
      intro c' hmem
      rw [waiting] at hmem
      split_ifs at hmem
      · exact mem_of_mem_tail hmem
      · exact hmem
    have hwait : ({ d.setFlags c { d.jobFlags c with queued := true } with
        jobQueue := d.jobQueue ++ [c] } : Dev).waiting started = d.waiting started ++ [c] := by
      rcases started with _ | _
      · rfl
      obtain ⟨c', hcurr⟩ := ne_none_iff_exists'.mp (hstart rfl)
      obtain ⟨rest, hqueue⟩ := hd.queue_of_currCtx hcurr
      simp [waiting, hqueue]
    have hlast : jobs.length ∉ dropped := fun hmem => (ha.dropped _ hmem).ne rfl
    rw [hwait, map_append, map_congr_left (fun c' hmem => hoth c' (hsub c' hmem)),
      ← append_assoc, ha.served, length_append, length_singleton, range_succ]
    simp [hlast]
  · intro c' hmem
    rcases mem_append.mp hmem with hmem | hmem
    · rw [hoth c' hmem]
      exact hkeep (ha.owned c' hmem)
    · obtain rfl := mem_singleton.mp hmem
      simp
  · intro j hmem
    rw [length_append]
    exact Nat.lt_add_right _ (ha.dropped j hmem)

omit ha in
theorem run (ha : Accounts d false jobs job dropped ran) (hd : d.Ordered)
    (hcurr : d.currCtx = some c) : Accounts d true jobs job dropped (ran ++ [(job c, c)]) := by
  obtain ⟨rest, hqueue⟩ := hd.queue_of_currCtx hcurr
  refine ⟨?_, ?_, ha.owned, ha.dropped⟩
  · rw [← ha.served]
    simp [waiting, hqueue]
  intro run hrun
  rcases mem_append.mp hrun with hrun | hrun
  · exact ha.owner run hrun
  · obtain rfl := mem_singleton.mp hrun
    exact ha.owned c (hd.mem_of_currCtx hcurr)

omit ha in
theorem finish (ha : Accounts d true jobs job dropped ran) (hd : d.Ordered)
    (hnext : d.jobFinishLocked c = some d') : Accounts d' false jobs job dropped ran := by
  obtain ⟨hcurr, rfl⟩ := jobFinishLocked_some hnext
  obtain ⟨rest, hqueue⟩ := hd.queue_of_currCtx hcurr
  refine ⟨?_, ha.owner, ?_, ha.dropped⟩
  · rw [← ha.served]
    simp [waiting, hqueue]
  · intro c' hmem
    exact ha.owned c' (mem_of_mem_erase hmem)

theorem select (hnext : d.tryRunLocked = some d') : Accounts d' started jobs job dropped ran := by
  obtain ⟨c, rest, hcurr, hqueue, rfl⟩ := tryRunLocked_some hnext
  exact { ha with }

theorem nodup : (ran.map Prod.fst ++ (d.waiting started).map job).Nodup := by
  rw [ha.served]
  exact nodup_range.filter _

omit ha in
theorem append_map_erase {first rest : List Nat} (hnodup : (first ++ rest.map job).Nodup)
    (hmem : c ∈ rest) :
    first ++ (rest.erase c).map job = (first ++ rest.map job).erase (job c) := by
  obtain ⟨-, hrest, hapart⟩ := nodup_append.mp hnodup
  have hnotin : job c ∉ first := fun hfirst =>
    hapart (job c) hfirst (job c) (List.mem_map_of_mem hmem) rfl
  rw [erase_append_right _ hnotin, hrest.erase_eq_filter,
    (hrest.of_map job).erase_eq_filter, List.filter_map]
  congr 2
  apply filter_congr
  intro c' hmem'
  by_cases hc : c' = c
  · simp [hc]
  · have hne : job c' ≠ job c := fun heq => hc (inj_on_of_nodup_map hrest hmem' hmem heq)
    rw [Function.comp_apply, bne_iff_ne.mpr hc, bne_iff_ne.mpr hne]

theorem release (hd : d.Ordered) (hq : (d.jobFlags c).queued = true)
    (hcurr : d.currCtx ≠ some c) (hstart : started = true → d.currCtx ≠ none) :
    Accounts { d.setFlags c ⟨false, false⟩ with jobQueue := d.jobQueue.erase c } started jobs job
      (dropped ++ [job c]) ran := by
  have hmem := (hd.queued c).mp hq
  have hwaits : c ∈ d.waiting started ∧
      ({ d.setFlags c ⟨false, false⟩ with jobQueue := d.jobQueue.erase c } : Dev).waiting started =
        (d.waiting started).erase c := by
    rcases started with _ | _
    · exact ⟨hmem, rfl⟩
    obtain ⟨c', hcurr'⟩ := ne_none_iff_exists'.mp (hstart rfl)
    obtain ⟨rest, hqueue⟩ := hd.queue_of_currCtx hcurr'
    have hne : c' ≠ c := fun heq => hcurr (heq ▸ hcurr')
    constructor
    · simpa [waiting, hqueue, hne.symm] using hmem
    · simp [waiting, hqueue, hne]
  have hserv : ran.map Prod.fst ++ ((d.waiting started).erase c).map job =
      (List.range jobs.length).filter fun j => decide (j ∉ dropped ++ [job c]) := by
    rw [append_map_erase ha.nodup hwaits.1, ha.nodup.erase_eq_filter, ha.served, List.filter_filter]
    apply filter_congr
    intro j _
    by_cases hj : j = job c
    all_goals simp [hj]
  refine ⟨?_, ha.owner, ?_, ?_⟩
  · rw [hwaits.2]
    exact hserv
  · intro c' hmem'
    exact ha.owned c' (mem_of_mem_erase hmem')
  intro j hj
  rcases mem_append.mp hj with hj | hj
  · exact ha.dropped j hj
  · obtain rfl := mem_singleton.mp hj
    exact (List.getElem?_eq_some_iff.mp (ha.owned c hmem)).1

end Accounts

/-- `v4l2_m2m_job_finish` is called for a running context only after `device_run` was. -/
def FinishesStarted (w : World n) : Fin n × Action → Prop
  | (_, .jobFinish c) => w.dev.currCtx = some c → w.started = true
  | _ => True

instance (w : World n) : (input : Fin n × Action) → Decidable (FinishesStarted w input)
  | (_, .jobFinish c) =>
    inferInstanceAs (Decidable (w.dev.currCtx = some c → w.started = true))
  | (_, .trySchedule _) | (_, .ctxRelease _) | (_, .next _) => isTrue trivial

structure SchedulerInv (w : World n) : Prop where
  dev : w.dev.Ordered
  manned : Manned w.dev w.place w.started
  accounts : Accounts w.dev w.started w.jobs w.job w.dropped w.ran

namespace SchedulerInv

variable {w next : World n} {t : Fin n} {action : Action}

theorem goto (hw : SchedulerInv w) {p : Place}
    (hhead : (w.place t).heading = true → p.heading = true)
    (hold : (w.place t).calling = false) (hp : p.calling = false) : SchedulerInv (w.goto t p) :=
  ⟨hw.dev, hw.manned.goto hhead hold hp, hw.accounts⟩

theorem release (hw : SchedulerInv w) {c : Nat} (hplace : w.place t = .outside)
    (hruns : (w.dev.jobFlags c).running = false) :
    SchedulerInv { w.goto t (.freeing c) with
      dev := w.dev.ctxReleaseLocked c
      dropped := if (w.dev.jobFlags c).queued then w.dropped ++ [w.job c] else w.dropped
      released := update w.released c true } := by
  have hcurr : (w.dev.ctxReleaseLocked c).currCtx = w.dev.currCtx := by
    rw [ctxReleaseLocked]
    split_ifs <;> rfl
  have hqueue : (w.dev.ctxReleaseLocked c).jobQueue ≠ [] → w.dev.jobQueue ≠ [] := by
    rw [ctxReleaseLocked]
    split_ifs
    · intro herase hnil
      apply herase
      simp [hnil]
    · exact id
  refine ⟨hw.dev.ctxReleaseLocked hruns, ?_, ?_⟩
  · refine hw.manned.goto_of_selects hcurr ?_ (by rw [hplace]; rfl) rfl
    intro hnone hne
    refine Manned.exists_goto (hw.manned.selects (hcurr ▸ hnone) (hqueue hne)) ?_
    intro hhead
    rw [hplace] at hhead
    cases hhead
  · by_cases hq : (w.dev.jobFlags c).queued = true
    · simp only [hq, ctxReleaseLocked, if_true]
      exact hw.accounts.release hw.dev hq (hw.dev.currCtx_ne_of_not_running hruns)
        hw.manned.started
    · simp only [hq, ctxReleaseLocked]
      exact hw.accounts

theorem moves (hw : SchedulerInv w) (hfin : FinishesStarted w (t, action))
    (hmoves : Moves w t action next) : SchedulerInv next := by
  cases hmoves with
  | enter c hplace => exact hw.goto (by rw [hplace]; exact id) (by rw [hplace]; rfl) rfl
  | notRunning => exact hw
  | finish c d hplace hd =>
    have hstart := hfin (jobFinishLocked_some hd).1
    have haccounts := hw.accounts
    rw [hstart] at haccounts
    exact ⟨hw.dev.jobFinishLocked hd, hw.manned.finish hstart hd, haccounts.finish hw.dev hd⟩
  | abort c hplace =>
    have hgoto : SchedulerInv (w.goto t (.waiting c)) :=
      hw.goto (by rw [hplace]; exact id) (by rw [hplace]; rfl) rfl
    exact { hgoto with }
  | release c hplace hruns => exact hw.release hplace hruns
  | streams c finishing tests hplace =>
    exact hw.goto (by rw [hplace]; exact id) (by rw [hplace]; rfl) rfl
  | stays c finishing tests hplace =>
    refine hw.goto ?_ ?_ Place.calling_after
    · rw [Place.heading_after]
      rcases hplace with hplace | hplace <;> rw [hplace] <;> exact id
    · rcases hplace with hplace | hplace <;> rw [hplace] <;> rfl
  | queue c finishing tests d hplace hd =>
    refine ⟨hw.dev.tryScheduleLocked hd, ?_, hw.accounts.queue hw.dev hw.manned.started hd⟩
    obtain ⟨-, rfl⟩ := tryScheduleLocked_some hd
    refine hw.manned.goto_of_selects rfl ?_ (by rw [hplace]; rfl) rfl
    intro _ _
    exact ⟨t, by rw [update_self]; rfl⟩
  | idle finishing tests hplace hnone =>
    refine ⟨hw.dev, ?_, hw.accounts⟩
    refine hw.manned.goto_of_selects rfl ?_ (by rw [hplace]; rfl) Place.calling_after
    intro hcurr hqueue
    rcases tryRunLocked_none hnone with hsome | hnil
    · exact absurd hcurr hsome
    · exact absurd hnil hqueue
  | select finishing tests d hplace hd =>
    exact ⟨hw.dev.tryRunLocked hd, hw.manned.select finishing hd, hw.accounts.select hd⟩
  | run c finishing tests hplace hcurr =>
    have hstart : w.started = false := (hw.manned.calling t (by rw [hplace]; rfl)).2
    have haccounts := hw.accounts
    rw [hstart] at haccounts
    exact ⟨hw.dev, hw.manned.run hplace, haccounts.run hw.dev hcurr⟩
  | woken c tests hplace hruns =>
    exact hw.goto (by rw [hplace]; exact id) (by rw [hplace]; rfl) rfl
  | free c tests hplace =>
    have hgoto : SchedulerInv (w.goto t .outside) :=
      hw.goto (by rw [hplace]; exact id) (by rw [hplace]; rfl) rfl
    exact { hgoto with }

theorem start : SchedulerInv (M2m.start n) where
  dev := ⟨nodup_nil, by simp [M2m.start], by simp [M2m.start], by simp [M2m.start]⟩
  manned := ⟨fun _ hqueue => absurd rfl hqueue, fun hcurr => absurd rfl hcurr,
    fun _ hcall => (false_ne_true hcall).elim,
    fun _ _ hcall => (false_ne_true hcall).elim,
    fun hstart => (false_ne_true hstart).elim⟩
  accounts := ⟨rfl, by simp [M2m.start], by simp [M2m.start], by simp [M2m.start]⟩

end SchedulerInv

structure Scheduled (w : World n) : Prop where
  once : w.dev.jobQueue.Nodup
  queued : ∀ c, c ∈ w.dev.jobQueue ↔ (w.dev.jobFlags c).queued = true
  running : ∀ c, (w.dev.jobFlags c).running = true ↔ w.dev.currCtx = some c
  head : ∀ c, w.dev.currCtx = some c → w.dev.jobQueue.head? = some c
  /-- The jobs not released, in queueing order: those started, and those that wait. -/
  served : w.ran.map Prod.fst ++ (w.dev.waiting w.started).map w.job =
    (List.range w.jobs.length).filter fun j => decide (j ∉ w.dropped)
  owner : ∀ run ∈ w.ran, w.jobs[run.1]? = some run.2
  /-- A thread about to call `device_run` finds a `curr_ctx` whose job is not started. -/
  calling : ∀ t finishing, w.place t = .deviceRun finishing →
    w.dev.currCtx ≠ none ∧ w.started = false
  quiet : (∀ t, w.place t = .outside) → w.dev.jobQueue ≠ [] →
    w.dev.currCtx ≠ none ∧ w.started = true

theorem SchedulerInv.scheduled {w : World n} (hw : SchedulerInv w) : Scheduled w where
  once := hw.dev.nodup
  queued := fun c => (hw.dev.queued c).symm
  running := hw.dev.running
  head := hw.dev.head
  served := hw.accounts.served
  owner := hw.accounts.owner
  calling := fun t finishing hplace => hw.manned.calling t (by rw [hplace]; rfl)
  quiet := by
    intro hquiet hqueue
    have hcurr : w.dev.currCtx ≠ none := by
      intro hnone
      obtain ⟨t, hhead⟩ := hw.manned.selects hnone hqueue
      rw [hquiet t] at hhead
      cases hhead
    refine ⟨hcurr, ?_⟩
    by_contra hstart
    obtain ⟨t, hcall⟩ := hw.manned.calls hcurr (eq_false_iff.mpr hstart)
    rw [hquiet t] at hcall
    cases hcall

/-- In every interleaving of the calls of any number of threads for any number of
contexts. -/
theorem jobs_scheduled (n : Nat) (inputs : List (Fin n × Action))
    (hfinish : Along step FinishesStarted (start n) inputs) :
    Always step Scheduled (start n) inputs := by
  refine Along.always SchedulerInv ?_ (fun w hw => hw.scheduled) SchedulerInv.start hfinish
  rintro w ⟨t, action⟩ next hw hnext hcond
  exact hw.moves hcond (step_moves hnext)

def allReady : Tests := ⟨true, true, true, true, true⟩

/-- Two threads schedule a context each; the first job is finished while the second context
is released. -/
theorem jobs_scheduled_two : let inputs : List (Fin 2 × Action) :=
      [(0, .trySchedule 0), (1, .trySchedule 1), (0, .next allReady), (1, .next allReady),
        (0, .next allReady), (1, .next allReady), (1, .next allReady), (0, .next allReady),
        (1, .next allReady), (1, .jobFinish 0), (0, .ctxRelease 1), (1, .next allReady)]
    Along step FinishesStarted (start 2) inputs ∧ Always step Scheduled (start 2) inputs := by
  intro inputs
  have hfinish : Along step FinishesStarted (start 2) inputs := by decide +kernel
  exact ⟨hfinish, jobs_scheduled 2 inputs hfinish⟩

end TbsMedia.M2m
