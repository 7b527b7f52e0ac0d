import TbsMedia.Ctrls.Reached

/-!
A set request as a sequence of jobs, one for each cluster that the list has
entries for: `try_set_ext_ctrls` works on them in order and stops at the first
one that fails. An invalid value that only the work on its cluster finds comes
too late for the clusters before it.
-/

namespace TbsMedia.Ctrls

open Lib List Option Job Nat

variable {i : Nat}

section Groups

variable (w : World) (h : Nat) (cs : ExtControls)

def headRef (i : Nat) : Option Nat :=
  (helperOf w h cs i).mref

def severalListed : Bool :=
  (List.range cs.count).any fun i =>
    (listedMaster w h cs i).any fun m => decide (1 < (w.ctrl m).ncontrols)

def heads : List Nat :=
  if severalListed w h cs = true then firsts (headRef w h cs) cs.count
  else (List.range cs.count).filter fun i => (headRef w h cs i).isSome

/-- The entries that are worked on together with the one at `i`. -/
def groupOf (i : Nat) : List Nat :=
  if severalListed w h cs = true then occurrences (headRef w h cs) cs.count (headRef w h cs i)
  else [i]

variable {w h cs}

theorem severalListed_iff : severalListed w h cs = true ↔ ∃ j, j < cs.count ∧ Several w h cs j := by
  simp [severalListed, Several, Option.any_eq_true]

theorem heads_lt (hi : i ∈ heads w h cs) : i < cs.count := by
  unfold heads at hi
  split_ifs at hi
  · exact (mem_firsts.mp hi).1
  · exact mem_range.mp (mem_of_mem_filter hi)

variable {j : Nat} {w' : World} {helpers : Nat → Helper}

theorem mem_groupOf_lt (hi : i < cs.count) (hj : j ∈ groupOf w h cs i) : j < cs.count := by
  unfold groupOf at hj
  split_ifs at hj
  · exact (mem_occurrences.mp hj).1
  · rwa [mem_singleton.mp hj]

theorem groupOf_nodup (i : Nat) : (groupOf w h cs i).Nodup := by
  unfold groupOf
  split_ifs
  · exact nodup_range.filter _
  · exact nodup_singleton i

theorem groupOf_disjoint {i' : Nat} (hi : i ∈ heads w h cs) (hi' : i' ∈ heads w h cs)
    (hj : j ∈ groupOf w h cs i) (hj' : j ∈ groupOf w h cs i') : i = i' := by
  unfold heads at hi hi'
  unfold groupOf at hj hj'
  split_ifs at hi hi' hj hj'
  · exact firsts_inj hi hi' ((mem_occurrences.mp hj).2.symm.trans (mem_occurrences.mp hj').2)
  · exact (mem_singleton.mp hj).symm.trans (mem_singleton.mp hj')

/-- The helpers of a list that `prepare_ext_ctrls` lets through. -/
structure Prepared (w w' : World) (h : Nat) (cs : ExtControls) (helpers : Nat → Helper) : Prop where
  looked : Looked w w' h
  listed : ∀ j, j < cs.count → listedMaster w h cs j ≠ none
  ctrl : ∀ j, j < cs.count → (helpers j).ctrl = (helperOf w h cs j).ctrl
  mref : ∀ i, i < cs.count → (helpers i).mref =
    if i ∈ heads w h cs then headRef w h cs i else none
  head : ∀ i ∈ heads w h cs, (headRef w h cs i).isSome = true
  chain : ∀ i ∈ heads w h cs, chain helpers cs.count i = groupOf w h cs i

theorem prepared_single (hall : ∀ j < cs.count, listedMaster w h cs j ≠ none)
    (hone : severalListed w h cs = false) (hlook : Looked w w' h)
    (hhelp : ∀ j < cs.count, helpers j = helperOf w h cs j) : Prepared w w' h cs helpers := by
  have hnot : ¬ severalListed w h cs = true := by simp [hone]
  refine ⟨hlook, hall, fun j hj => by rw [hhelp j hj], fun i hi => ?_, fun i hi => ?_,
    fun i hi => ?_⟩
  · rw [hhelp i hi, heads, if_neg hnot]
    split_ifs with hin
    · rfl
    have hnone : ¬ (headRef w h cs i).isSome = true := fun hsome =>
      hin (mem_filter.mpr ⟨mem_range.mpr hi, hsome⟩)
    exact not_isSome_iff_eq_none.mp hnone
  · rw [heads, if_neg hnot] at hi
    exact (mem_filter.mp hi).2
  · have hlt := heads_lt hi
    rw [groupOf, if_neg hnot]
    refine chain_single hlt ?_
    rw [hhelp i hlt]
    rfl

theorem prepared_several (hall : ∀ j < cs.count, listedMaster w h cs j ≠ none)
    (hmany : severalListed w h cs = true) (hlook : Looked w w' h) {key : Nat → Nat}
    {start : Nat → Helper}
    (hstart : ∀ j < cs.count, start j = helperOf w h cs j ∧ (helperOf w h cs j).mref = some (key j))
    (hlink : LinkedBelow key cs.count cs.count start helpers w') :
    Prepared w w' h cs helpers := by
  have hkey : ∀ j < cs.count, headRef w h cs j = some (key j) := fun j hj => (hstart j hj).2
  have hsame : ∀ i < cs.count, ∀ j < cs.count,
      (headRef w h cs i = headRef w h cs j ↔ key i = key j) := by
    intro i hi j hj
    rw [hkey i hi, hkey j hj, some_inj]
  have hheads : heads w h cs = firsts key cs.count := by
    rw [heads, if_pos hmany]
    exact firsts_congr hsame
  refine ⟨hlook, hall, fun j hj => by rw [hlink.ctrl j, (hstart j hj).1], fun i hi => ?_,
    fun i hi => ?_, fun i hi => ?_⟩
  · rw [hlink.mref i hi, hheads, hkey i hi]
  · rw [hkey i (heads_lt hi)]
    rfl
  · have hlt := heads_lt hi
    rw [hheads] at hi
    rw [hlink.chain_eq hi, groupOf, if_pos hmany]
    exact (occurrences_congr fun j hj => hsame j hj i hlt).symm

/-- What `prepare_ext_ctrls` answers. -/
theorem WorldInv.prepared (hinv : WorldInv w) (hmasters : MastersInv w) {helpers0 : Nat → Helper}
    {ret : Int} {idx : Nat} (heq : prepareExtCtrls w h cs helpers0 = some (ret, idx, helpers, w')) :
    Looked w w' h ∧
      ((ret = 0 ∧ Prepared w w' h cs helpers) ∨
        (ret = einval ∧ ∃ j, j < cs.count ∧ listedMaster w h cs j = none)) := by
  by_cases hall : ∀ j < cs.count, listedMaster w h cs j ≠ none
  · cases hmany : severalListed w h cs with
    | true =>
      rcases prepare_several hinv hmasters hall (severalListed_iff.mp hmany) helpers0 with
        ⟨hnone, -⟩ | ⟨key, start, helpers', w'', heq', hlook, hstart, hlink⟩
      · rw [hnone] at heq
        simp at heq
      · rw [heq'] at heq
        obtain ⟨rfl, -, rfl, rfl⟩ : 0 = ret ∧ _ ∧ helpers' = helpers ∧ w'' = w' := by
          simpa using heq
        exact ⟨hlook, .inl ⟨rfl, prepared_several hall hmany hlook hstart hlink⟩⟩
    | false =>
      have hone : ¬ ∃ j, j < cs.count ∧ Several w h cs j := by
        rw [← severalListed_iff, hmany]
        simp
      obtain ⟨helpers', w'', heq', hlook, hhelp⟩ :=
        prepare_single hinv hmasters hall hone helpers0
      rw [heq'] at heq
      obtain ⟨rfl, -, rfl, rfl⟩ : 0 = ret ∧ _ ∧ helpers' = helpers ∧ w'' = w' := by simpa using heq
      exact ⟨hlook, .inl ⟨rfl, prepared_single hall hmany hlook hhelp⟩⟩
  · obtain ⟨j, hbad⟩ := not_forall.mp hall
    obtain ⟨hj, hnone⟩ := Classical.not_imp.mp hbad
    have hbad : ∃ j, j < cs.count ∧ listedMaster w h cs j = none := ⟨j, hj, not_not.mp hnone⟩
    rcases prepare_bad hinv hmasters hbad helpers0 with hnone | ⟨idx', helpers', w'', heq', hlook⟩
    · rw [hnone] at heq
      simp at heq
    rw [heq'] at heq
    obtain ⟨rfl, -, -, rfl⟩ : einval = ret ∧ _ ∧ _ ∧ w'' = w' := by simpa using heq
    exact ⟨hlook, .inr ⟨rfl, hbad⟩⟩

end Groups

variable {out : Outcome} {s : Served}

section Requests

variable (w : World) (h : Nat) (cs : ExtControls)

/-- `validate_ctrls` lets the entry through. -/
def Legal (j : Nat) : Prop :=
  let ctrl := w.ctrl (helperOf w h cs j).ctrl
  hasFlag ctrl.flags flagReadOnly = false ∧ hasFlag ctrl.flags flagGrabbed = false ∧
    ∃ entry, validateNew ctrl (cs.controls j) = some (0, entry)

/-- The entry with the value that `validate_new` has made legal. -/
def checkedOf (j : Nat) : ExtControl :=
  ((validateNew (w.ctrl (helperOf w h cs j).ctrl) (cs.controls j)).getD (0, cs.controls j)).2

structure Valid (kmalloc : Bool) : Prop where
  helpers : ¬ (4 < cs.count ∧ kmalloc = false)
  listed : ∀ j, j < cs.count → listedMaster w h cs j ≠ none
  legal : ∀ j, j < cs.count → Legal w h cs j

/-- The work that begins at the entry `i`. -/
def jobOf (answers : Nat → Answers) (i : Nat) : Job :=
  let master := ((headRef w h cs i).map fun r => (w.ref r).ctrl).getD 0
  { master := master
    members := (membersOf w master).getD []
    requests := (groupOf w h cs i).map fun idx =>
      ⟨idx, (helperOf w h cs idx).ctrl, checkedOf w h cs idx⟩
    hasTry := (w.ctrl master).ops.tryCtrl
    hasSet := (w.ctrl master).ops.sCtrl
    answers := answers i }

structure Served where
  ret : Int
  refusal : Option Refusal
  errorIdx : Nat
  calls : List Nat
  values : Nat → Value
  entries : Nat → ExtControl

open Served

def Served.step (info : Nat → Ctrl) (jobs : Nat → Job) (s : Served) (i : Nat) : Served where
  ret := (jobs i).ret info s.values
  refusal := (jobs i).refusal info s.values
  errorIdx := i
  calls := if (jobs i).calls info s.values = true then s.calls ++ [(jobs i).master] else s.calls
  values := (jobs i).valuesAfter info s.values
  entries := (jobs i).entriesAfter info s.values s.entries

def serve (info : Nat → Ctrl) (jobs : Nat → Job) : List Nat → Served → Served :=
  runUntil (Served.step info jobs) (fun s => s.ret ≠ 0)

variable {w h cs} {w' : World} {helpers : Nat → Helper}

theorem validateLoop_spec (hprep : Prepared w w' h cs helpers) (left i : Nat)
    (hcount : i + left = cs.count) {controls controls' : Nat → ExtControl} {ret : Int}
    {refusal : Option Refusal} {idx : Nat} (hpre : ∀ j < i, Legal w h cs j)
    (hctrls : ∀ j, controls j = if j < i then checkedOf w h cs j else cs.controls j)
    (heq : validateLoop w' helpers true left i controls = some (ret, refusal, idx, controls')) :
    (ret = 0 ∧ refusal = none ∧ idx = cs.count - 1 ∧ (∀ j < cs.count, Legal w h cs j) ∧
        ∀ j, controls' j = if j < cs.count then checkedOf w h cs j else cs.controls j) ∨
      (ret ≠ 0 ∧ (refusal = some .accessCheck ∨ refusal = some .validateNew) ∧
        ∃ j, j < cs.count ∧ ¬ Legal w h cs j) := by
  induction left generalizing i controls with
  | zero =>
    obtain rfl : i = cs.count := hcount
    obtain ⟨rfl, rfl, rfl, rfl⟩ : 0 = ret ∧ none = refusal ∧ cs.count - 1 = idx ∧
        controls = controls' := by
      simpa [validateLoop] using heq
    exact .inl ⟨rfl, rfl, rfl, hpre, hctrls⟩
  | succ left ih =>
    have hi : i < cs.count := by omega
    have hctrl : w'.ctrl (helpers i).ctrl = w.ctrl (helperOf w h cs i).ctrl := by
      rw [hprep.looked.ctrl, hprep.ctrl i hi]
    have hentry : controls i = cs.controls i := by rw [hctrls i, if_neg (lt_irrefl i)]
    rw [validateLoop, hctrl, hentry] at heq
    by_cases hreadOnly : hasFlag (w.ctrl (helperOf w h cs i).ctrl).flags flagReadOnly = true
    · rw [if_pos hreadOnly] at heq
      obtain ⟨rfl, rfl, -⟩ : eacces = ret ∧ some .accessCheck = refusal ∧ _ := by simpa using heq
      exact .inr ⟨by decide, .inl rfl, i, hi, fun hlegal => by simp [hlegal.1] at hreadOnly⟩
    rw [if_neg hreadOnly, Bool.true_and] at heq
    split_ifs at heq with hgrab
    · obtain ⟨rfl, rfl, -⟩ : ebusy = ret ∧ some .accessCheck = refusal ∧ _ := by simpa using heq
      exact .inr ⟨by decide, .inl rfl, i, hi, fun hlegal => by simp [hlegal.2.1] at hgrab⟩
    split at heq
    · cases heq
    rename_i err entry hval
    by_cases herr : err ≠ 0
    · rw [if_pos herr] at heq
      obtain ⟨rfl, rfl, -⟩ : err = ret ∧ some .validateNew = refusal ∧ _ := by simpa using heq
      refine .inr ⟨herr, .inr rfl, i, hi, fun ⟨_, _, entry', hentry'⟩ => herr ?_⟩
      rw [hval] at hentry'
      exact (Prod.mk.inj (Option.some.inj hentry')).1
    obtain rfl := not_not.mp herr
    rw [if_neg herr] at heq
    have hlegal : Legal w h cs i :=
      ⟨Bool.eq_false_iff.mpr hreadOnly, Bool.eq_false_iff.mpr hgrab, entry, hval⟩
    have hchecked : checkedOf w h cs i = entry := by rw [checkedOf, hval]; rfl
    refine ih (i + 1) (by omega) (fun j hj => ?_) (fun j => ?_) heq
    · rcases Nat.lt_succ_iff_lt_or_eq.mp hj with hlt | rfl
      · exact hpre j hlt
      · exact hlegal
    rcases eq_or_ne j i with rfl | hne
    · rw [Function.update_self, if_pos (Nat.lt_succ_self j), hchecked]
    · rw [Function.update_of_ne hne, hctrls j]
      exact if_congr (by omega) rfl rfl

structure Matches (w' : World) (out : Outcome) (s : Served) : Prop where
  ret : out.ret = s.ret
  refusal : out.refusal = s.refusal
  errorIdx : out.errorIdx = s.errorIdx
  calls : out.calls = s.calls
  controls : out.controls = s.entries
  world : ∃ news isNew flags, Shows w' out.world s.values news isNew flags

theorem jobOf_indices (answers : Nat → Answers) (i : Nat) :
    (jobOf w h cs answers i).requests.map Request.index = groupOf w h cs i := by
  simp only [jobOf, List.map_map]
  exact List.map_id _

theorem Matches.step (hprep : Prepared w w' h cs helpers) (answers : Nat → Answers) {r : Nat}
    (hi : i ∈ heads w h cs) (hr : headRef w h cs i = some r) (hmatch : Matches w' out s)
    (hlist : ∀ idx ∈ groupOf w h cs i, s.entries idx = checkedOf w h cs idx) {members : List Nat}
    (hmems : membersOf out.world (out.world.ref r).ctrl = some members) {result : ClusterResult}
    {controls : Nat → ExtControl}
    (heq : trySetCluster true (answers i) helpers (chain helpers cs.count i)
      (out.world.ref r).ctrl members (out.world.grab (answers i).grabbed) out.controls =
        (result, controls)) :
    Matches w' ⟨result.ret, result.refusal, i,
      if result.called then out.calls ++ [(out.world.ref r).ctrl] else out.calls, controls,
      result.world⟩ (s.step w.ctrl (jobOf w h cs answers) i) := by
  obtain ⟨news, isNew, flags, hshows⟩ := hmatch.world
  have hmaster : (out.world.ref r).ctrl = (w.ref r).ctrl := by
    rw [hshows.ref, (hprep.looked.ref r).1]
  rw [hmaster] at hmems heq ⊢
  rw [hshows.membersOf, hprep.looked.membersOf] at hmems
  have hjob : jobOf w h cs answers i = ⟨(w.ref r).ctrl, members,
      (chain helpers cs.count i).map fun idx => ⟨idx, (helpers idx).ctrl, out.controls idx⟩,
      (w'.ctrl (w.ref r).ctrl).ops.tryCtrl, (w'.ctrl (w.ref r).ctrl).ops.sCtrl, answers i⟩ := by
    have hreqs : ((groupOf w h cs i).map fun idx =>
        (⟨idx, (helperOf w h cs idx).ctrl, checkedOf w h cs idx⟩ : Request)) =
        (groupOf w h cs i).map fun idx => ⟨idx, (helpers idx).ctrl, out.controls idx⟩ := by
      refine map_congr_left fun idx hidx => ?_
      rw [hprep.ctrl idx (mem_groupOf_lt (heads_lt hi) hidx), hmatch.controls,
        hlist idx hidx]
    simp [jobOf, hr, hmems, hreqs, hprep.chain i hi, hprep.looked.ctrl]
  obtain ⟨hret, href, hcalled, hctrls, hworld⟩ := hshows.trySetCluster (w.ref r).ctrl members
    (hprep.chain i hi ▸ groupOf_nodup i) (answers i) hjob heq
  rw [hprep.looked.ctrl] at hret href hcalled hctrls hworld
  refine ⟨hret, href, rfl, ?_, by rw [hctrls, hmatch.controls]; rfl, hworld⟩
  have hself : (jobOf w h cs answers i).master = (w.ref r).ctrl := by rw [hjob]
  dsimp only [Served.step]
  rw [hcalled, hmatch.calls, hself]

theorem trySetLoop_spec (hprep : Prepared w w' h cs helpers) (answers : Nat → Answers)
    (left i : Nat) (hcount : i + left = cs.count) {out' : Outcome} (hmatch : Matches w' out s)
    (hlist : ∀ i' ∈ heads w h cs, i ≤ i' → ∀ idx ∈ groupOf w h cs i',
      s.entries idx = checkedOf w h cs idx)
    (heq : trySetLoop true answers helpers cs.count left i out = some out') :
    Matches w' out' (serve w.ctrl (jobOf w h cs answers)
      ((List.range' i left).filter fun i => i ∈ heads w h cs) s) := by
  induction left generalizing i out s with
  | zero =>
    obtain rfl : out = out' := by simpa [trySetLoop] using heq
    exact hmatch
  | succ left ih =>
    have hi : i < cs.count := by omega
    rw [range'_succ]
    rw [trySetLoop, hprep.mref i hi] at heq
    by_cases hhead : i ∈ heads w h cs
    · obtain ⟨r, hr⟩ := isSome_iff_exists.mp (hprep.head i hhead)
      rw [if_pos hhead, hr] at heq
      rw [filter_cons_of_pos (by simpa using hhead), serve, runUntil]
      dsimp only at heq
      split at heq
      · cases heq
      rename_i members hmems
      generalize hclus : trySetCluster true (answers i) helpers (chain helpers cs.count i)
        (out.world.ref r).ctrl members (out.world.grab (answers i).grabbed) out.controls =
          pair at heq
      obtain ⟨result, controls⟩ := pair
      have hnext := hmatch.step hprep answers hhead hr
        (hlist i hhead le_rfl) hmems hclus
      split at heq
      · rename_i hret
        rw [if_pos (hnext.ret ▸ hret)]
        cases heq
        exact hnext
      rename_i hret
      rw [if_neg (hnext.ret ▸ hret)]
      refine ih (i + 1) (by omega) hnext (fun i' hi' hle idx hidx => ?_) heq
      rw [← hlist i' hi' (le_of_succ_le hle) idx hidx]
      refine entriesAfter_other ?_
      rw [jobOf_indices]
      intro hin
      have hsame := groupOf_disjoint hhead hi' hin hidx
      omega
    · rw [if_neg hhead] at heq
      rw [filter_cons_of_neg (by simpa using hhead)]
      exact ih (i + 1) (by omega) hmatch
        (fun i' hi' hle => hlist i' hi' (le_of_succ_le hle)) heq

theorem heads_filter :
    ((List.range' 0 cs.count).filter fun i => i ∈ heads w h cs) = heads w h cs := by
  have hself : ∀ p : Nat → Bool, ((List.range cs.count).filter fun i =>
      i ∈ (List.range cs.count).filter p) = (List.range cs.count).filter p := by
    intro p
    refine filter_congr fun i hi => ?_
    simp [mem_range.mp hi]
  rw [← range_eq_range']
  unfold heads
  split_ifs
  all_goals exact hself _

/-- The list as `try_set_ext_ctrls` looks at it: of the class only the class bits. -/
def ExtControls.masked (cs : ExtControls) : ExtControls :=
  { cs with ctrlClass := id2Class cs.ctrlClass }

def Served.start (w : World) (h : Nat) (cs : ExtControls) : Served where
  ret := 0
  refusal := none
  errorIdx := cs.count - 1
  calls := []
  values := fun c => (w.ctrl c).cur
  entries := fun j => if j < cs.count then checkedOf w h cs j else cs.controls j

structure EndsEarly (w : World) (h : Nat) (cs : ExtControls) (kmalloc : Bool) (out : Outcome) :
    Prop where
  invalid : cs.count = 0 ∨ ¬ Valid w h cs kmalloc
  calls : out.calls = []
  values : ∀ c, (out.world.ctrl c).cur = (w.ctrl c).cur
  errorIdx : out.errorIdx = cs.count
  ok : out.ret = 0 → cs.count = 0
  refusal : out.refusal ≠ some .userToNew ∧ out.refusal ≠ some .tryCtrl

theorem classCheck_ctrl (w : World) (h : Nat) (ctrlClass : UInt32) :
    (classCheck w h ctrlClass).2.ctrl = w.ctrl := by
  unfold classCheck
  by_cases hzero : ctrlClass = 0
  · rw [if_pos hzero]
  rw [if_neg hzero]
  have hctrl := findRef_ctrl w h (ctrlClass ||| 1)
  generalize findRef w h (ctrlClass ||| 1) = found at hctrl
  obtain ⟨ref, w'⟩ := found
  cases ref with
  | none => exact hctrl
  | some r => exact hctrl

theorem WorldInv.sExtCtrls_cases (hinv : WorldInv w) (hmasters : MastersInv w) {kmalloc : Bool}
    {answers : Nat → Answers} {helpers0 : Nat → Helper}
    (heq : v4l2SExtCtrls w (some h) cs answers kmalloc helpers0 = some out) :
    EndsEarly w h cs.masked kmalloc out ∨
      (0 < cs.count ∧ Valid w h cs.masked kmalloc ∧ ∃ w', Looked w w' h ∧
        Matches w' out (serve w.ctrl (jobOf w h cs.masked answers) (heads w h cs.masked)
          (Served.start w h cs.masked))) := by
  unfold v4l2SExtCtrls trySetExtCtrls at heq
  dsimp only at heq
  split at heq
  · rename_i hzero
    have hctrl := classCheck_ctrl w h (id2Class cs.ctrlClass)
    generalize classCheck w h (id2Class cs.ctrlClass) = checked at heq hctrl
    cases heq
    refine .inl ⟨.inl hzero, rfl, fun c => by rw [hctrl], hzero.symm, fun _ => hzero, ?_⟩
    split_ifs <;> simp
  rename_i hzero
  split at heq
  · rename_i hmalloc
    cases heq
    exact .inl ⟨.inr fun hvalid => hvalid.helpers hmalloc, rfl, fun _ => rfl, rfl,
      fun hret => absurd hret enomem_ne, by simp⟩
  rename_i hmalloc
  rcases hprep : prepareExtCtrls w h cs.masked helpers0 with _ | answer
  · rw [ExtControls.masked] at hprep
    simp [hprep] at heq
  obtain ⟨ret, idx, helpers, w'⟩ := answer
  obtain ⟨hlook, hprepared⟩ := hinv.prepared hmasters hprep
  rw [ExtControls.masked] at hprep
  rw [hprep] at heq
  dsimp only at heq
  rcases hprepared with ⟨rfl, hprepared⟩ | ⟨rfl, j, hj, hnone⟩
  · rcases hval : validateLoop w' helpers true cs.count 0 cs.controls with _ | answer
    · simp [hval] at heq
    obtain ⟨ret, refusal, idx', controls⟩ := answer
    rw [hval] at heq
    dsimp only at heq
    rcases validateLoop_spec hprepared cs.count 0 (zero_add _)
      (fun j hj => absurd hj (not_lt_zero j))
      (fun j => by rfl) hval with
      ⟨rfl, rfl, rfl, hlegal, hctrls⟩ | ⟨hret, href, j, hj, hillegal⟩
    · refine .inr ⟨pos_of_ne_zero hzero, ⟨hmalloc, hprepared.listed, hlegal⟩, w', hlook, ?_⟩
      have hstart : Matches w' ⟨0, none, cs.masked.count - 1, [], controls, w'⟩
          (start w h cs.masked) := by
        have hvalues : (start w h cs.masked).values = fun c => (w'.ctrl c).cur := by
          rw [hlook.ctrl]
          rfl
        exact ⟨rfl, rfl, rfl, rfl, funext hctrls, _, _, _, hvalues ▸ Shows.refl w'⟩
      have hloop := trySetLoop_spec hprepared answers cs.count 0 (zero_add _) hstart ?_ heq
      · rwa [show cs.count = cs.masked.count from rfl, heads_filter] at hloop
      · intro i hi _ idx hidx
        exact if_pos (mem_groupOf_lt (heads_lt hi) hidx)
    · rw [if_pos hret] at heq
      cases heq
      refine .inl ⟨.inr fun hvalid => hillegal (hvalid.legal j hj), rfl,
        fun c => by rw [hlook.ctrl], rfl, fun hret' => absurd hret' hret, ?_⟩
      rcases href with rfl | rfl <;> simp
  · cases heq
    exact .inl ⟨.inr fun hvalid => hvalid.listed j hj hnone, rfl,
      fun c => by rw [hlook.ctrl], rfl, fun hret => absurd hret einval_ne, by simp⟩

end Requests

variable (info : Nat → Ctrl) (jobs : Nat → Job)

/-- A value for the cluster is invalid, which `validate_new` does not find. -/
def Job.rejects (job : Job) : Prop :=
  job.copyError info = erange ∨ (job.copyError info = 0 ∧ job.busy = false ∧
    job.hasTry = true ∧ job.answers.tryCtrl.ret ≠ 0)

def AllThrough : List Nat → (Nat → Value) → Prop
  | [], _ => True
  | i :: rest, values =>
    (jobs i).ret info values = 0 ∧ AllThrough rest ((jobs i).valuesAfter info values)

/-- The request asks nothing of the cluster: the values asked for, as `try_ctrl` leaves
them, are `values`, and no button of it comes to an `s_ctrl`. -/
def Job.Idle (job : Job) (values : Nat → Value) : Prop :=
  ∀ c ∈ job.members, if (info c).type = .button then job.hasSet = false
    else job.tried info values c = values c

/-- An invalid value that only the work on its cluster finds has no cluster before it that
is asked for other than the values there are. -/
def FoundInTime (heads : List Nat) (values : Nat → Value) : Prop :=
  ∀ before i rest, heads = before ++ i :: rest → AllThrough info jobs before values →
    (jobs i).rejects info → ∀ j ∈ before, (jobs j).Idle info values

variable {info jobs}

theorem Job.rejects_iff (job : Job) (values : Nat → Value) :
    job.rejects info ↔ job.fate info values = .refused .userToNew erange ∨
      ∃ err, job.fate info values = .refused .tryCtrl err := by
  unfold rejects fate
  by_cases hcopy : job.copyError info = 0
  · have hne : (0 : Int) ≠ erange := .symm erange_ne
    rw [if_neg (not_not.mpr hcopy), hcopy]
    by_cases hbusy : job.busy = true
    · simp [hbusy, hne]
    rw [if_neg hbusy]
    split
    · rename_i htry
      exact ⟨fun _ => .inr ⟨_, rfl⟩, fun _ => .inr ⟨rfl, Bool.eq_false_iff.mpr hbusy, htry⟩⟩
    rename_i htry
    constructor
    · rintro (hbad | ⟨-, -, hbad⟩)
      · exact absurd hbad hne
      · exact absurd hbad htry
    · split_ifs <;> simp
  · simp [hcopy]

theorem Job.calls_of_through {job : Job} {values : Nat → Value} (hret : job.ret info values = 0) :
    job.calls info values = true ↔ job.changed info values = true ∧ job.hasSet = true := by
  rcases (told_of_through hret).1.fate with ⟨hfate, hchange⟩ | ⟨hfate, hchange⟩
  all_goals simp [calls, hfate, hchange]

theorem through_iff (done : List Nat) (s : Served) :
    Through (Served.step info jobs) (fun s => s.ret ≠ 0) done s ↔
      AllThrough info jobs done s.values := by
  induction done generalizing s with
  | nil => exact .rfl
  | cons i rest ih => exact and_congr not_not (ih _)

variable {done : List Nat} {w' w : World}

theorem Job.Idle.kept {job : Job} {values : Nat → Value} (hidle : job.Idle info values)
    (hret : job.ret info values = 0) :
    job.calls info values = false ∧ job.valuesAfter info values = values := by
  have hcalls : job.calls info values = false := by
    by_contra hcalled
    obtain ⟨hchange, hset⟩ := (calls_of_through hret).mp (eq_true_of_ne_false hcalled)
    obtain ⟨c, hc, hdiffers⟩ := List.any_eq_true.mp hchange
    have hasked := hidle c hc
    split_ifs at hasked with hbutton
    · exact absurd (hset.symm.trans hasked) (by simp)
    · simp [hbutton, hasked] at hdiffers
  refine ⟨hcalls, funext fun c => ?_⟩
  unfold valuesAfter
  split_ifs with hset
  · obtain ⟨hfate, hc, hbutton⟩ := hset
    rw [calls, hfate] at hcalls
    have hasked := hidle c hc
    rw [if_neg hbutton] at hasked
    rw [settled, if_neg (by simp [hcalls]), hasked]
  · rfl

theorem Job.idle_of_not_called {job : Job} {values : Nat → Value}
    (hret : job.ret info values = 0) (hset : job.hasSet = true)
    (hcalls : job.calls info values = false) : job.Idle info values := by
  have hsame : ¬ job.changed info values = true := fun hchange =>
    Bool.eq_false_iff.mp hcalls ((calls_of_through hret).mpr ⟨hchange, hset⟩)
  intro c hc
  have hequal := List.any_eq_false.mp (Bool.eq_false_iff.mpr hsame) c hc
  split_ifs with hbutton
  · simp [hbutton] at hequal
  · simpa [hbutton] using hequal

theorem AllThrough.kept (hthru : AllThrough info jobs done s.values)
    (hidle : ∀ j ∈ done, (jobs j).Idle info s.values) :
    (done.foldl (Served.step info jobs) s).calls = s.calls ∧
      (done.foldl (Served.step info jobs) s).values = s.values := by
  induction done generalizing s with
  | nil => exact ⟨rfl, rfl⟩
  | cons i rest ih =>
    obtain ⟨hcalls, hvalues⟩ := (hidle i mem_cons_self).kept hthru.1
    have hstep : (s.step info jobs i).values = s.values := hvalues
    have hrest := ih (s := s.step info jobs i) hthru.2
      (hstep ▸ fun j hj => hidle j (mem_cons_of_mem i hj))
    rw [hstep] at hrest
    exact ⟨hrest.1.trans (by simp [Served.step, hcalls]), hrest.2⟩

/-- With an `s_ctrl` in every cluster, none is called only if nothing is asked of any. -/
theorem AllThrough.idle (hthru : AllThrough info jobs done s.values)
    (hset : ∀ j ∈ done, (jobs j).hasSet = true)
    (hcalls : (done.foldl (Served.step info jobs) s).calls = []) :
    s.calls = [] ∧ ∀ j ∈ done, (jobs j).Idle info s.values := by
  induction done generalizing s with
  | nil => exact ⟨hcalls, fun _ hj => absurd hj not_mem_nil⟩
  | cons i rest ih =>
    obtain ⟨hnow, hrest⟩ := ih (s := s.step info jobs i) hthru.2
      (fun j hj => hset j (mem_cons_of_mem i hj)) hcalls
    have hnone : (jobs i).calls info s.values = false := by
      by_contra hcalled
      simp [Served.step, eq_true_of_ne_false hcalled] at hnow
    have hidle := Job.idle_of_not_called hthru.1 (hset i mem_cons_self) hnone
    have hstep : (s.step info jobs i).values = s.values := (hidle.kept hthru.1).2
    rw [hstep] at hrest
    exact ⟨by simpa [Served.step, hnone] using hnow, forall_mem_cons.mpr ⟨hidle, hrest⟩⟩

theorem AllThrough.foldl_refusal (hthru : AllThrough info jobs done s.values)
    (hnone : s.refusal = none) : (done.foldl (Served.step info jobs) s).refusal = none := by
  induction done generalizing s with
  | nil => exact hnone
  | cons i rest ih =>
    obtain ⟨htold, hback⟩ := told_of_through hthru.1
    exact ih hthru.2 (htold.refusal.trans (if_neg (not_not.mpr hback)))

def RefusedInvalid (out : Outcome) : Prop :=
  out.refusal = some .validateNew ∨ (out.refusal = some .userToNew ∧ out.ret = erange) ∨
    out.refusal = some .tryCtrl

/-- No `s_ctrl` was called, and the current values are the ones before. -/
def Unaffected (w : World) (out : Outcome) : Prop :=
  out.calls = [] ∧ ∀ c, (out.world.ctrl c).cur = (w.ctrl c).cur

theorem Matches.cur (hmatch : Matches w' out s) (c : Nat) :
    (out.world.ctrl c).cur = s.values c := by
  obtain ⟨_, _, _, hshows⟩ := hmatch.world
  rw [hshows.ctrl c]

theorem Matches.unaffected_iff (hmatch : Matches w' out s) :
    Unaffected w out ↔ s.calls = [] ∧ s.values = fun c => (w.ctrl c).cur := by
  unfold Unaffected
  rw [hmatch.calls, funext_iff]
  exact and_congr_right fun _ => forall_congr' fun c => by rw [hmatch.cur c]

theorem Served.step_refused {cause : Refusal} {err : Int}
    (hfate : (jobs i).fate info s.values = .refused cause err) :
    (s.step info jobs i).ret = err ∧ (s.step info jobs i).refusal = some cause ∧
      (s.step info jobs i).values = s.values ∧
      (cause ≠ .sCtrl → (s.step info jobs i).calls = s.calls) := by
  refine ⟨by simp [step, Job.ret, hfate], by simp [step, Job.refusal, hfate],
    Job.valuesAfter_of_not_set (by simp [hfate]), fun hcause => ?_⟩
  have hcalls : (jobs i).calls info s.values = false := by
    unfold Job.calls
    rw [hfate]
    cases cause with
    | sCtrl => exact absurd rfl hcause
    | _ => rfl
  simp [step, hcalls]

/-- A rejected job ends the request, and leaves everything as it is. -/
theorem Job.rejects.step (hrejects : (jobs i).rejects info) (s : Served) :
    (s.step info jobs i).ret ≠ 0 ∧ (s.step info jobs i).calls = s.calls ∧
      (s.step info jobs i).values = s.values ∧
      (((s.step info jobs i).refusal = some .userToNew ∧ (s.step info jobs i).ret = erange) ∨
        (s.step info jobs i).refusal = some .tryCtrl) := by
  rcases ((jobs i).rejects_iff s.values).mp hrejects with hfate | ⟨err, hfate⟩
  · obtain ⟨hret, href, hvalues, hcalls⟩ := Served.step_refused hfate
    exact ⟨hret ▸ erange_ne, hcalls (by simp), hvalues, .inl ⟨href, hret⟩⟩
  · obtain ⟨hret, href, hvalues, hcalls⟩ := Served.step_refused hfate
    exact ⟨hret ▸ fate_refused hfate, hcalls (by simp), hvalues, .inr href⟩

theorem Job.refusal_ne_validateNew (job : Job) (values : Nat → Value) :
    job.refusal info values ≠ some .validateNew := by
  rcases job.refused_or_told values with ⟨cause, err, hfate, -⟩ | htold
  · rw [refusal, hfate]
    unfold fate at hfate
    split_ifs at hfate <;> simp [← (Fate.refused.inj hfate).1]
  · rw [htold.refusal]
    split_ifs <;> simp

theorem Served.step_rejects (href : ((s.step info jobs i).refusal = some .userToNew ∧
      (s.step info jobs i).ret = erange) ∨ (s.step info jobs i).refusal = some .tryCtrl) :
    (jobs i).rejects info := by
  rw [(jobs i).rejects_iff s.values]
  rcases (jobs i).refused_or_told s.values with ⟨cause, err, hfate, -⟩ | htold
  · obtain ⟨hret, hcause, -⟩ := step_refused hfate
    rw [hret, hcause] at href
    rcases href with ⟨hcause, rfl⟩ | hcause
    · cases hcause
      exact .inl hfate
    · cases hcause
      exact .inr ⟨err, hfate⟩
  · simp only [step, htold.refusal] at href
    split_ifs at href <;> simp at href

theorem Matches.invalid_iff {heads : List Nat} (hmatch : Matches w' out (serve info jobs heads s))
    (hcalls : s.calls = []) (hnone : s.refusal = none)
    (hvalues : s.values = fun c => (w.ctrl c).cur) :
    (FoundInTime info jobs heads s.values → RefusedInvalid out → Unaffected w out) ∧
      ((∀ i ∈ heads, (jobs i).hasSet = true) → (RefusedInvalid out → Unaffected w out) →
        FoundInTime info jobs heads s.values) := by
  rw [hmatch.unaffected_iff, ← hvalues]
  unfold RefusedInvalid
  rw [hmatch.refusal, hmatch.ret]
  constructor
  · intro hfound hbad
    rcases runUntil_cases (.step info jobs) (fun s => s.ret ≠ 0) heads s with
      ⟨hthru, hend⟩ | ⟨before, i, rest, hheads, hthru, hret, hend⟩
    · have hclean := ((through_iff heads s).mp hthru).foldl_refusal hnone
      rw [serve, hend, hclean] at hbad
      simp at hbad
    · have hthru := (through_iff before s).mp hthru
      rw [serve, hend] at hbad ⊢
      have hrejects : (jobs i).rejects info := by
        exact Served.step_rejects (hbad.resolve_left ((jobs i).refusal_ne_validateNew _))
      obtain ⟨hkeptCalls, hkept⟩ := hthru.kept (hfound before i rest hheads hthru hrejects)
      obtain ⟨-, hcalls', hvalues', -⟩ := hrejects.step (before.foldl (.step info jobs) s)
      rw [hcalls', hvalues']
      exact ⟨hkeptCalls.trans hcalls, hkept⟩
  · intro hset himp before i rest hheads hthru hrejects
    let s' := before.foldl (.step info jobs) s
    obtain ⟨hret, hcalls', hvalues', href⟩ := hrejects.step s'
    have hserve : serve info jobs heads s = s'.step info jobs i := by
      rw [hheads]
      exact ((through_iff before s).mpr hthru).runUntil_stop hret rest
    rw [hserve, hcalls', hvalues'] at himp
    exact (hthru.idle (fun j hj => hset j (by simp [hheads, hj])) (himp (.inr href)).1).2

/-- A set request that fails for an invalid value leaves everything as it is if every invalid
value is found in time, and where every cluster has an `s_ctrl` only then. -/
theorem s_ext_ctrls_invalid_iff (tables : Tables) (w : World) (hreached : Reached tables w)
    (h : Nat)
    (cs : ExtControls) (answers : Nat → Answers) (kmalloc : Bool) (helpers₀ : Nat → Helper)
    (out : Outcome) (heq : v4l2SExtCtrls w (some h) cs answers kmalloc helpers₀ = some out) :
    let jobs := jobOf w h cs.masked answers
    let found := Valid w h cs.masked kmalloc →
      FoundInTime w.ctrl jobs (heads w h cs.masked) fun c => (w.ctrl c).cur
    (found → RefusedInvalid out → Unaffected w out) ∧
      ((∀ i ∈ heads w h cs.masked, (jobs i).hasSet = true) →
        (RefusedInvalid out → Unaffected w out) → found) := by
  obtain ⟨hinv, hmasters⟩ := hreached.inv
  rcases hinv.sExtCtrls_cases hmasters heq with hearly | ⟨-, hvalid, w', -, hmatches⟩
  · refine ⟨fun _ _ => ⟨hearly.calls, hearly.values⟩, fun _ _ hvalid => ?_⟩
    have hzero := hearly.invalid.resolve_right (not_not.mpr hvalid)
    intro before i rest hheads
    have hin : i ∈ heads w h cs.masked := by simp [hheads]
    have hlt := heads_lt hin
    omega
  · obtain ⟨henough, hneeded⟩ := hmatches.invalid_iff rfl rfl rfl
    exact ⟨fun hfound => henough (hfound hvalid), fun hset himp _ => hneeded hset himp⟩

def brightnessAndText : List Call :=
  [newInteger 0x00980900, .newCustom 0 ⟨⟨false, false, true⟩, 0x00980920, some "Text", .string,
    ⟨0, 8, 1, 0⟩, 0, 0, none, false, false⟩ allGranted]

def consenting : Answers where
  tryCtrl := ⟨0, fun _ n => n, fun _ s => s⟩
  sCtrl := ⟨0, fun _ n => n, fun _ s => s⟩
  gVolatileCtrl := ⟨0, fun _ n => n, fun _ s => s⟩
  grabbed := fun _ => false

def brightnessAndNoText (brightness : Int) : ExtControls where
  ctrlClass := 0
  count := 2
  controls := fun i => if i = 0 then ⟨0x00980900, 0, brightness, 0, [], true⟩
    else ⟨0x00980920, 0, 0, 0, [0x41, 0], true⟩

/-- With the brightness as it is, the text is found in time. -/
theorem s_ext_ctrls_invalid_iff_text :
    ∃ w out, Reached plainTables w ∧
      v4l2SExtCtrls w (some 0) (brightnessAndNoText 127) (fun _ => consenting) true noHelpers =
        some out ∧ RefusedInvalid out ∧ Unaffected w out := by
  obtain ⟨w, hw, hidle, out, hout, hret, hrefusal⟩ :
      ∃ w ∈ built brightnessAndText,
        (∀ j ∈ heads w 0 (brightnessAndNoText 127).masked,
          (jobOf w 0 (brightnessAndNoText 127).masked (fun _ => consenting) j).Idle w.ctrl
            fun c => (w.ctrl c).cur) ∧
        ∃ out ∈ v4l2SExtCtrls w (some 0) (brightnessAndNoText 127) (fun _ => consenting) true
          noHelpers, out.ret = erange ∧ out.refusal = some .userToNew := by
    unfold Job.Idle
    decide +kernel
  have hreached := (Reached.init (fun _ => 16) fun _ => true).run brightnessAndText hw
  have hrefused : RefusedInvalid out := .inr (.inl ⟨hrefusal, hret⟩)
  refine ⟨w, out, hreached, hout, hrefused, (s_ext_ctrls_invalid_iff plainTables w hreached 0 _ _
    true noHelpers out hout).1 ?_ hrefused⟩
  intro _ before i rest hheads _ _ j hj
  exact hidle j (hheads ▸ mem_append_left _ hj)

/-- The text is found to be invalid when the brightness has been set. -/
theorem brightness_set_before_invalid_text :
    ∃ w out, built brightnessAndText = some w ∧
      v4l2SExtCtrls w (some 0) (brightnessAndNoText 200) (fun _ => consenting) true noHelpers =
        some out ∧
      out.ret = erange ∧ RefusedInvalid out ∧ out.calls = [0] ∧
      (w.ctrl 0).cur = .num 127 ∧ (out.world.ctrl 0).cur = .num 200 := by
  obtain ⟨w, hw, out, hout, hret, hrefusal, hcalls, hbefore, hafter⟩ :
      ∃ w ∈ built brightnessAndText, ∃ out ∈ v4l2SExtCtrls w (some 0) (brightnessAndNoText 200)
          (fun _ => consenting) true noHelpers,
          out.ret = erange ∧ out.refusal = some .userToNew ∧ out.calls = [0] ∧
            (w.ctrl 0).cur = .num 127 ∧ (out.world.ctrl 0).cur = .num 200 := by
    decide +kernel
  exact ⟨w, out, hw, hout, hret, .inr (.inl ⟨hrefusal, hret⟩), hcalls, hbefore, hafter⟩

end TbsMedia.Ctrls
