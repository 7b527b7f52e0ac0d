import TbsMedia.Ctrls.ExtRequests

/-!
What `error_idx` tells about a set request. If clusters lie wholly inside the
handler and no control is listed twice, the jobs of a request touch different
controls, so that each does what it would do alone.
-/

namespace TbsMedia.Ctrls

open Lib Function List Job Served Request
open Option (mem_unique ne_none_iff_exists')

variable {c : Nat} {request : Request} {requests : List Request}

section Alone

variable {info : Nat → Ctrl} {job : Job} {values values' : Nat → Value}

def Job.touches (job : Job) (c : Nat) : Prop := c ∈ job.members ∨ job.requested c

theorem taken_congr (requests : List Request) {news news' : Nat → Value}
    (hsame : news c = news' c) : taken info requests news c = taken info requests news' c := by
  by_cases hc : c ∈ requests.map ctrl
  · exact taken_requested _ _ _ _ hc
  · rw [taken_other _ _ _ hc, taken_other _ _ _ hc, hsame]

theorem Job.tried_congr (hsame : values c = values' c) :
    job.tried info values c = job.tried info values' c := by
  have hasked : job.asked info values c = job.asked info values' c := taken_congr _ hsame
  rw [tried, tried, hasked]

variable (hsame : ∀ c, job.touches c → values c = values' c)

include hsame

theorem Job.fate_congr : job.fate info values = job.fate info values' := by
  have hchange : job.changed info values = job.changed info values' := by
    rw [changed, changed, Bool.eq_iff_iff, List.any_eq_true, List.any_eq_true]
    refine exists_congr fun c => and_congr_right fun hc => ?_
    rw [tried_congr (hsame c (.inl hc)), hsame c (.inl hc)]
  rw [fate, fate, hchange]

theorem Job.settled_congr (hc : job.touches c) :
    job.settled info values c = job.settled info values' c := by
  rw [settled, settled, fate_congr hsame, tried_congr (hsame c hc)]

theorem Job.valuesAfter_congr (hc : job.touches c) :
    job.valuesAfter info values c = job.valuesAfter info values' c := by
  rw [valuesAfter, valuesAfter, fate_congr hsame, settled_congr hsame hc, hsame c hc]

theorem Job.calls_congr : job.calls info values = job.calls info values' := by
  rw [calls, calls, fate_congr hsame]

theorem Job.toldBack_congr (hreq : request ∈ job.requests) :
    job.toldBack info values request = job.toldBack info values' request := by
  have hc : job.touches request.ctrl := .inr (List.mem_map.mpr ⟨request, hreq, rfl⟩)
  rw [toldBack, toldBack, settled_congr hsame hc]

theorem Job.backError_congr : job.backError info values = job.backError info values' := by
  rw [backError]
  congr 1
  exact map_congr_left fun request hreq => by rw [toldBack_congr hsame hreq]

theorem Job.ret_congr : job.ret info values = job.ret info values' := by
  rw [ret, ret, fate_congr hsame, backError_congr hsame]

omit hsame in
theorem tell_congr {back back' : Request → Int × ExtControl}
    (hback : ∀ request ∈ requests, back request = back' request)
    {entries entries' : Nat → ExtControl} {idx : Nat} (hidx : entries idx = entries' idx) :
    tell back requests entries idx = tell back' requests entries' idx := by
  induction requests generalizing entries entries' with
  | nil => exact hidx
  | cons request rest ih =>
    obtain ⟨hfirst, hrest⟩ := forall_mem_cons.mp hback
    have hnext : update entries request.index (back request).2 idx =
        update entries' request.index (back' request).2 idx := by
      rcases eq_or_ne idx request.index with rfl | hne
      · rw [update_self, update_self, hfirst]
      · rw [update_of_ne hne, update_of_ne hne, hidx]
    rw [tell, tell, hfirst]
    rw [hfirst] at hnext
    split_ifs
    · exact hnext
    · exact ih hrest hnext

theorem Job.entriesAfter_congr {entries entries' : Nat → ExtControl} {idx : Nat}
    (hidx : entries idx = entries' idx) :
    job.entriesAfter info values entries idx = job.entriesAfter info values' entries' idx := by
  rw [entriesAfter, entriesAfter, fate_congr hsame]
  have hback : ∀ request ∈ job.requests,
      job.toldBack info values request = job.toldBack info values' request :=
    fun _ hreq => toldBack_congr hsame hreq
  have htell := tell_congr hback hidx
  cases job.fate info values' with
  | refused => exact hidx
  | unchanged => exact htell
  | set => exact htell

end Alone

variable {done : List Nat} {s : Served} {i : Nat}

section Separate

variable {info : Nat → Ctrl} {jobs : Nat → Job}

structure Separate (jobs : Nat → Job) (heads : List Nat) : Prop where
  nodup : heads.Nodup
  master : ∀ i ∈ heads, ∀ i' ∈ heads, (jobs i).master = (jobs i').master → i = i'
  ctrl : ∀ i ∈ heads, ∀ i' ∈ heads, ∀ c, (jobs i).touches c → (jobs i').touches c → i = i'
  index : ∀ i ∈ heads, ∀ i' ∈ heads, ∀ idx, idx ∈ (jobs i).requests.map Request.index →
    idx ∈ (jobs i').requests.map Request.index → i = i'

/-- The jobs done so far have done what each would do alone, and nothing else is changed. -/
structure ServedInv (info : Nat → Ctrl) (jobs : Nat → Job) (start : Served) (done : List Nat)
    (s : Served) : Prop where
  values : ∀ i ∈ done, ∀ c, (jobs i).touches c →
    s.values c = (jobs i).valuesAfter info start.values c
  otherValues : ∀ c, (∀ i ∈ done, ¬ (jobs i).touches c) → s.values c = start.values c
  entries : ∀ i ∈ done, ∀ idx ∈ (jobs i).requests.map Request.index,
    s.entries idx = (jobs i).entriesAfter info start.values start.entries idx
  otherEntries : ∀ idx, (∀ i ∈ done, idx ∉ (jobs i).requests.map Request.index) →
    s.entries idx = start.entries idx
  calls : ∀ m, m ∈ s.calls ↔ m ∈ start.calls ∨
    ∃ i ∈ done, (jobs i).master = m ∧ (jobs i).calls info start.values = true

variable {heads : List Nat} {start : Served}

theorem ServedInv.refl : ServedInv info jobs start [] start :=
  ⟨by simp, fun _ _ => rfl, by simp, fun _ _ => rfl, by simp⟩

theorem ServedInv.alone (hinv : ServedInv info jobs start done s)
    (hsep : Separate jobs (done ++ [i])) (c : Nat) (hc : (jobs i).touches c) :
    s.values c = start.values c := by
  refine hinv.otherValues c fun i' hi' hc' => ?_
  have hsame := hsep.ctrl i' (by simp [hi']) i (by simp) c hc' hc
  have hnot := nodup_append.mp hsep.nodup
  exact hnot.2.2 i' hi' i (by simp) hsame

theorem Job.valuesAfter_other {job : Job} {values : Nat → Value} (hc : ¬ job.touches c) :
    job.valuesAfter info values c = values c :=
  if_neg fun hand => hc (.inl hand.2.1)

theorem ServedInv.step (hinv : ServedInv info jobs start done s)
    (hsep : Separate jobs (done ++ [i])) :
    ServedInv info jobs start (done ++ [i]) (s.step info jobs i) ∧
      (s.step info jobs i).ret = (jobs i).ret info start.values := by
  have halone := hinv.alone hsep
  have hnew : ∀ i' ∈ done, i' ≠ i := fun i' hi' =>
    (nodup_append.mp hsep.nodup).2.2 i' hi' i (by simp)
  refine ⟨⟨?_, ?_, ?_, ?_, ?_⟩, ret_congr halone⟩
  · intro i' hi' c hc
    rcases mem_append.mp hi' with hdone | hlast
    · have hnot : ¬ (jobs i).touches c := fun hc' => hnew i' hdone
        (hsep.ctrl i' hi' i (by simp) c hc hc')
      change (jobs i).valuesAfter info s.values c = _
      rw [valuesAfter_other hnot]
      exact hinv.values i' hdone c hc
    · obtain rfl := mem_singleton.mp hlast
      exact valuesAfter_congr halone hc
  · intro c hc
    change (jobs i).valuesAfter info s.values c = _
    rw [valuesAfter_other (hc i (by simp))]
    exact hinv.otherValues c fun i' hi' => hc i' (by simp [hi'])
  · intro i' hi' idx hidx
    rcases mem_append.mp hi' with hdone | hlast
    · have hnot : idx ∉ (jobs i).requests.map index := fun hidx' => hnew i' hdone
        (hsep.index i' hi' i (by simp) idx hidx hidx')
      change (jobs i).entriesAfter info s.values s.entries idx = _
      rw [entriesAfter_other hnot]
      exact hinv.entries i' hdone idx hidx
    · obtain rfl := mem_singleton.mp hlast
      refine entriesAfter_congr halone (hinv.otherEntries idx fun i'' hi'' hidx' => ?_)
      exact hnew i'' hi'' (hsep.index i'' (by simp [hi'']) i' (by simp) idx hidx' hidx)
  · intro idx hidx
    change (jobs i).entriesAfter info s.values s.entries idx = _
    rw [entriesAfter_other (hidx i (by simp))]
    exact hinv.otherEntries idx fun i' hi' => hidx i' (by simp [hi'])
  · intro m
    have hcalls : (jobs i).calls info s.values = (jobs i).calls info start.values :=
      calls_congr halone
    have hsplit : (∃ i' ∈ done ++ [i], (jobs i').master = m ∧
        (jobs i').calls info start.values = true) ↔
        (∃ i' ∈ done, (jobs i').master = m ∧ (jobs i').calls info start.values = true) ∨
          ((jobs i).master = m ∧ (jobs i).calls info start.values = true) := by
      simp only [mem_append, mem_singleton, or_and_right, exists_or, exists_eq_left]
    change m ∈ (if (jobs i).calls info s.values = true then s.calls ++ [(jobs i).master]
      else s.calls) ↔ _
    rw [hsplit, ← or_assoc, ← hinv.calls m, hcalls]
    split_ifs with hcall
    · rw [mem_append, mem_singleton, eq_comm, and_iff_left hcall]
    · exact (or_iff_left fun hand => hcall hand.2).symm

theorem Separate.sublist {heads' : List Nat} (hsep : Separate jobs heads)
    (hsub : heads'.Sublist heads) : Separate jobs heads' :=
  ⟨hsep.nodup.sublist hsub,
    fun i hi i' hi' => hsep.master i (hsub.subset hi) i' (hsub.subset hi'),
    fun i hi i' hi' => hsep.ctrl i (hsub.subset hi) i' (hsub.subset hi'),
    fun i hi i' hi' => hsep.index i (hsub.subset hi) i' (hsub.subset hi')⟩

variable (info start) in
theorem Separate.served (done : List Nat) (hsep : Separate jobs done) :
    ServedInv info jobs start done (done.foldl (Served.step info jobs) start) ∧
      (AllThrough info jobs done start.values ↔
        ∀ i ∈ done, (jobs i).ret info start.values = 0) := by
  induction done using List.reverseRecOn with
  | nil => exact ⟨.refl, by simp [AllThrough]⟩
  | append_singleton done i ih =>
    obtain ⟨hserv, hthru⟩ := ih (hsep.sublist (sublist_append_left done [i]))
    obtain ⟨hnext, hret⟩ := hserv.step hsep
    rw [foldl_append]
    refine ⟨hnext, ?_⟩
    rw [← through_iff, through_append, through_iff, hthru]
    simp only [Through, mem_append, mem_singleton, and_true, not_not,
      hret, or_imp, forall_and, forall_eq]

end Separate

variable {j m : Nat}

section Inside

/-- The clusters of a handler's controls lie wholly inside it: every control has a master,
which is a member of the cluster as the control is, and the members all have this
master and are in the handler. -/
structure ClustersInside (w : World) (h : Nat) : Prop where
  master : ∀ r ∈ (w.hdl h).ctrlRefs, ∃ m members, masterOf w (w.ref r).ctrl = some m ∧
    membersOf w m = some members ∧ m ∈ members ∧ (w.ref r).ctrl ∈ members
  inside : ∀ r ∈ (w.hdl h).ctrlRefs, ∀ m members, masterOf w (w.ref r).ctrl = some m →
    membersOf w m = some members → ∀ c ∈ members, masterOf w c = some m ∧
      ∃ r' ∈ (w.hdl h).ctrlRefs, (w.ref r').ctrl = c

/-- No control is listed twice. The upper four bits are not part of an id. -/
def DistinctIds (cs : ExtControls) : Prop :=
  ∀ i, i < cs.count → ∀ j, j < cs.count →
    (cs.controls i).id &&& idMask = (cs.controls j).id &&& idMask → i = j

variable {w : World} {h : Nat} {cs : ExtControls}

theorem listedRef_id {r : Nat} (hr : listedRef w h cs j = some r) :
    w.refId r = (cs.controls j).id &&& idMask := by
  unfold listedRef at hr
  dsimp only at hr
  split_ifs at hr
  exact (refWith_some (Option.filter_eq_some_iff.mp hr).1).2

theorem listed_ctrl (hm : listedMaster w h cs j = some m) :
    ∃ r ∈ (w.hdl h).ctrlRefs, (helperOf w h cs j).ctrl = (w.ref r).ctrl ∧
      masterOf w (w.ref r).ctrl = some m ∧
      (w.ctrl (w.ref r).ctrl).id = (cs.controls j).id &&& idMask := by
  obtain ⟨r, m', hr, hm'⟩ := listedMaster_some (by rw [hm]; simp : listedMaster w h cs j ≠ none)
  have heq : listedMaster w h cs j = some m' := by simp [listedMaster, listedCtrl, hr, hm']
  obtain rfl : m' = m := mem_unique heq hm
  exact ⟨r, listedRef_mem hr, by simp [helperOf, listedCtrl, hr], hm', listedRef_id hr⟩

variable (hinv : WorldInv w) (hinside : ClustersInside w h)

include hinside

theorem ClustersInside.listed (hm : listedMaster w h cs j = some m) :
    ∃ members, membersOf w m = some members ∧ m ∈ members ∧ (helperOf w h cs j).ctrl ∈ members ∧
      (∀ c ∈ members, masterOf w c = some m) ∧ ∃ r ∈ (w.hdl h).ctrlRefs, (w.ref r).ctrl = m := by
  obtain ⟨r, hr, hctrl, hmaster, -⟩ := listed_ctrl hm
  obtain ⟨m', members, hm', hmems, hself, hin⟩ := hinside.master r hr
  obtain rfl : m = m' := mem_unique hmaster hm'
  have hall := hinside.inside r hr m members hmaster hmems
  exact ⟨members, hmems, hself, hctrl ▸ hin, fun c hc => (hall c hc).1, (hall m hself).2⟩

include hinv

theorem ClustersInside.headRef_eq (hm : listedMaster w h cs j = some m) :
    ∃ r, headRef w h cs j = some r ∧ (w.ref r).ctrl = m := by
  obtain ⟨members, -, -, -, -, r, hr, hrm⟩ := hinside.listed hm
  refine ⟨r, ?_, hrm⟩
  rw [headRef, helperOf_mref hm, ← hrm]
  exact (hinv.handlers h).refWith_of_mem hr

theorem ClustersInside.headRef_iff {m' : Nat} (hm : listedMaster w h cs i = some m)
    (hm' : listedMaster w h cs j = some m') : headRef w h cs i = headRef w h cs j ↔ m = m' := by
  constructor
  · intro heq
    obtain ⟨r, hr, hrm⟩ := hinside.headRef_eq hinv hm
    obtain ⟨r', hr', hrm'⟩ := hinside.headRef_eq hinv hm'
    obtain rfl : r = r' := Option.some.inj (hr.symm.trans (heq.trans hr'))
    exact hrm.symm.trans hrm'
  · rintro rfl
    rw [headRef, headRef, helperOf_mref hm, helperOf_mref hm']

variable (hlisted : ∀ j, j < cs.count → listedMaster w h cs j ≠ none) (hdistinct : DistinctIds cs)

include hlisted hdistinct

omit hinside hinv hlisted in
theorem DistinctIds.ctrl_inj {m' : Nat} (hi : i < cs.count) (hj : j < cs.count)
    (hm : listedMaster w h cs i = some m) (hm' : listedMaster w h cs j = some m')
    (hsame : (helperOf w h cs i).ctrl = (helperOf w h cs j).ctrl) : i = j := by
  obtain ⟨r, -, hctrl, -, hid⟩ := listed_ctrl hm
  obtain ⟨r', -, hctrl', -, hid'⟩ := listed_ctrl hm'
  refine hdistinct i hi j hj ?_
  rw [← hid, ← hid', ← hctrl, ← hctrl', hsame]

omit hinv hlisted in
/-- Without a cluster of several controls different entries have different masters. -/
theorem ClustersInside.single (hsingle : severalListed w h cs = false) (hi : i < cs.count)
    (hj : j < cs.count) (hm : listedMaster w h cs i = some m)
    (hm' : listedMaster w h cs j = some m) :
    i = j := by
  have hone : ¬ 1 < (w.ctrl m).ncontrols := by
    intro hmany
    have hseveral := severalListed_iff.mpr ⟨i, hi, m, hm, hmany⟩
    rw [hsingle] at hseveral
    exact absurd hseveral (by simp)
  obtain ⟨members, hmems, -, hin, -⟩ := hinside.listed hm
  obtain ⟨members', hmems', -, hin', -⟩ := hinside.listed hm'
  obtain rfl : members = members' := mem_unique hmems hmems'
  have hlen : members.length ≤ 1 := by
    obtain ⟨cluster, -, rfl⟩ := Option.map_eq_some_iff.mp hmems
    refine (length_filterMap_le _ _).trans ((length_take_le _ _).trans ?_)
    omega
  refine hdistinct.ctrl_inj hi hj hm hm' ?_
  match members, hlen, hin, hin' with
  | [c], _, hin, hin' => exact (mem_singleton.mp hin).trans (mem_singleton.mp hin').symm

theorem ClustersInside.mem_groupOf (hi : i < cs.count) :
    j ∈ groupOf w h cs i ↔ j < cs.count ∧ listedMaster w h cs j = listedMaster w h cs i := by
  obtain ⟨m, hm⟩ := ne_none_iff_exists'.mp (hlisted i hi)
  unfold groupOf
  cases hmany : severalListed w h cs with
  | true =>
    rw [if_pos rfl, mem_occurrences]
    refine and_congr_right fun hj => ?_
    obtain ⟨m', hm'⟩ := ne_none_iff_exists'.mp (hlisted j hj)
    rw [hinside.headRef_iff hinv hm' hm, hm, hm', Option.some_inj]
  | false =>
    rw [if_neg (by simp), mem_singleton]
    constructor
    · rintro rfl
      exact ⟨hi, rfl⟩
    · rintro ⟨hj, hsame⟩
      exact hinside.single hdistinct hmany hj hi (hsame.trans hm) hm

theorem ClustersInside.mem_heads :
    i ∈ heads w h cs ↔ i < cs.count ∧ ∀ j < i, listedMaster w h cs j ≠ listedMaster w h cs i := by
  unfold heads
  cases hmany : severalListed w h cs with
  | true =>
    rw [if_pos rfl, mem_firsts]
    refine and_congr_right fun hi => forall_congr' fun j => imp_congr_right fun hj => not_congr ?_
    obtain ⟨m, hm⟩ := ne_none_iff_exists'.mp (hlisted i hi)
    obtain ⟨m', hm'⟩ := ne_none_iff_exists'.mp (hlisted j (hj.trans hi))
    rw [hinside.headRef_iff hinv hm' hm, hm, hm', Option.some_inj]
  | false =>
    rw [if_neg (by simp), mem_filter, mem_range]
    refine and_congr_right fun hi => ?_
    obtain ⟨m, hm⟩ := ne_none_iff_exists'.mp (hlisted i hi)
    obtain ⟨r, hr, -⟩ := hinside.headRef_eq hinv hm
    refine iff_of_true (by rw [hr]; rfl) fun j hj hsame => ?_
    have heq := hinside.single hdistinct hmany (hj.trans hi) hi (hsame.trans hm) hm
    omega

variable (answers : Nat → Answers)

omit hlisted hdistinct in
theorem ClustersInside.jobOf_eq (hm : listedMaster w h cs i = some m) :
    (jobOf w h cs answers i).master = m ∧
      ∃ members, membersOf w m = some members ∧ (jobOf w h cs answers i).members = members := by
  obtain ⟨r, hr, hrm⟩ := hinside.headRef_eq hinv hm
  obtain ⟨members, hmems, -⟩ := hinside.listed hm
  have hmaster : (jobOf w h cs answers i).master = m := by simp [jobOf, hr, hrm]
  refine ⟨hmaster, members, hmems, ?_⟩
  change (membersOf w (jobOf w h cs answers i).master).getD [] = members
  rw [hmaster, hmems]
  rfl

theorem ClustersInside.requested_mem (hi : i < cs.count)
    (hc : (jobOf w h cs answers i).requested c) : c ∈ (jobOf w h cs answers i).members := by
  obtain ⟨m, hm⟩ := ne_none_iff_exists'.mp (hlisted i hi)
  obtain ⟨-, members, hmems, heq⟩ := hinside.jobOf_eq hinv answers hm
  obtain ⟨request, hreq, rfl⟩ := List.mem_map.mp hc
  obtain ⟨j, hj, rfl⟩ := List.mem_map.mp hreq
  obtain ⟨-, hsame⟩ := (hinside.mem_groupOf hinv hlisted hdistinct hi).mp hj
  obtain ⟨members', hmems', -, hin, -⟩ := hinside.listed (hsame.trans hm)
  obtain rfl : members = members' := mem_unique hmems hmems'
  rw [heq]
  exact hin

theorem ClustersInside.touches_master (hi : i < cs.count)
    (hc : (jobOf w h cs answers i).touches c) : masterOf w c = listedMaster w h cs i := by
  obtain ⟨m, hm⟩ := ne_none_iff_exists'.mp (hlisted i hi)
  obtain ⟨-, members, hmems, heq⟩ := hinside.jobOf_eq hinv answers hm
  obtain ⟨members', hmems', -, -, hall, -⟩ := hinside.listed hm
  obtain rfl : members = members' := mem_unique hmems hmems'
  have hin := hc.elim id (hinside.requested_mem hinv hlisted hdistinct answers hi)
  rw [heq] at hin
  rw [hm]
  exact hall c hin

omit hinv hinside hlisted hdistinct in
theorem heads_ascending : (heads w h cs).Pairwise (· < ·) := by
  unfold heads
  split_ifs
  all_goals exact pairwise_lt_range.filter _

theorem ClustersInside.head_inj (hi : i ∈ heads w h cs) (hj : j ∈ heads w h cs)
    (hsame : listedMaster w h cs i = listedMaster w h cs j) : i = j := by
  have hfirst := ((hinside.mem_heads hinv hlisted hdistinct).mp hi).2
  have hfirst' := ((hinside.mem_heads hinv hlisted hdistinct).mp hj).2
  rcases lt_trichotomy i j with hlt | heq | hlt
  · exact absurd hsame (hfirst' i hlt)
  · exact heq
  · exact absurd hsame.symm (hfirst j hlt)

theorem ClustersInside.separate : Separate (jobOf w h cs answers) (heads w h cs) := by
  refine ⟨heads_ascending.imp ne_of_lt, ?_, ?_, ?_⟩
  · intro i hi i' hi' hsame
    obtain ⟨m, hm⟩ := ne_none_iff_exists'.mp (hlisted i (heads_lt hi))
    obtain ⟨m', hm'⟩ := ne_none_iff_exists'.mp (hlisted i' (heads_lt hi'))
    rw [(hinside.jobOf_eq hinv answers hm).1, (hinside.jobOf_eq hinv answers hm').1] at hsame
    exact hinside.head_inj hinv hlisted hdistinct hi hi' (by rw [hm, hm', hsame])
  · intro i hi i' hi' c hc hc'
    refine hinside.head_inj hinv hlisted hdistinct hi hi' ?_
    rw [← hinside.touches_master hinv hlisted hdistinct answers (heads_lt hi) hc,
      ← hinside.touches_master hinv hlisted hdistinct answers (heads_lt hi') hc']
  · intro i hi i' hi' idx hidx hidx'
    rw [jobOf_indices] at hidx hidx'
    exact groupOf_disjoint hi hi' hidx hidx'

theorem ClustersInside.exists_head (hj : j < cs.count) :
    ∃ i ∈ heads w h cs, i ≤ j ∧ listedMaster w h cs i = listedMaster w h cs j ∧
      j ∈ groupOf w h cs i := by
  obtain ⟨i, hi, hsame⟩ := exists_first (listedMaster w h cs) hj
  obtain ⟨hlt, hfirst⟩ := mem_firsts.mp hi
  refine ⟨i, (hinside.mem_heads hinv hlisted hdistinct).mpr ⟨hlt, hfirst⟩, ?_, hsame,
    (hinside.mem_groupOf hinv hlisted hdistinct hlt).mpr ⟨hj, hsame.symm⟩⟩
  by_contra hgt
  exact hfirst j (Nat.lt_of_not_le hgt) hsame.symm

end Inside

section Through

theorem firstError_eq_zero {errors : List Int} :
    firstError errors = 0 ↔ ∀ err ∈ errors, err = 0 := by
  induction errors with
  | nil => simp [firstError]
  | cons err rest ih =>
    rw [firstError, forall_mem_cons, ← ih]
    split_ifs with herr
    · exact iff_of_false herr fun hand => herr hand.1
    · rw [and_iff_right (not_not.mp herr)]

theorem taken_self (info : Nat → Ctrl) (hnodup : (requests.map Request.ctrl).Nodup)
    (hin : request ∈ requests) (news : Nat → Value) : taken info requests news request.ctrl =
      (userToNew request.entry (info request.ctrl)).2.new := by
  induction requests generalizing news with
  | nil => simp at hin
  | cons first rest ih =>
    obtain ⟨hnot, hnodup⟩ := nodup_cons.mp hnodup
    rw [taken]
    rcases mem_cons.mp hin with rfl | hrest
    · rw [taken_other _ _ _ hnot, update_self]
    · exact ih hnodup hrest _

theorem tell_self {back : Request → Int × ExtControl} (hnodup : (requests.map Request.index).Nodup)
    (hback : ∀ request ∈ requests, (back request).1 = 0) (hin : request ∈ requests)
    (entries : Nat → ExtControl) : tell back requests entries request.index = (back request).2 := by
  induction requests generalizing entries with
  | nil => simp at hin
  | cons first rest ih =>
    obtain ⟨hnot, hnodup⟩ := nodup_cons.mp hnodup
    obtain ⟨hfirst, hrest⟩ := forall_mem_cons.mp hback
    rw [tell, if_neg (not_not.mpr hfirst)]
    rcases mem_cons.mp hin with rfl | hin
    · rw [tell_other _ _ _ hnot, update_self]
    · exact ih hnodup hrest hin _

variable {info : Nat → Ctrl} {job : Job} {values : Nat → Value}

section

variable (hret : job.ret info values = 0)
include hret

theorem Job.calls_settled (hc : c ∈ job.members) :
    job.settled info values c = if job.calls info values = true then
      job.answers.sCtrl.value c (job.tried info values c) else job.tried info values c := by
  rcases (told_of_through hret).1.fate with ⟨hfate, -⟩ | ⟨hfate, -⟩
  · rw [settled, calls, hfate, if_neg (by simp), if_neg (by simp)]
  · simp [settled, calls, hfate, hc]

/-- The current value is then the new one, unless the control is a button. -/
theorem Job.cur_settled (hc : c ∈ job.members) (hbtn : (info c).type ≠ .button) :
    job.valuesAfter info values c = job.settled info values c ∧
      (job.hasSet = true → job.calls info values = false →
        job.settled info values c = values c) := by
  rcases (told_of_through hret).1.fate with ⟨hfate, hchange⟩ | ⟨hfate, -⟩
  · have hsame : job.tried info values c = values c := by
      have hnot := List.any_eq_false.mp hchange c hc
      simpa [hbtn] using hnot
    have hsettle : job.settled info values c = values c := by
      rw [settled, if_neg (by simp [hfate]), hsame]
    exact ⟨by rw [valuesAfter, if_neg (by simp [hfate]), hsettle], fun _ _ => hsettle⟩
  · refine ⟨if_pos ⟨hfate, hc, hbtn⟩, fun hset hcalls => ?_⟩
    rw [calls, hfate] at hcalls
    exact absurd (hset.symm.trans hcalls) (by simp)

theorem Job.taken_ok (hreq : request ∈ job.requests) :
    (userToNew request.entry (info request.ctrl)).1 = 0 :=
  firstError_eq_zero.mp (told_of_through hret).1.copied _
    (List.mem_map.mpr ⟨request, hreq, rfl⟩)

theorem Job.entriesAfter_request (hnodup : (job.requests.map Request.index).Nodup)
    (hreq : request ∈ job.requests) (entries : Nat → ExtControl) :
    job.toldBack info values request = (0, job.entriesAfter info values entries request.index) := by
  obtain ⟨htold, hback⟩ := told_of_through hret
  have hbacks : ∀ request ∈ job.requests, (job.toldBack info values request).1 = 0 :=
    fun request hin => firstError_eq_zero.mp hback _ (List.mem_map.mpr ⟨request, hin, rfl⟩)
  rw [htold.entries, tell_self hnodup hbacks hreq]
  exact Prod.ext (hbacks request hreq) rfl

end

theorem cString_take (bytes : List UInt8) (n : Nat) :
    cString (bytes.take n) = (cString bytes).take n :=
  (take_takeWhile ..).symm

/-- The value that `validate_new` has looked at. -/
def validatedValue (ctrl : Ctrl) (entry : ExtControl) : Value :=
  match ctrl.type with
  | .integer64 => .num entry.value64
  | .string => .str (cString entry.string)
  | _ => .num entry.value

/-- A text is not longer than what `user_to_new` takes of it. -/
def TextFits (ctrl : Ctrl) (entry : ExtControl) : Prop :=
  ctrl.type = .string → (cString entry.string).length ≤
    min entry.size.toNat (toU32 (ctrl.maximum + 1)) - 1

theorem userToNew_validated {ctrl : Ctrl} {entry : ExtControl}
    (hok : (userToNew entry ctrl).1 = 0) :
    (userToNew entry ctrl).2.new = validatedValue ctrl entry ↔ TextFits ctrl entry := by
  unfold userToNew at hok ⊢
  unfold validatedValue TextFits
  cases htype : ctrl.type with
  | string =>
    simp only [htype] at hok ⊢
    split_ifs at hok ⊢ with hsize hfault
    · exact absurd hok erange_ne
    · exact absurd hok efault_ne_zero
    all_goals rw [cString_take, Value.str.injEq, take_eq_self_iff, true_imp_iff]
  | _ => simp

def driverMakes (ops : CtrlOps) (answers : Answers) (called : Prop) [Decidable called] (c : Nat)
    (value : Value) : Value :=
  let tried := if ops.tryCtrl = true then answers.tryCtrl.value c value else value
  if called then answers.sCtrl.value c tried else tried

theorem Job.settled_request (hret : job.ret info values = 0) (hmember : request.ctrl ∈ job.members)
    (hreq : request ∈ job.requests) (hnodup : (job.requests.map Request.ctrl).Nodup)
    (hnew : (userToNew request.entry (info request.ctrl)).2.new =
      validatedValue (info request.ctrl) request.entry)
    {ops : CtrlOps} (htry : ops.tryCtrl = job.hasTry) :
    job.settled info values request.ctrl = driverMakes ops job.answers
      (job.calls info values = true) request.ctrl
      (validatedValue (info request.ctrl) request.entry) := by
  have hasked : job.asked info values request.ctrl =
      validatedValue (info request.ctrl) request.entry :=
    (taken_self _ hnodup hreq _).trans hnew
  rw [calls_settled hret hmember, tried, hasked, driverMakes, htry]
  simp [hmember]

theorem validateNew_string {ctrl : Ctrl} {entry entry' : ExtControl} {ret : Int}
    (htype : ctrl.type = .string) (heq : validateNew ctrl entry = some (ret, entry')) :
    entry' = entry := by
  unfold validateNew at heq
  simp only [htype] at heq
  split_ifs at heq <;> exact (Prod.mk.inj (Option.some.inj heq)).2.symm

end Through

variable {rest : List Nat}

section Truth

variable (w : World) (h : Nat) (cs : ExtControls) (answers : Nat → Answers)

/-- The control listed at `j` has as its current value the one that was validated, passed
to the driver (with its answers for the first entry of the cluster) and copied back; if
`s_ctrl` was not called, it had this value before. -/
def WasSet (out : Outcome) (j : Nat) : Prop :=
  ∃ c m i entry, listedCtrl w h cs j = some c ∧ listedMaster w h cs j = some m ∧
    i ≤ j ∧ listedMaster w h cs i = some m ∧ (∀ i', i' < i → listedMaster w h cs i' ≠ some m) ∧
    validateNew (w.ctrl c) (cs.controls j) = some (0, entry) ∧
    (userToNew entry (w.ctrl c)).1 = 0 ∧
    (userToNew entry (w.ctrl c)).2.new = validatedValue (w.ctrl c) entry ∧
    (out.world.ctrl c).cur = driverMakes (w.ctrl m).ops (answers i) (m ∈ out.calls) c
      (validatedValue (w.ctrl c) entry) ∧
    ((w.ctrl m).ops.sCtrl = true → m ∉ out.calls → (out.world.ctrl c).cur = (w.ctrl c).cur) ∧
    newToUser entry { w.ctrl c with new := (out.world.ctrl c).cur } = (0, out.controls j)

def IsButton (j : Nat) : Prop :=
  (w.ctrl (helperOf w h cs j).ctrl).type = .button

/-- What `error_idx` is to tell. -/
structure TellsTruth (out : Outcome) : Prop where
  untouched : out.ret ≠ 0 → out.errorIdx = cs.count → Unaffected w out
  before : out.ret ≠ 0 → out.errorIdx ≠ cs.count → out.errorIdx < cs.count ∧
    ∀ j, j < out.errorIdx → ¬ IsButton w h cs j → WasSet w h cs answers out j
  others : out.ret ≠ 0 → out.errorIdx ≠ cs.count → ∀ c,
    (∀ j, j ≤ out.errorIdx → listedMaster w h cs j ≠ masterOf w c) →
    (out.world.ctrl c).cur = (w.ctrl c).cur
  all : out.ret = 0 → ∀ j, j < cs.count → ¬ IsButton w h cs j → WasSet w h cs answers out j

variable {w h cs answers}

theorem Legal.checked (hlegal : Legal w h cs j) :
    validateNew (w.ctrl (helperOf w h cs j).ctrl) (cs.controls j) =
      some (0, checkedOf w h cs j) := by
  obtain ⟨-, -, entry, hentry⟩ := hlegal
  rw [checkedOf, hentry]
  rfl

theorem Legal.textFits_iff (hlegal : Legal w h cs j) :
    TextFits (w.ctrl (helperOf w h cs j).ctrl) (checkedOf w h cs j) ↔
      TextFits (w.ctrl (helperOf w h cs j).ctrl) (cs.controls j) := by
  refine imp_congr_right fun htype => ?_
  rw [validateNew_string htype hlegal.checked]

variable (hinv : WorldInv w) (hinside : ClustersInside w h) (hdistinct : DistinctIds cs)
  {kmalloc : Bool} (hvalid : Valid w h cs kmalloc)

include hinv hinside hdistinct hvalid

omit hinv hinside in
theorem DistinctIds.request_ctrls (i : Nat) (hi : i < cs.count) :
    ((jobOf w h cs answers i).requests.map Request.ctrl).Nodup := by
  have hctrls : (jobOf w h cs answers i).requests.map ctrl =
      (groupOf w h cs i).map fun idx => (helperOf w h cs idx).ctrl := by
    simp only [jobOf, List.map_map]
    rfl
  rw [hctrls]
  refine (groupOf_nodup i).map_on fun j hj j' hj' hsame => ?_
  have hlt := mem_groupOf_lt hi hj
  have hlt' := mem_groupOf_lt hi hj'
  obtain ⟨m, hm⟩ := ne_none_iff_exists'.mp (hvalid.listed j hlt)
  obtain ⟨m', hm'⟩ := ne_none_iff_exists'.mp (hvalid.listed j' hlt')
  exact hdistinct.ctrl_inj hlt hlt' hm hm' hsame

theorem ClustersInside.served (hheads : heads w h cs = done ++ rest) :
    ServedInv w.ctrl (jobOf w h cs answers) (Served.start w h cs) done
        (done.foldl (Served.step w.ctrl (jobOf w h cs answers)) (Served.start w h cs)) ∧
      (AllThrough w.ctrl (jobOf w h cs answers) done (fun c => (w.ctrl c).cur) ↔
        ∀ i ∈ done, (jobOf w h cs answers i).ret w.ctrl (fun c => (w.ctrl c).cur) = 0) := by
  have hsep := hinside.separate hinv hvalid.listed hdistinct answers
  rw [hheads] at hsep
  exact Separate.served w.ctrl (start w h cs) done
    (hsep.sublist (sublist_append_left done rest))

/-- Whether the driver was called for the cluster is told by the job alone. -/
theorem ClustersInside.called_iff
    (hserv : ServedInv w.ctrl (jobOf w h cs answers) (Served.start w h cs) done s)
    (hdone : ∀ i ∈ done, i ∈ heads w h cs) (hi : i ∈ done) (hm : listedMaster w h cs i = some m) :
    m ∈ s.calls ↔ (jobOf w h cs answers i).calls w.ctrl (fun c => (w.ctrl c).cur) = true := by
  rw [hserv.calls m]
  constructor
  · rintro (hbad | ⟨i', hi', hmaster, hcalls⟩)
    · exact absurd hbad (by simp [start])
    obtain ⟨m', hm'⟩ := ne_none_iff_exists'.mp (hvalid.listed i' (heads_lt (hdone i' hi')))
    rw [(hinside.jobOf_eq hinv answers hm').1] at hmaster
    obtain rfl : i' = i := hinside.head_inj hinv hvalid.listed hdistinct (hdone i' hi')
      (hdone i hi) (by rw [hm, hm', hmaster])
    exact hcalls
  · intro hcalls
    exact .inr ⟨i, hi, (hinside.jobOf_eq hinv answers hm).1, hcalls⟩

variable {out : Outcome} {w' : World} (hheads : heads w h cs = done ++ rest)
  (hmatches : Matches w' out
    (done.foldl (Served.step w.ctrl (jobOf w h cs answers)) (Served.start w h cs)))

include hheads hmatches

/-- Where the work has ended after the jobs `done`, an entry whose job has gone through was
set exactly if its text fits. -/
theorem ClustersInside.wasSet_iff (hj : j < cs.count)
    (hdone : ∀ i ∈ heads w h cs, i ≤ j → i ∈ done ∧
      (jobOf w h cs answers i).ret w.ctrl (fun c => (w.ctrl c).cur) = 0)
    (hbtn : ¬ IsButton w h cs j) :
    WasSet w h cs answers out j ↔ TextFits (w.ctrl (helperOf w h cs j).ctrl) (cs.controls j) := by
  obtain ⟨hserv, -⟩ := hinside.served hinv hdistinct hvalid hheads
  obtain ⟨i, hihead, hij, hsame, hgroup⟩ := hinside.exists_head hinv hvalid.listed hdistinct hj
  obtain ⟨hi, hret⟩ := hdone i hihead hij
  obtain ⟨m, hm⟩ := ne_none_iff_exists'.mp (hvalid.listed j hj)
  have hmi := hsame.trans hm
  have hctrl := listedCtrl_helperOf (hvalid.listed j hj)
  have hchecked := (hvalid.legal j hj).checked
  let request : Request := ⟨j, (helperOf w h cs j).ctrl, checkedOf w h cs j⟩
  have hreq : request ∈ (jobOf w h cs answers i).requests := List.mem_map.mpr ⟨j, hgroup, rfl⟩
  have htaken := taken_ok hret hreq
  rw [← (hvalid.legal j hj).textFits_iff, ← userToNew_validated htaken]
  constructor
  · rintro ⟨c, m', i', entry, hc, -, -, -, -, hentry, -, hnew, -⟩
    obtain rfl := mem_unique hctrl hc
    obtain rfl : checkedOf w h cs j = entry := (Prod.mk.inj (mem_unique hchecked hentry)).2
    exact hnew
  intro hnew
  have hmember := hinside.requested_mem hinv hvalid.listed hdistinct answers (heads_lt hihead)
    (List.mem_map.mpr ⟨request, hreq, rfl⟩)
  have hmaster := (hinside.jobOf_eq hinv answers hmi).1
  have hcalled := hinside.called_iff hinv hdistinct hvalid hserv
    (fun i hi => by simp [hheads, hi]) hi hmi
  rw [← hmatches.calls] at hcalled
  obtain ⟨hafter, hkept⟩ := cur_settled hret hmember hbtn
  have hvalue := (hmatches.cur request.ctrl).trans
    ((hserv.values i hi request.ctrl (.inl hmember)).trans hafter)
  refine ⟨request.ctrl, m, i, request.entry, hctrl, hm, hij, hmi, ?_, hchecked, htaken, hnew,
    ?_, ?_, ?_⟩
  · intro i' hi' hbad
    exact ((hinside.mem_heads hinv hvalid.listed hdistinct).mp hihead).2 i' hi'
      (hbad.trans hmi.symm)
  · have htry : (w.ctrl m).ops.tryCtrl = (jobOf w h cs answers i).hasTry := by rw [← hmaster]; rfl
    rw [hvalue, settled_request hret hmember hreq
      (hdistinct.request_ctrls hvalid i (heads_lt hihead)) hnew htry]
    simp only [driverMakes, hcalled]
    rfl
  · intro hset hnot
    rw [← hmaster] at hset
    exact hvalue.trans (hkept hset (Bool.eq_false_iff.mpr fun hcall => hnot (hcalled.mpr hcall)))
  · have hnodup : ((jobOf w h cs answers i).requests.map index).Nodup := by
      rw [jobOf_indices]
      exact groupOf_nodup i
    rw [hvalue, hmatches.controls,
      hserv.entries i hi j (List.mem_map.mpr ⟨request, hreq, rfl⟩)]
    exact entriesAfter_request hret hnodup hreq _

/-- Clusters without an entry up to the one that failed are as before. -/
theorem ClustersInside.served_others {k : Nat} (hle : ∀ i ∈ done, i ≤ k)
    (hc : ∀ j ≤ k, listedMaster w h cs j ≠ masterOf w c) :
    (out.world.ctrl c).cur = (w.ctrl c).cur := by
  obtain ⟨hserv, -⟩ := hinside.served hinv hdistinct hvalid hheads
  rw [hmatches.cur c]
  refine hserv.otherValues c fun i hi htouches => hc i (hle i hi) ?_
  have hlt := heads_lt (by rw [hheads]; exact mem_append_left rest hi)
  exact (hinside.touches_master hinv hvalid.listed hdistinct answers hlt htouches).symm

end Truth

section Main

theorem through_ret {info : Nat → Ctrl} {jobs : Nat → Job}
    (hthru : AllThrough info jobs done s.values) (hret : s.ret = 0) :
    (done.foldl (Served.step info jobs) s).ret = 0 := by
  induction done generalizing s with
  | nil => exact hret
  | cons i rest ih => exact ih hthru.2 hthru.1

/-- Every entry up to which the clusters of the list go through has a text that fits. -/
def TextsFit (w : World) (h : Nat) (cs : ExtControls) (answers : Nat → Answers) : Prop :=
  ∀ j, j < cs.count → (∀ i ∈ heads w h cs, i ≤ j →
      (jobOf w h cs answers i).ret w.ctrl (fun c => (w.ctrl c).cur) = 0) →
    TextFits (w.ctrl (helperOf w h cs j).ctrl) (cs.controls j)

variable {w w' : World} {h : Nat} {cs : ExtControls} {answers : Nat → Answers} {kmalloc : Bool}
  {out : Outcome} (hinv : WorldInv w) (hinside : ClustersInside w h) (hdistinct : DistinctIds cs)
  (hvalid : Valid w h cs kmalloc)

include hinv hinside hdistinct hvalid

omit hinv hinside hdistinct hvalid in
theorem textFits_of_button (hbtn : IsButton w h cs j) (entry : ExtControl) :
    TextFits (w.ctrl (helperOf w h cs j).ctrl) entry := by
  intro hstring
  rw [IsButton, hstring] at hbtn
  exact absurd hbtn (by simp)

theorem ClustersInside.truth_of_through
    (hthru : AllThrough w.ctrl (jobOf w h cs answers) (heads w h cs) fun c => (w.ctrl c).cur)
    (hmatches : Matches w' out
      ((heads w h cs).foldl (Served.step w.ctrl (jobOf w h cs answers)) (Served.start w h cs))) :
    TellsTruth w h cs answers out ↔ TextsFit w h cs answers := by
  have hret := hmatches.ret.trans (through_ret hthru rfl)
  have hall : ∀ i ∈ heads w h cs,
      (jobOf w h cs answers i).ret w.ctrl (fun c => (w.ctrl c).cur) = 0 :=
    (hinside.served hinv hdistinct hvalid (append_nil _).symm).2.mp hthru
  have hset : ∀ j < cs.count, ¬ IsButton w h cs j → (WasSet w h cs answers out j ↔
      TextFits (w.ctrl (helperOf w h cs j).ctrl) (cs.controls j)) := fun j hj =>
    hinside.wasSet_iff hinv hdistinct hvalid (append_nil _).symm hmatches hj
      fun i hi _ => ⟨hi, hall i hi⟩
  constructor
  · intro htruth j hj _
    by_cases hbtn : IsButton w h cs j
    · exact textFits_of_button hbtn _
    · exact (hset j hj hbtn).mp (htruth.all hret j hj hbtn)
  · intro hfit
    refine ⟨fun hne => absurd hret hne, fun hne => absurd hret hne, fun hne => absurd hret hne, ?_⟩
    intro _ j hj hbtn
    exact (hset j hj hbtn).mpr (hfit j hj fun i hi _ => hall i hi)

theorem ClustersInside.truth_of_stop {before : List Nat} {k : Nat}
    (hheads : heads w h cs = before ++ k :: rest)
    (hthru : AllThrough w.ctrl (jobOf w h cs answers) before fun c => (w.ctrl c).cur)
    (hstop : (((before ++ [k]).foldl (Served.step w.ctrl (jobOf w h cs answers))
      (Served.start w h cs)).ret ≠ 0)) (hmatches : Matches w' out ((before ++ [k]).foldl
      (Served.step w.ctrl (jobOf w h cs answers)) (Served.start w h cs))) :
    TellsTruth w h cs answers out ↔ TextsFit w h cs answers := by
  have hheads' : heads w h cs = (before ++ [k]) ++ rest := by rw [hheads, append_assoc]; rfl
  have hk : k ∈ heads w h cs := by simp [hheads]
  have hret := hmatches.ret ▸ hstop
  have hidx : out.errorIdx = k := by
    rw [hmatches.errorIdx, foldl_append]
    rfl
  have hlt := hidx ▸ ne_of_lt (heads_lt hk)
  have hasc := hheads ▸ heads_ascending
  obtain ⟨-, hafter, hpre⟩ := pairwise_append.mp hasc
  have hmem : ∀ i ∈ heads w h cs, i < k → i ∈ before := by
    intro i hi hik
    rw [hheads] at hi
    rcases mem_append.mp hi with hin | hin
    · exact hin
    rcases mem_cons.mp hin with rfl | hin
    · exact absurd hik (lt_irrefl i)
    · exact absurd ((pairwise_cons.mp hafter).1 i hin) (Nat.not_lt.mpr hik.le)
  have hsep := hinside.separate hinv hvalid.listed hdistinct answers
  rw [hheads'] at hsep
  have hsep := hsep.sublist (sublist_append_left (before ++ [k]) rest)
  obtain ⟨hserv, hiff⟩ := hinside.served hinv hdistinct hvalid hheads
  have hall := hiff.mp hthru
  have hfail : (jobOf w h cs answers k).ret w.ctrl (fun c => (w.ctrl c).cur) ≠ 0 := by
    rw [foldl_append] at hstop
    exact (hserv.step hsep).2 ▸ hstop
  have hset : ∀ j < k, ¬ IsButton w h cs j → (WasSet w h cs answers out j ↔
      TextFits (w.ctrl (helperOf w h cs j).ctrl) (cs.controls j)) := fun j hj =>
    hinside.wasSet_iff hinv hdistinct hvalid hheads' hmatches (hj.trans (heads_lt hk))
      fun i hi hij => ⟨mem_append_left _ (hmem i hi (hij.trans_lt hj)),
        hall i (hmem i hi (hij.trans_lt hj))⟩
  constructor
  · intro htruth j hj hgo
    have hjk := Nat.lt_of_not_le fun hle => hfail (hgo k hk hle)
    by_cases hbtn : IsButton w h cs j
    · exact textFits_of_button hbtn _
    · exact (hset j hjk hbtn).mp ((htruth.before hret hlt).2 j (hidx ▸ hjk) hbtn)
  intro hfit
  refine ⟨fun _ heq => absurd heq hlt, fun _ _ => ⟨hidx ▸ heads_lt hk, ?_⟩, ?_,
    fun hzero => absurd hzero hret⟩
  · intro j hj hbtn
    rw [hidx] at hj
    refine (hset j hj hbtn).mpr (hfit j (hj.trans (heads_lt hk)) fun i hi hij => ?_)
    exact hall i (hmem i hi (hij.trans_lt hj))
  · intro _ _ c hc
    rw [hidx] at hc
    refine hinside.served_others hinv hdistinct hvalid hheads' hmatches (fun i hi => ?_) hc
    rcases mem_append.mp hi with hin | hin
    · exact Nat.le_of_lt (hpre i hin k (by simp))
    · exact Nat.le_of_eq (mem_singleton.mp hin)

end Main

/-- `ClustersInside` as a computation. -/
def clustersInside (w : World) (h : Nat) : Bool :=
  (w.hdl h).ctrlRefs.all fun r =>
    (masterOf w (w.ref r).ctrl).any fun m => (membersOf w m).any fun members =>
      decide (m ∈ members) && decide ((w.ref r).ctrl ∈ members) && members.all fun c =>
        masterOf w c = some m && (w.hdl h).ctrlRefs.any fun r' => (w.ref r').ctrl = c

theorem clustersInside_sound {w : World} {h : Nat} (hcheck : clustersInside w h = true) :
    ClustersInside w h := by
  have hall : ∀ r ∈ (w.hdl h).ctrlRefs, ∃ m, masterOf w (w.ref r).ctrl = some m ∧
      ∃ members, membersOf w m = some members ∧ (m ∈ members ∧ (w.ref r).ctrl ∈ members) ∧
        ∀ c ∈ members, masterOf w c = some m ∧ ∃ r' ∈ (w.hdl h).ctrlRefs, (w.ref r').ctrl = c := by
    simpa [clustersInside, Option.any_eq_true] using hcheck
  refine ⟨fun r hr => ?_, fun r hr m members hm hmems => ?_⟩
  · obtain ⟨m, hm, members, hmems, ⟨hself, hin⟩, -⟩ := hall r hr
    exact ⟨m, members, hm, hmems, hself, hin⟩
  obtain ⟨m', hm', members', hmems', -, hinside⟩ := hall r hr
  obtain rfl : m = m' := mem_unique hm hm'
  obtain rfl : members = members' := mem_unique hmems hmems'
  exact hinside

def fiveToEight : List Call :=
  [.newCustom 0 ⟨⟨false, false, true⟩, 0x00980920, some "Text", .string, ⟨5, 8, 1, 0⟩, 0, 0, none,
    false, false⟩ allGranted, newInteger 0x00980900]

def helloInThree : ExtControls where
  ctrlClass := 0
  count := 2
  controls := fun
    | 0 => ⟨0x00980920, 3, 0, 0, [0x68, 0x65, 0x6c, 0x6c, 0x6f, 0], true⟩
    | _ => ⟨0x00980900, 0, 200, 0, [], true⟩

theorem helloInThree_distinct : DistinctIds helloInThree := by
  unfold DistinctIds
  decide

end TbsMedia.Ctrls
