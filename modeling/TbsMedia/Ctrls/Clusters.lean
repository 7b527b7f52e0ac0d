import TbsMedia.Ctrls.HandlerMap

/-!
The cluster of every control that a handler owns. As long as no control is made
under an id that its handler has already, and none is clustered twice, every
cluster pointer is live, and setting up a handler calls the driver once for each
cluster that needs it.
-/

namespace TbsMedia.Ctrls

open Lib Function List World

/-- The cluster pointer of a control of `h`: into a reference that is still on
the handler's list, or an array given to `v4l2_ctrl_cluster`. -/
def LiveCluster (w : World) (h c : Nat) : Prop :=
  (∃ r ∈ (w.hdl h).ctrlRefs, (w.ctrl c).cluster = .ref r ∧ (w.ref r).ctrl = c) ∨
    ∃ a, a < w.freshArray ∧ (w.ctrl c).cluster = .array a ∧ some c ∈ w.array a

/-- The members of an array all have it as their cluster, and its first entry
is their master. -/
def SharedArray (w : World) (a : Nat) : Prop :=
  (∃ m rest, w.array a = some m :: rest) ∧ ∀ c, some c ∈ w.array a →
    w.owned c ∧ (w.ctrl c).cluster = .array a ∧ (w.ctrl c).ncontrols = (w.array a).length

structure ClustersInv (w : World) : Prop where
  unfreed : ∀ h, ∀ r ∈ (w.hdl h).ctrlRefs, (w.ref r).freed = false
  live : ∀ h, ∀ c ∈ (w.hdl h).ctrls, LiveCluster w h c
  single : ∀ h, ∀ c ∈ (w.hdl h).ctrls, ∀ r, (w.ctrl c).cluster = .ref r → (w.ctrl c).ncontrols = 1
  arrays : ∀ a, a < w.freshArray → SharedArray w a

variable {h c : Nat} {w' : World}

section Keep

structure ClustersSame (w w' : World) : Prop where
  ctrls : ∀ h, (w'.hdl h).ctrls = (w.hdl h).ctrls
  ctrlRefs : ∀ h, ∀ r ∈ (w.hdl h).ctrlRefs, r ∈ (w'.hdl h).ctrlRefs
  cluster : ∀ c, w.owned c → (w'.ctrl c).cluster = (w.ctrl c).cluster ∧
    (w'.ctrl c).ncontrols = (w.ctrl c).ncontrols
  array : w'.array = w.array
  freshArray : w'.freshArray = w.freshArray

variable {w : World}

theorem WorldInv.owned_of_mem (hinv : WorldInv w) (hc : c ∈ (w.hdl h).ctrls) : w.owned c := by
  rwa [World.owned, (hinv.owned h c hc).2.1]

theorem ClustersInv.same (hclusters : ClustersInv w) (hinv : WorldInv w) (hgrows : Grows w w')
    (hsame : ClustersSame w w')
    (hunfreed : ∀ h, ∀ r ∈ (w'.hdl h).ctrlRefs, (w'.ref r).freed = false) : ClustersInv w' := by
  refine ⟨hunfreed, ?_, ?_, ?_⟩
  · intro h c hc
    rw [hsame.ctrls] at hc
    have hclus := (hsame.cluster c (hinv.owned_of_mem hc)).1
    rcases hclusters.live h c hc with ⟨r, hr, heq, href⟩ | ⟨a, ha, heq, hin⟩
    · refine .inl ⟨r, hsame.ctrlRefs h r hr, hclus.trans heq, ?_⟩
      rw [hgrows.ref r ((hinv.handlers h).allocated r hr).1, href]
    · refine .inr ⟨a, hsame.freshArray ▸ ha, hclus.trans heq, ?_⟩
      rwa [hsame.array]
  · intro h c hc r heq
    rw [hsame.ctrls] at hc
    obtain ⟨hclus, hncontrols⟩ := hsame.cluster c (hinv.owned_of_mem hc)
    rw [hncontrols]
    exact hclusters.single h c hc r (hclus ▸ heq)
  · intro a ha
    rw [hsame.freshArray] at ha
    obtain ⟨hhead, hmems⟩ := hclusters.arrays a ha
    unfold SharedArray
    rw [hsame.array]
    refine ⟨hhead, ?_⟩
    intro c hc
    obtain ⟨howned, heq, hncontrols⟩ := hmems c hc
    obtain ⟨hclus, hncontrols'⟩ := hsame.cluster c howned
    refine ⟨?_, hclus.trans heq, hncontrols'.trans hncontrols⟩
    unfold owned
    rw [hgrows.handler c (hinv.owned _ c howned).1, hsame.ctrls]
    exact howned

theorem withRef_array (w : World) (h c : Nat) :
    (withRef w h c).array = w.array ∧ (withRef w h c).freshArray = w.freshArray := by
  unfold withRef
  split_ifs <;> exact ⟨rfl, rfl⟩

structure Inserted (w w' : World) (h c : Nat) : Prop where
  array : w'.array = w.array
  freshArray : w'.freshArray = w.freshArray
  other : ∀ c', c' ≠ c ∨ (w.ctrl c).handler ≠ h → w'.ctrl c' = w.ctrl c'
  old : ∀ r, r < w.freshRef → w'.ref r = w.ref r
  kept : ∀ h', ∀ r ∈ (w.hdl h').ctrlRefs, r ∈ (w'.hdl h').ctrlRefs
  added : ∀ h', ∀ r ∈ (w'.hdl h').ctrlRefs, r ∈ (w.hdl h').ctrlRefs ∨ w'.ref r = ⟨c, none, false⟩
  own : (w.ctrl c).handler = h → (w'.ctrl c).cluster = .ref w.freshRef
  new : (w'.ref w.freshRef).ctrl = c ∧ w.freshRef < w'.freshRef

theorem HandlerInv.insertRef_inserted (hinv : HandlerInv w h) (herr : (w.hdl h).error = 0) :
    Inserted w (insertRef w h c true).2 h c := by
  obtain ⟨harray, hfreshArray⟩ := withRef_array w h c
  have hold : ∀ r < w.freshRef, (withRef w h c).ref r = w.ref r := by
    intro r hr
    rw [withRef_ref, update_of_ne (ne_of_lt hr)]
  have hown : (w.ctrl c).handler = h → ((withRef w h c).ctrl c).cluster = .ref w.freshRef := by
    intro howner
    simp [withRef, howner, World.setCtrl]
  have hnew : ((withRef w h c).ref w.freshRef).ctrl = c := by rw [withRef_ref, update_self]
  have hfreshRef : w.freshRef < (withRef w h c).freshRef := by
    rw [withRef_freshRef]
    exact Nat.lt_succ_self _
  rcases hinv.insertRef_cases herr with ⟨-, heq⟩ | ⟨-, refs, heq, hat⟩ <;> rw [heq]
  · have hhdl := refusedRef_hdl w h c
    refine ⟨harray, hfreshArray, fun c' => withRef_cluster w h, ?_, ?_, ?_, hown, ?_⟩
    · intro r hr
      change update (withRef w h c).ref w.freshRef _ r = _
      rw [update_of_ne (ne_of_lt hr), hold r hr]
    · intro h' r hr
      rwa [hhdl]
    · intro h' r hr
      rw [hhdl] at hr
      exact .inl hr
    · refine ⟨?_, hfreshRef⟩
      change (update (withRef w h c).ref w.freshRef _ w.freshRef).ctrl = c
      rw [update_self]
      exact hnew
  · obtain ⟨before, after, hsplit, rfl, -, -⟩ := hat
    refine ⟨harray, hfreshArray, fun c' => withRef_cluster w h, hold, ?_, ?_, hown, hnew, hfreshRef⟩
    · intro h' r hr
      rcases eq_or_ne h' h with rfl | hne
      · rw [hsplit] at hr
        rw [insertedRef_hdl_self]
        simp only [mem_append, mem_cons] at hr ⊢
        tauto
      · rwa [insertedRef_hdl_other w c _ hne]
    · intro h' r hr
      rcases eq_or_ne h' h with rfl | hne
      · rw [insertedRef_hdl_self] at hr
        simp only [mem_append, mem_cons] at hr
        rcases eq_or_ne r w.freshRef with rfl | hoth
        · right
          change (withRef w h' c).ref w.freshRef = _
          rw [withRef_ref, update_self]
        · left
          rw [hsplit, mem_append]
          tauto
      · rw [insertedRef_hdl_other w c _ hne] at hr
        exact .inl hr

section

variable (hclusters : ClustersInv w) (hinv : WorldInv w)
include hclusters hinv

theorem ClustersInv.insertRef (herr : (w.hdl h).error = 0) (hc : c < w.freshCtrl)
    (hvalid : ValidId (w.ctrl c).id) (hclass : ClassReady w h (w.ctrl c).id)
    (hoth : ¬ w.owned c ∨ (w.ctrl c).handler ≠ h) : ClustersInv (insertRef w h c true).2 := by
  obtain ⟨hgrows, hinv', hctrls⟩ := hinv.insertRef herr hc hvalid hclass
  have hins := (hinv.handlers h).insertRef_inserted (c := c) herr
  have hsame : ClustersSame w (Ctrls.insertRef w h c true).2 := by
    refine ⟨hctrls, hins.kept, ?_, hins.array, hins.freshArray⟩
    intro c' howned
    have hne : c' ≠ c ∨ (w.ctrl c).handler ≠ h := by
      rcases hoth with hnot | hforeign
      · exact .inl fun heq => hnot (heq ▸ howned)
      · exact .inr hforeign
    rw [hins.other c' hne]
    exact ⟨rfl, rfl⟩
  refine hclusters.same hinv hgrows hsame ?_
  intro h' r hr
  rcases hins.added h' r hr with hr | href
  · rw [hins.old r ((hinv.handlers h').allocated r hr).1]
    exact hclusters.unfreed h' r hr
  · rw [href]

theorem ClustersInv.same_refs (hgrows : Grows w w')
    (hctrls : ∀ h, (w'.hdl h).ctrls = (w.hdl h).ctrls)
    (hctrlRefs : ∀ h, (w'.hdl h).ctrlRefs = (w.hdl h).ctrlRefs)
    (hclus : ∀ c, w.owned c → (w'.ctrl c).cluster = (w.ctrl c).cluster ∧
      (w'.ctrl c).ncontrols = (w.ctrl c).ncontrols) (href : w'.ref = w.ref)
    (harray : w'.array = w.array) (hfresh : w'.freshArray = w.freshArray) : ClustersInv w' := by
  refine hclusters.same hinv hgrows ⟨hctrls, ?_, hclus, harray, hfresh⟩ ?_
  · intro h r hr
    rwa [hctrlRefs]
  intro h r hr
  rw [hctrlRefs] at hr
  rw [href]
  exact hclusters.unfreed h r hr

omit hinv in
theorem ClustersInv.append (hlive : LiveCluster w h c)
    (hone : ∀ r, (w.ctrl c).cluster = .ref r → (w.ctrl c).ncontrols = 1) :
    ClustersInv (appended w h c) := by
  have hliveIff : ∀ h' c', LiveCluster (appended w h c) h' c' ↔ LiveCluster w h' c' := by
    intro h' c'
    unfold LiveCluster
    rw [appended_ctrlRefs]
    rfl
  constructor
  · intro h' r hr
    rw [appended_ctrlRefs] at hr
    exact hclusters.unfreed h' r hr
  · intro h' c' hc'
    rw [hliveIff]
    rcases mem_appended_ctrls.mp hc' with hc' | ⟨rfl, rfl⟩
    · exact hclusters.live h' c' hc'
    · exact hlive
  · intro h' c' hc'
    rcases mem_appended_ctrls.mp hc' with hc' | ⟨rfl, rfl⟩
    · exact hclusters.single h' c' hc'
    · exact hone
  · intro a ha
    obtain ⟨hhead, hmems⟩ := hclusters.arrays a ha
    refine ⟨hhead, fun c' hc' => ?_⟩
    obtain ⟨howned, hrest⟩ := hmems c' hc'
    exact ⟨mem_appended_ctrls.mpr (.inl howned), hrest⟩

theorem ClustersInv.attach (herr : (w.hdl h).error = 0) (hc : c < w.freshCtrl)
    (howner : (w.ctrl c).handler = h) (hnew : c ∉ (w.hdl h).ctrls) (hvalid : ValidId (w.ctrl c).id)
    (hclass : ClassReady w h (w.ctrl c).id) (hnot : ¬ Listed w h (w.ctrl c).id) :
    ClustersInv (appended (Ctrls.insertRef w h c true).2 h c) := by
  have hunowned : ¬ w.owned c := by rwa [owned, howner]
  have hkept := hclusters.insertRef hinv herr hc hvalid hclass (.inl hunowned)
  rcases (hinv.handlers h).insertRef_cases herr with ⟨hlist, -⟩ | ⟨-, refs, heq, hat⟩
  · exact absurd hlist hnot
  rw [heq] at hkept ⊢
  obtain ⟨before, after, -, hrefs, -, -⟩ := hat
  have hclus : ((insertedRef w h c refs).ctrl c).cluster = .ref w.freshRef ∧
      ((insertedRef w h c refs).ctrl c).ncontrols = 1 := by
    simp [insertedRef, withRef, howner, setHdl, World.setCtrl]
  have hlive : LiveCluster (insertedRef w h c refs) h c := by
    refine .inl ⟨w.freshRef, ?_, hclus.1, ?_⟩
    · rw [insertedRef_hdl_self, hrefs]
      simp
    · change ((withRef w h c).ref w.freshRef).ctrl = c
      rw [withRef_ref, update_self]
  exact hkept.append hlive fun _ _ => hclus.2

end

theorem handlerSetErr_array (w : World) (h : Nat) (err : Int) :
    (handlerSetErr w h err).array = w.array ∧
      (handlerSetErr w h err).freshArray = w.freshArray := by
  unfold handlerSetErr
  split_ifs <;> exact ⟨rfl, rfl⟩

theorem ClustersInv.cluster (hclusters : ClustersInv w) {controls : List (Option Nat)}
    (howned : ∀ c, some c ∈ controls → w.owned c)
    (hclean : ∀ c, some c ∈ controls → ∃ r, (w.ctrl c).cluster = .ref r)
    (heq : v4l2CtrlCluster w controls = some w') : ClustersInv w' := by
  obtain ⟨⟨m, rest, hhead⟩, rfl⟩ := v4l2CtrlCluster_eq heq
  refine ⟨hclusters.unfreed, ?_, ?_, ?_⟩
  · intro h c hc
    unfold LiveCluster
    dsimp only
    by_cases hin : some c ∈ controls
    · right
      refine ⟨w.freshArray, Nat.lt_succ_self _, by rw [if_pos hin], ?_⟩
      rwa [update_self]
    rw [if_neg hin]
    rcases hclusters.live h c hc with hlive | ⟨a, ha, hclus, hmem⟩
    · exact .inl hlive
    · refine .inr ⟨a, Nat.lt_succ_of_lt ha, hclus, ?_⟩
      rwa [update_of_ne (ne_of_lt ha)]
  · intro h c hc r
    dsimp only
    split_ifs with hin
    · intro hbad
      simp at hbad
    · exact hclusters.single h c hc r
  · intro a ha
    unfold SharedArray owned
    dsimp only
    rcases Nat.lt_succ_iff_lt_or_eq.mp ha with ha | rfl
    · rw [update_of_ne (ne_of_lt ha)]
      obtain ⟨hhead', hmems⟩ := hclusters.arrays a ha
      refine ⟨hhead', ?_⟩
      intro c hc
      have hout : some c ∉ controls := by
        intro hin
        obtain ⟨r, hr⟩ := hclean c hin
        rw [(hmems c hc).2.1] at hr
        simp at hr
      rw [if_neg hout]
      exact hmems c hc
    · rw [update_self]
      refine ⟨⟨m, rest, hhead⟩, ?_⟩
      intro c hc
      rw [if_pos hc]
      exact ⟨howned c hc, rfl, rfl⟩

theorem Prim.clusters (hstep : Prim true w w') (hinv : WorldInv w) (hclusters : ClustersInv w) :
    ClustersInv w' := by
  have hgrows := (hstep.inv hinv).1
  cases hstep with
  | fail h err herr =>
    obtain ⟨hctrl, href, -⟩ := handlerSetErr_ctrl w h err
    have hsame := fun h' => handlerSetErr_same w h h' herr
    obtain ⟨harray, hfresh⟩ := handlerSetErr_array w h err
    exact hclusters.same_refs hinv hgrows (fun h' => (hsame h').2)
      (fun h' => (hsame h').1.ctrlRefs) (fun c _ => by rw [hctrl]; exact ⟨rfl, rfl⟩) href harray
      hfresh
  | @cache h r hr =>
    refine hclusters.same_refs hinv hgrows ?_ ?_ (fun _ _ => ⟨rfl, rfl⟩) rfl rfl rfl <;>
      intro h' <;> rcases eq_or_ne h' h with rfl | hne
    · simp [setHdl]
    · simp [setHdl, hne]
    · simp [setHdl]
    · simp [setHdl, hne]
  | make h p hsane =>
    refine hclusters.same_refs hinv hgrows (fun _ => rfl) (fun _ => rfl) ?_ rfl rfl rfl
    intro c howned
    rw [(made_untouched w hinv h p fun _ => True).ctrl c (hinv.owned _ c howned).1]
    exact ⟨rfl, rfl⟩
  | attach herr hc howner hnew hvalid hclass hclean =>
    exact hclusters.attach hinv herr hc howner hnew hvalid hclass (hclean rfl)
  | @adopt h c herr howned hforeign hclass =>
    obtain ⟨hc, -, hvalid⟩ := hinv.owned _ c howned
    exact hclusters.insertRef hinv herr hc hvalid hclass (.inr hforeign)
  | adjust ctrl hsame =>
    exact hclusters.same_refs hinv hgrows (fun _ => rfl) (fun _ => rfl)
      (fun c _ => (hsame c).2.2) rfl rfl rfl
  | cluster howned hclean heq => exact hclusters.cluster howned (hclean rfl) heq

theorem Path.clusters (hpath : Path true w w') (hinv : WorldInv w) (hclusters : ClustersInv w) :
    ClustersInv w' := by
  induction hpath with
  | refl => exact hclusters
  | tail hpath hstep ih => exact hstep.clusters (Path.inv hpath hinv).2 ih

end Keep

section Masters

variable {w : World} (hclusters : ClustersInv w)

include hclusters

theorem ClustersInv.masterOf_cases (hc : c ∈ (w.hdl h).ctrls) :
    (∃ r, (w.ctrl c).cluster = .ref r ∧ masterOf w c = some c ∧ membersOf w c = some [c]) ∨
      ∃ a m, a < w.freshArray ∧ (w.ctrl c).cluster = .array a ∧ some c ∈ w.array a ∧
        some m ∈ w.array a ∧ masterOf w c = some m ∧
        membersOf w m = some ((w.array a).filterMap id) := by
  rcases hclusters.live h c hc with ⟨r, hr, hclus, href⟩ | ⟨a, ha, hclus, hin⟩
  · have hunfreed := hclusters.unfreed h r hr
    have hone := hclusters.single h c hc r hclus
    left
    refine ⟨r, hclus, ?_, ?_⟩
    · simp [masterOf, clusterOf, hclus, hunfreed, href]
    · simp [membersOf, clusterOf, hclus, hunfreed, href, hone]
  · obtain ⟨⟨m, rest, hhead⟩, hmems⟩ := hclusters.arrays a ha
    have hm : some m ∈ w.array a := by simp [hhead]
    obtain ⟨-, hmaster, hncontrols⟩ := hmems m hm
    right
    refine ⟨a, m, ha, hclus, hin, hm, ?_, ?_⟩
    · simp [masterOf, clusterOf, hclus, hhead]
    · simp [membersOf, clusterOf, hmaster, hncontrols]

/-- The members of a master's cluster are the controls that have this master. -/
theorem ClustersInv.members (hc : c ∈ (w.hdl h).ctrls) :
    ∃ m members, masterOf w c = some m ∧ membersOf w m = some members ∧
      ∀ c', w.owned c' → (c' ∈ members ↔ masterOf w c' = some m) := by
  rcases hclusters.masterOf_cases hc with
    ⟨r, hclus, hmaster, hmems⟩ | ⟨a, m, ha, hclus, hin, hm, hmaster, hmems⟩
  · refine ⟨c, [c], hmaster, hmems, fun c' howned => ?_⟩
    rw [mem_singleton]
    constructor
    · rintro rfl
      exact hmaster
    intro hsame
    rcases hclusters.masterOf_cases howned with
      ⟨-, -, hself, -⟩ | ⟨a, m, ha, -, -, hm, hmaster', -⟩
    · exact Option.mem_unique hself hsame
    · obtain rfl : m = c := Option.mem_unique hmaster' hsame
      rw [((hclusters.arrays a ha).2 m hm).2.1] at hclus
      simp at hclus
  · refine ⟨m, _, hmaster, hmems, fun c' howned => ?_⟩
    have hmcluster := ((hclusters.arrays a ha).2 m hm).2.1
    rw [mem_filterMap]
    simp only [id, exists_eq_right]
    constructor
    · intro hin'
      have hclus' := ((hclusters.arrays a ha).2 c' hin').2.1
      simpa [masterOf, clusterOf, hclus, hclus'] using hmaster
    intro hsame
    rcases hclusters.masterOf_cases howned with
      ⟨r, hclus', hself, -⟩ | ⟨a', m', ha', -, hin', hm', hmaster', -⟩
    · obtain rfl : c' = m := Option.mem_unique hself hsame
      rw [hmcluster] at hclus'
      simp at hclus'
    · obtain rfl : m' = m := Option.mem_unique hmaster' hsame
      have hsameArray := ((hclusters.arrays a' ha').2 m' hm').2.1
      rw [hmcluster] at hsameArray
      obtain rfl := ClusterPtr.array.inj hsameArray
      exact hin'

end Masters

section Setup

/-- The worlds that `v4l2_ctrl_handler_setup` goes through: only marks and new
values change. -/
structure SameShape (w w' : World) : Prop where
  ctrl : ∀ c, ∃ new isNew done,
    w'.ctrl c = { w.ctrl c with new := new, isNew := isNew, done := done }
  ref : w'.ref = w.ref
  array : w'.array = w.array

variable {w : World} {visited : Nat → Prop}

theorem SameShape.clusterOf (hsame : SameShape w w') (c : Nat) :
    clusterOf w' c = Ctrls.clusterOf w c := by
  obtain ⟨new, isNew, done, heq⟩ := hsame.ctrl c
  unfold Ctrls.clusterOf
  rw [heq, hsame.ref, hsame.array]

theorem SameShape.masterOf (hsame : SameShape w w') (c : Nat) :
    masterOf w' c = Ctrls.masterOf w c := by
  rw [Ctrls.masterOf, hsame.clusterOf, Ctrls.masterOf]

theorem SameShape.membersOf (hsame : SameShape w w') (m : Nat) :
    membersOf w' m = Ctrls.membersOf w m := by
  obtain ⟨new, isNew, done, heq⟩ := hsame.ctrl m
  rw [Ctrls.membersOf, hsame.clusterOf, heq, Ctrls.membersOf]

def marked (w : World) (members : List Nat) : World :=
  { w with ctrl := fun c => if c ∈ members then
    { curToNew (w.ctrl c) with isNew := true, done := true } else w.ctrl c }

theorem SameShape.marked (hsame : SameShape w w') (members : List Nat) :
    SameShape w (marked w' members) := by
  refine ⟨fun c => ?_, hsame.ref, hsame.array⟩
  obtain ⟨new, isNew, done, heq⟩ := hsame.ctrl c
  simp only [Ctrls.marked, heq]
  split_ifs
  all_goals exact ⟨_, _, _, rfl⟩

theorem marked_done (w : World) (members : List Nat) (c : Nat) :
    ((marked w members).ctrl c).done = true ↔ c ∈ members ∨ (w.ctrl c).done = true := by
  unfold marked
  dsimp only
  split_ifs with hin <;> simp [hin]

def NeedsSetup (ctrl : Ctrl) : Prop := ctrl.type ≠ .button ∧ hasFlag ctrl.flags flagReadOnly = false

instance (ctrl : Ctrl) : Decidable (NeedsSetup ctrl) :=
  inferInstanceAs (Decidable (ctrl.type ≠ .button ∧ hasFlag ctrl.flags flagReadOnly = false))

/-- A master whose `s_ctrl` has to be called for one of these controls. -/
def Wanted (w : World) (visited : Nat → Prop) (cs : List Nat) (m : Nat) : Prop :=
  ¬ visited m ∧ (w.ctrl m).ops.sCtrl = true ∧
    ∃ c ∈ cs, masterOf w c = some m ∧ NeedsSetup (w.ctrl c)

variable {m : Nat}

theorem wanted_skip (hmaster : masterOf w c = some m) (hskip : visited m ∨ ¬ NeedsSetup (w.ctrl c))
    (rest : List Nat) (m' : Nat) : Wanted w visited (c :: rest) m' ↔ Wanted w visited rest m' := by
  apply and_congr_right
  intro hnot
  apply and_congr_right
  intro _
  rw [exists_mem_cons_iff]
  refine ⟨fun hor => hor.resolve_left ?_, .inr⟩
  rintro ⟨hm', hneeds⟩
  obtain rfl : m = m' := Option.mem_unique hmaster hm'
  rcases hskip with hvisited | hnone
  · exact hnot hvisited
  · exact hnone hneeds

theorem wanted_visit (hmaster : masterOf w c = some m) (hm : ¬ visited m)
    (hneeds : NeedsSetup (w.ctrl c)) (rest : List Nat) (m' : Nat) :
    Wanted w visited (c :: rest) m' ↔
      m' = m ∧ (w.ctrl m).ops.sCtrl = true ∨ Wanted w (fun m' => m' = m ∨ visited m') rest m' := by
  constructor
  · rintro ⟨hnot, hops, c', hc', hmaster', hneeds'⟩
    rcases eq_or_ne m' m with rfl | hne
    · exact .inl ⟨rfl, hops⟩
    refine .inr ⟨not_or.mpr ⟨hne, hnot⟩, hops, c', ?_, hmaster', hneeds'⟩
    rcases mem_cons.mp hc' with rfl | hc'
    · exact absurd (Option.mem_unique hmaster' hmaster) hne
    · exact hc'
  · rintro (⟨rfl, hops⟩ | ⟨hnot, hops, c', hc', hrest⟩)
    · exact ⟨hm, hops, c, mem_cons_self, hmaster, hneeds⟩
    · exact ⟨fun hvisited => hnot (.inr hvisited), hops, c', mem_cons_of_mem c hc', hrest⟩

theorem SameShape.setupLoop_cons (hsame : SameShape w w') (sCtrl : Nat → Int) {members : List Nat}
    (hmaster : Ctrls.masterOf w c = some m) (hmems : Ctrls.membersOf w m = some members)
    (rest calls : List Nat) :
    setupLoop sCtrl (c :: rest) calls w' =
      if (w'.ctrl c).done = true ∨ ¬ NeedsSetup (w.ctrl c) then setupLoop sCtrl rest calls w'
      else if (w.ctrl m).ops.sCtrl = false then setupLoop sCtrl rest calls (Ctrls.marked w' members)
      else if sCtrl calls.length ≠ 0 then
        some (sCtrl calls.length, calls ++ [m], Ctrls.marked w' members)
      else setupLoop sCtrl rest (calls ++ [m]) (Ctrls.marked w' members) := by
  obtain ⟨new, isNew, done, heq⟩ := hsame.ctrl c
  obtain ⟨new', isNew', done', heq'⟩ := (hsame.marked members).ctrl m
  have hskip : ((w'.ctrl c).done || (w'.ctrl c).type = .button ||
      hasFlag (w'.ctrl c).flags flagReadOnly) = true ↔
      (w'.ctrl c).done = true ∨ ¬ NeedsSetup (w.ctrl c) := by
    simp only [heq, NeedsSetup, Bool.or_eq_true, decide_eq_true_eq, not_and_or, not_not,
      Bool.not_eq_false, or_assoc]
  have hops : ((Ctrls.marked w' members).ctrl m).ops = (w.ctrl m).ops := by rw [heq']
  rw [setupLoop, hsame.masterOf, hmaster]
  dsimp only
  rw [hsame.membersOf, hmems, if_congr hskip rfl rfl]
  change (if _ then _ else if ((Ctrls.marked w' members).ctrl m).ops.sCtrl = true then _ else _) = _
  rw [hops]
  cases (w.ctrl m).ops.sCtrl <;> rfl

/-- The loop calls a master's `s_ctrl` at most once, and if no call fails once for
each master not visited before. The induction is on the controls left, with the
masters visited so far. -/
theorem ClustersInv.setupLoop_spec (hclusters : ClustersInv w) (sCtrl : Nat → Int) (cs : List Nat)
    (hcs : ∀ c ∈ cs, w.owned c) (calls : List Nat) (visited : Nat → Prop) (hsame : SameShape w w')
    (hdone : ∀ c ∈ cs, ∀ m, masterOf w c = some m → ((w'.ctrl c).done = true ↔ visited m)) :
    ∃ ret called w'', setupLoop sCtrl cs calls w' = some (ret, calls ++ called, w'') ∧
      called.Nodup ∧ (∀ m ∈ called, ¬ visited m) ∧
      ((∀ n, sCtrl n = 0) → ret = 0 ∧ ∀ m, m ∈ called ↔ Wanted w visited cs m) := by
  induction cs generalizing calls visited w' with
  | nil => exact ⟨0, [], w', by simp [setupLoop], by simp, by simp, by simp [Wanted]⟩
  | cons c rest ih =>
    obtain ⟨howned, hrest⟩ := forall_mem_cons.mp hcs
    obtain ⟨hdone0, hdone'⟩ := forall_mem_cons.mp hdone
    obtain ⟨m, members, hmaster, hmems, hiff⟩ := hclusters.members howned
    have hcdone := hdone0 m hmaster
    rw [hsame.setupLoop_cons sCtrl hmaster hmems]
    split
    · rename_i hskip
      obtain ⟨ret, called, w'', heq, hnodup, hfresh, hall⟩ := ih hrest calls visited hsame hdone'
      refine ⟨ret, called, w'', heq, hnodup, hfresh, fun hzero => ⟨(hall hzero).1, fun m' => ?_⟩⟩
      rw [(hall hzero).2 m', wanted_skip hmaster (hskip.imp_left hcdone.mp)]
    rename_i hskip
    obtain ⟨hndone, hneeds⟩ := not_or.mp hskip
    have hneeds := not_not.mp hneeds
    have hm : ¬ visited m := fun hvisited => hndone (hcdone.mpr hvisited)
    have hmark : ∀ c' ∈ rest, ∀ m', masterOf w c' = some m' →
        (((marked w' members).ctrl c').done = true ↔ m' = m ∨ visited m') := by
      intro c' hc' m' hm'
      rw [marked_done, hiff c' (hrest c' hc'), hdone' c' hc' m' hm', hm', Option.some.injEq]
    have ih' := fun calls => ih hrest calls (fun m' => m' = m ∨ visited m') (hsame.marked members)
      hmark
    split
    · rename_i hops
      obtain ⟨ret, called, w'', heq, hnodup, hfresh, hall⟩ := ih' calls
      refine ⟨ret, called, w'', heq, hnodup, fun m' hm' => (not_or.mp (hfresh m' hm')).2,
        fun hzero => ⟨(hall hzero).1, fun m' => ?_⟩⟩
      rw [(hall hzero).2 m', wanted_visit hmaster hm hneeds]
      simp [hops]
    rename_i hops
    split
    · rename_i hret
      refine ⟨_, [m], _, rfl, by simp, ?_, fun hzero => absurd (hzero _) hret⟩
      intro m' hm'
      rwa [mem_singleton.mp hm']
    obtain ⟨ret, called, w'', heq, hnodup, hfresh, hall⟩ := ih' (calls ++ [m])
    refine ⟨ret, m :: called, w'', ?_, ?_, ?_, fun hzero => ⟨(hall hzero).1, fun m' => ?_⟩⟩
    · rw [heq, append_assoc, singleton_append]
    · exact nodup_cons.mpr ⟨fun hin => hfresh m hin (.inl rfl), hnodup⟩
    · intro m' hm'
      rcases mem_cons.mp hm' with rfl | hm'
      · exact hm
      · exact (not_or.mp (hfresh m' hm')).2
    · rw [mem_cons, (hall hzero).2 m', wanted_visit hmaster hm hneeds]
      simp [hops]

theorem ClustersInv.setup (hclusters : ClustersInv w) (hinv : WorldInv w) (h : Nat)
    (sCtrl : Nat → Int) :
    ∃ ret calls w', v4l2CtrlHandlerSetup w h sCtrl = some (ret, calls, w') ∧ calls.Nodup ∧
      ((∀ n, sCtrl n = 0) → ret = 0 ∧
        ∀ m, m ∈ calls ↔ Wanted w (fun _ => False) (w.hdl h).ctrls m) := by
  let w0 : World := { w with ctrl := fun c =>
    if c ∈ (w.hdl h).ctrls then { w.ctrl c with done := false } else w.ctrl c }
  have hsame : SameShape w w0 := by
    refine ⟨fun c => ?_, rfl, rfl⟩
    change ∃ _ _ _, (if c ∈ (w.hdl h).ctrls then { w.ctrl c with done := false } else w.ctrl c) = _
    split_ifs
    all_goals exact ⟨_, _, _, rfl⟩
  have hdone : ∀ c ∈ (w.hdl h).ctrls, ∀ m, masterOf w c = some m →
      ((w0.ctrl c).done = true ↔ False) := by
    intro c hc m _
    change (if c ∈ (w.hdl h).ctrls then { w.ctrl c with done := false } else w.ctrl c).done =
      true ↔ _
    rw [if_pos hc]
    simp
  obtain ⟨ret, called, w', heq, hnodup, -, hall⟩ := hclusters.setupLoop_spec sCtrl (w.hdl h).ctrls
    (fun c hc => hinv.owned_of_mem hc) [] (fun _ => False) hsame hdone
  exact ⟨ret, called, w', heq, hnodup, hall⟩

end Setup

/-- Every control of a handler has a live cluster; setting up a handler follows
live pointers only, and if no call fails it calls `s_ctrl` once for each cluster
with a control that needs it. -/
structure LiveClusters (w : World) : Prop where
  live : ∀ h, ∀ c ∈ (w.hdl h).ctrls, LiveCluster w h c
  followed : ∀ h sCtrl, v4l2CtrlHandlerSetup w h sCtrl ≠ none
  once : ∀ h, ∃ calls w', v4l2CtrlHandlerSetup w h (fun _ => 0) = some (0, calls, w') ∧
    ∀ m, calls.count m = if (w.ctrl m).ops.sCtrl = true ∧
      (∃ c ∈ (w.hdl h).ctrls, masterOf w c = some m ∧ NeedsSetup (w.ctrl c)) then 1 else 0

theorem ClustersInv.liveClusters {w : World} (hclusters : ClustersInv w) (hinv : WorldInv w) :
    LiveClusters w := by
  refine ⟨hclusters.live, ?_, ?_⟩
  · intro h sCtrl
    obtain ⟨ret, calls, w', heq, -, -⟩ := hclusters.setup hinv h sCtrl
    rw [heq]
    simp
  intro h
  obtain ⟨ret, calls, w', heq, hnodup, hall⟩ := hclusters.setup hinv h fun _ => 0
  obtain ⟨rfl, hwanted⟩ := hall fun _ => rfl
  refine ⟨calls, w', heq, fun m => ?_⟩
  have hiff := hwanted m
  simp only [Wanted, not_false_eq_true, true_and] at hiff
  rw [List.Nodup.count hnodup]
  simp [hiff]

theorem initWorld_clusters (hints : Nat → Nat) (kzalloc : Nat → Bool) :
    ClustersInv (initWorld hints kzalloc) := by
  refine ⟨?_, ?_, ?_, ?_⟩ <;> simp [initWorld, v4l2CtrlHandlerInit]

/-- In a run of clean calls every cluster stays live. -/
theorem clusters_live (tables : Tables) (hints : Nat → Nat) (kzalloc : Nat → Bool)
    (calls : List Call) (hclean : Along (callStep tables) CleanCall (initWorld hints kzalloc) calls)
    : Always (callStep tables) LiveClusters (initWorld hints kzalloc) calls := by
  refine Along.always (fun w => WorldInv w ∧ ClustersInv w) ?_ ?_
    ⟨initWorld_inv hints kzalloc, initWorld_clusters hints kzalloc⟩ hclean
  · intro w call w' hinv hstep hcall
    have hpath : Path true w w' := callStep_path tables hinv.1 hstep fun _ => hcall
    exact ⟨(Path.inv hpath hinv.1).2, Path.clusters hpath hinv.1 hinv.2⟩
  · intro w hinv
    exact hinv.2.liveClusters hinv.1

/-- An integer control with an `s_ctrl`. -/
def newInteger (id : UInt32) : Call := .newStd 0 ⟨false, false, true⟩ id ⟨0, 255, 1, 127⟩ allGranted

def clusteredPair : List Call :=
  [newInteger 0x00980900, newInteger 0x00980901, .cluster [some 0, some 2]]

theorem clusters_live_brightness :
    Along (callStep plainTables) CleanCall (initWorld (fun _ => 16) fun _ => true) clusteredPair ∧
      Always (callStep plainTables) LiveClusters (initWorld (fun _ => 16) fun _ => true)
        clusteredPair := by
  have halong : Along (callStep plainTables) CleanCall (initWorld (fun _ => 16) fun _ => true)
      clusteredPair := by
    intro w hw
    cases hw
    refine ⟨by unfold CleanCall Listed newInteger; decide +kernel, ?_⟩
    intro w hw
    cases hw
    refine ⟨by unfold CleanCall Listed newInteger; decide +kernel, ?_⟩
    intro w _
    refine ⟨?_, trivial⟩
    intro c hc
    obtain rfl | rfl : c = 0 ∨ c = 2 := by simpa using hc
    · exact ⟨1, by decide +kernel⟩
    · exact ⟨2, by decide +kernel⟩
  exact ⟨halong, clusters_live plainTables _ _ _ halong⟩

def danglingCtrl (w : World) (h c : Nat) : Bool :=
  match (w.ctrl c).cluster with
  | .ref r => r ∉ (w.hdl h).ctrlRefs
  | _ => false

theorem not_live_of_dangling {w : World} (hdangling : danglingCtrl w h c = true) :
    ¬ LiveCluster w h c := by
  unfold danglingCtrl at hdangling
  rintro (⟨r, hr, hclus, -⟩ | ⟨a, -, hclus, -⟩)
  · rw [hclus] at hdangling
    simp [hr] at hdangling
  · rw [hclus] at hdangling
    simp at hdangling

/-- A second control under the same id keeps a cluster pointer into a reference
that has been freed, and setting up the handler follows it. Clusters that share
a control make it call `s_ctrl` twice for one of them. -/
theorem duplicate_and_shared_controls :
    (∃ w, built [newInteger 0x00980900, newInteger 0x00980900] = some w ∧
      (∃ c ∈ (w.hdl 0).ctrls, ¬ LiveCluster w 0 c) ∧
      v4l2CtrlHandlerSetup w 0 (fun _ => 0) = none) ∧
      ∃ w, built [newInteger 0x00980900, newInteger 0x00980901, newInteger 0x00980902,
          newInteger 0x00980903, .cluster [some 0, some 2, some 3],
          .cluster [some 4, some 0]] = some w ∧
        ∃ w', v4l2CtrlHandlerSetup w 0 (fun _ => 0) = some (0, [4, 0, 0], w') := by
  constructor
  · refine exists_of_run (fun w => (∃ c ∈ (w.hdl 0).ctrls, danglingCtrl w 0 c) ∧
      (v4l2CtrlHandlerSetup w 0 fun _ => 0).isNone) (by decide +kernel) ?_
    rintro w ⟨⟨c, hc, hdangling⟩, hnone⟩
    exact ⟨⟨c, hc, not_live_of_dangling hdangling⟩, Option.isNone_iff_eq_none.mp hnone⟩
  · refine exists_of_run (fun w => ∃ out ∈ v4l2CtrlHandlerSetup w 0 fun _ => 0,
      out.1 = 0 ∧ out.2.1 = [4, 0, 0]) (by decide +kernel) ?_
    rintro w ⟨⟨ret, calls, w'⟩, hsetup, rfl, rfl⟩
    exact ⟨w', hsetup⟩

end TbsMedia.Ctrls
