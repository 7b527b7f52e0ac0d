import TbsMedia.Ctrls.Clusters
import TbsMedia.Ctrls.ExtCtrls
import TbsMedia.Lib.IndexChains

/-!
How `prepare_ext_ctrls` groups a list of extended controls by cluster: entries
with one master are chained, if some listed control is in a cluster of several.
-/

namespace TbsMedia.Ctrls

open Lib Function List World

variable {w w' : World}

section Masters

/-- Listed controls and members of clusters are controls of some handler, and a
control with a cluster of its own is its only member. -/
structure MastersInv (w : World) : Prop where
  listed : ∀ h, ∀ r ∈ (w.hdl h).ctrlRefs, w.owned (w.ref r).ctrl
  members : ∀ a c, some c ∈ w.array a → w.owned c
  single : ∀ c, w.owned c → ∀ r, (w.ctrl c).cluster = .ref r → r < w.freshRef ∧ (w.ref r).ctrl = c

theorem Prim.owned {clean : Bool} (hstep : Prim clean w w') (hinv : WorldInv w) {c : Nat}
    (howned : w.owned c) : w'.owned c :=
  (Path.owned (.single hstep) hinv howned).1

section

variable {w w' : World} (hmasters : MastersInv w) (hinv : WorldInv w) (hgrows : Grows w w')
include hmasters hinv hgrows

theorem MastersInv.same (howned : ∀ c, w'.owned c ↔ w.owned c)
    (hctrlRefs : ∀ h, (w'.hdl h).ctrlRefs = (w.hdl h).ctrlRefs)
    (hclus : ∀ c, w.owned c → (w'.ctrl c).cluster = (w.ctrl c).cluster)
    (harray : w'.array = w.array) : MastersInv w' := by
  constructor
  · intro h r hr
    rw [hctrlRefs] at hr
    rw [howned, hgrows.ref r ((hinv.handlers h).allocated r hr).1]
    exact hmasters.listed h r hr
  · intro a c hc
    rw [harray] at hc
    exact (howned c).mpr (hmasters.members a c hc)
  · intro c hc r hr
    rw [howned] at hc
    rw [hclus c hc] at hr
    obtain ⟨hlt, href⟩ := hmasters.single c hc r hr
    exact ⟨hlt.trans_le hgrows.freshRef, (hgrows.ref r hlt).trans href⟩

theorem MastersInv.inserted {h c : Nat} (hins : Inserted w w' h c) {w'' : World}
    (hctrlRefs : ∀ h, (w''.hdl h).ctrlRefs = (w'.hdl h).ctrlRefs) (hctrl : w''.ctrl = w'.ctrl)
    (href : w''.ref = w'.ref) (harray : w''.array = w'.array)
    (hfreshRef : w''.freshRef = w'.freshRef) (howned : ∀ c', w''.owned c' ↔ w.owned c' ∨ c' = c)
    (hclus : w.owned c → (w.ctrl c).handler ≠ h) (hown : ¬ w.owned c → (w.ctrl c).handler = h) :
    MastersInv w'' := by
  constructor
  · intro h' r hr
    rw [hctrlRefs] at hr
    rw [href, howned]
    rcases hins.added h' r hr with hr | heq
    · rw [hgrows.ref r ((hinv.handlers h').allocated r hr).1]
      exact .inl (hmasters.listed h' r hr)
    · rw [heq]
      exact .inr rfl
  · intro a c' hc'
    rw [harray, hins.array] at hc'
    exact (howned c').mpr (.inl (hmasters.members a c' hc'))
  · intro c' hc' r hr
    rw [hctrl] at hr
    rw [href, hfreshRef]
    by_cases hold : w.owned c'
    · have hoth : c' ≠ c ∨ (w.ctrl c).handler ≠ h := by
        by_cases hne : c' = c
        · exact .inr (hclus (hne ▸ hold))
        · exact .inl hne
      rw [hins.other c' hoth] at hr
      obtain ⟨hlt, heq⟩ := hmasters.single c' hold r hr
      exact ⟨hlt.trans_le hgrows.freshRef, (hgrows.ref r hlt).trans heq⟩
    · obtain rfl : c' = c := ((howned c').mp hc').resolve_left hold
      rw [hins.own (hown hold)] at hr
      obtain rfl := ClusterPtr.ref.inj hr
      exact ⟨hins.new.2, hins.new.1⟩

end

theorem owned_congr (hinv : WorldInv w) (hinv' : WorldInv w')
    (hctrls : ∀ h, (w'.hdl h).ctrls = (w.hdl h).ctrls) (c : Nat) : w'.owned c ↔ w.owned c := by
  constructor
  · intro howned
    unfold owned at howned
    rw [hctrls] at howned
    exact hinv.owned_of_mem howned
  · intro howned
    unfold owned at howned
    rw [← hctrls] at howned
    exact hinv'.owned_of_mem howned

theorem MastersInv.attach (hmasters : MastersInv w) (hinv : WorldInv w) {h c : Nat}
    (herr : (w.hdl h).error = 0) (hc : c < w.freshCtrl) (howner : (w.ctrl c).handler = h)
    (hnew : c ∉ (w.hdl h).ctrls) (hvalid : ValidId (w.ctrl c).id)
    (hclass : ClassReady w h (w.ctrl c).id) :
    MastersInv (appended (insertRef w h c true).2 h c) := by
  obtain ⟨hgrows, hinv', hctrls⟩ := hinv.insertRef herr hc hvalid hclass
  have hins := (hinv.handlers h).insertRef_inserted (c := c) herr
  have hunowned : ¬ w.owned c := by rwa [owned, howner]
  refine hmasters.inserted hinv hgrows hins (appended_ctrlRefs _ h c) rfl rfl rfl rfl ?_
    (fun howned => absurd howned hunowned) fun _ => howner
  · intro c'
    have hmem : ∀ h', c' ∈ ((appended (insertRef w h c true).2 h c).hdl h').ctrls ↔
        c' ∈ (w.hdl h').ctrls ∨ h' = h ∧ c' = c := by
      intro h'
      rw [← hctrls h']
      exact mem_appended_ctrls
    have hstep : Prim false w (appended (insertRef w h c true).2 h c) :=
      .attach herr hc howner hnew hvalid hclass (by simp)
    constructor
    · intro howned
      rcases (hmem _).mp howned with hin | ⟨-, heq⟩
      · exact .inl (hinv.owned_of_mem hin)
      · exact .inr heq
    · rintro (howned | rfl)
      · exact hstep.owned hinv howned
      · exact (hstep.inv hinv).2.owned_of_mem ((hmem h).mpr (.inr ⟨rfl, rfl⟩))

theorem Prim.masters {clean : Bool} (hstep : Prim clean w w') (hinv : WorldInv w)
    (hmasters : MastersInv w) : MastersInv w' := by
  obtain ⟨hgrows, hinv'⟩ := hstep.inv hinv
  cases hstep with
  | fail h err herr =>
    have hsame := fun h' => handlerSetErr_same w h h' herr
    obtain ⟨hctrl, -, -⟩ := handlerSetErr_ctrl w h err
    exact hmasters.same hinv hgrows (owned_congr hinv hinv' fun h' => (hsame h').2)
      (fun h' => (hsame h').1.ctrlRefs) (fun c _ => by rw [hctrl]) (handlerSetErr_array w h err).1
  | @cache h r hr =>
    have hsame : ∀ h', ((w.setHdl h { w.hdl h with cached := some r }).hdl h').ctrls =
        (w.hdl h').ctrls ∧ ((w.setHdl h { w.hdl h with cached := some r }).hdl h').ctrlRefs =
        (w.hdl h').ctrlRefs := by
      intro h'
      rcases eq_or_ne h' h with rfl | hne
      · simp [setHdl]
      · simp [setHdl, hne]
    exact hmasters.same hinv hgrows (owned_congr hinv hinv' fun h' => (hsame h').1)
      (fun h' => (hsame h').2) (fun _ _ => rfl) rfl
  | make h p hsane =>
    refine hmasters.same hinv hgrows (owned_congr hinv hinv' fun _ => rfl) (fun _ => rfl) ?_ rfl
    intro c howned
    rw [(made_untouched w hinv h p fun _ => True).ctrl c (hinv.owned _ c howned).1]
  | attach herr hc howner hnew hvalid hclass hclean =>
    exact hmasters.attach hinv herr hc howner hnew hvalid hclass
  | @adopt h c herr howned hforeign hclass =>
    obtain ⟨hc, -, hvalid⟩ := hinv.owned _ c howned
    have hctrls := (hinv.insertRef herr hc hvalid hclass).2.2
    refine hmasters.inserted hinv hgrows ((hinv.handlers h).insertRef_inserted herr)
      (fun _ => rfl) rfl rfl rfl rfl ?_ (fun _ => hforeign) fun hnot => absurd howned hnot
    intro c'
    rw [owned_congr hinv hinv' hctrls]
    exact ⟨.inl, fun hor => hor.elim id fun heq => heq ▸ howned⟩
  | adjust ctrl hsame =>
    exact hmasters.same hinv hgrows (owned_congr hinv hinv' fun _ => rfl) (fun _ => rfl)
      (fun c _ => (hsame c).2.2.1) rfl
  | @cluster w' controls howned hclean heq =>
    have hiff := owned_congr hinv hinv'
    obtain ⟨-, rfl⟩ := v4l2CtrlCluster_eq heq
    have hiff := hiff fun _ => rfl
    constructor
    · intro h r hr
      exact (hiff _).mpr (hmasters.listed h r hr)
    · intro a c hc
      rw [hiff]
      dsimp only at hc
      rcases eq_or_ne a w.freshArray with rfl | hne
      · rw [update_self] at hc
        exact howned c hc
      · rw [update_of_ne hne] at hc
        exact hmasters.members a c hc
    · intro c hc r
      rw [hiff] at hc
      dsimp only
      split_ifs
      · intro hbad
        simp at hbad
      · exact hmasters.single c hc r

theorem Path.masters {clean : Bool} (hpath : Path clean w w') (hinv : WorldInv w)
    (hmasters : MastersInv w) : MastersInv w' := by
  induction hpath with
  | refl => exact hmasters
  | tail hpath hstep ih => exact hstep.masters (Path.inv hpath hinv).2 ih

theorem initWorld_masters (hints : Nat → Nat) (kzalloc : Nat → Bool) :
    MastersInv (initWorld hints kzalloc) := by
  refine ⟨?_, ?_, ?_⟩ <;> simp [initWorld, v4l2CtrlHandlerInit, owned]

/-- A master is a control of some handler, and so has a valid id. -/
theorem MastersInv.master_owned (hmasters : MastersInv w) {c m : Nat} (hc : w.owned c)
    (hmaster : masterOf w c = some m) : w.owned m := by
  unfold masterOf clusterOf at hmaster
  split at hmaster
  · simp at hmaster
  · rename_i r hclus
    split_ifs at hmaster
    · simp at hmaster
    have heq := (hmasters.single c hc r hclus).2
    obtain rfl : c = m := by simpa [heq] using hmaster
    exact hc
  · rename_i a hclus
    refine hmasters.members a m ?_
    rcases harray : w.array a with _ | ⟨first, rest⟩
    · simp [harray] at hmaster
    obtain rfl : first = some m := by simpa [harray] using hmaster
    exact mem_cons_self

end Masters

section Lookups

/-- What `prepare_ext_ctrls` leaves as it is: a lookup remembers a reference, and
the helper fields of references change. -/
structure Looked (w w' : World) (h : Nat) : Prop where
  inv : HandlerInv w' h
  ctrl : w'.ctrl = w.ctrl
  ref : ∀ r, (w'.ref r).ctrl = (w.ref r).ctrl ∧ (w'.ref r).freed = (w.ref r).freed
  array : w'.array = w.array
  ctrlRefs : (w'.hdl h).ctrlRefs = (w.hdl h).ctrlRefs

variable {w w' : World} {h : Nat}

theorem Looked.refl (hinv : HandlerInv w h) : Looked w w h :=
  ⟨hinv, rfl, fun _ => ⟨rfl, rfl⟩, rfl, rfl⟩

theorem Looked.trans {w'' : World} (h1 : Looked w w' h) (h2 : Looked w' w'' h) :
    Looked w w'' h where
  inv := h2.inv
  ctrl := h2.ctrl.trans h1.ctrl
  ref := fun r => ⟨(h2.ref r).1.trans (h1.ref r).1, (h2.ref r).2.trans (h1.ref r).2⟩
  array := h2.array.trans h1.array
  ctrlRefs := h2.ctrlRefs.trans h1.ctrlRefs

theorem Looked.findRef (hinv : HandlerInv w h) {id : UInt32} (hid : id < privateBase) :
    Looked w (findRef w h id).2 h := by
  obtain ⟨hinv', hctrl, href, hctrlRefs⟩ := hinv.findRef_same hid
  refine ⟨hinv', hctrl, fun r => by rw [href]; exact ⟨rfl, rfl⟩, ?_, hctrlRefs⟩
  rcases (hinv.findRef_eq hid).2 with hw | ⟨r, -, hw⟩ <;> rw [hw]
  rfl

theorem Looked.setHelper (hinv : HandlerInv w h) (r : Nat) (helper : Option Nat) :
    Looked w (w.setHelper r helper) h := by
  have href : ∀ r', ((w.setHelper r helper).ref r').ctrl = (w.ref r').ctrl ∧
      ((w.setHelper r helper).ref r').freed = (w.ref r').freed := by
    intro r'
    rcases eq_or_ne r' r with rfl | hne
    · simp [World.setHelper]
    · simp [World.setHelper, hne]
  have hgrows : Grows w (w.setHelper r helper) :=
    ⟨le_rfl, le_rfl, fun _ _ => rfl, fun _ _ => rfl, fun r' _ => (href r').1⟩
  exact ⟨hinv.grow hgrows (.refl _), rfl, href, rfl, rfl⟩

variable (hlooked : Looked w w' h)
include hlooked

theorem Looked.refWith (id : UInt32) : refWith w' h id = Ctrls.refWith w h id := by
  have hids : ∀ r, w'.refId r = w.refId r := by
    intro r
    rw [refId, hlooked.ctrl, (hlooked.ref r).1]
    rfl
  simp [Ctrls.refWith, hlooked.ctrlRefs, hids]

theorem Looked.clusterOf (c : Nat) : clusterOf w' c = Ctrls.clusterOf w c := by
  simp [Ctrls.clusterOf, hlooked.ctrl, hlooked.array, hlooked.ref]

theorem Looked.masterOf (c : Nat) : masterOf w' c = Ctrls.masterOf w c := by
  rw [Ctrls.masterOf, hlooked.clusterOf, Ctrls.masterOf]

theorem Looked.membersOf (m : Nat) : membersOf w' m = Ctrls.membersOf w m := by
  rw [Ctrls.membersOf, hlooked.clusterOf, hlooked.ctrl, Ctrls.membersOf]

end Lookups

section Entries

section

variable (w : World) (h : Nat) (cs : ExtControls) (i : Nat)

/-- The reference that an entry of the list leads to, if it passes the checks of
`prepare_ext_ctrls`. -/
def listedRef : Option Nat :=
  let id := (cs.controls i).id &&& idMask
  if cs.ctrlClass ≠ 0 ∧ id2Class id ≠ cs.ctrlClass then none
  else if privateBase ≤ id then none
  else (refWith w h id).filter fun r => !hasFlag (w.ctrl (w.ref r).ctrl).flags flagDisabled

def listedCtrl : Option Nat :=
  (listedRef w h cs i).map fun r => (w.ref r).ctrl

def listedMaster : Option Nat :=
  (listedCtrl w h cs i).bind (masterOf w)

def helperOf : Helper where
  mref := (listedMaster w h cs i).bind fun m => refWith w h (w.ctrl m).id
  ctrl := (listedCtrl w h cs i).getD 0
  next := 0

def Several : Prop :=
  ∃ m, listedMaster w h cs i = some m ∧ 1 < (w.ctrl m).ncontrols

end

variable {w w' : World} {h : Nat} {cs : ExtControls}

theorem listedMaster_some {i : Nat} (hmaster : listedMaster w h cs i ≠ none) :
    ∃ r m, listedRef w h cs i = some r ∧ masterOf w (w.ref r).ctrl = some m := by
  unfold listedMaster listedCtrl at hmaster
  rcases hr : listedRef w h cs i with _ | r
  · simp [hr] at hmaster
  obtain ⟨m, hm⟩ := Option.ne_none_iff_exists'.mp hmaster
  exact ⟨r, m, rfl, by simpa [hr] using hm⟩

theorem listedRef_mem {i r : Nat} (hr : listedRef w h cs i = some r) : r ∈ (w.hdl h).ctrlRefs := by
  unfold listedRef at hr
  dsimp only at hr
  split_ifs at hr
  exact (refWith_some (Option.filter_eq_some_iff.mp hr).1).1

/-- The lookups of `prepare_ext_ctrls` answer as they did before. -/
theorem Looked.found (hlooked : Looked w w' h) {id : UInt32} (hid : id < privateBase) :
    ∃ w'', Ctrls.findRef w' h id = (Ctrls.refWith w h id, w'') ∧ Looked w w'' h := by
  refine ⟨(Ctrls.findRef w' h id).2, ?_, hlooked.trans (Looked.findRef hlooked.inv hid)⟩
  rw [← hlooked.refWith, ← (hlooked.inv.findRef_eq hid).1]

theorem prepareEntry_error (hlooked : Looked w w' h) {i : Nat} (hnone : listedRef w h cs i = none) :
    ∃ w'', prepareEntry w' h cs.ctrlClass (cs.controls i).id = some (.error einval, w'') ∧
      Looked w w'' h := by
  unfold listedRef at hnone
  unfold prepareEntry
  dsimp only at hnone ⊢
  split_ifs at hnone ⊢ with hclass hprivate
  · exact ⟨w', rfl, hlooked⟩
  · exact ⟨w', rfl, hlooked⟩
  obtain ⟨w'', hfind, hlook'⟩ := hlooked.found (UInt32.not_le.mp hprivate)
  rw [hfind]
  refine ⟨w'', ?_, hlook'⟩
  rcases hfound : refWith w h ((cs.controls i).id &&& idMask) with _ | r
  · rfl
  have hdisabled : hasFlag (w.ctrl (w.ref r).ctrl).flags flagDisabled = true := by
    simpa [hfound] using hnone
  simp [hlook'.ctrl, (hlook'.ref r).1, hdisabled]

theorem prepareEntry_listed (hlooked : Looked w w' h) {i r : Nat}
    (hr : listedRef w h cs i = some r) :
    ∃ w'', Looked w w'' h ∧ prepareEntry w' h cs.ctrlClass (cs.controls i).id =
      match masterOf w (w.ref r).ctrl with
      | none => none
      | some m =>
        let many := decide (1 < (w.ctrl m).ncontrols)
        if m = (w.ref r).ctrl then some (.ok (⟨some r, (w.ref r).ctrl, 0⟩, many), w'')
        else
          let (mref, w3) := findRef w'' h (w.ctrl m).id
          some (.ok (⟨mref, (w.ref r).ctrl, 0⟩, many), w3) := by
  unfold listedRef at hr
  unfold prepareEntry
  dsimp only at hr ⊢
  split_ifs at hr ⊢ with hclass hprivate
  obtain ⟨w'', hfind, hlook'⟩ := hlooked.found (UInt32.not_le.mp hprivate)
  obtain ⟨hfound, henabled⟩ := Option.filter_eq_some_iff.mp hr
  have henabled : hasFlag (w.ctrl (w.ref r).ctrl).flags flagDisabled = false := by
    simpa using henabled
  refine ⟨w'', hlook', ?_⟩
  rw [hfind, hfound]
  simp only [hlook'.ctrl, (hlook'.ref r).1, henabled, hlook'.masterOf]
  rfl

variable (hinv : WorldInv w) (hmasters : MastersInv w)

include hinv hmasters

theorem prepareEntry_ok (hlooked : Looked w w' h) {i r m : Nat}
    (hr : listedRef w h cs i = some r) (hm : masterOf w (w.ref r).ctrl = some m) :
    ∃ w'', Looked w w'' h ∧ prepareEntry w' h cs.ctrlClass (cs.controls i).id =
      some (.ok (⟨refWith w h (w.ctrl m).id, (w.ref r).ctrl, 0⟩,
        decide (1 < (w.ctrl m).ncontrols)), w'') := by
  have hmem := listedRef_mem hr
  have howned := hmasters.master_owned (hmasters.listed h r hmem) hm
  obtain ⟨-, -, hvalid⟩ := hinv.owned _ m howned
  obtain ⟨w'', hlook', heq⟩ := prepareEntry_listed hlooked hr
  rw [hm] at heq
  by_cases hself : m = (w.ref r).ctrl
  · have href : refWith w h (w.ctrl m).id = some r := by
      rw [hself]
      exact (hinv.handlers h).refWith_of_mem hmem
    refine ⟨w'', hlook', ?_⟩
    rw [heq, href]
    simp [if_pos hself]
  · obtain ⟨w3, hfind, hlook3⟩ := hlook'.found hvalid.2
    refine ⟨w3, hlook3, ?_⟩
    rw [heq]
    simp [if_neg hself, hfind]

theorem prepareLoop_ok (hall : ∀ j < cs.count, listedMaster w h cs j ≠ none) (left i : Nat)
    (hcount : i + left = cs.count) (hlooked : Looked w w' h) (helpers : Nat → Helper)
    (haveClusters : Bool) :
    ∃ helpers' haveClusters' w'',
      prepareLoop h cs left i helpers haveClusters w' =
        some (0, cs.count, helpers', haveClusters', w'') ∧
      Looked w w'' h ∧
      (∀ j, helpers' j = if i ≤ j ∧ j < cs.count then helperOf w h cs j else helpers j) ∧
      (haveClusters' = true ↔
        haveClusters = true ∨ ∃ j, i ≤ j ∧ j < cs.count ∧ Several w h cs j) := by
  induction left generalizing i w' helpers haveClusters with
  | zero =>
    obtain rfl : i = cs.count := hcount
    refine ⟨helpers, haveClusters, w', rfl, hlooked, fun j => ?_, ?_⟩
    · rw [if_neg (by omega)]
    · exact ⟨.inl, fun hor => hor.elim id fun ⟨j, hle, hlt, _⟩ => absurd hle (by omega)⟩
  | succ left ih =>
    have hi : i < cs.count := by omega
    obtain ⟨r, m, hr, hm⟩ := listedMaster_some (hall i hi)
    obtain ⟨w1, hlook1, hentry⟩ := prepareEntry_ok hinv hmasters hlooked hr hm
    have hmaster : listedMaster w h cs i = some m := by simp [listedMaster, listedCtrl, hr, hm]
    have hhelper : helperOf w h cs i = ⟨refWith w h (w.ctrl m).id, (w.ref r).ctrl, 0⟩ := by
      simp [helperOf, hmaster, listedCtrl, hr]
    obtain ⟨helpers', haveClusters', w'', heq, hlook'', hhelp, hhave⟩ := ih (i + 1) (by omega)
      hlook1 (update helpers i (helperOf w h cs i))
      (haveClusters || decide (1 < (w.ctrl m).ncontrols))
    refine ⟨helpers', haveClusters', w'', ?_, hlook'', fun j => ?_, ?_⟩
    · rw [prepareLoop, hentry, ← hhelper]
      exact heq
    · rw [hhelp j]
      rcases lt_trichotomy j i with hlt | rfl | hgt
      · rw [if_neg (by omega), if_neg (by omega), update_of_ne (ne_of_lt hlt)]
      · rw [if_neg (by omega), if_pos ⟨le_rfl, hi⟩, update_self]
      · simp only [update_of_ne (ne_of_gt hgt)]
        exact if_congr (by omega) rfl rfl
    · have hmany : Several w h cs i ↔ 1 < (w.ctrl m).ncontrols := by simp [Several, hmaster]
      rw [hhave, Bool.or_eq_true, decide_eq_true_eq, ← hmany, or_assoc]
      refine or_congr_right ⟨?_, ?_⟩
      · rintro (hself | ⟨j, hle, hlt, hj⟩)
        · exact ⟨i, le_rfl, hi, hself⟩
        · exact ⟨j, Nat.le_of_succ_le hle, hlt, hj⟩
      rintro ⟨j, hle, hlt, hj⟩
      rcases Nat.lt_or_eq_of_le hle with hgt | rfl
      · exact .inr ⟨j, hgt, hlt, hj⟩
      · exact .inl hj

theorem prepareLoop_bad (left i : Nat) (hcount : i + left = cs.count) (hlooked : Looked w w' h)
    (hbad : ∃ j, i ≤ j ∧ j < cs.count ∧ listedMaster w h cs j = none) (helpers : Nat → Helper)
    (haveClusters : Bool) :
    prepareLoop h cs left i helpers haveClusters w' = none ∨
      ∃ idx helpers' haveClusters' w'', prepareLoop h cs left i helpers haveClusters w' =
        some (einval, idx, helpers', haveClusters', w'') ∧ Looked w w'' h := by
  induction left generalizing i w' helpers haveClusters with
  | zero =>
    obtain ⟨j, hle, hlt, -⟩ := hbad
    omega
  | succ left ih =>
    rw [prepareLoop]
    rcases hr : listedRef w h cs i with _ | r
    · obtain ⟨w1, hentry, hlook1⟩ := prepareEntry_error hlooked hr
      rw [hentry]
      exact .inr ⟨i, helpers, haveClusters, w1, rfl, hlook1⟩
    rcases hm : masterOf w (w.ref r).ctrl with _ | m
    · obtain ⟨w1, -, hentry⟩ := prepareEntry_listed hlooked hr
      rw [hentry, hm]
      exact .inl rfl
    obtain ⟨w1, hlook1, hentry⟩ := prepareEntry_ok hinv hmasters hlooked hr hm
    rw [hentry]
    refine ih (i + 1) (by omega) hlook1 ?_ _ _
    obtain ⟨j, hle, hlt, hnone⟩ := hbad
    have hne : i ≠ j := by
      rintro rfl
      simp [listedMaster, listedCtrl, hr, hm] at hnone
    exact ⟨j, by omega, hlt, hnone⟩

end Entries

section Links

theorem chain_eq (helpers : Nat → Helper) (fuel i : Nat) :
    chain helpers fuel i = chainFrom (fun j => (helpers j).next) fuel i := by
  induction fuel generalizing i with
  | zero => rfl
  | succ fuel ih => rw [chain, chainFrom, ih]

/-- The helpers while the loop is at index `i`: the ones below are linked by their
masters' references, and each reference remembers the last of its helpers. -/
structure LinkedBelow (key : Nat → Nat) (count i : Nat) (start helpers : Nat → Helper) (w : World) :
    Prop where
  ctrl : ∀ j, (helpers j).ctrl = (start j).ctrl
  rest : ∀ j, i ≤ j → helpers j = start j
  mref : ∀ j, j < i → (helpers j).mref = if j ∈ firsts key count then some (key j) else none
  last : ∀ j, j < count → (w.ref (key j)).helper = (occurrences key i (key j)).getLast?
  chained : ∀ k, Chained (fun j => (helpers j).next) (occurrences key i k)

variable {key : Nat → Nat} {i count : Nat} {helpers : Nat → Helper}

section

variable {start : Nat → Helper} {w : World} (hlinked : LinkedBelow key count i start helpers w)
include hlinked

theorem LinkedBelow.last_step {j : Nat} (hj : j < count) :
    ((w.setHelper (key i) (some i)).ref (key j)).helper =
      (occurrences key (i + 1) (key j)).getLast? := by
  rw [occurrences_succ]
  by_cases hkey : key i = key j
  · simp [setHelper, hkey]
  · rw [if_neg hkey, ← hlinked.last j hj]
    simp [setHelper, Ne.symm hkey]

section

variable (hi : i < count)
  (hstart : ∀ j, j < count → (start j).mref = some (key j) ∧ (start j).next = 0)
include hi hstart

theorem LinkedBelow.step_first (hocc : occurrences key i (key i) = []) :
    LinkedBelow key count (i + 1) start helpers (w.setHelper (key i) (some i)) := by
  have hself := hlinked.rest i le_rfl
  refine ⟨hlinked.ctrl, fun j hj => hlinked.rest j (Nat.le_of_succ_le hj), ?_,
    fun j hj => hlinked.last_step hj, ?_⟩
  · intro j hj
    rcases Nat.lt_succ_iff_lt_or_eq.mp hj with hj | rfl
    · exact hlinked.mref j hj
    have hfirst : j ∈ firsts key count := by
      refine mem_firsts.mpr ⟨hi, fun j' hj' hkey => ?_⟩
      have hin := mem_occurrences.mpr ⟨hj', hkey⟩
      simp [hocc] at hin
    rw [if_pos hfirst, hself]
    exact (hstart j hi).1
  · intro k
    rw [occurrences_succ]
    split_ifs with hkey
    · rw [← hkey, hocc]
      change (helpers i).next = 0
      rw [hself]
      exact (hstart i hi).2
    · exact hlinked.chained k

/-- A further helper is linked to the last one, and its `mref` is cleared. -/
theorem LinkedBelow.step_further {before : List Nat} {j0 : Nat}
    (hocc : occurrences key i (key i) = before ++ [j0]) :
    LinkedBelow key count (i + 1) start
      (update (update helpers j0 { helpers j0 with next := i }) i
        { update helpers j0 { helpers j0 with next := i } i with mref := none })
      (w.setHelper (key i) (some i)) := by
  have hself := hlinked.rest i le_rfl
  have hin : j0 ∈ occurrences key i (key i) := by simp [hocc]
  obtain ⟨hlt, hkey0⟩ := mem_occurrences.mp hin
  have hne := ne_of_gt hlt
  have hnext : (fun j => (update (update helpers j0 { helpers j0 with next := i }) i
      { update helpers j0 { helpers j0 with next := i } i with mref := none } j).next) =
      update (fun j => (helpers j).next) j0 i := by
    funext j
    rcases eq_or_ne j i with rfl | hji
    · simp [hne]
    rcases eq_or_ne j j0 with rfl | hjj
    · simp [hji]
    · simp [hji, hjj]
  refine ⟨?_, ?_, ?_, fun j hj => hlinked.last_step hj, ?_⟩
  · intro j
    rw [← hlinked.ctrl j]
    rcases eq_or_ne j i with rfl | hji
    · simp [hne]
    rcases eq_or_ne j j0 with rfl | hjj
    · simp [hji]
    · simp [hji, hjj]
  · intro j hj
    rw [update_of_ne (ne_of_gt hj), update_of_ne (ne_of_gt (hlt.trans hj))]
    exact hlinked.rest j (Nat.le_of_succ_le hj)
  · intro j hj
    rcases Nat.lt_succ_iff_lt_or_eq.mp hj with hj | rfl
    · rw [← hlinked.mref j hj, update_of_ne (ne_of_lt hj)]
      rcases eq_or_ne j j0 with rfl | hjj
      · rw [update_self]
      · rw [update_of_ne hjj]
    · have hfurther : j ∉ firsts key count := fun hfirst => (mem_firsts.mp hfirst).2 j0 hlt hkey0
      rw [if_neg hfurther, update_self]
  · intro k
    rw [hnext, occurrences_succ]
    split_ifs with hkey
    · rw [← hkey, hocc, append_assoc]
      have hasc := occurrences_ascending key i (key i)
      rw [hocc] at hasc
      have hpre : j0 ∉ before := fun hmem =>
        absurd ((pairwise_append.mp hasc).2.2 j0 hmem j0 (by simp)) (lt_irrefl _)
      have hnew : i ∉ before ++ [j0] := by
        rw [← hocc]
        intro hmem
        exact absurd (mem_occurrences.mp hmem).1 (lt_irrefl _)
      refine .extend (hocc ▸ hlinked.chained (key i)) hpre hnew ?_
      rw [hself]
      exact (hstart i hi).2
    · refine (hlinked.chained k).congr fun j hj => ?_
      have hjj : j ≠ j0 := by
        rintro rfl
        exact hkey (hkey0.symm.trans (mem_occurrences.mp hj).2)
      exact update_of_ne hjj ..

theorem LinkedBelow.step :
    LinkedBelow key count (i + 1) start (match (w.ref (key i)).helper with
        | none => helpers
        | some j =>
          update (update helpers j { helpers j with next := i }) i
            { update helpers j { helpers j with next := i } i with mref := none })
      (w.setHelper (key i) (some i)) := by
  have hlast := hlinked.last i hi
  rcases hhelper : (w.ref (key i)).helper with _ | j0
  · rw [hhelper] at hlast
    exact hlinked.step_first hi hstart (List.getLast?_eq_none_iff.mp hlast.symm)
  rw [hhelper] at hlast
  obtain ⟨before, hocc⟩ := List.getLast?_eq_some_iff.mp hlast.symm
  exact hlinked.step_further hi hstart hocc

end

end

theorem groupLoop_spec {start : Nat → Helper}
    (hstart : ∀ j < count, (start j).mref = some (key j) ∧ (start j).next = 0) (left i : Nat)
    (hcount : i + left = count) {h : Nat} (hlooked : Looked w w' h)
    (hlinked : LinkedBelow key count i start helpers w') :
    ∃ helpers' w'', groupLoop left i helpers w' = some (helpers', w'') ∧ Looked w w'' h ∧
      LinkedBelow key count count start helpers' w'' := by
  induction left generalizing i helpers w' with
  | zero =>
    obtain rfl : i = count := hcount
    exact ⟨helpers, w', rfl, hlooked, hlinked⟩
  | succ left ih =>
    have hi : i < count := by omega
    have hmref : (helpers i).mref = some (key i) := by
      rw [hlinked.rest i le_rfl]
      exact (hstart i hi).1
    rw [groupLoop, hmref]
    exact ih (i + 1) (by omega) (hlooked.trans (.setHelper hlooked.inv (key i) (some i)))
      (hlinked.step hi hstart)

theorem zeroLoop_spec (hmref : ∀ j < count, (helpers j).mref = some (key j)) (left i : Nat)
    (hcount : i + left = count) {h : Nat} (hlooked : Looked w w' h) :
    ∃ w'', zeroLoop helpers left i w' = some w'' ∧ Looked w w'' h ∧
      (∀ r, (w'.ref r).helper = none → (w''.ref r).helper = none) ∧
      ∀ j, i ≤ j → j < count → (w''.ref (key j)).helper = none := by
  induction left generalizing i w' with
  | zero => exact ⟨w', rfl, hlooked, fun _ hr => hr, fun j hle hlt => by omega⟩
  | succ left ih =>
    have hself : ((w'.setHelper (key i) none).ref (key i)).helper = none := by simp [setHelper]
    obtain ⟨w'', heq, hlook'', hkept, hzero⟩ := ih (i + 1) (by omega)
      (hlooked.trans (.setHelper hlooked.inv (key i) none))
    refine ⟨w'', ?_, hlook'', fun r hr => hkept r ?_, fun j hle hlt => ?_⟩
    · rw [zeroLoop, hmref i (by omega)]
      exact heq
    · rcases eq_or_ne r (key i) with rfl | hne
      · exact hself
      · simpa [setHelper, hne] using hr
    · rcases Nat.lt_or_eq_of_le hle with hgt | rfl
      · exact hzero j hgt hlt
      · exact hkept _ hself

/-- A reference to a master that the handler does not have is followed. -/
theorem zeroLoop_none (left i : Nat) (hbad : ∃ j, i ≤ j ∧ j < i + left ∧ (helpers j).mref = none)
    (w : World) : zeroLoop helpers left i w = none := by
  induction left generalizing i w with
  | zero =>
    obtain ⟨j, hle, hlt, -⟩ := hbad
    omega
  | succ left ih =>
    obtain ⟨j, hle, hlt, hnone⟩ := hbad
    rw [zeroLoop]
    rcases hmref : (helpers i).mref with _ | r
    · rfl
    have hne : i ≠ j := by
      rintro rfl
      simp [hmref] at hnone
    exact ih (i + 1) ⟨j, by omega, by omega, hnone⟩ _

theorem LinkedBelow.start {start : Nat → Helper}
    (hzero : ∀ j, 0 ≤ j → j < count → (w.ref (key j)).helper = none) :
    LinkedBelow key count 0 start start w := by
  refine ⟨fun _ => rfl, fun _ _ => rfl, fun j hj => absurd hj (Nat.not_lt_zero j), ?_,
    fun _ => trivial⟩
  intro j hj
  rw [hzero j (Nat.zero_le j) hj]
  rfl

theorem LinkedBelow.chain_eq {start : Nat → Helper}
    (hlinked : LinkedBelow key count count start helpers w) (hi : i ∈ firsts key count) :
    chain helpers count i = occurrences key count (key i) := by
  obtain ⟨rest, hocc, habove⟩ := occurrences_of_first hi
  have hchain := hlinked.chained (key i)
  have hlen : (occurrences key count (key i)).length ≤ count := by
    refine (length_filter_le _ _).trans ?_
    rw [length_range]
  rw [hocc] at hchain hlen ⊢
  rw [Ctrls.chain_eq, hchain.chainFrom_eq ?_ hlen]
  intro hzero
  exact absurd (habove 0 hzero) (Nat.not_lt_zero i)

end Links

section Prepare

variable {w : World} {h : Nat} {cs : ExtControls} (hinv : WorldInv w) (hmasters : MastersInv w)

include hinv hmasters

theorem prepare_bad (hbad : ∃ j, j < cs.count ∧ listedMaster w h cs j = none)
    (helpers0 : Nat → Helper) :
    prepareExtCtrls w h cs helpers0 = none ∨ ∃ idx helpers w',
      prepareExtCtrls w h cs helpers0 = some (einval, idx, helpers, w') ∧ Looked w w' h := by
  obtain ⟨j, hj, hnone⟩ := hbad
  have hloop := prepareLoop_bad hinv hmasters cs.count 0 (Nat.zero_add _)
    (.refl (hinv.handlers h)) ⟨j, Nat.zero_le j, hj, hnone⟩ helpers0 false
  unfold prepareExtCtrls
  rcases hloop with heq | ⟨idx, helpers, haveClusters, w', heq, hlooked⟩ <;> rw [heq]
  · exact .inl rfl
  refine .inr ⟨idx, helpers, w', ?_, hlooked⟩
  dsimp only
  rw [if_pos einval_ne]

theorem prepare_single (hall : ∀ j, j < cs.count → listedMaster w h cs j ≠ none)
    (hone : ¬ ∃ j, j < cs.count ∧ Several w h cs j) (helpers0 : Nat → Helper) :
    ∃ helpers w', prepareExtCtrls w h cs helpers0 = some (0, cs.count - 1, helpers, w') ∧
      Looked w w' h ∧ ∀ j, j < cs.count → helpers j = helperOf w h cs j := by
  obtain ⟨helpers, haveClusters, w', heq, hlooked, hhelp, hhave⟩ := prepareLoop_ok hinv hmasters
    hall cs.count 0 (Nat.zero_add _) (.refl (hinv.handlers h)) helpers0 false
  have hnone : haveClusters = false := by
    apply Bool.eq_false_iff.mpr
    intro htrue
    rcases hhave.mp htrue with hbad | ⟨j, -, hlt, hj⟩
    · exact absurd hbad (by simp)
    · exact hone ⟨j, hlt, hj⟩
  refine ⟨helpers, w', ?_, hlooked, fun j hj => ?_⟩
  · unfold prepareExtCtrls
    rw [heq]
    rw [hnone]
    rfl
  · rw [hhelp j, if_pos ⟨Nat.zero_le j, hj⟩]

theorem prepare_several (hall : ∀ j, j < cs.count → listedMaster w h cs j ≠ none)
    (hmany : ∃ j, j < cs.count ∧ Several w h cs j) (helpers0 : Nat → Helper) :
    (prepareExtCtrls w h cs helpers0 = none ∧
        ∃ j, j < cs.count ∧ (helperOf w h cs j).mref = none) ∨
      ∃ key start helpers w', prepareExtCtrls w h cs helpers0 =
          some (0, cs.count - 1, helpers, w') ∧ Looked w w' h ∧
        (∀ j, j < cs.count → start j = helperOf w h cs j ∧
          (helperOf w h cs j).mref = some (key j)) ∧
        LinkedBelow key cs.count cs.count start helpers w' := by
  obtain ⟨start, haveClusters, w1, heq, hlook1, hstart, hhave⟩ := prepareLoop_ok hinv hmasters
    hall cs.count 0 (Nat.zero_add _) (.refl (hinv.handlers h)) helpers0 false
  have hstart : ∀ j, j < cs.count → start j = helperOf w h cs j := fun j hj => by
    rw [hstart j, if_pos ⟨Nat.zero_le j, hj⟩]
  obtain rfl : haveClusters = true := by
    obtain ⟨j, hlt, hj⟩ := hmany
    exact hhave.mpr (.inr ⟨j, Nat.zero_le j, hlt, hj⟩)
  have hprep : prepareExtCtrls w h cs helpers0 =
      ((zeroLoop start cs.count 0 w1).bind fun w =>
        (groupLoop cs.count 0 start w).map fun last => (0, cs.count - 1, last.1, last.2)) := by
    unfold prepareExtCtrls
    rw [heq]
    dsimp only
    cases zeroLoop start cs.count 0 w1 with
    | none => rfl
    | some w2 => exact Option.map_eq_bind.symm
  by_cases hnull : ∃ j, j < cs.count ∧ (helperOf w h cs j).mref = none
  · left
    obtain ⟨j, hj, hnone⟩ := hnull
    have hbad : ∃ j, 0 ≤ j ∧ j < 0 + cs.count ∧ (start j).mref = none :=
      ⟨j, Nat.zero_le j, by omega, by rw [hstart j hj, hnone]⟩
    have hzero := zeroLoop_none cs.count 0 hbad w1
    exact ⟨by rw [hprep, hzero]; rfl, j, hj, hnone⟩
  right
  have hmref : ∀ j, j < cs.count →
      (helperOf w h cs j).mref = some ((helperOf w h cs j).mref.getD 0) := by
    intro j hj
    cases hmref : (helperOf w h cs j).mref with
    | none => exact absurd ⟨j, hj, hmref⟩ hnull
    | some r => rfl
  let key : Nat → Nat := fun j => (helperOf w h cs j).mref.getD 0
  have hstart' : ∀ j, j < cs.count → (start j).mref = some (key j) ∧ (start j).next = 0 := by
    intro j hj
    rw [hstart j hj]
    exact ⟨hmref j hj, rfl⟩
  obtain ⟨w2, hzero, hlook2, -, hcleared⟩ := zeroLoop_spec (fun j hj => (hstart' j hj).1)
    cs.count 0 (Nat.zero_add _) hlook1
  obtain ⟨helpers, w', hgroup, hlook', hlinked⟩ := groupLoop_spec hstart' cs.count 0
    (Nat.zero_add _) hlook2 (.start hcleared)
  refine ⟨key, start, helpers, w', ?_, hlook', fun j hj => ⟨hstart j hj, hmref j hj⟩, hlinked⟩
  rw [hprep, hzero, Option.bind_some, hgroup]
  rfl

end Prepare

variable {w : World} {h : Nat} {cs : ExtControls} {i count : Nat} {helpers : Nat → Helper}

theorem listedCtrl_helperOf (hmaster : listedMaster w h cs i ≠ none) :
    listedCtrl w h cs i = some (helperOf w h cs i).ctrl := by
  obtain ⟨r, m, hr, -⟩ := listedMaster_some hmaster
  simp [helperOf, listedCtrl, hr]

theorem helperOf_mref {m : Nat} (hmaster : listedMaster w h cs i = some m) :
    (helperOf w h cs i).mref = refWith w h (w.ctrl m).id := by
  simp [helperOf, hmaster]

theorem chain_single (hi : i < count) (hnext : (helpers i).next = 0) :
    chain helpers count i = [i] := by
  obtain ⟨fuel, rfl⟩ := Nat.exists_eq_add_one_of_ne_zero (Nat.ne_zero_of_lt hi)
  rw [chain, if_pos hnext]

def noHelpers : Nat → Helper := fun _ => ⟨none, 0, 0⟩

end TbsMedia.Ctrls
