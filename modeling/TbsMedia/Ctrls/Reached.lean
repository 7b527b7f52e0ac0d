import TbsMedia.Ctrls.ClusterJobs
import TbsMedia.Ctrls.ExtGroups

/-!
The worlds that a driver and its callers can reach. Once a handler is built only
values, marks and flags of controls, helper fields and remembered references
change; every request keeps to that.
-/

namespace TbsMedia.Ctrls

open Function Option

section Kept

structure Kept (w w' : World) : Prop where
  ctrl : ∀ c, ∃ cur new isNew done flags, w'.ctrl c =
    { w.ctrl c with cur := cur, new := new, isNew := isNew, done := done, flags := flags }
  ref : ∀ r, ∃ helper, w'.ref r = { w.ref r with helper := helper }
  hdl : ∀ h, ∃ cached, w'.hdl h = { w.hdl h with cached := cached } ∧
    (cached = (w.hdl h).cached ∨ ∃ r ∈ (w.hdl h).ctrlRefs, cached = some r)
  array : w'.array = w.array
  freshCtrl : w'.freshCtrl = w.freshCtrl
  freshRef : w'.freshRef = w.freshRef
  freshArray : w'.freshArray = w.freshArray

variable {w w' w'' : World}

theorem Kept.refl (w : World) : Kept w w :=
  ⟨fun _ => ⟨_, _, _, _, _, rfl⟩, fun _ => ⟨_, rfl⟩, fun _ => ⟨_, rfl, .inl rfl⟩, rfl, rfl, rfl,
    rfl⟩

theorem Kept.trans (hfirst : Kept w w') (hnext : Kept w' w'') : Kept w w'' := by
  refine ⟨fun c => ?_, fun r => ?_, fun h => ?_, hnext.array.trans hfirst.array,
    hnext.freshCtrl.trans hfirst.freshCtrl, hnext.freshRef.trans hfirst.freshRef,
    hnext.freshArray.trans hfirst.freshArray⟩
  · obtain ⟨_, _, _, _, _, heq⟩ := hfirst.ctrl c
    obtain ⟨_, _, _, _, _, heq'⟩ := hnext.ctrl c
    exact ⟨_, _, _, _, _, by rw [heq', heq]⟩
  · obtain ⟨_, heq⟩ := hfirst.ref r
    obtain ⟨_, heq'⟩ := hnext.ref r
    exact ⟨_, by rw [heq', heq]⟩
  · obtain ⟨cached, heq, hcached⟩ := hfirst.hdl h
    obtain ⟨cached', heq', hcached'⟩ := hnext.hdl h
    refine ⟨cached', by rw [heq', heq], ?_⟩
    rw [heq] at hcached'
    rcases hcached' with rfl | hcached'
    · exact hcached
    · exact .inr hcached'

theorem Kept.adjust (ctrl : Nat → Ctrl) (hsame : ∀ c, ∃ cur new isNew done flags, ctrl c =
    { w.ctrl c with cur := cur, new := new, isNew := isNew, done := done, flags := flags }) :
    Kept w { w with ctrl := ctrl } :=
  ⟨hsame, fun _ => ⟨_, rfl⟩, fun _ => ⟨_, rfl, .inl rfl⟩, rfl, rfl, rfl, rfl⟩

theorem Kept.setCtrl (c : Nat) (cur new : Value) (isNew done : Bool) (flags : UInt32) :
    Kept w (w.setCtrl c
      { w.ctrl c with cur := cur, new := new, isNew := isNew, done := done, flags := flags }) := by
  refine .adjust _ fun c' => ?_
  rcases eq_or_ne c' c with rfl | hne
  · rw [update_self]
    exact ⟨_, _, _, _, _, rfl⟩
  · rw [update_of_ne hne]
    exact ⟨_, _, _, _, _, rfl⟩

theorem Kept.setHelper (r : Nat) (helper : Option Nat) : Kept w (w.setHelper r helper) := by
  refine ⟨fun _ => ⟨_, _, _, _, _, rfl⟩, fun r' => ?_, fun _ => ⟨_, rfl, .inl rfl⟩, rfl, rfl, rfl,
    rfl⟩
  rcases eq_or_ne r' r with rfl | hne
  · exact ⟨helper, update_self ..⟩
  · exact ⟨(w.ref r').helper, update_of_ne hne ..⟩

theorem Kept.cache {h r : Nat} (hr : r ∈ (w.hdl h).ctrlRefs) :
    Kept w (w.setHdl h { w.hdl h with cached := some r }) := by
  refine ⟨fun _ => ⟨_, _, _, _, _, rfl⟩, fun _ => ⟨_, rfl⟩, fun h' => ?_, rfl, rfl, rfl, rfl⟩
  rcases eq_or_ne h' h with rfl | hne
  · exact ⟨some r, update_self .., .inr ⟨r, hr, rfl⟩⟩
  · exact ⟨_, update_of_ne hne .., .inl rfl⟩

variable (hkept : Kept w w')
include hkept

theorem Kept.grows : Grows w w' where
  freshCtrl := le_of_eq hkept.freshCtrl.symm
  freshRef := le_of_eq hkept.freshRef.symm
  id := fun c _ => by
    obtain ⟨_, _, _, _, _, heq⟩ := hkept.ctrl c
    rw [heq]
  handler := fun c _ => by
    obtain ⟨_, _, _, _, _, heq⟩ := hkept.ctrl c
    rw [heq]
  ref := fun r _ => by
    obtain ⟨_, heq⟩ := hkept.ref r
    rw [heq]

theorem Kept.inv (hinv : WorldInv w) : WorldInv w' := by
  refine ⟨fun h => ?_, fun h c hc => ?_⟩
  · obtain ⟨cached, heq, hcached⟩ := hkept.hdl h
    refine (hinv.handlers h).grow hkept.grows ?_
    rw [heq]
    exact ⟨rfl, rfl, rfl, fun herr => herr, hcached⟩
  obtain ⟨cached, heq, -⟩ := hkept.hdl h
  rw [heq] at hc
  obtain ⟨hlt, hhandler, hvalid⟩ := hinv.owned h c hc
  obtain ⟨_, _, _, _, _, hctrl⟩ := hkept.ctrl c
  rw [hctrl, hkept.freshCtrl]
  exact ⟨hlt, hhandler, hvalid⟩

theorem Kept.ctrls (h : Nat) : (w'.hdl h).ctrls = (w.hdl h).ctrls := by
  obtain ⟨_, heq, -⟩ := hkept.hdl h
  rw [heq]

theorem Kept.ctrlRefs (h : Nat) : (w'.hdl h).ctrlRefs = (w.hdl h).ctrlRefs := by
  obtain ⟨_, heq, -⟩ := hkept.hdl h
  rw [heq]

theorem Kept.clusterOf (c : Nat) : clusterOf w' c = clusterOf w c := by
  obtain ⟨_, _, _, _, _, heq⟩ := hkept.ctrl c
  unfold Ctrls.clusterOf
  rw [heq, hkept.array]
  dsimp only
  split
  · rfl
  · obtain ⟨_, href⟩ := hkept.ref _
    rw [href]
  · rfl

theorem Kept.masterOf (c : Nat) : masterOf w' c = masterOf w c := by
  rw [Ctrls.masterOf, hkept.clusterOf, Ctrls.masterOf]

theorem Kept.membersOf (m : Nat) : membersOf w' m = membersOf w m := by
  obtain ⟨_, _, _, _, _, heq⟩ := hkept.ctrl m
  rw [Ctrls.membersOf, hkept.clusterOf, heq, Ctrls.membersOf]

theorem Kept.masters (hinv : WorldInv w) (hmasters : MastersInv w) : MastersInv w' := by
  refine hmasters.same hinv hkept.grows (owned_congr hinv (hkept.inv hinv) hkept.ctrls)
    hkept.ctrlRefs (fun c _ => ?_) hkept.array
  obtain ⟨_, _, _, _, _, heq⟩ := hkept.ctrl c
  rw [heq]

end Kept

section Requests

variable {w : World}

theorem findRef_kept (hinv : WorldInv w) (h : Nat) (id : UInt32) : Kept w (findRef w h id).2 := by
  rw [← findRef_and_idMask]
  by_cases hid : id &&& idMask < privateBase
  · rcases ((hinv.handlers h).findRef_eq hid).2 with heq | ⟨r, hr, heq⟩
    · rw [heq]
      exact .refl w
    · rw [heq]
      exact .cache hr
  · have hle := UInt32.not_lt.mp hid
    unfold findRef
    rw [UInt32.and_assoc, UInt32.and_self, if_pos hle]
    exact .refl w

variable {h idx : Nat} {ret : Int} {cs : ExtControls} {helpers' : Nat → Helper}

theorem prepareEntry_kept (hinv : WorldInv w) {ctrlClass id : UInt32}
    {answer : Except Int (Helper × Bool)} {w' : World}
    (heq : prepareEntry w h ctrlClass id = some (answer, w')) : Kept w w' := by
  have hfound := findRef_kept hinv h (id &&& idMask)
  unfold prepareEntry at heq
  dsimp only at heq
  generalize findRef w h (id &&& idMask) = found at hfound heq
  obtain ⟨ref, w1⟩ := found
  split_ifs at heq
  · cases heq
    exact .refl w
  · cases heq
    exact .refl w
  rcases ref with _ | r
  · cases heq
    exact hfound
  dsimp only at heq
  split_ifs at heq
  · cases heq
    exact hfound
  split at heq
  · cases heq
  rename_i m hm
  split_ifs at heq
  · cases heq
    exact hfound
  · cases heq
    exact hfound.trans (findRef_kept (hfound.inv hinv) h _)

theorem prepareLoop_kept (left i : Nat) (helpers : Nat → Helper) (haveClusters : Bool) {w : World}
    (hinv : WorldInv w) {haveClusters' : Bool} {w' : World}
    (heq : prepareLoop h cs left i helpers haveClusters w =
      some (ret, idx, helpers', haveClusters', w')) : Kept w w' := by
  induction left generalizing i helpers haveClusters w with
  | zero =>
    obtain ⟨-, -, -, -, rfl⟩ : 0 = ret ∧ i = idx ∧ helpers = helpers' ∧
        haveClusters = haveClusters' ∧ w = w' := by simpa [prepareLoop] using heq
    exact .refl w
  | succ left ih =>
    rw [prepareLoop] at heq
    rcases hentry : prepareEntry w h cs.ctrlClass (cs.controls i).id with _ | answer
    · simp [hentry] at heq
    obtain ⟨answer, w1⟩ := answer
    have hkept := prepareEntry_kept hinv hentry
    rw [hentry] at heq
    cases answer with
    | error err =>
      obtain ⟨-, -, -, -, rfl⟩ : err = ret ∧ i = idx ∧ helpers = helpers' ∧
          haveClusters = haveClusters' ∧ w1 = w' := by simpa using heq
      exact hkept
    | ok pair => exact hkept.trans (ih _ _ _ (hkept.inv hinv) heq)

theorem zeroLoop_kept (helpers : Nat → Helper) (left i : Nat) {w w' : World}
    (heq : zeroLoop helpers left i w = some w') : Kept w w' := by
  induction left generalizing i w with
  | zero =>
    obtain rfl := some.inj heq
    exact .refl w
  | succ left ih =>
    rw [zeroLoop] at heq
    split at heq
    · cases heq
    rename_i r hmref
    exact (Kept.setHelper r none).trans (ih _ heq)

theorem groupLoop_kept (left i : Nat) (helpers : Nat → Helper) {w w' : World}
    (heq : groupLoop left i helpers w = some (helpers', w')) : Kept w w' := by
  induction left generalizing i helpers w with
  | zero =>
    obtain ⟨-, rfl⟩ := Prod.mk.inj (some.inj heq)
    exact .refl w
  | succ left ih =>
    rw [groupLoop] at heq
    split at heq
    · cases heq
    rename_i r hmref
    exact (Kept.setHelper r (some i)).trans (ih _ _ heq)

theorem prepareExtCtrls_kept (hinv : WorldInv w) {helpers : Nat → Helper} {w' : World}
    (heq : prepareExtCtrls w h cs helpers = some (ret, idx, helpers', w')) : Kept w w' := by
  unfold prepareExtCtrls at heq
  split at heq
  · cases heq
  rename_i err i helpers1 haveClusters w1 hloop
  have hkept := prepareLoop_kept _ _ _ _ hinv hloop
  split at heq
  · obtain ⟨-, -, -, rfl⟩ : err = ret ∧ i = idx ∧ helpers1 = helpers' ∧ w1 = w' := by
      simpa using heq
    exact hkept
  split at heq
  · obtain ⟨-, -, -, rfl⟩ : 0 = ret ∧ i - 1 = idx ∧ helpers1 = helpers' ∧ w1 = w' := by
      simpa using heq
    exact hkept
  obtain ⟨w2, hzero, heq⟩ := bind_eq_some_iff.mp heq
  obtain ⟨⟨helpers2, w3⟩, hgroup, heq⟩ := bind_eq_some_iff.mp heq
  obtain ⟨-, -, -, rfl⟩ : 0 = ret ∧ i - 1 = idx ∧ helpers2 = helpers' ∧ w3 = w' := by
    simpa using heq
  exact hkept.trans ((zeroLoop_kept _ _ _ hzero).trans (groupLoop_kept _ _ _ hgroup))

theorem grab_kept (w : World) (grabbed : Nat → Bool) : Kept w (w.grab grabbed) :=
  Kept.adjust _ fun _ => ⟨_, _, _, _, _, rfl⟩

theorem newToCur_kept (w : World) (c : Nat) (updateInactive : Bool) :
    Kept w (newToCur w c updateInactive) := by
  obtain ⟨flag, heq⟩ := newToCur_eq w c updateInactive
  rw [heq]
  exact .setCtrl c _ _ _ _ _

theorem makePermanent_kept (w : World) (master : Nat) (members : List Nat) :
    Kept w (makePermanent w master members) := by
  have hfold : ∀ update (others : List Nat) (w : World),
      Kept w (others.foldl (newToCur · · update) w) := by
    intro update others
    induction others with
    | nil => exact .refl
    | cons c rest ih => exact fun w => (newToCur_kept w c update).trans (ih _)
  cases members with
  | nil => exact .refl w
  | cons first others => exact (newToCur_kept w first false).trans (hfold _ others _)

theorem classCheck_kept (hinv : WorldInv w) (h : Nat) (ctrlClass : UInt32) :
    Kept w (classCheck w h ctrlClass).2 := by
  unfold classCheck
  split
  · exact .refl w
  have hfound := findRef_kept hinv h (ctrlClass ||| 1)
  generalize findRef w h (ctrlClass ||| 1) = found at hfound
  obtain ⟨ref, w'⟩ := found
  cases ref with
  | none => exact hfound
  | some r => exact hfound

end Requests

inductive Reached (tables : Tables) : World → Prop
  | init (hints : Nat → Nat) (kzalloc : Nat → Bool) : Reached tables (initWorld hints kzalloc)
  | call {w w' : World} (hreached : Reached tables w) (call : Call)
      (hstep : callStep tables w call = some w') : Reached tables w'
  | use {w w' : World} (hreached : Reached tables w) (hkept : Kept w w') : Reached tables w'

theorem Reached.inv {tables : Tables} {w : World} (hreach : Reached tables w) :
    WorldInv w ∧ MastersInv w := by
  induction hreach with
  | init hints kzalloc => exact ⟨initWorld_inv hints kzalloc, initWorld_masters hints kzalloc⟩
  | call hreach call hstep ih =>
    have hpath : Path false _ _ := callStep_path tables ih.1 hstep (by simp)
    exact ⟨(Path.inv hpath ih.1).2, Path.masters hpath ih.1 ih.2⟩
  | use hreach hkept ih => exact ⟨hkept.inv ih.1, hkept.masters ih.1 ih.2⟩

theorem Reached.run {tables : Tables} (calls : List Call) {w w' : World}
    (hreach : Reached tables w) (hrun : calls.foldlM (callStep tables) w = some w') :
    Reached tables w' := by
  induction calls generalizing w with
  | nil =>
    cases hrun
    exact hreach
  | cons call rest ih =>
    obtain ⟨next, hnext, hrest⟩ := bind_eq_some_iff.mp hrun
    exact ih (hreach.call call hnext) hrest

end TbsMedia.Ctrls
