import TbsMedia.Ctrls.ErrorIdx

/-!
Auto clusters. The members of one are inactive as long as the value of the master
is not the manual one. `try_or_set_cluster` decides by the values before they are
copied whether the flags are to be set anew. Every request of both interfaces leaves
them right, unless it sets another cluster that also lists a control of the auto cluster.
-/

namespace TbsMedia.Ctrls

open Lib List Option World Function

variable {c c' : Nat} {ret : Int}

section Steady

theorem World.setCtrl_self (w : World) (c : Nat) (ctrl : Ctrl) : (w.setCtrl c ctrl).ctrl c = ctrl :=
  update_self ..

structure Steady (w w' : World) : Prop where
  kept : Kept w w'
  cur : ∀ c, (w'.ctrl c).cur = (w.ctrl c).cur
  inactive : ∀ c, hasFlag (w'.ctrl c).flags flagInactive = hasFlag (w.ctrl c).flags flagInactive

open Steady

variable {w w' w'' : World}

theorem Steady.of_ctrl (hkept : Kept w w') (hctrl : w'.ctrl = w.ctrl) : Steady w w' :=
  ⟨hkept, fun c => by rw [hctrl], fun c => by rw [hctrl]⟩

theorem Steady.refl (w : World) : Steady w w := of_ctrl (.refl w) rfl

theorem Steady.trans (hfirst : Steady w w') (hnext : Steady w' w'') : Steady w w'' :=
  ⟨hfirst.kept.trans hnext.kept, fun c => (hnext.cur c).trans (hfirst.cur c),
    fun c => (hnext.inactive c).trans (hfirst.inactive c)⟩

theorem Steady.setCtrl (c : Nat) (new : Value) (isNew : Bool) :
    Steady w (w.setCtrl c { w.ctrl c with new := new, isNew := isNew }) := by
  refine ⟨.setCtrl c _ _ _ _ _, fun c' => ?_, fun c' => ?_⟩
  all_goals
    rcases eq_or_ne c' c with rfl | hne
    · rw [setCtrl_self]
    · rw [setCtrl_of_ne _ hne]

theorem Steady.adjust (members : List Nat) (f : Nat → Ctrl → Ctrl)
    (hf : ∀ c ctrl, ∃ new isNew, f c ctrl = { ctrl with new := new, isNew := isNew }) :
    Steady w { w with ctrl := fun c => if c ∈ members then f c (w.ctrl c) else w.ctrl c } := by
  refine ⟨.adjust _ fun c => ?_, fun c => ?_, fun c => ?_⟩
  · obtain ⟨_, _, heq⟩ := hf c (w.ctrl c)
    split_ifs
    · exact ⟨_, _, _, _, _, heq⟩
    · exact ⟨_, _, _, _, _, rfl⟩
  all_goals
    obtain ⟨_, _, heq⟩ := hf c (w.ctrl c)
    dsimp only
    split_ifs
    · rw [heq]
    · rfl

section

variable (w : World) (members : List Nat)

theorem resetNew_steady : Steady w (resetNew w members) :=
  adjust members (fun _ ctrl => { ctrl with isNew := false }) fun _ _ => ⟨_, _, rfl⟩

theorem curToNew_steady :
    Steady w { w with ctrl := fun c => if c ∈ members then curToNew (w.ctrl c) else w.ctrl c } :=
  adjust members (fun _ ctrl => curToNew ctrl) fun _ _ => ⟨_, _, rfl⟩

theorem callOp_steady (hasOp : Bool) (answer : Answer) :
    Steady w (callOp w members hasOp answer).2 := by
  rcases hasOp with _ | _
  · exact refl w
  exact adjust members (fun c ctrl => { ctrl with new := answer.value c ctrl.new })
    fun _ _ => ⟨_, _, rfl⟩

end

theorem and_or_of_disjoint {f g flag : UInt32} (hdisjoint : g &&& flag = 0) :
    (f ||| g) &&& flag = f &&& flag := by
  have hbits : g.toBitVec &&& flag.toBitVec = 0#32 := congrArg UInt32.toBitVec hdisjoint
  apply UInt32.toBitVec_inj.mp
  rw [UInt32.toBitVec_and, UInt32.toBitVec_or, BitVec.and_or_distrib_right, hbits,
    BitVec.or_zero, UInt32.toBitVec_and]

theorem grab_steady (w : World) (grabbed : Nat → Bool) : Steady w (w.grab grabbed) := by
  refine ⟨grab_kept w grabbed, fun c => rfl, fun c => ?_⟩
  have hmask : ~~~ flagGrabbed &&& flagInactive = flagInactive := by decide
  cases hgrab : grabbed c with
  | true =>
    simp only [grab, v4l2CtrlGrab, hgrab, if_true, hasFlag]
    rw [and_or_of_disjoint (by decide)]
  | false =>
    simp only [grab, v4l2CtrlGrab, hgrab, hasFlag]
    rw [if_neg (by simp), UInt32.and_assoc, hmask]

theorem checkLoop_steady (set : Bool) (members : List Nat) (w : World) :
    Steady w (checkLoop set members w).2 := by
  induction members generalizing w with
  | nil => exact .refl w
  | cons c rest ih =>
    rw [checkLoop]
    split_ifs
    · exact (Steady.setCtrl c _ _).trans (ih _)
    · exact .refl w
    · exact ih w

theorem userLoop_steady (helpers : Nat → Helper) (controls : Nat → ExtControl)
    (indices : List Nat) (w : World) : Steady w (userLoop helpers controls indices w).2 := by
  induction indices generalizing w with
  | nil => exact .refl w
  | cons idx rest ih =>
    have htaken : Steady w (w.setCtrl (helpers idx).ctrl
        (userToNew (controls idx) (w.ctrl (helpers idx).ctrl)).2) := by
      generalize (helpers idx).ctrl = c
      obtain ⟨new', heq, -⟩ := userToNew_dynamic (controls idx) (w.ctrl c) (w.ctrl c).cur
        (w.ctrl c).new (w.ctrl c).isNew (w.ctrl c).flags
      have hnew : (userToNew (controls idx) (w.ctrl c)).2 =
          { w.ctrl c with new := new', isNew := true } := congrArg Prod.snd heq
      rw [hnew]
      exact .setCtrl c new' true
    rw [userLoop]
    dsimp only
    split_ifs
    · exact htaken
    · exact htaken.trans (ih _)

theorem askVolatile_steady {master : Nat} {answer : Answer}
    (heq : askVolatile w master answer = some (ret, w')) : Steady w w' := by
  obtain ⟨members, -, hcall⟩ := map_eq_some_iff.mp heq
  have hsteady := (curToNew_steady w members).trans (callOp_steady _ members true answer)
  rw [hcall] at hsteady
  exact hsteady

end Steady

section Permanent

variable {w : World}

/-- What `new_to_cur` makes of the current value. -/
def settledValue (ctrl : Ctrl) : Value := if ctrl.type = .button then ctrl.cur else ctrl.new

theorem newToCur_of_ne (hne : c' ≠ c) (update : Bool) :
    (newToCur w c update).ctrl c' = w.ctrl c' := by
  obtain ⟨flag, heq⟩ := newToCur_eq w c update
  rw [heq, setCtrl_of_ne w hne]

theorem newToCur_self (c : Nat) (update : Bool) : ∃ flags,
    (newToCur w c update).ctrl c =
      { w.ctrl c with cur := settledValue (w.ctrl c), flags := flags } := by
  obtain ⟨flag, heq⟩ := newToCur_eq w c update
  exact ⟨flag, by rw [heq, setCtrl_self]; rfl⟩

theorem newToCur_flags (c c' : Nat) : ((newToCur w c false).ctrl c').flags = (w.ctrl c').flags := by
  rcases eq_or_ne c' c with rfl | hne
  · simp only [newToCur, Bool.false_eq_true, if_false]
    rw [setCtrl_self]
    split_ifs <;> rfl
  · rw [newToCur_of_ne hne]

theorem hasFlag_inactive (flags : UInt32) (manual : Bool) :
    hasFlag (if manual then flags &&& ~~~ flagInactive
      else (flags &&& ~~~ flagInactive) ||| flagInactive) flagInactive = !manual := by
  cases manual with
  | true =>
    have hzero : (flags &&& ~~~ flagInactive) &&& flagInactive = 0 := by
      rw [UInt32.and_assoc]
      exact UInt32.and_zero
    simp only [if_true, hasFlag, hzero]
    rfl
  | false =>
    simp only [Bool.false_eq_true, if_false, hasFlag, or_and_self_right]
    rfl

/-- With an update a member is inactive unless the master's value is the manual one. -/
theorem newToCur_inactive {m : Nat} (hmaster : masterOf w c = some m) (hne : c ≠ m) :
    hasFlag ((newToCur w c true).ctrl c).flags flagInactive = !isCurManual (w.ctrl m) := by
  have hsame : ∀ ctrl : Ctrl, ctrl.cluster = (w.ctrl c).cluster →
      masterOf (w.setCtrl c ctrl) c = some m := by
    intro ctrl hclus
    rw [← hmaster, masterOf, masterOf, clusterOf, setCtrl_self, hclus]
    rfl
  simp only [newToCur, if_true]
  rw [setCtrl_self, hsame _ (by split_ifs <;> rfl), getD_some, setCtrl_of_ne w hne.symm]
  exact hasFlag_inactive _ _

theorem foldl_newToCur {m : Nat} (update : Bool) (others : List Nat)
    (hsettle : settledValue (w.ctrl m) = (w.ctrl m).cur)
    (hmaster : ∀ c ∈ others, masterOf w c = some m) :
    ((others.foldl (newToCur · · update) w).ctrl m).cur = (w.ctrl m).cur ∧
      ∀ c ≠ m,
        hasFlag ((others.foldl (newToCur · · update) w).ctrl c).flags flagInactive =
          if update = true ∧ c ∈ others then !isCurManual (w.ctrl m)
          else hasFlag (w.ctrl c).flags flagInactive := by
  induction others generalizing w with
  | nil => exact ⟨rfl, fun c _ => by simp⟩
  | cons first rest ih =>
    have hkept := newToCur_kept w first update
    -- a master that is listed again keeps its value
    have hm : ∃ flags, (newToCur w first update).ctrl m = { w.ctrl m with flags := flags } := by
      rcases eq_or_ne m first with rfl | hne
      · obtain ⟨flags, heq⟩ := newToCur_self (w := w) m update
        exact ⟨flags, by rw [heq, hsettle]⟩
      · exact ⟨_, newToCur_of_ne hne update⟩
    obtain ⟨flags, hm⟩ := hm
    have hmanual : isCurManual ((newToCur w first update).ctrl m) = isCurManual (w.ctrl m) := by
      rw [hm]
      rfl
    obtain ⟨hcur, hinactive⟩ := ih (w := newToCur w first update)
      (by rw [hm]; exact hsettle) fun c hc => by
        rw [hkept.masterOf]
        exact hmaster c (mem_cons_of_mem _ hc)
    refine ⟨by rw [foldl_cons, hcur, hm], fun c hc => ?_⟩
    rw [foldl_cons, hinactive c hc, hmanual]
    by_cases hlater : update = true ∧ c ∈ rest
    · rw [if_pos hlater, if_pos ⟨hlater.1, mem_cons_of_mem _ hlater.2⟩]
    rw [if_neg hlater]
    rcases eq_or_ne c first with rfl | hne
    · cases update with
      | true => rw [newToCur_inactive (hmaster c mem_cons_self) hc, if_pos (by simp)]
      | false => rw [newToCur_flags, if_neg (by simp)]
    · rw [newToCur_of_ne hne, if_neg (by simpa [hne] using hlater)]

end Permanent

variable {x : Nat} {members : List Nat}

section Auto

/-- An auto cluster as `v4l2_ctrl_auto_cluster` builds it, of a master whose value has
32 bits. -/
structure AutoCluster (w : World) (controls : List (Option Nat)) (m : Nat) (manual : UInt8) :
    Prop where
  head : controls.head? = some (some m)
  made : ∀ c, some c ∈ controls → c < w.freshCtrl
  array : ∃ a, a < w.freshArray ∧ w.array a = controls ∧
    ∀ c, some c ∈ controls → (w.ctrl c).cluster = .array a
  ncontrols : (w.ctrl m).ncontrols = controls.length
  auto : (w.ctrl m).isAuto = true
  manual : (w.ctrl m).manualModeValue = manual
  int : typeIsInt (w.ctrl m).type = true

/-- The members other than the master are inactive exactly if the master's value is
not the manual one. -/
def InactiveUnlessManual (w : World) (controls : List (Option Nat)) (m : Nat) (manual : UInt8) :
    Prop :=
  ∀ c, some c ∈ controls → c ≠ m →
    (hasFlag (w.ctrl c).flags flagInactive = true ↔ (w.ctrl m).cur.val ≠ manual.toNat)

/-- Work on the cluster of `x` is work on the auto cluster of `m`, or on controls that are not
in it. -/
def Clear (w : World) (controls : List (Option Nat)) (m x : Nat) : Prop :=
  x = m ∨ ∀ members, membersOf w x = some members → ∀ c ∈ members, some c ∉ controls

variable {w w' : World} {controls : List (Option Nat)} {m : Nat} {manual : UInt8}

theorem Clear.kept (hclear : Clear w controls m x) (hkept : Kept w w') : Clear w' controls m x := by
  rw [Clear, hkept.membersOf]
  exact hclear

theorem InactiveUnlessManual.steady (hflags : InactiveUnlessManual w controls m manual)
    (hsteady : Steady w w') : InactiveUnlessManual w' controls m manual := by
  intro c hc hne
  rw [hsteady.inactive, hsteady.cur]
  exact hflags c hc hne

theorem AutoCluster.kept (hauto : AutoCluster w controls m manual) (hkept : Kept w w') :
    AutoCluster w' controls m manual := by
  obtain ⟨_, _, _, _, _, heq⟩ := hkept.ctrl m
  obtain ⟨a, ha, harray, hclus⟩ := hauto.array
  refine ⟨hauto.head, fun c hc => hkept.freshCtrl ▸ hauto.made c hc,
    ⟨a, hkept.freshArray ▸ ha, hkept.array ▸ harray, fun c hc => ?_⟩, ?_, ?_, ?_, ?_⟩
  · obtain ⟨_, _, _, _, _, hctrl⟩ := hkept.ctrl c
    rw [hctrl]
    exact hclus c hc
  · rw [heq]
    exact hauto.ncontrols
  · rw [heq]
    exact hauto.auto
  · rw [heq]
    exact hauto.manual
  · rw [heq]
    exact hauto.int

variable (hauto : AutoCluster w controls m manual)

include hauto

theorem AutoCluster.cluster (hc : some c ∈ controls) : clusterOf w c = some controls := by
  obtain ⟨a, -, harray, hclus⟩ := hauto.array
  rw [clusterOf, hclus c hc, ← harray]

theorem AutoCluster.masterOf (hc : some c ∈ controls) : masterOf w c = some m := by
  rw [Ctrls.masterOf, hauto.cluster hc, bind_some, hauto.head]
  rfl

theorem AutoCluster.eq_cons : ∃ rest, controls = some m :: rest :=
  ⟨_, (eq_cons_of_mem_head? (by rw [hauto.head]; rfl))⟩

theorem AutoCluster.master_mem : some m ∈ controls := by
  obtain ⟨rest, rfl⟩ := hauto.eq_cons
  exact mem_cons_self

theorem AutoCluster.membersOf : ∃ others, membersOf w m = some (m :: others) ∧
    (∀ c, some c ∈ controls → c ≠ m → c ∈ others) ∧ ∀ c ∈ others, some c ∈ controls := by
  obtain ⟨rest, rfl⟩ := hauto.eq_cons
  refine ⟨rest.filterMap id, ?_, fun c hc hne => ?_, fun c hc => ?_⟩
  · rw [Ctrls.membersOf, hauto.cluster mem_cons_self, hauto.ncontrols, map_some, take_length]
    rfl
  · have hrest : some c ∈ rest := by simpa [hne] using hc
    exact mem_filterMap.mpr ⟨some c, hrest, rfl⟩
  · obtain ⟨_, hin, rfl⟩ := mem_filterMap.mp hc
    exact mem_cons_of_mem _ hin

theorem AutoCluster.valOf (value : Value) : (w.ctrl m).valOf value = value.val := by
  have hnot : (w.ctrl m).type ≠ .integer64 := by
    intro htype
    have hint := hauto.int
    rw [htype] at hint
    exact absurd hint (by simp [typeIsInt])
  rw [Ctrl.valOf, if_neg hnot]

theorem AutoCluster.isCurManual :
    isCurManual (w.ctrl m) = decide ((w.ctrl m).cur.val = manual.toNat) := by
  rw [Ctrls.isCurManual, hauto.auto, hauto.valOf, hauto.manual, Bool.true_and]

theorem AutoCluster.isNewManual :
    isNewManual (w.ctrl m) = decide ((w.ctrl m).new.val = manual.toNat) := by
  rw [Ctrls.isNewManual, hauto.auto, hauto.valOf, hauto.manual, Bool.true_and]

/-- The values of the cluster become permanent. The flags are to be set anew only if
the master's new value crosses the line, and they then follow the value copied. -/
theorem AutoCluster.makePermanent (hflags : InactiveUnlessManual w controls m manual)
    {others : List Nat} (hmembers : Ctrls.membersOf w m = some (m :: others)) :
    InactiveUnlessManual (makePermanent w m (m :: others)) controls m manual := by
  obtain ⟨others', hmems', hoth, hin⟩ := hauto.membersOf
  obtain rfl : others = others' := by
    rw [hmems'] at hmembers
    exact (List.cons.inj (Option.some.inj hmembers)).2.symm
  have hkept := newToCur_kept w m false
  obtain ⟨flags, hself⟩ := newToCur_self (w := w) m false
  have hsettle : settledValue ((newToCur w m false).ctrl m) =
      ((newToCur w m false).ctrl m).cur := by
    rw [hself]
    unfold settledValue
    split_ifs <;> simp_all
  generalize hupd : (Ctrls.isCurManual (w.ctrl m) != Ctrls.isNewManual (w.ctrl m)) = update
  obtain ⟨hcur, hinactive⟩ := foldl_newToCur update others hsettle fun c hc => by
    rw [hkept.masterOf]
    exact hauto.masterOf (hin c hc)
  have hmanual := (hauto.kept hkept).isCurManual
  intro c hc hne
  rw [Ctrls.makePermanent, hupd]
  rw [hcur, hinactive c hne]
  cases update with
  | true =>
    rw [if_pos ⟨rfl, hoth c hc hne⟩, hmanual]
    simp
  | false =>
    rw [if_neg (by simp), newToCur_of_ne hne, hself, hflags c hc hne]
    rw [hauto.isCurManual, hauto.isNewManual] at hupd
    unfold settledValue
    split_ifs
    · rfl
    · rw [not_iff_not]
      simpa using hupd

theorem AutoCluster.makePermanent_other (hflags : InactiveUnlessManual w controls m manual)
    (hnot : ∀ c ∈ members, some c ∉ controls) (x : Nat) :
    InactiveUnlessManual (Ctrls.makePermanent w x members) controls m manual := by
  have hfold : ∀ update (others : List Nat) (w : World) c, c ∉ others →
      (others.foldl (newToCur · · update) w).ctrl c = w.ctrl c := by
    intro update others
    induction others with
    | nil => exact fun _ _ _ => rfl
    | cons first rest ih =>
      intro w c hc
      rw [foldl_cons, ih _ c (not_mem_of_not_mem_cons hc), newToCur_of_ne (ne_of_not_mem_cons hc)]
  have hsame : ∀ c, some c ∈ controls → (Ctrls.makePermanent w x members).ctrl c = w.ctrl c := by
    intro c hc
    have hout : c ∉ members := fun hin => hnot c hin hc
    rcases members with _ | ⟨first, others⟩
    · rfl
    rw [Ctrls.makePermanent, hfold _ others _ c (not_mem_of_not_mem_cons hout),
      newToCur_of_ne (ne_of_not_mem_cons hout)]
  intro c hc hcm
  rw [hsame c hc, hsame m hauto.master_mem]
  exact hflags c hc hcm

end Auto

variable {out : Outcome}

section Requests

variable {w w' : World} {controls : List (Option Nat)} {m : Nat} {manual : UInt8}

/-- Before the values become permanent, which only a set request makes them, nothing happens
that matters here. -/
theorem tryOrSetCluster_cases (w : World) (master : Nat) (members : List Nat) (set : Bool)
    (answers : Answers) : ∃ w', Steady w w' ∧
      ((tryOrSetCluster w master members set answers).world = w' ∨
        set = true ∧ (tryOrSetCluster w master members set answers).world =
          makePermanent w' master members) := by
  have hcheck := checkLoop_steady set members w
  unfold tryOrSetCluster
  generalize checkLoop set members w = checked at hcheck
  obtain ⟨ret1, w1⟩ := checked
  dsimp only at hcheck ⊢
  split
  · exact ⟨w1, hcheck, .inl rfl⟩
  have htry := hcheck.trans (callOp_steady w1 members (w1.ctrl master).ops.tryCtrl answers.tryCtrl)
  generalize callOp w1 members (w1.ctrl master).ops.tryCtrl answers.tryCtrl = tried at htry
  obtain ⟨ret2, w2⟩ := tried
  split
  · exact ⟨w2, htry, .inl rfl⟩
  split
  · exact ⟨w2, htry, .inl rfl⟩
  rename_i hgo
  have hset := htry.trans (callOp_steady w2 members (w2.ctrl master).ops.sCtrl answers.sCtrl)
  generalize callOp w2 members (w2.ctrl master).ops.sCtrl answers.sCtrl = called at hset
  obtain ⟨ret3, w3⟩ := called
  split_ifs
  · exact ⟨w3, hset, .inl rfl⟩
  · exact ⟨w3, hset, .inr ⟨by simpa using (not_or.mp hgo).1, rfl⟩⟩

structure RightAuto (w : World) (controls : List (Option Nat)) (m : Nat) (manual : UInt8) :
    Prop where
  auto : AutoCluster w controls m manual
  flags : InactiveUnlessManual w controls m manual

section

variable (hright : RightAuto w controls m manual)
include hright

theorem RightAuto.steady (hsteady : Steady w w') : RightAuto w' controls m manual :=
  ⟨hright.auto.kept hsteady.kept, hright.flags.steady hsteady⟩

section

variable (hmembers : membersOf w x = some members) (set : Bool)
  (hclear : set = true → Clear w controls m x) (answers : Answers)
include hmembers hclear

theorem RightAuto.tryOrSetCluster :
    Kept w (tryOrSetCluster w x members set answers).world ∧
      RightAuto (tryOrSetCluster w x members set answers).world controls m manual := by
  obtain ⟨w', hsteady, hworld⟩ := tryOrSetCluster_cases w x members set answers
  have hright' := hright.steady hsteady
  rw [← hsteady.kept.membersOf] at hmembers
  rcases hworld with hworld | ⟨hset, hworld⟩
  · rw [hworld]
    exact ⟨hsteady.kept, hright'⟩
  have hkept := makePermanent_kept w' x members
  rw [hworld]
  refine ⟨hsteady.kept.trans hkept, hright'.auto.kept hkept, ?_⟩
  rcases (hclear hset).kept hsteady.kept with rfl | hother
  · obtain ⟨others, hoth, -⟩ := hright'.auto.membersOf
    obtain rfl := mem_unique hoth hmembers
    exact hright'.auto.makePermanent hright'.flags hmembers
  · exact hright'.auto.makePermanent_other hright'.flags (hother members hmembers) x

theorem RightAuto.trySetCluster (helpers : Nat → Helper) (indices : List Nat)
    (entries : Nat → ExtControl) :
    Kept w (trySetCluster set answers helpers indices x members w entries).1.world ∧
      RightAuto (trySetCluster set answers helpers indices x members w entries).1.world
        controls m manual := by
  have htaken := (resetNew_steady w members).trans
    (userLoop_steady helpers entries indices (resetNew w members))
  unfold Ctrls.trySetCluster
  generalize userLoop helpers entries indices (resetNew w members) = copied at htaken
  dsimp only at htaken ⊢
  obtain ⟨hkept, hset⟩ := (hright.steady htaken).tryOrSetCluster
    (htaken.kept.membersOf x ▸ hmembers) set (fun hset => (hclear hset).kept htaken.kept) answers
  split
  · exact ⟨htaken.kept, hright.steady htaken⟩
  split
  all_goals exact ⟨htaken.kept.trans hkept, hset⟩

end

end

theorem RightAuto.trySetLoop (set : Bool) (answers : Nat → Answers) (helpers : Nat → Helper)
    (count left i : Nat) {out' : Outcome} (hright : RightAuto out.world controls m manual)
    (hclear : set = true → ∀ j r, i ≤ j → j < i + left → (helpers j).mref = some r →
      Clear out.world controls m (out.world.ref r).ctrl)
    (heq : trySetLoop set answers helpers count left i out = some out') :
    Kept out.world out'.world ∧ RightAuto out'.world controls m manual := by
  induction left generalizing i out with
  | zero =>
    cases heq
    exact ⟨.refl _, hright⟩
  | succ left ih =>
    rw [Ctrls.trySetLoop] at heq
    rcases hmref : (helpers i).mref with _ | r
    · rw [hmref] at heq
      exact ih (i + 1) hright (fun hset j r hij hj => hclear hset j r (by omega) (by omega)) heq
    rw [hmref] at heq
    dsimp only at heq
    have hclear1 := fun hset => hclear hset i r le_rfl (by omega) hmref
    generalize (out.world.ref r).ctrl = x at hclear1 heq
    split at heq
    · cases heq
    rename_i members hmembers
    have hgrab := grab_steady out.world (answers i).grabbed
    obtain ⟨hclus, hnext⟩ := (hright.steady hgrab).trySetCluster
      (hgrab.kept.membersOf x ▸ hmembers) set (fun hset => (hclear1 hset).kept hgrab.kept)
      (answers i) helpers (chain helpers count i) out.controls
    have hkept := hgrab.kept.trans hclus
    generalize Ctrls.trySetCluster set (answers i) helpers (chain helpers count i) x
      members (out.world.grab (answers i).grabbed) out.controls = answer
      at heq hnext hkept
    obtain ⟨result, entries⟩ := answer
    split at heq
    · cases heq
      exact ⟨hkept, hnext⟩
    obtain ⟨hrest, hdone⟩ := ih (i + 1) hnext (fun hset j r' hij hj hmref' => by
      obtain ⟨_, href⟩ := hkept.ref r'
      rw [href]
      exact (hclear hset j r' (by omega) (by omega) hmref').kept hkept) heq
    exact ⟨hkept.trans hrest, hdone⟩

theorem getLoop_steady (answers : Nat → Answers) (helpers : Nat → Helper) (count left i : Nat)
    {out' : Outcome} (heq : getLoop answers helpers count left i out = some out') :
    Steady out.world out'.world := by
  induction left generalizing i out with
  | zero =>
    cases heq
    exact .refl _
  | succ left ih =>
    rw [getLoop] at heq
    rcases hmref : (helpers i).mref with _ | r
    · rw [hmref] at heq
      exact ih _ heq
    rw [hmref] at heq
    dsimp only at heq
    generalize hask : ((out.world.ctrl (out.world.ref r).ctrl).ops.gVolatileCtrl &&
      !isCurManual (out.world.ctrl (out.world.ref r).ctrl)) = ask at heq
    split at heq
    · cases heq
    rename_i ret w' hasked
    have hsteady : Steady out.world w' := by
      split_ifs at hasked
      · exact askVolatile_steady hasked
      · cases hasked
        exact .refl _
    split at heq
    · cases heq
      exact hsteady
    generalize toUserLoop (if ask = true then newToUser else curToUser) helpers w'
      (chain helpers count i) out.controls = told at heq
    obtain ⟨ret', entries⟩ := told
    split at heq
    · cases heq
      exact hsteady
    · exact hsteady.trans (ih _ heq)

end Requests

section Operations

variable {w w' : World} {h : Nat} {controls : List (Option Nat)} {m r : Nat} {manual : UInt8}

theorem findRef_steady (hinv : WorldInv w) (id : UInt32) : Steady w (findRef w h id).2 :=
  Steady.of_ctrl (findRef_kept hinv h id) (findRef_ctrl w h id)

theorem findInt_steady (hinv : WorldInv w) (id : UInt32) : Steady w (findInt w h id).2 := by
  have hsteady := findRef_steady (h := h) hinv id
  unfold findInt
  generalize findRef w h id = found at hsteady
  obtain ⟨_ | r, w1⟩ := found
  all_goals exact hsteady

variable {val val' : Int} {set : Bool}

theorem getCtrl_steady {answers : Answers} (heq : getCtrl w c val answers = some (ret, val', w')) :
    Steady w w' := by
  unfold getCtrl at heq
  split at heq
  · cases heq
  rename_i master hmaster
  split at heq
  · cases heq
    exact .refl w
  split at heq
  · split at heq
    · cases heq
    rename_i members hmembers
    cases heq
    exact (curToNew_steady w members).trans (callOp_steady ..)
  · cases heq
    exact .refl w

theorem RightAuto.setCtrl (hright : RightAuto w controls m manual) {answers : Answers}
    (hclear : ∀ x, masterOf w c = some x → Clear w controls m x)
    (heq : setCtrl w c val answers = some (ret, val', w')) :
    Kept w w' ∧ RightAuto w' controls m manual := by
  unfold Ctrls.setCtrl at heq
  split at heq
  · cases heq
  rename_i x hmaster
  rcases hval : validateNewInt (w.ctrl c) val with err | legal
  · rw [hval] at heq
    cases heq
    exact ⟨.refl w, hright⟩
  rw [hval] at heq
  dsimp only at heq
  split at heq
  · cases heq
  rename_i members hmembers
  have hready := ((grab_steady w answers.grabbed).trans
    (resetNew_steady _ members)).trans (.setCtrl c (.num legal) true)
  obtain ⟨hkept, hset⟩ := (hright.steady hready).tryOrSetCluster
    (hready.kept.membersOf x ▸ hmembers) true (fun _ => (hclear x hmaster).kept hready.kept)
    answers
  cases heq
  exact ⟨hready.kept.trans hkept, hset⟩

variable {cs : ExtControls}

/-- Every control that a request works on as a master is one that the handler has under the id
of a listed control's master. -/
theorem Prepared.clear {helpers : Nat → Helper} (hclear : ∀ j < cs.count, ∀ r,
      (helperOf w h cs j).mref = some r → Clear w controls m (w.ref r).ctrl)
    (hprep : Prepared w w' h cs helpers) (hkept : Kept w w') {j : Nat} (hj : j < cs.count)
    (hmref : (helpers j).mref = some r) : Clear w' controls m (w'.ref r).ctrl := by
  rw [hprep.mref j hj] at hmref
  split_ifs at hmref
  rw [(hprep.looked.ref r).1]
  exact (hclear j hj r hmref).kept hkept

variable {answers : Nat → Answers} {kmalloc : Bool} {helpers0 : Nat → Helper}

/-- A try or set request either ends before the first cluster or goes into the loop. -/
theorem trySetExtCtrls_cases (hinv : WorldInv w) (hmasters : MastersInv w)
    (heq : trySetExtCtrls w (some h) cs set answers kmalloc helpers0 = some out) :
    Steady w out.world ∨ ∃ w' helpers errorIdx entries, Kept w w' ∧ w'.ctrl = w.ctrl ∧
      Prepared w w' h cs.masked helpers ∧
      trySetLoop set answers helpers cs.count cs.count 0
        ⟨0, none, errorIdx, [], entries, w'⟩ = some out := by
  unfold trySetExtCtrls at heq
  dsimp only at heq
  split at heq
  · cases heq
    exact .inl (.of_ctrl (classCheck_kept hinv h _) (classCheck_ctrl w h _))
  split at heq
  · cases heq
    exact .inl (.refl w)
  rcases hprep : prepareExtCtrls w h cs.masked helpers0 with _ | answer
  · rw [ExtControls.masked] at hprep
    simp [hprep] at heq
  obtain ⟨ret, idx, helpers, w'⟩ := answer
  obtain ⟨hlook, hprepared⟩ := hinv.prepared hmasters hprep
  have hkept := prepareExtCtrls_kept hinv hprep
  rw [ExtControls.masked] at hprep
  rw [hprep] at heq
  dsimp only at heq
  split at heq
  · cases heq
    exact .inl (.of_ctrl hkept hlook.ctrl)
  rename_i hret
  split at heq
  · cases heq
  rename_i ret' refusal idx' entries hval
  split at heq
  · cases heq
    exact .inl (.of_ctrl hkept hlook.ctrl)
  rcases hprepared with ⟨-, hprepared⟩ | ⟨herr, -⟩
  · exact .inr ⟨w', helpers, idx', entries, hkept, hlook.ctrl, hprepared, heq⟩
  · exact absurd (herr ▸ einval_ne) hret

theorem RightAuto.trySetExtCtrls (hright : RightAuto w controls m manual) (hinv : WorldInv w)
    (hmasters : MastersInv w) {h : Option Nat} (hclear : set = true → ∀ h' ∈ h, ∀ j < cs.count,
      ∀ r, (helperOf w h' cs.masked j).mref = some r → Clear w controls m (w.ref r).ctrl)
    (heq : trySetExtCtrls w h cs set answers kmalloc helpers0 = some out) :
    Kept w out.world ∧ RightAuto out.world controls m manual := by
  rcases h with _ | h
  · cases heq
    exact ⟨.refl w, hright⟩
  rcases trySetExtCtrls_cases hinv hmasters heq with
    hsteady | ⟨w', helpers, errorIdx, entries, hkept, hctrl, hprep, hloop⟩
  · exact ⟨hsteady.kept, hright.steady hsteady⟩
  · obtain ⟨hrest, hdone⟩ := RightAuto.trySetLoop set answers helpers cs.count cs.count 0
      (hright.steady (.of_ctrl hkept hctrl)) (fun hset j r _ hj hmref =>
        hprep.clear (hclear hset h rfl) hkept (zero_add cs.count ▸ hj) hmref) hloop
    exact ⟨hkept.trans hrest, hdone⟩

theorem gExtCtrls_steady (hinv : WorldInv w) (hmasters : MastersInv w) {h : Option Nat}
    (heq : v4l2GExtCtrls w h cs answers kmalloc helpers0 = some out) : Steady w out.world := by
  unfold v4l2GExtCtrls at heq
  rcases h with _ | h
  · cases heq
    exact .refl w
  dsimp only at heq
  split at heq
  · cases heq
    exact .of_ctrl (classCheck_kept hinv h _) (classCheck_ctrl w h _)
  split at heq
  · cases heq
    exact .refl w
  split at heq
  · cases heq
  rename_i ret idx helpers w' hprep
  have hsteady : Steady w w' := .of_ctrl (prepareExtCtrls_kept hinv hprep)
    (hinv.prepared hmasters hprep).1.ctrl
  split_ifs at heq
  · cases heq
    exact hsteady
  · cases heq
    exact hsteady
  · exact hsteady.trans (getLoop_steady _ _ _ _ _ heq)

inductive Op
  | gCtrl (h : Nat) (id : UInt32) (val : Int) (answers : Answers)
  | sCtrl (h : Nat) (id : UInt32) (val : Int) (answers : Answers)
  | ctrlGCtrl (c : Nat) (answers : Answers)
  | ctrlSCtrl (c : Nat) (val : Int) (answers : Answers)
  | gExtCtrls (h : Option Nat) (cs : ExtControls) (answers : Nat → Answers) (kmalloc : Bool)
      (helpers : Nat → Helper)
  | tryExtCtrls (h : Option Nat) (cs : ExtControls) (answers : Nat → Answers) (kmalloc : Bool)
      (helpers : Nat → Helper)
  | sExtCtrls (h : Option Nat) (cs : ExtControls) (answers : Nat → Answers) (kmalloc : Bool)
      (helpers : Nat → Helper)

def opStep (w : World) : Op → Option World
  | .gCtrl h id val answers => (v4l2GCtrl w h id val answers).map fun (_, _, w) => w
  | .sCtrl h id val answers => (v4l2SCtrl w h id val answers).map fun (_, _, w) => w
  | .ctrlGCtrl c answers => (v4l2CtrlGCtrl w c answers).map fun (_, w) => w
  | .ctrlSCtrl c val answers => (v4l2CtrlSCtrl w c val answers).map fun (_, w) => w
  | .gExtCtrls h cs answers kmalloc helpers =>
    (v4l2GExtCtrls w h cs answers kmalloc helpers).map Outcome.world
  | .tryExtCtrls h cs answers kmalloc helpers =>
    (v4l2TryExtCtrls w h cs answers kmalloc helpers).map Outcome.world
  | .sExtCtrls h cs answers kmalloc helpers =>
    (v4l2SExtCtrls w h cs answers kmalloc helpers).map Outcome.world

/-- An operation that sets controls sets the auto cluster, or clusters without a control of it.
Which clusters these are is decided by the controls in the request: the cluster of the control's
master, or of what the handler has under the master's id. -/
def Op.Clear (controls : List (Option Nat)) (m : Nat) (w : World) : Op → Prop
  | .gCtrl .. | .ctrlGCtrl .. | .gExtCtrls .. | .tryExtCtrls .. => True
  | .sCtrl h id _ _ => ∀ c ∈ (findInt w h id).1, ∀ x ∈ masterOf w c, Ctrls.Clear w controls m x
  | .ctrlSCtrl c _ _ => ∀ x ∈ masterOf w c, Ctrls.Clear w controls m x
  | .sExtCtrls h cs _ _ _ => ∀ h' ∈ h, ∀ i < cs.count, ∀ r ∈ (helperOf w h' cs.masked i).mref,
    Ctrls.Clear w controls m (w.ref r).ctrl

theorem RightAuto.opStep (hright : RightAuto w controls m manual) (hinv : WorldInv w)
    (hmasters : MastersInv w) {op : Op} (hclear : op.Clear controls m w)
    (hstep : opStep w op = some w') :
    Kept w w' ∧ RightAuto w' controls m manual := by
  cases op with
  | gCtrl h id val answers =>
    obtain ⟨⟨ret, val', w''⟩, heq, rfl⟩ := map_eq_some_iff.mp hstep
    have hsteady := findInt_steady (h := h) hinv id
    unfold v4l2GCtrl at heq
    generalize findInt w h id = found at hsteady heq
    obtain ⟨c, w1⟩ := found
    rcases c with _ | c
    · cases heq
      exact ⟨hsteady.kept, hright.steady hsteady⟩
    have hall := hsteady.trans (getCtrl_steady heq)
    exact ⟨hall.kept, hright.steady hall⟩
  | sCtrl h id val answers =>
    obtain ⟨⟨ret, val', w''⟩, heq, rfl⟩ := map_eq_some_iff.mp hstep
    have hsteady := findInt_steady (h := h) hinv id
    simp only [Op.Clear] at hclear
    unfold v4l2SCtrl at heq
    generalize findInt w h id = found at hsteady hclear heq
    obtain ⟨c, w1⟩ := found
    rcases c with _ | c
    · cases heq
      exact ⟨hsteady.kept, hright.steady hsteady⟩
    dsimp only at heq hsteady
    split_ifs at heq with hread
    · cases heq
      exact ⟨hsteady.kept, hright.steady hsteady⟩
    obtain ⟨hkept, hset⟩ := (hright.steady hsteady).setCtrl (fun x hx => by
      rw [hsteady.kept.masterOf] at hx
      exact (hclear c rfl x hx).kept hsteady.kept) heq
    exact ⟨hsteady.kept.trans hkept, hset⟩
  | ctrlGCtrl c answers =>
    obtain ⟨⟨val, w1⟩, heq, rfl⟩ := map_eq_some_iff.mp hstep
    obtain ⟨⟨ret, val', w2⟩, hget, hpair⟩ := map_eq_some_iff.mp heq
    cases hpair
    have hsteady := getCtrl_steady hget
    exact ⟨hsteady.kept, hright.steady hsteady⟩
  | ctrlSCtrl c val answers =>
    obtain ⟨⟨ret, w1⟩, heq, rfl⟩ := map_eq_some_iff.mp hstep
    obtain ⟨⟨ret', val', w2⟩, hset, hpair⟩ := map_eq_some_iff.mp heq
    cases hpair
    exact hright.setCtrl hclear hset
  | gExtCtrls h cs answers kmalloc helpers =>
    obtain ⟨out, heq, rfl⟩ := map_eq_some_iff.mp hstep
    have hsteady := gExtCtrls_steady hinv hmasters heq
    exact ⟨hsteady.kept, hright.steady hsteady⟩
  | tryExtCtrls h cs answers kmalloc helpers =>
    obtain ⟨out, heq, rfl⟩ := map_eq_some_iff.mp hstep
    unfold v4l2TryExtCtrls at heq
    exact hright.trySetExtCtrls hinv hmasters (fun hset => by cases hset) heq
  | sExtCtrls h cs answers kmalloc helpers =>
    obtain ⟨out, heq, rfl⟩ := map_eq_some_iff.mp hstep
    exact hright.trySetExtCtrls hinv hmasters (fun _ => hclear) heq

end Operations

section Start

variable {w w' : World} {rest : List (Option Nat)} {m : Nat} {manual : UInt8} {setVolatile : Bool}
  (heq : v4l2CtrlAutoCluster w (some m :: rest) manual setVolatile = some w')
include heq

theorem autoCluster_master :
    w'.ctrl m = { w.ctrl m with
      cluster := .array w.freshArray, ncontrols := rest.length + 1, isAuto := true
      manualModeValue := manual
      isVolatile := (w'.ctrl m).isVolatile, flags := (w'.ctrl m).flags } := by
  cases heq
  by_cases hin : some m ∈ rest
  all_goals simp [World.setCtrl, hin]

theorem autoCluster_member (hc : some c ∈ rest) (hne : c ≠ m) :
    w'.ctrl c = { w.ctrl c with
      cluster := .array w.freshArray, ncontrols := rest.length + 1, isVolatile := setVolatile
      flags := (w.ctrl c).flags ||| if isCurManual (w'.ctrl m) then 0 else flagInactive } := by
  cases heq
  by_cases hin : some m ∈ rest
  · simp [World.setCtrl, hc, hin, hne]
    rfl
  · simp [World.setCtrl, hc, hin, hne]

theorem autoCluster_array :
    w'.array w.freshArray = some m :: rest ∧ w'.freshArray = w.freshArray + 1 ∧
      w'.freshCtrl = w.freshCtrl := by
  cases heq
  exact ⟨update_self .., rfl, rfl⟩

/-- `v4l2_ctrl_auto_cluster` sets the flags right for members that do not have them. -/
theorem autoCluster_right (hmade : ∀ c, some c ∈ some m :: rest → c < w.freshCtrl)
    (hint : typeIsInt (w.ctrl m).type = true)
    (hstart : ∀ c, some c ∈ some m :: rest → c ≠ m → hasFlag (w.ctrl c).flags flagInactive = false)
    : RightAuto w' (some m :: rest) m manual := by
  have hmaster := autoCluster_master heq
  have hrest : ∀ c, some c ∈ some m :: rest → c ≠ m → some c ∈ rest := by
    intro c hc hne
    simpa [hne] using hc
  have hauto : AutoCluster w' (some m :: rest) m manual := by
    obtain ⟨harray, hfreshArray, hfreshCtrl⟩ := autoCluster_array heq
    refine ⟨rfl, fun c hc => hfreshCtrl.symm ▸ hmade c hc,
      ⟨w.freshArray, by omega, harray, fun c hc => ?_⟩, ?_, ?_, ?_, ?_⟩
    · rcases eq_or_ne c m with rfl | hne
      · rw [hmaster]
      · rw [autoCluster_member heq (hrest c hc hne) hne]
    · rw [hmaster]
      rfl
    · rw [hmaster]
    · rw [hmaster]
    · rw [hmaster]
      exact hint
  refine ⟨hauto, fun c hc hne => ?_⟩
  have hflags := hstart c hc hne
  rw [autoCluster_member heq (hrest c hc hne) hne, hauto.isCurManual]
  by_cases hmanual : (w'.ctrl m).cur.val = manual.toNat
  · simpa [hmanual] using hflags
  · simp only [hmanual, decide_false, Bool.false_eq_true, if_false, hasFlag, or_and_self_right]
    exact iff_of_true (by decide) hmanual

end Start

section Building

theorem Prim.arrays {clean : Bool} {w w' : World} (hstep : Prim clean w w') (hinv : WorldInv w) :
    w.freshArray ≤ w'.freshArray ∧ ∀ a < w.freshArray, w'.array a = w.array a := by
  cases hstep with
  | fail h err herr =>
    obtain ⟨harray, hfresh⟩ := handlerSetErr_array w h err
    exact ⟨le_of_eq hfresh.symm, fun a _ => by rw [harray]⟩
  | cache hr => exact ⟨le_rfl, fun _ _ => rfl⟩
  | make h p hsane => exact ⟨le_rfl, fun _ _ => rfl⟩
  | @attach h c herr hc howner hnew hvalid hclass hclean =>
    have hins := (hinv.handlers h).insertRef_inserted (c := c) herr
    exact ⟨le_of_eq hins.freshArray.symm, fun a _ => congrFun hins.array a⟩
  | @adopt h c herr howned hforeign hclass =>
    have hins := (hinv.handlers h).insertRef_inserted (c := c) herr
    exact ⟨le_of_eq hins.freshArray.symm, fun a _ => congrFun hins.array a⟩
  | adjust ctrl hsame => exact ⟨le_rfl, fun _ _ => rfl⟩
  | cluster howned hclean heq =>
    obtain ⟨-, rfl⟩ := v4l2CtrlCluster_eq heq
    exact ⟨Nat.le_succ _, fun a ha => update_of_ne (ne_of_lt ha) ..⟩

theorem Path.arrays {clean : Bool} {w w' : World} (hpath : Path clean w w') (hinv : WorldInv w) :
    w.freshArray ≤ w'.freshArray ∧ ∀ a < w.freshArray, w'.array a = w.array a := by
  induction hpath with
  | refl => exact ⟨le_rfl, fun _ _ => rfl⟩
  | tail hpath hstep ih =>
    obtain ⟨hle, harray⟩ := ih
    obtain ⟨hle', harray'⟩ := hstep.arrays (Path.inv hpath hinv).2
    exact ⟨le_trans hle hle', fun a ha => (harray' a (ha.trans_le hle)).trans (harray a ha)⟩

variable (tables : Tables) {w w' : World}

theorem RightAuto.callStep {controls : List (Option Nat)} {m : Nat} {manual : UInt8}
    (hright : RightAuto w controls m manual) (hinv : WorldInv w) {call : Call}
    (hoth : ∀ c, some c ∈ controls → some c ∉ call.clustered)
    (hstep : callStep tables w call = some w') : RightAuto w' controls m manual := by
  have hbuilds : Builds false call.clustered w w' := callStep_builds tables hinv hstep (by simp)
  obtain ⟨hgrows, -⟩ := Path.inv hbuilds.path hinv
  obtain ⟨hle, harrays⟩ := Path.arrays hbuilds.path hinv
  have hctrl : ∀ c, some c ∈ controls → w'.ctrl c = w.ctrl c := fun c hc =>
    hbuilds.ctrl c (hright.auto.made c hc) (hoth c hc)
  have hm := hctrl m hright.auto.master_mem
  obtain ⟨a, ha, harray, hclus⟩ := hright.auto.array
  refine ⟨⟨hright.auto.head,
    fun c hc => lt_of_lt_of_le (hright.auto.made c hc) hgrows.freshCtrl,
    ⟨a, lt_of_lt_of_le ha hle, (harrays a ha).trans harray, fun c hc => ?_⟩, ?_, ?_, ?_, ?_⟩,
    fun c hc hne => ?_⟩
  · rw [hctrl c hc]
    exact hclus c hc
  · rw [hm]
    exact hright.auto.ncontrols
  · rw [hm]
    exact hright.auto.auto
  · rw [hm]
    exact hright.auto.manual
  · rw [hm]
    exact hright.auto.int
  · rw [hctrl c hc, hm]
    exact hright.flags c hc hne

end Building

inductive Act
  | call (call : Call)
  | op (op : Op)

def actStep (tables : Tables) (w : World) : Act → Option World
  | .call call => callStep tables w call
  | .op op => opStep w op

def Act.Clear (controls : List (Option Nat)) (m : Nat) (w : World) : Act → Prop
  | .call made => ∀ c, some c ∈ controls → some c ∉ made.clustered
  | .op used => used.Clear controls m w

def brightnessToOne : Answers where
  tryCtrl := ⟨0, fun _ n => n, fun _ s => s⟩
  sCtrl := ⟨0, fun c n => if c = 0 then 1 else n, fun _ s => s⟩
  gVolatileCtrl := ⟨0, fun _ n => n, fun _ s => s⟩
  grabbed := fun _ => false

def wideAndBrightness : List Call :=
  [.newCustom 0 ⟨⟨false, false, true⟩, 0x00980920, some "Wide", .integer64, ⟨0, 0, 0, 0⟩, 0, 0,
    none, false, false⟩ allGranted, newInteger 0x00980900]

def wideValue : ExtControls where
  ctrlClass := 0
  count := 1
  controls := fun _ => ⟨0x00980920, 0, 0, 4294967297, [], true⟩

end TbsMedia.Ctrls
