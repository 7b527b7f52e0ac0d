import TbsMedia.Ctrls.Steps

/-!
The calls that build handlers, as sequences of small steps. The class control
that `handler_new_ref` adds first is made by the same steps as any other.
-/

namespace TbsMedia.Ctrls

open Function List World

variable {id : UInt32}

section Ids

theorem classCtrl_classCtrl (id : UInt32) : classCtrl (classCtrl id) = classCtrl id := by
  apply UInt32.toNat_inj.mp
  simp only [classCtrl, id2Class, UInt32.toNat_or, UInt32.toNat_and]
  have hbit : UInt32.toNat 1 &&& UInt32.toNat 0x0fff0000 = 0 := by decide
  rw [Nat.and_or_distrib_right, Nat.and_assoc, Nat.and_self, hbit, Nat.or_zero]

theorem classCtrl_lt (hid : id < privateBase) : classCtrl id < privateBase := by
  have hbase : privateBase.toNat = 2 ^ 27 := by decide
  rw [UInt32.lt_iff_toNat_lt, hbase] at hid ⊢
  apply Nat.or_lt_two_pow
  · exact lt_of_le_of_lt Nat.and_le_left hid
  · decide

theorem ctrlSane_valid {p : CtrlParams} (hsane : ctrlSane p = true) : ValidId p.id := by
  simp only [ctrlSane, Bool.not_eq_true', Bool.or_eq_false_iff, decide_eq_false_iff_not] at hsane
  obtain ⟨⟨⟨⟨⟨⟨⟨⟨⟨hid, -⟩, hbase⟩, -⟩, -⟩, -⟩, -⟩, -⟩, -⟩, -⟩ := hsane
  exact ⟨hid, UInt32.not_le.mp hbase⟩

end Ids

variable {w' : World} {h c : Nat} {ids : UInt32 → Prop} {err : Int}

section Frames

/-- From `w` to `w'` the controls that were there stay as they are, none of them
is put on the handler's list, and only the given ids may get listed. -/
structure Untouched (w w' : World) (h : Nat) (ids : UInt32 → Prop) : Prop where
  freshCtrl : w.freshCtrl ≤ w'.freshCtrl
  ctrl : ∀ c, c < w.freshCtrl → w'.ctrl c = w.ctrl c
  ctrls : ∀ c, c < w.freshCtrl → c ∈ (w'.hdl h).ctrls → c ∈ (w.hdl h).ctrls
  listed : ∀ id, Listed w' h id → Listed w h id ∨ ids id

theorem Untouched.refl (w : World) (h : Nat) (ids : UInt32 → Prop) : Untouched w w h ids :=
  ⟨le_rfl, fun _ _ => rfl, fun _ _ hc => hc, fun _ hid => .inl hid⟩

variable {w : World} {c' : Nat}

theorem Untouched.trans {w'' : World} (h1 : Untouched w w' h ids) (h2 : Untouched w' w'' h ids) :
    Untouched w w'' h ids where
  freshCtrl := h1.freshCtrl.trans h2.freshCtrl
  ctrl := fun c hc => (h2.ctrl c (hc.trans_le h1.freshCtrl)).trans (h1.ctrl c hc)
  ctrls := fun c hc hin => h1.ctrls c hc (h2.ctrls c (hc.trans_le h1.freshCtrl) hin)
  listed := by
    intro id hid
    rcases h2.listed id hid with hid | hid
    · exact h1.listed id hid
    · exact .inr hid

theorem Untouched.mono {ids' : UInt32 → Prop} (h1 : Untouched w w' h ids)
    (hids : ∀ id, ids id → ids' id) : Untouched w w' h ids' :=
  ⟨h1.freshCtrl, h1.ctrl, h1.ctrls, fun id hid => (h1.listed id hid).imp_right (hids id)⟩

theorem listed_of_same (hctrl : w'.ctrl = w.ctrl) (href : w'.ref = w.ref)
    (hrefs : (w'.hdl h).ctrlRefs = (w.hdl h).ctrlRefs) (hid : Listed w' h id) : Listed w h id := by
  obtain ⟨r, hr, heq⟩ := hid
  refine ⟨r, hrefs ▸ hr, ?_⟩
  rw [← heq]
  unfold refId
  rw [hctrl, href]

section

variable (w : World)

theorem handlerSetErr_ctrl (h : Nat) (err : Int) :
    (handlerSetErr w h err).ctrl = w.ctrl ∧ (handlerSetErr w h err).ref = w.ref ∧
      (handlerSetErr w h err).freshCtrl = w.freshCtrl := by
  unfold handlerSetErr
  split_ifs <;> exact ⟨rfl, rfl, rfl⟩

theorem handlerSetErr_error (h : Nat) (herr : err ≠ 0) :
    ((handlerSetErr w h err).hdl h).error ≠ 0 := by
  unfold handlerSetErr
  split_ifs with hzero
  · simpa [setHdl] using herr
  · exact hzero

theorem handlerSetErr_untouched (h : Nat) (herr : err ≠ 0) (ids : UInt32 → Prop) :
    Untouched w (handlerSetErr w h err) h ids := by
  obtain ⟨hctrl, href, hfresh⟩ := handlerSetErr_ctrl w h err
  obtain ⟨hsame, hctrls⟩ := handlerSetErr_same w h h herr
  exact ⟨hfresh.ge, fun c _ => by rw [hctrl], fun c _ hc => hctrls ▸ hc,
    fun id hid => .inl (listed_of_same hctrl href hsame.ctrlRefs hid)⟩

theorem cache_untouched (h r : Nat) (ids : UInt32 → Prop) :
    Untouched w (w.setHdl h { w.hdl h with cached := some r }) h ids := by
  refine ⟨le_rfl, fun _ _ => rfl, ?_, ?_⟩
  · intro c _ hc
    simpa [setHdl] using hc
  intro id hid
  refine .inl (listed_of_same ?_ ?_ ?_ hid)
  · rfl
  · rfl
  · simp [setHdl]

theorem made_untouched (hinv : WorldInv w) (h : Nat) (p : CtrlParams) (ids : UInt32 → Prop) :
    Untouched w (made w h p) h ids := by
  refine ⟨Nat.le_succ _, ?_, fun _ _ hc => hc, ?_⟩
  · intro c hc
    simp [made, World.setCtrl, ne_of_lt hc]
  rintro id ⟨r, hr, hid⟩
  refine .inl ⟨r, hr, ?_⟩
  rw [← hid]
  exact ((hinv.handlers h).refId_eq (made_grows w h p) hr).symm

theorem withRef_ctrl_other (h : Nat) (hne : c' ≠ c) : (withRef w h c).ctrl c' = w.ctrl c' := by
  unfold withRef
  split_ifs
  · simp [World.setCtrl, hne]
  · rfl

theorem withRef_cluster (h : Nat) (hoth : c' ≠ c ∨ (w.ctrl c).handler ≠ h) :
    (withRef w h c).ctrl c' = w.ctrl c' := by
  rcases hoth with hne | hforeign
  · exact withRef_ctrl_other w h hne
  · unfold withRef
    rw [if_neg hforeign]

end

theorem HandlerInv.insertRef_listed (hinv : HandlerInv w h) (herr : (w.hdl h).error = 0)
    (id : UInt32) : Listed (insertRef w h c true).2 h id ↔ Listed w h id ∨ id = (w.ctrl c).id := by
  rcases hinv.insertRef_cases herr with ⟨hlist, heq⟩ | ⟨hnot, refs, heq, hat⟩
  · rw [heq]
    have hids := fun r hr => hinv.refId_eq (refusedRef_grows w h c) (r := r) hr
    unfold Listed at hlist ⊢
    rw [show (0, refusedRef w h c).2 = refusedRef w h c from rfl, refusedRef_hdl]
    constructor
    · rintro ⟨r, hr, hid⟩
      exact .inl ⟨r, hr, by rw [← hids r hr, hid]⟩
    rintro (⟨r, hr, hid⟩ | rfl)
    · exact ⟨r, hr, by rw [hids r hr, hid]⟩
    · obtain ⟨r, hr, hid⟩ := hlist
      exact ⟨r, hr, by rw [hids r hr, hid]⟩
  · rw [heq]
    obtain ⟨before, after, hsplit, rfl, -, -⟩ := hat
    have hids := fun r hr => hinv.refId_eq
      (insertedRef_grows w h c (before ++ w.freshRef :: after)) (r := r) hr
    have hnew : (insertedRef w h c (before ++ w.freshRef :: after)).refId w.freshRef =
        (w.ctrl c).id := withRef_refId w h c
    unfold Listed
    rw [show (0, insertedRef w h c (before ++ w.freshRef :: after)).2 =
      insertedRef w h c (before ++ w.freshRef :: after) from rfl, insertedRef_hdl_self]
    have hmem : ∀ r, r ∈ before ++ w.freshRef :: after ↔
        r = w.freshRef ∨ r ∈ (w.hdl h).ctrlRefs := by
      intro r
      rw [hsplit]
      simp only [mem_append, mem_cons]
      tauto
    simp only [hmem]
    constructor
    · rintro ⟨r, rfl | hr, hid⟩
      · exact .inr (hid.symm.trans hnew)
      · exact .inl ⟨r, hr, by rw [← hids r hr, hid]⟩
    · rintro (⟨r, hr, hid⟩ | rfl)
      · exact ⟨r, .inr hr, by rw [hids r hr, hid]⟩
      · exact ⟨w.freshRef, .inl rfl, hnew⟩

theorem HandlerInv.insertRef_ctrl (hinv : HandlerInv w h) (herr : (w.hdl h).error = 0)
    (hoth : c' ≠ c ∨ (w.ctrl c).handler ≠ h) : (insertRef w h c true).2.ctrl c' = w.ctrl c' := by
  rcases hinv.insertRef_cases herr with ⟨-, heq⟩ | ⟨-, refs, heq, -⟩ <;> rw [heq]
  all_goals exact withRef_cluster w h hoth

theorem World.setCtrl_of_ne (w : World) (hne : c' ≠ c) (ctrl : Ctrl) :
    (w.setCtrl c ctrl).ctrl c' = w.ctrl c' :=
  update_of_ne hne ..

theorem findRef_ctrl (w : World) (h : Nat) (id : UInt32) : (findRef w h id).2.ctrl = w.ctrl := by
  unfold findRef
  dsimp only
  split_ifs
  · rfl
  split
  · rfl
  split
  · rfl
  · split <;> rfl

end Frames

variable {newRef : World → Nat → Int × World}

section Paths

variable (clean : Bool)

/-- How `handler_new_ref` gets on: by small steps to a state in which it fails,
or to one in which the class control is there and the reference is inserted. -/
def RefPath (w : World) (h c : Nat) (result : Int × World) : Prop :=
  ∃ w₁, Path clean w w₁ ∧
    Untouched w w₁ h (fun id => id = classCtrl (w.ctrl c).id ∧ id ≠ (w.ctrl c).id) ∧
    ((result.1 ≠ 0 ∧ result.2 = w₁ ∧ (w₁.hdl h).error ≠ 0) ∨
      result.1 = 0 ∧ (w₁.hdl h).error = 0 ∧ ClassReady w₁ h (w.ctrl c).id ∧
        result.2 = (insertRef w₁ h c true).2)

theorem enomem_ne : enomem ≠ 0 := by decide

theorem einval_ne : einval ≠ 0 := by decide

variable {w : World}

theorem insertRef_path (hinv : WorldInv w) (kzalloc : Bool)
    (hclass : ClassReady w h (w.ctrl c).id) : RefPath clean w h c (insertRef w h c kzalloc) := by
  by_cases herr : (w.hdl h).error = 0
  · cases kzalloc with
    | false =>
      have heq : insertRef w h c false = (enomem, handlerSetErr w h enomem) := by
        simp [insertRef, herr]
      rw [heq]
      exact ⟨_, .single (.fail h enomem enomem_ne), handlerSetErr_untouched w h enomem_ne _,
        .inl ⟨enomem_ne, rfl, handlerSetErr_error w h enomem_ne⟩⟩
    | true =>
      refine ⟨w, .refl, .refl w h _, .inr ⟨?_, herr, hclass, rfl⟩⟩
      rcases (hinv.handlers h).insertRef_cases herr with ⟨-, heq⟩ | ⟨-, refs, heq, -⟩ <;> rw [heq]
  · have heq : insertRef w h c kzalloc = ((w.hdl h).error, w) := by simp [insertRef, herr]
    rw [heq]
    exact ⟨w, .refl, .refl w h _, .inl ⟨herr, rfl, herr⟩⟩

/-- How `v4l2_ctrl_new` gets on, with what it may change. -/
structure NewPath (w : World) (h : Nat) (id : UInt32)
    (result : Option Nat × World) : Prop where
  path : Path clean w result.2
  untouched : Untouched w result.2 h (fun id' => id' = id ∨ id' = classCtrl id)
  failed : result.1 = none → (result.2.hdl h).error ≠ 0
  listed : ∀ c, result.1 = some c → Listed result.2 h id

theorem NewPath.of_fail (w : World) (h : Nat) (id : UInt32) (herr : err ≠ 0) :
    NewPath clean w h id (none, handlerSetErr w h err) where
  path := .single (.fail h err herr)
  untouched := handlerSetErr_untouched w h herr _
  failed := fun _ => handlerSetErr_error w h herr
  listed := fun _ hc => absurd hc (by simp)

theorem appended_untouched (hc : ¬ c < w.freshCtrl) (w' : World) (h1 : Untouched w w' h ids) :
    Untouched w (appended w' h c) h ids := by
  refine ⟨h1.freshCtrl, h1.ctrl, ?_, ?_⟩
  · intro c' hc' hin
    rcases mem_appended_ctrls.mp hin with hin | ⟨-, rfl⟩
    · exact h1.ctrls c' hc' hin
    · exact absurd hc' hc
  · intro id hid
    refine h1.listed id (listed_of_same ?_ ?_ ?_ hid)
    · rfl
    · rfl
    · simp [appended, setHdl]

theorem insertRef_untouched (h1 : Untouched w w' h ids) (hinv : WorldInv w')
    (herr : (w'.hdl h).error = 0) (hold : ¬ c < w.freshCtrl) (hc : c < w'.freshCtrl)
    (hvalid : ValidId (w'.ctrl c).id) (hclass : ClassReady w' h (w'.ctrl c).id)
    (hid : ids (w'.ctrl c).id) : Untouched w (insertRef w' h c true).2 h ids := by
  obtain ⟨hgrows, -, hctrls⟩ := hinv.insertRef herr hc hvalid hclass
  refine ⟨h1.freshCtrl.trans hgrows.freshCtrl, ?_, ?_, ?_⟩
  · intro c' hc'
    have hne : c' ≠ c := fun heq => hold (heq ▸ hc')
    rw [(hinv.handlers h).insertRef_ctrl herr (.inl hne)]
    exact h1.ctrl c' hc'
  · intro c' hc' hin
    rw [hctrls] at hin
    exact h1.ctrls c' hc' hin
  · intro id hlist
    rcases ((hinv.handlers h).insertRef_listed herr id).mp hlist with hlist | rfl
    · exact h1.listed id hlist
    · exact .inr hid

theorem ctrlNewWith_path (hinv : WorldInv w) (p : CtrlParams) (kzalloc : Bool)
    (hnewRef : ValidId p.id → WorldInv (made w h p) →
      RefPath clean (made w h p) h w.freshCtrl (newRef (made w h p) w.freshCtrl))
    (hclean : clean = true → ¬ Listed w h p.id) :
    NewPath clean w h p.id (ctrlNewWith newRef w h p kzalloc) := by
  unfold ctrlNewWith
  split_ifs with herr hsane hkzalloc
  · exact ⟨.refl, .refl w h _, fun _ => herr, fun _ hc => absurd hc (by simp)⟩
  · exact .of_fail clean w h p.id erange_ne
  · exact .of_fail clean w h p.id enomem_ne
  have hsane : ctrlSane p = true := by simpa using hsane
  have hmake : Prim clean w (made w h p) := .make h p hsane
  have hmadeInv := (hmake.inv hinv).2
  have hctrl : (made w h p).ctrl w.freshCtrl = freshlyMade h p := by simp [made, World.setCtrl]
  have hfresh : w.freshCtrl < (made w h p).freshCtrl := Nat.lt_succ_self _
  obtain ⟨w1, hpath, huntouched, hcases⟩ := hnewRef (ctrlSane_valid hsane) hmadeInv
  rw [hctrl] at huntouched hcases
  have hinv1 := (hpath.inv hmadeInv).2
  have hctrl1 : w1.ctrl w.freshCtrl = freshlyMade h p := (huntouched.ctrl _ hfresh).trans hctrl
  have hid1 : (w1.ctrl w.freshCtrl).id = p.id := by rw [hctrl1]; rfl
  have huntouched1 := (made_untouched w hinv h p _).trans huntouched
  have hpath1 : Path clean w w1 := .trans (.single hmake) hpath
  change NewPath clean w h p.id
    (if (newRef (made w h p) w.freshCtrl).1 ≠ 0 then (none, (newRef (made w h p) w.freshCtrl).2)
      else (some w.freshCtrl, appended (newRef (made w h p) w.freshCtrl).2 h w.freshCtrl))
  rcases hcases with ⟨hret, heq, herr1⟩ | ⟨hret, herr1, hclass, heq⟩
  · rw [if_pos hret, heq]
    exact ⟨hpath1, huntouched1.mono fun id hid => .inr hid.1, fun _ => herr1,
      fun _ hc => absurd hc (by simp)⟩
  rw [if_neg (not_not.mpr hret), heq]
  have hc1 := hfresh.trans_le huntouched.freshCtrl
  have hvalid1 := hid1 ▸ ctrlSane_valid hsane
  have hclass1 : ClassReady w1 h (w1.ctrl w.freshCtrl).id := hid1 ▸ hclass
  have hattach : Prim clean w1 (appended (insertRef w1 h w.freshCtrl true).2 h w.freshCtrl) := by
    refine .attach herr1 hc1 (by rw [hctrl1]; rfl) ?_ hvalid1 hclass1 ?_
    · intro hin
      exact absurd (hinv.owned h _ (huntouched.ctrls _ hfresh hin)).1 (lt_irrefl _)
    intro hclean' hlist
    rw [hid1] at hlist
    rcases huntouched1.listed _ hlist with hlist | hoth
    · exact hclean hclean' hlist
    · exact hoth.2 rfl
  have hins : Untouched w (insertRef w1 h w.freshCtrl true).2 h
      (fun id' => id' = p.id ∨ id' = classCtrl p.id) :=
    insertRef_untouched (huntouched1.mono fun id hid => .inr hid.1) hinv1 herr1
      (lt_irrefl _) hc1 hvalid1 hclass1 (.inl hid1)
  refine ⟨hpath1.tail hattach, appended_untouched (lt_irrefl _) _ hins,
    fun hc => absurd hc (by simp), ?_⟩
  intro c _
  have hlist := ((hinv1.handlers h).insertRef_listed (c := w.freshCtrl) herr1 p.id).mpr
    (.inr hid1.symm)
  refine listed_of_same ?_ ?_ ?_ hlist
  · rfl
  · rfl
  · simp [appended, setHdl]

theorem findRef_path (hinv : WorldInv w) (h : Nat) (hid : id < privateBase) (ids : UInt32 → Prop) :
    Path clean w (findRef w h id).2 ∧ Untouched w (findRef w h id).2 h ids ∧
      ((findRef w h id).1 = none ↔ ¬ Listed (findRef w h id).2 h id) := by
  obtain ⟨heq, hw⟩ := (hinv.handlers h).findRef_eq hid
  have hnone : (findRef w h id).1 = none ↔ ¬ Listed w h id := by
    rw [heq]
    exact refWith_eq_none_iff
  rcases hw with hw | ⟨r, hr, hw⟩
  · rw [hnone, hw]
    exact ⟨.refl, .refl w h ids, .rfl⟩
  rw [hnone, hw]
  refine ⟨.single (.cache hr), cache_untouched w h r ids, not_congr ⟨?_, ?_⟩⟩
  all_goals
    intro hlist
    refine listed_of_same ?_ ?_ ?_ hlist
    · rfl
    · rfl
    · simp [setHdl]

variable {clean}

/-- What `handler_new_ref` does once the class control is there. -/
theorem RefPath.of_insertRef {w1 : World} (hpath : Path clean w w1)
    (huntouched : Untouched w w1 h (fun id => id = classCtrl (w.ctrl c).id ∧ id ≠ (w.ctrl c).id))
    (hinv : WorldInv w) (hc : c < w.freshCtrl) (kzalloc : Bool)
    (hclass : ClassReady w1 h (w.ctrl c).id) : RefPath clean w h c (insertRef w1 h c kzalloc) := by
  have hctrl := huntouched.ctrl c hc
  obtain ⟨w2, hpath2, huntouched2, hcases⟩ :=
    insertRef_path clean (hpath.inv hinv).2 kzalloc (hctrl.symm ▸ hclass)
  rw [hctrl] at huntouched2 hcases
  exact ⟨w2, hpath.trans hpath2, huntouched.trans huntouched2, hcases⟩

theorem ctrlNewStdWith_path (newRef : World → Nat → Int × World) (tables : Tables)
    (hinv : WorldInv w) (ops : CtrlOps) (range : CtrlRange) (kzalloc : Bool)
    (hnewRef : ∀ p : CtrlParams, p.id = id → ValidId id → WorldInv (made w h p) →
      RefPath clean (made w h p) h w.freshCtrl (newRef (made w h p) w.freshCtrl))
    (hclean : clean = true → ¬ Listed w h id) :
    NewPath clean w h id (ctrlNewStdWith newRef tables w h ops id range kzalloc) := by
  unfold ctrlNewStdWith
  dsimp only
  split_ifs
  · exact .of_fail clean w h id einval_ne
  let p : CtrlParams := ⟨ops, id, tables.getName id, (tables.fill id range).type,
    (tables.fill id range).range, (tables.fill id range).flags, none⟩
  exact ctrlNewWith_path clean hinv p kzalloc (hnewRef p rfl) hclean

variable (tables : Tables) (allocs : Allocs)

theorem handlerNewRef_path (hinv : WorldInv w) (hc : c < w.freshCtrl)
    (hvalid : ValidId (w.ctrl c).id) : RefPath clean w h c (handlerNewRef tables allocs w h c) := by
  have hlt := classCtrl_lt hvalid.2
  unfold handlerNewRef
  dsimp only
  split_ifs with hself
  · exact insertRef_path clean hinv allocs.ref (.inl hself)
  obtain ⟨hpath, huntouched, hnone⟩ := findRef_path clean hinv h hlt
    (fun id => id = classCtrl (w.ctrl c).id ∧ id ≠ (w.ctrl c).id)
  have hinv1 := (hpath.inv hinv).2
  rcases hfind : findRef w h (classCtrl (w.ctrl c).id) with ⟨found, w1⟩
  rw [hfind] at hpath huntouched hnone hinv1
  cases found with
  | some r =>
    have hlist : Listed w1 h (classCtrl (w.ctrl c).id) := by
      by_contra hnot
      exact absurd (hnone.mpr hnot) (by simp)
    exact .of_insertRef hpath huntouched hinv hc allocs.ref (.inr hlist)
  | none =>
    have hnewRef : ∀ p : CtrlParams, p.id = classCtrl (w.ctrl c).id →
        ValidId (classCtrl (w.ctrl c).id) → WorldInv (made w1 h p) →
        RefPath clean (made w1 h p) h w1.freshCtrl
          (insertRef (made w1 h p) h w1.freshCtrl allocs.classRef) := by
      intro p hp _ hmade
      refine insertRef_path clean hmade allocs.classRef (.inl ?_)
      simp only [made, World.setCtrl, update_self, freshlyMade]
      rw [hp, classCtrl_classCtrl]
    have hnew := ctrlNewStdWith_path (fun w c => insertRef w h c allocs.classRef) tables hinv1
      noOps ⟨0, 0, 0, 0⟩ allocs.classCtrl hnewRef fun _ => hnone.mp rfl
    dsimp only
    rcases hstd : ctrlNewStdWith (fun w c => insertRef w h c allocs.classRef) tables w1 h noOps
        (classCtrl (w.ctrl c).id) ⟨0, 0, 0, 0⟩ allocs.classCtrl with ⟨made, w2⟩
    rw [hstd] at hnew
    have huntouched2 : Untouched w1 w2 h
        (fun id => id = classCtrl (w.ctrl c).id ∧ id ≠ (w.ctrl c).id) := by
      refine hnew.untouched.mono fun id hid => ?_
      rw [classCtrl_classCtrl, or_self] at hid
      exact ⟨hid, fun heq => hself (heq.symm.trans hid)⟩
    rcases made with _ | c'
    · exact ⟨w2, hpath.trans hnew.path, huntouched.trans huntouched2,
        .inl ⟨hnew.failed rfl, rfl, hnew.failed rfl⟩⟩
    exact .of_insertRef (hpath.trans hnew.path) (huntouched.trans huntouched2) hinv hc
      allocs.ref (.inr (hnew.listed c' rfl))

theorem handlerNewRef_made {p : CtrlParams} (hvalid : ValidId p.id) (hinv : WorldInv (made w h p)) :
    RefPath clean (made w h p) h w.freshCtrl
      (handlerNewRef tables allocs (made w h p) h w.freshCtrl) := by
  refine handlerNewRef_path tables allocs hinv (Nat.lt_succ_self _) ?_
  simp only [made, World.setCtrl, update_self]
  exact hvalid

theorem v4l2CtrlNew_path (hinv : WorldInv w) (p : CtrlParams)
    (hclean : clean = true → ¬ Listed w h p.id) :
    NewPath clean w h p.id (v4l2CtrlNew tables allocs w h p) :=
  ctrlNewWith_path clean hinv p allocs.ctrl (handlerNewRef_made tables allocs) hclean

end Paths

section Owned

theorem Prim.ctrls_mem {clean : Bool} {w : World} (hstep : Prim clean w w') (hinv : WorldInv w)
    (hc : c ∈ (w.hdl h).ctrls) : c ∈ (w'.hdl h).ctrls := by
  cases hstep with
  | fail h' err herr => rwa [(handlerSetErr_same w h' h herr).2]
  | @cache h' r hr =>
    rcases eq_or_ne h h' with rfl | hne
    · simpa [setHdl] using hc
    · simpa [setHdl, hne] using hc
  | make h' p hsane => exact hc
  | @attach h' c' herr hc' howner hnew hvalid hclass hclean =>
    have hctrls := (hinv.insertRef herr hc' hvalid hclass).2.2
    exact mem_appended_ctrls.mpr (.inl (by rwa [hctrls]))
  | @adopt h' c' herr howned hforeign hclass =>
    obtain ⟨hc', -, hvalid⟩ := hinv.owned _ c' howned
    rwa [(hinv.insertRef herr hc' hvalid hclass).2.2]
  | adjust ctrl hsame => exact hc
  | cluster howned hclean heq =>
    obtain ⟨-, rfl⟩ := v4l2CtrlCluster_eq heq
    exact hc

theorem Path.owned {clean : Bool} {w : World} (hpath : Path clean w w') (hinv : WorldInv w)
    (howned : w.owned c) : w'.owned c ∧ (w'.ctrl c).handler = (w.ctrl c).handler := by
  induction hpath with
  | refl => exact ⟨howned, rfl⟩
  | @tail w1 w2 hpath hstep ih =>
    have hinv1 := (Path.inv hpath hinv).2
    have hhandler := (hstep.inv hinv1).1.handler c (hinv1.owned _ c ih.1).1
    refine ⟨?_, hhandler.trans ih.2⟩
    unfold World.owned
    rw [hhandler]
    exact hstep.ctrls_mem hinv1 ih.1

end Owned

theorem setCtrl_prim {clean : Bool} (w : World) (c : Nat) (ctrl : Ctrl)
    (hsame : ctrl.id = (w.ctrl c).id ∧ ctrl.handler = (w.ctrl c).handler ∧
      ctrl.cluster = (w.ctrl c).cluster ∧ ctrl.ncontrols = (w.ctrl c).ncontrols) :
    Prim clean w (w.setCtrl c ctrl) := by
  refine .adjust _ fun c' => ?_
  rcases eq_or_ne c' c with rfl | hne
  · rw [update_self]
    exact hsame
  · rw [update_of_ne hne]
    exact ⟨rfl, rfl, rfl, rfl⟩

section Calls

/-- The small steps of a call, which changes no control that was there but `touched` ones. -/
structure Builds (clean : Bool) (touched : List (Option Nat)) (w w' : World) : Prop where
  path : Path clean w w'
  ctrl : ∀ c, c < w.freshCtrl → some c ∉ touched → w'.ctrl c = w.ctrl c

variable {clean : Bool} (tables : Tables) {w : World}

theorem Builds.refl (w : World) : Builds clean [] w w := ⟨.refl, fun _ _ _ => rfl⟩

theorem Builds.fail (w : World) (h : Nat) (herr : err ≠ 0) :
    Builds clean [] w (handlerSetErr w h err) :=
  ⟨.single (.fail h err herr), fun c _ _ => congrFun (handlerSetErr_ctrl w h err).1 c⟩

theorem NewPath.builds {made : Option Nat} (hnew : NewPath clean w h id (made, w')) :
    Builds clean [] w w' :=
  ⟨hnew.path, fun c hc _ => hnew.untouched.ctrl c hc⟩

theorem ctrlNewWith_fresh {p : CtrlParams} {kzalloc : Bool}
    (heq : (ctrlNewWith newRef w h p kzalloc).1 = some c) : c = w.freshCtrl := by
  unfold ctrlNewWith at heq
  dsimp only at heq
  split_ifs at heq
  exact (Option.some.inj heq).symm

variable (hinv : WorldInv w)

include hinv

section

variable (allocs : Allocs)

theorem newCustom_builds (h : Nat) (cfg : CtrlConfig)
    (hclean : clean = true → ¬ Listed w h cfg.id) :
    Builds clean [] w (v4l2CtrlNewCustom tables allocs w h cfg).2 := by
  have hnew := v4l2CtrlNew_path tables allocs hinv (customParams tables cfg) hclean
  have hfresh : ∀ c', (v4l2CtrlNew tables allocs w h (customParams tables cfg)).1 = some c' →
      c' = w.freshCtrl := fun c' => ctrlNewWith_fresh
  unfold v4l2CtrlNewCustom
  rcases hres : v4l2CtrlNew tables allocs w h (customParams tables cfg) with ⟨made, w1⟩
  rw [hres] at hnew hfresh
  rcases made with _ | c'
  · exact hnew.builds
  refine ⟨hnew.path.tail (setCtrl_prim w1 c' _ ⟨rfl, rfl, rfl, rfl⟩), fun c hc _ => ?_⟩
  have hne : c ≠ c' := by
    rw [hfresh c' rfl]
    exact ne_of_lt hc
  exact (setCtrl_of_ne _ hne _).trans (hnew.untouched.ctrl c hc)

theorem newStd_builds (h : Nat) (ops : CtrlOps) (id : UInt32) (range : CtrlRange)
    (hclean : clean = true → ¬ Listed w h id) :
    Builds clean [] w (v4l2CtrlNewStd tables allocs w h ops id range).2 := by
  refine (ctrlNewStdWith_path _ tables hinv ops range allocs.ctrl ?_ hclean).builds
  intro p hp hvalid
  exact handlerNewRef_made tables allocs (hp ▸ hvalid)

theorem newStdMenu_builds (h : Nat) (ops : CtrlOps) (id : UInt32) (range : CtrlRange)
    (mask : UInt32) (hclean : clean = true → ¬ Listed w h id) :
    Builds clean [] w (v4l2CtrlNewStdMenu tables allocs w h ops id range mask).2 := by
  unfold v4l2CtrlNewStdMenu
  dsimp only
  split_ifs
  · exact .fail w h einval_ne
  let p : CtrlParams := ⟨ops, id, tables.getName id, (tables.fill id range).type,
    ⟨0, (tables.fill id range).range.max, mask, (tables.fill id range).range.dflt⟩,
    (tables.fill id range).flags, tables.getMenu id⟩
  exact (v4l2CtrlNew_path tables allocs hinv p hclean).builds

/-- A foreign control is put on a handler's list by `handler_new_ref`. -/
theorem handlerNewRef_adopts (howned : w.owned c) (hforeign : (w.ctrl c).handler ≠ h) :
    Builds clean [] w (handlerNewRef tables allocs w h c).2 := by
  obtain ⟨hc, -, hvalid⟩ := hinv.owned _ c howned
  have hnewRef : RefPath clean w h c (handlerNewRef tables allocs w h c) :=
    handlerNewRef_path tables allocs hinv hc hvalid
  obtain ⟨w1, hpath, huntouched, hcases⟩ := hnewRef
  have hctrl := huntouched.ctrl c hc
  rcases hcases with ⟨-, heq, -⟩ | ⟨-, herr, hclass, heq⟩
  · rw [heq]
    exact ⟨hpath, fun c' hc' _ => huntouched.ctrl c' hc'⟩
  rw [heq]
  have hforeign1 : (w1.ctrl c).handler ≠ h := by
    rw [hctrl]
    exact hforeign
  constructor
  · refine hpath.tail (.adopt herr (Path.owned hpath hinv howned).1 hforeign1 ?_)
    rw [hctrl]
    exact hclass
  · intro c' hc' _
    rw [((Path.inv hpath hinv).2.handlers h).insertRef_ctrl herr (.inr hforeign1)]
    exact huntouched.ctrl c' hc'

theorem addCtrl_builds (h c : Option Nat) (howned : ∀ c', c = some c' → w.owned c') :
    Builds clean [] w (v4l2CtrlAddCtrl tables allocs w h c).2 := by
  unfold v4l2CtrlAddCtrl
  rcases h with _ | h
  · exact .refl w
  dsimp only
  split_ifs
  · exact .refl w
  rcases c with _ | c
  · exact .fail w h einval_ne
  dsimp only
  split_ifs with hown
  · exact .refl w
  all_goals exact handlerNewRef_adopts tables hinv allocs (howned c rfl) hown

end

omit hinv in
theorem addHandlerLoop_builds (allocs : Nat → Allocs) (h : Nat) (cs : List Nat) (i : Nat)
    (hinv : WorldInv w) (hcs : ∀ c ∈ cs, w.owned c ∧ (w.ctrl c).handler ≠ h) :
    Builds clean [] w (addHandlerLoop tables allocs h cs i w).2 := by
  induction cs generalizing i w with
  | nil => exact .refl w
  | cons c rest ih =>
    obtain ⟨⟨howned, hforeign⟩, hrest⟩ := forall_mem_cons.mp hcs
    have hadopts : Builds clean [] w (handlerNewRef tables (allocs i) w h c).2 :=
      handlerNewRef_adopts tables hinv (allocs i) howned hforeign
    obtain ⟨hgrows, hinv'⟩ := Path.inv hadopts.path hinv
    have hrest' : ∀ c' ∈ rest, (handlerNewRef tables (allocs i) w h c).2.owned c' ∧
        ((handlerNewRef tables (allocs i) w h c).2.ctrl c').handler ≠ h := by
      intro c' hc'
      obtain ⟨howned', hhandler⟩ := Path.owned hadopts.path hinv (hrest c' hc').1
      exact ⟨howned', hhandler ▸ (hrest c' hc').2⟩
    simp only [addHandlerLoop]
    split_ifs
    · exact ih (i + 1) hinv hrest
    · exact ih (i + 1) hinv hrest
    · exact hadopts
    have hloop := ih (i + 1) hinv' hrest'
    exact ⟨hadopts.path.trans hloop.path, fun c' hc' hnot =>
      (hloop.ctrl c' (hc'.trans_le hgrows.freshCtrl) hnot).trans (hadopts.ctrl c' hc' hnot)⟩

theorem addHandler_builds (allocs : Nat → Allocs) (h add : Option Nat) :
    Builds clean [] w (v4l2CtrlAddHandler tables allocs w h add).2 := by
  rcases h with _ | h
  · exact .refl w
  rcases add with _ | add
  · exact .refl w
  rw [v4l2CtrlAddHandler]
  split_ifs with hself herr
  · exact .refl w
  · exact .refl w
  refine addHandlerLoop_builds tables allocs h _ 0 hinv ?_
  intro c hc
  obtain ⟨-, hhandler, -⟩ := hinv.owned add c hc
  exact ⟨by rwa [owned, hhandler], hhandler ▸ Ne.symm hself⟩

omit hinv in
theorem autoCluster_builds {controls : List (Option Nat)} {manualVal : UInt8}
    {setVolatile : Bool} (howned : ∀ c, some c ∈ controls → w.owned c)
    (hclean : clean = true → ∀ c, some c ∈ controls → ∃ r, (w.ctrl c).cluster = .ref r)
    (heq : v4l2CtrlAutoCluster w controls manualVal setVolatile = some w') :
    Builds clean controls w w' := by
  unfold v4l2CtrlAutoCluster at heq
  rcases hclus : v4l2CtrlCluster w controls with _ | w1
  · simp [hclus] at heq
  obtain ⟨⟨m, rest, rfl⟩, hw1⟩ := v4l2CtrlCluster_eq hclus
  simp only [hclus, Option.some.injEq] at heq
  subst heq
  have hpath : Path clean w w1 := .single (.cluster howned hclean hclus)
  constructor
  · refine (hpath.tail (setCtrl_prim w1 m _ ?_)).tail (.adjust _ fun c => ?_)
    · exact ⟨rfl, rfl, rfl, rfl⟩
    · split_ifs <;> exact ⟨rfl, rfl, rfl, rfl⟩
  intro c _ hnot
  have hrest : some c ∉ rest := fun hin => hnot (mem_cons_of_mem _ hin)
  have hne : c ≠ m := fun heq => hnot (heq ▸ mem_cons_self)
  dsimp only
  rw [if_neg hrest, setCtrl_of_ne _ hne, hw1]
  exact if_neg hnot

end Calls

theorem findRef_and_idMask (w : World) (h : Nat) (id : UInt32) :
    findRef w h (id &&& idMask) = findRef w h id := by
  unfold findRef
  rw [UInt32.and_assoc, UInt32.and_self]

variable {w : World} {clean : Bool}

theorem findRef_steps (hinv : WorldInv w) (h : Nat) (id : UInt32) :
    Path clean w (findRef w h id).2 := by
  by_cases hprivate : privateBase ≤ id &&& idMask
  · have hsame : (findRef w h id).2 = w := by simp [findRef, hprivate]
    rw [hsame]
  · rw [← findRef_and_idMask]
    exact (findRef_path clean hinv h (UInt32.not_le.mp hprivate) fun _ => True).1

def Call.clustered : Call → List (Option Nat)
  | .cluster controls => controls
  | .autoCluster controls _ _ => controls
  | _ => []

/-- The calls after which every control has a live cluster: a control is made
under an id that its handler does not have, and only controls that are in no
cluster yet are clustered. -/
def CleanCall (w : World) : Call → Prop
  | .newCustom h cfg _ => ¬ Listed w h cfg.id
  | .newStd h _ id _ _ => ¬ Listed w h id
  | .newStdMenu h _ id _ _ _ => ¬ Listed w h id
  | .cluster controls => ∀ c, some c ∈ controls → ∃ r, (w.ctrl c).cluster = .ref r
  | .autoCluster controls _ _ => ∀ c, some c ∈ controls → ∃ r, (w.ctrl c).cluster = .ref r
  | _ => True

theorem controls_owned {controls : List (Option Nat)}
    (hall : controls.all (fun c => c.all fun c => w.owned c) = true) :
    ∀ c, some c ∈ controls → w.owned c := by
  intro c hc
  simpa using List.all_eq_true.mp hall (some c) hc

section

variable (tables : Tables) (hinv : WorldInv w) {call : Call}
  (hstep : callStep tables w call = some w') (hclean : clean = true → CleanCall w call)
include hinv hstep hclean

/-- Every call is a sequence of small steps, and a clean one of clean steps. It changes no
control that is there already, but those it makes a cluster of. -/
theorem callStep_builds : Builds clean call.clustered w w' := by
  cases call with
  | newCustom h cfg allocs =>
    cases hstep
    exact newCustom_builds tables hinv allocs h cfg hclean
  | newStd h ops id range allocs =>
    cases hstep
    exact newStd_builds tables hinv allocs h ops id range hclean
  | newStdMenu h ops id range mask allocs =>
    cases hstep
    exact newStdMenu_builds tables hinv allocs h ops id range mask hclean
  | addCtrl h c allocs =>
    simp only [callStep, Option.ite_none_right_eq_some, Option.some.injEq] at hstep
    obtain ⟨hall, rfl⟩ := hstep
    refine addCtrl_builds tables hinv allocs h c fun c' hc' => ?_
    subst hc'
    simpa using hall
  | addHandler h add allocs =>
    cases hstep
    exact addHandler_builds tables hinv allocs h add
  | cluster controls =>
    simp only [callStep, Option.ite_none_right_eq_some] at hstep
    refine ⟨.single (.cluster (controls_owned hstep.1) hclean hstep.2), fun c _ hnot => ?_⟩
    obtain ⟨-, rfl⟩ := v4l2CtrlCluster_eq hstep.2
    exact if_neg hnot
  | autoCluster controls manualVal setVolatile =>
    simp only [callStep, Option.ite_none_right_eq_some] at hstep
    exact autoCluster_builds (controls_owned hstep.1) hclean hstep.2
  | find h id =>
    cases hstep
    exact ⟨findRef_steps hinv h id, fun c _ _ => congrFun (findRef_ctrl w h id) c⟩

theorem callStep_path : Path clean w w' := (callStep_builds tables hinv hstep hclean).path

end

theorem initWorld_inv (hints : Nat → Nat) (kzalloc : Nat → Bool) :
    WorldInv (initWorld hints kzalloc) := by
  refine ⟨fun h => ⟨List.Pairwise.nil, ?_, ?_, ?_, ?_, ?_, ?_⟩, ?_⟩
  · simp [initWorld, v4l2CtrlHandlerInit]
  · intro buckets hbuckets bucket r
    obtain ⟨-, rfl⟩ : kzalloc h = true ∧ (fun _ => []) = buckets := by
      simpa [initWorld, v4l2CtrlHandlerInit] using hbuckets
    simp [initWorld, v4l2CtrlHandlerInit]
  · cases hkzalloc : kzalloc h <;> simp [initWorld, v4l2CtrlHandlerInit, hkzalloc, enomem]
  all_goals simp [initWorld, v4l2CtrlHandlerInit]

end TbsMedia.Ctrls
