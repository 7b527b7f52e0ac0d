import TbsMedia.Ctrls.Handler
import TbsMedia.Lib.SortedTable

/-!
Every call that builds a handler is a sequence of a few small steps: a control
is made, put on its handler's lists or adopted by another handler, a lookup is
remembered, an error is recorded, controls are clustered. What holds of the
handlers after any calls is proved for these steps.
-/

namespace TbsMedia.Ctrls

open Lib Function World Option
open UInt32 (lt_iff_toNat_lt toNat_inj not_lt lt_trans ne_of_lt)

variable {refs : List Nat}

section Insertion

variable {refId : Nat → UInt32} (id : UInt32) (new : Nat)

def InsertedAt (refId : Nat → UInt32) (id : UInt32) (new : Nat) (refs refs' : List Nat) : Prop :=
  ∃ before after, refs = before ++ after ∧ refs' = before ++ new :: after ∧
    (∀ r ∈ before, refId r < id) ∧ ∀ r ∈ after, id < refId r

theorem insertLoop_spec (hasc : Ascending (fun r => (refId r).toNat) refs)
    (hlast : ∃ r ∈ refs, id ≤ refId r) :
    (insertLoop refId id new refs = none ∧ ∃ r ∈ refs, refId r = id) ∨
      ∃ refs', insertLoop refId id new refs = some refs' ∧ InsertedAt refId id new refs refs' := by
  induction refs with
  | nil => simp at hlast
  | cons r rest ih =>
    obtain ⟨habove, hrest⟩ := List.pairwise_cons.mp hasc
    rw [insertLoop]
    split_ifs with hlt heq
    · have hlast' : ∃ r ∈ rest, id ≤ refId r := by
        obtain ⟨r', hr', hle⟩ := hlast
        rcases List.mem_cons.mp hr' with rfl | hr'
        · exact absurd hlt (not_lt.mpr hle)
        · exact ⟨r', hr', hle⟩
      rcases ih hrest hlast' with ⟨hnone, r', hr', hid⟩ | ⟨refs', hsome, hat⟩
      · exact .inl ⟨by simp [hnone], r', List.mem_cons_of_mem r hr', hid⟩
      obtain ⟨before, after, rfl, rfl, hpre, hafter⟩ := hat
      refine .inr ⟨_, by rw [hsome]; rfl, r :: before, after, rfl, rfl, ?_, hafter⟩
      intro r' hr'
      rcases List.mem_cons.mp hr' with rfl | hr'
      · exact hlt
      · exact hpre r' hr'
    · exact .inl ⟨rfl, r, List.mem_cons_self, heq⟩
    · have hgt : id < refId r := by
        rcases UInt32.lt_or_eq_of_le (not_lt.mp hlt) with h | h
        · exact h
        · exact absurd h.symm heq
      refine .inr ⟨_, rfl, [], r :: rest, rfl, rfl, by simp, ?_⟩
      intro r' hr'
      rcases List.mem_cons.mp hr' with rfl | hr'
      · exact hgt
      · exact lt_trans hgt (lt_iff_toNat_lt.mpr (habove r' hr'))

/-- In an ascending list the id is there already, or the new reference finds its place. -/
theorem insertInOrder_spec (hasc : Ascending (fun r => (refId r).toNat) refs) :
    (insertInOrder refId id new refs = none ∧ ∃ r ∈ refs, refId r = id) ∨
      ∃ refs', insertInOrder refId id new refs = some refs' ∧
        InsertedAt refId id new refs refs' := by
  unfold insertInOrder
  rcases hlast : refs.getLast? with _ | last
  · obtain rfl := List.getLast?_eq_none_iff.mp hlast
    exact .inr ⟨_, rfl, [], [], rfl, rfl, by simp, by simp⟩
  obtain ⟨front, rfl⟩ := List.getLast?_eq_some_iff.mp hlast
  simp only
  split_ifs with hlt
  · refine .inr ⟨_, rfl, front ++ [last], [], by simp, by simp, ?_, by simp⟩
    intro r hr
    rcases List.mem_append.mp hr with hr | hr
    · have hbelow := (List.pairwise_append.mp hasc).2.2 r hr last (by simp)
      exact lt_trans (lt_iff_toNat_lt.mpr hbelow) hlt
    · rw [List.mem_singleton.mp hr]
      exact hlt
  · exact insertLoop_spec id new hasc ⟨last, by simp, not_lt.mp hlt⟩

end Insertion

def ValidId (id : UInt32) : Prop := id ≠ 0 ∧ id < privateBase

def Listed (w : World) (h : Nat) (id : UInt32) : Prop :=
  ∃ r ∈ (w.hdl h).ctrlRefs, w.refId r = id

structure HandlerInv (w : World) (h : Nat) : Prop where
  ascending : Ascending (fun r => (w.refId r).toNat) (w.hdl h).ctrlRefs
  valid : ∀ r ∈ (w.hdl h).ctrlRefs, ValidId (w.refId r)
  chains : ∀ buckets, (w.hdl h).buckets = some buckets → ∀ bucket r,
    r ∈ buckets bucket ↔
      r ∈ (w.hdl h).ctrlRefs ∧ (w.refId r).toNat % (w.hdl h).nrOfBuckets = bucket
  unusable : (w.hdl h).buckets = none → (w.hdl h).ctrlRefs = [] ∧ (w.hdl h).error ≠ 0
  cached : ∀ r, (w.hdl h).cached = some r → r ∈ (w.hdl h).ctrlRefs
  classes : ∀ r ∈ (w.hdl h).ctrlRefs, Listed w h (classCtrl (w.refId r))
  allocated : ∀ r ∈ (w.hdl h).ctrlRefs, r < w.freshRef ∧ (w.ref r).ctrl < w.freshCtrl

structure WorldInv (w : World) : Prop where
  handlers : ∀ h, HandlerInv w h
  owned : ∀ h, ∀ c ∈ (w.hdl h).ctrls,
    c < w.freshCtrl ∧ (w.ctrl c).handler = h ∧ ValidId (w.ctrl c).id

variable {w w' : World} {h r : Nat}

section Growth

/-- What is never taken back: allocated controls keep their id and handler, and
references keep their control. -/
structure Grows (w w' : World) : Prop where
  freshCtrl : w.freshCtrl ≤ w'.freshCtrl
  freshRef : w.freshRef ≤ w'.freshRef
  id : ∀ c, c < w.freshCtrl → (w'.ctrl c).id = (w.ctrl c).id
  handler : ∀ c, c < w.freshCtrl → (w'.ctrl c).handler = (w.ctrl c).handler
  ref : ∀ r, r < w.freshRef → (w'.ref r).ctrl = (w.ref r).ctrl

theorem Grows.refl (w : World) : Grows w w :=
  ⟨le_rfl, le_rfl, fun _ _ => rfl, fun _ _ => rfl, fun _ _ => rfl⟩

theorem Grows.trans {w'' : World} (h : Grows w w') (h' : Grows w' w'') : Grows w w'' where
  freshCtrl := h.freshCtrl.trans h'.freshCtrl
  freshRef := h.freshRef.trans h'.freshRef
  id := fun c hc => (h'.id c (hc.trans_le h.freshCtrl)).trans (h.id c hc)
  handler := fun c hc => (h'.handler c (hc.trans_le h.freshCtrl)).trans (h.handler c hc)
  ref := fun r hr => (h'.ref r (hr.trans_le h.freshRef)).trans (h.ref r hr)

theorem Grows.setHdl (w : World) (h : Nat) (hdl : CtrlHandler) : Grows w (w.setHdl h hdl) :=
  ⟨le_rfl, le_rfl, fun _ _ => rfl, fun _ _ => rfl, fun _ _ => rfl⟩

theorem HandlerInv.refId_eq (hinv : HandlerInv w h) (hgrows : Grows w w')
    (hr : r ∈ (w.hdl h).ctrlRefs) : w'.refId r = w.refId r := by
  obtain ⟨hlt, hctrl⟩ := hinv.allocated r hr
  unfold refId
  rw [hgrows.ref r hlt, hgrows.id _ hctrl]

structure SameRefs (hdl hdl' : CtrlHandler) : Prop where
  ctrlRefs : hdl'.ctrlRefs = hdl.ctrlRefs
  buckets : hdl'.buckets = hdl.buckets
  nrOfBuckets : hdl'.nrOfBuckets = hdl.nrOfBuckets
  error : hdl.error ≠ 0 → hdl'.error ≠ 0
  cached : hdl'.cached = hdl.cached ∨ ∃ r ∈ hdl.ctrlRefs, hdl'.cached = some r

theorem SameRefs.refl (hdl : CtrlHandler) : SameRefs hdl hdl :=
  ⟨rfl, rfl, rfl, fun h => h, .inl rfl⟩

theorem HandlerInv.grow (hinv : HandlerInv w h) (hgrows : Grows w w')
    (hsame : SameRefs (w.hdl h) (w'.hdl h)) : HandlerInv w' h := by
  have hids : ∀ r ∈ (w.hdl h).ctrlRefs, w'.refId r = w.refId r := fun r hr =>
    hinv.refId_eq hgrows hr
  constructor
  · rw [hsame.ctrlRefs]
    refine List.Pairwise.imp_of_mem ?_ hinv.ascending
    intro a b ha hb hlt
    simpa [hids a ha, hids b hb] using hlt
  · rw [hsame.ctrlRefs]
    intro r hr
    rw [hids r hr]
    exact hinv.valid r hr
  · rw [hsame.ctrlRefs, hsame.buckets, hsame.nrOfBuckets]
    intro buckets hbuckets bucket r
    rw [hinv.chains buckets hbuckets bucket r]
    apply and_congr_right
    intro hr
    rw [hids r hr]
  · rw [hsame.buckets, hsame.ctrlRefs]
    intro hnone
    obtain ⟨hrefs, herr⟩ := hinv.unusable hnone
    exact ⟨hrefs, hsame.error herr⟩
  · rw [hsame.ctrlRefs]
    intro r hr
    rcases hsame.cached with heq | ⟨r', hr', heq⟩
    · exact hinv.cached r (heq ▸ hr)
    · rw [heq] at hr
      rwa [← some.inj hr]
  · rw [hsame.ctrlRefs]
    intro r hr
    obtain ⟨r', hr', hid⟩ := hinv.classes r hr
    exact ⟨r', hsame.ctrlRefs ▸ hr', by rw [hids r hr, hids r' hr', hid]⟩
  · rw [hsame.ctrlRefs]
    intro r hr
    obtain ⟨hlt, hctrl⟩ := hinv.allocated r hr
    rw [hgrows.ref r hlt]
    exact ⟨hlt.trans_le hgrows.freshRef, hctrl.trans_le hgrows.freshCtrl⟩

theorem WorldInv.grow (hinv : WorldInv w) (hgrows : Grows w w')
    (hsame : ∀ h, SameRefs (w.hdl h) (w'.hdl h))
    (hctrls : ∀ h, (w'.hdl h).ctrls = (w.hdl h).ctrls) :
    WorldInv w' := by
  refine ⟨fun h => (hinv.handlers h).grow hgrows (hsame h), ?_⟩
  intro h c hc
  rw [hctrls] at hc
  obtain ⟨hlt, howner, hvalid⟩ := hinv.owned h c hc
  rw [hgrows.handler c hlt, hgrows.id c hlt]
  exact ⟨hlt.trans_le hgrows.freshCtrl, howner, hvalid⟩

end Growth

section Lookup

variable {id : UInt32}

theorem and_idMask (hid : id < privateBase) : id &&& idMask = id := by
  apply toNat_inj.mp
  have hlt : id.toNat < 2 ^ 28 := by
    have h := lt_iff_toNat_lt.mp hid
    exact h.trans (by decide)
  have hmask : idMask.toNat = 2 ^ 28 - 1 := by decide
  rw [UInt32.toNat_and, hmask, Nat.and_two_pow_sub_one_eq_mod, Nat.mod_eq_of_lt hlt]

def refWith (w : World) (h : Nat) (id : UInt32) : Option Nat :=
  lookup (fun r => (w.refId r).toNat) (w.hdl h).ctrlRefs id.toNat

theorem refWith_eq_none_iff : refWith w h id = none ↔ ¬ Listed w h id := by
  unfold refWith Listed
  rw [lookup_eq_none_iff]
  simp [toNat_inj]

theorem refWith_some (hfound : refWith w h id = some r) :
    r ∈ (w.hdl h).ctrlRefs ∧ w.refId r = id := by
  obtain ⟨hr, hid⟩ := lookup_some hfound
  exact ⟨hr, toNat_inj.mp hid⟩

theorem HandlerInv.refWith_of_mem (hinv : HandlerInv w h) (hr : r ∈ (w.hdl h).ctrlRefs) :
    refWith w h (w.refId r) = some r :=
  lookup_of_mem hinv.ascending hr

/-- The hash chains and the remembered reference agree with the list. -/
theorem HandlerInv.findRef_eq (hinv : HandlerInv w h) (hid : id < privateBase) :
    (findRef w h id).1 = refWith w h id ∧
      ((findRef w h id).2 = w ∨ ∃ r ∈ (w.hdl h).ctrlRefs,
        (findRef w h id).2 = w.setHdl h { w.hdl h with cached := some r }) := by
  have hlook : ∀ r ∈ (w.hdl h).ctrlRefs, w.refId r = id → refWith w h id = some r := by
    intro r hr heq
    rw [← heq]
    exact hinv.refWith_of_mem hr
  have hnot := UInt32.not_le.mpr hid
  simp only [findRef, and_idMask hid, hnot, if_false]
  cases hcached : (w.hdl h).cached.filter (fun r => w.refId r = id) with
  | some r =>
    obtain ⟨hsome, heq⟩ := filter_eq_some_iff.mp hcached
    exact ⟨(hlook r (hinv.cached r hsome) (by simpa using heq)).symm, .inl rfl⟩
  | none =>
    rcases hbuckets : (w.hdl h).buckets with _ | buckets
    · refine ⟨?_, .inl rfl⟩
      rw [refWith, (hinv.unusable hbuckets).1]
      rfl
    have hchain := hinv.chains buckets hbuckets (id.toNat % (w.hdl h).nrOfBuckets)
    simp only
    cases hfind : (buckets (id.toNat % (w.hdl h).nrOfBuckets)).find?
        (fun r => decide (w.refId r = id)) with
    | none =>
      refine ⟨(refWith_eq_none_iff.mpr ?_).symm, .inl rfl⟩
      rintro ⟨r, hr, heq⟩
      have hin := (hchain r).mpr ⟨hr, by rw [heq]⟩
      exact List.find?_eq_none.mp hfind r hin (by simpa using heq)
    | some r =>
      have hr := ((hchain r).mp (List.mem_of_find?_eq_some hfind)).1
      have heq : w.refId r = id := by simpa using List.find?_some hfind
      exact ⟨(hlook r hr heq).symm, .inr ⟨r, hr, rfl⟩⟩

end Lookup

variable {c : Nat}

section References

def withRef (w : World) (h c : Nat) : World :=
  let w' := { w with ref := update w.ref w.freshRef ⟨c, none, false⟩,
                     freshRef := w.freshRef + 1 }
  if (w.ctrl c).handler = h then
    w'.setCtrl c { w.ctrl c with cluster := .ref w.freshRef, ncontrols := 1 } else w'

def refusedRef (w : World) (h c : Nat) : World :=
  let w' := withRef w h c
  { w' with ref := update w'.ref w.freshRef { w'.ref w.freshRef with freed := true } }

def insertedRef (w : World) (h c : Nat) (refs : List Nat) : World :=
  (withRef w h c).setHdl h { w.hdl h with
      ctrlRefs := refs
      buckets := (w.hdl h).buckets.map
        (chainInsert (w.hdl h).nrOfBuckets (w.ctrl c).id w.freshRef) }

section

variable (w : World)

theorem withRef_hdl (h c : Nat) : (withRef w h c).hdl = w.hdl := by
  unfold withRef
  split_ifs <;> rfl

theorem withRef_ref (h c : Nat) :
    (withRef w h c).ref = update w.ref w.freshRef ⟨c, none, false⟩ := by
  unfold withRef
  split_ifs <;> rfl

theorem withRef_id (h c c' : Nat) : ((withRef w h c).ctrl c').id = (w.ctrl c').id := by
  unfold withRef
  split_ifs
  · rcases eq_or_ne c' c with rfl | hne
    · simp [World.setCtrl]
    · simp [World.setCtrl, hne]
  · rfl

theorem withRef_handler (h c c' : Nat) :
    ((withRef w h c).ctrl c').handler = (w.ctrl c').handler := by
  unfold withRef
  split_ifs
  · rcases eq_or_ne c' c with rfl | hne
    · simp [World.setCtrl]
    · simp [World.setCtrl, hne]
  · rfl

theorem withRef_freshRef (h c : Nat) : (withRef w h c).freshRef = w.freshRef + 1 := by
  unfold withRef
  split_ifs <;> rfl

theorem withRef_freshCtrl (h c : Nat) : (withRef w h c).freshCtrl = w.freshCtrl := by
  unfold withRef
  split_ifs <;> rfl

theorem withRef_grows (h c : Nat) : Grows w (withRef w h c) where
  freshCtrl := (withRef_freshCtrl w h c).ge
  freshRef := by rw [withRef_freshRef]; exact Nat.le_succ _
  id := fun c' _ => withRef_id w h c c'
  handler := fun c' _ => withRef_handler w h c c'
  ref := by
    intro r hr
    rw [withRef_ref, update_of_ne (ne_of_lt hr)]

theorem withRef_refId (h c : Nat) : (withRef w h c).refId w.freshRef = (w.ctrl c).id := by
  unfold refId
  rw [withRef_ref, update_self, withRef_id]

theorem refusedRef_grows (h c : Nat) : Grows w (refusedRef w h c) := by
  refine (withRef_grows w h c).trans ⟨le_rfl, le_rfl, fun _ _ => rfl, fun _ _ => rfl, ?_⟩
  intro r _
  unfold refusedRef
  dsimp only
  rcases eq_or_ne r w.freshRef with rfl | hne
  · rw [update_self]
  · rw [update_of_ne hne]

theorem refusedRef_hdl (h c : Nat) : (refusedRef w h c).hdl = w.hdl := withRef_hdl w h c

theorem insertedRef_grows (h c : Nat) (refs : List Nat) : Grows w (insertedRef w h c refs) :=
  (withRef_grows w h c).trans (.setHdl _ h _)

end

theorem insertRef_eq (herr : (w.hdl h).error = 0) : insertRef w h c true =
    match insertInOrder (withRef w h c).refId (w.ctrl c).id w.freshRef (w.hdl h).ctrlRefs with
    | none => (0, refusedRef w h c)
    | some refs => (0, insertedRef w h c refs) := by
  unfold insertRef
  rw [if_neg (not_not.mpr herr)]
  rfl

/-- A new reference is refused if its id is listed, and inserted otherwise. -/
theorem HandlerInv.insertRef_cases (hinv : HandlerInv w h) (herr : (w.hdl h).error = 0) :
    (Listed w h (w.ctrl c).id ∧ insertRef w h c true = (0, refusedRef w h c)) ∨
      ¬ Listed w h (w.ctrl c).id ∧ ∃ refs, insertRef w h c true = (0, insertedRef w h c refs) ∧
        InsertedAt w.refId (w.ctrl c).id w.freshRef (w.hdl h).ctrlRefs refs := by
  have hids : ∀ r ∈ (w.hdl h).ctrlRefs, (withRef w h c).refId r = w.refId r := fun r hr =>
    hinv.refId_eq (withRef_grows w h c) hr
  have hasc := (hinv.grow (withRef_grows w h c) (by rw [withRef_hdl]; exact .refl _)).ascending
  rw [withRef_hdl] at hasc
  rcases insertInOrder_spec (w.ctrl c).id w.freshRef hasc with
    ⟨hnone, r, hr, hid⟩ | ⟨refs, hsome, before, after, hsplit, hrefs, hpre, hafter⟩
  · refine .inl ⟨⟨r, hr, by rw [← hids r hr, hid]⟩, ?_⟩
    rw [insertRef_eq herr, hnone]
  have hpre' : ∀ r ∈ before, w.refId r < (w.ctrl c).id := by
    intro r hr
    rw [← hids r (by rw [hsplit]; exact List.mem_append_left _ hr)]
    exact hpre r hr
  have hafter' : ∀ r ∈ after, (w.ctrl c).id < w.refId r := by
    intro r hr
    rw [← hids r (by rw [hsplit]; exact List.mem_append_right _ hr)]
    exact hafter r hr
  refine .inr ⟨?_, refs, by rw [insertRef_eq herr, hsome], before, after, hsplit, hrefs, hpre',
    hafter'⟩
  rintro ⟨r, hr, hid⟩
  rw [hsplit] at hr
  rcases List.mem_append.mp hr with hr | hr
  · exact ne_of_lt (hpre' r hr) hid
  · exact ne_of_lt (hafter' r hr) hid.symm

theorem insertedRef_hdl_self (w : World) (h c : Nat) (refs : List Nat) :
    (insertedRef w h c refs).hdl h =
      { w.hdl h with
        ctrlRefs := refs
        buckets := (w.hdl h).buckets.map
          (chainInsert (w.hdl h).nrOfBuckets (w.ctrl c).id w.freshRef) } := by
  simp [insertedRef, setHdl]

theorem insertedRef_hdl_other (w : World) {h' : Nat} (c : Nat) (refs : List Nat) (hne : h' ≠ h) :
    (insertedRef w h c refs).hdl h' = w.hdl h' := by
  simp [insertedRef, setHdl, hne, withRef_hdl]

theorem HandlerInv.inserted (hinv : HandlerInv w h) (herr : (w.hdl h).error = 0)
    (hc : c < w.freshCtrl) (hvalid : ValidId (w.ctrl c).id)
    (hclass : (w.ctrl c).id = classCtrl (w.ctrl c).id ∨ Listed w h (classCtrl (w.ctrl c).id))
    (hat : InsertedAt w.refId (w.ctrl c).id w.freshRef (w.hdl h).ctrlRefs refs) :
    HandlerInv (insertedRef w h c refs) h := by
  obtain ⟨before, after, hsplit, rfl, hpre, hafter⟩ := hat
  let w' := insertedRef w h c (before ++ w.freshRef :: after)
  have hgrows : Grows w w' := insertedRef_grows w h c _
  have hids : ∀ r ∈ (w.hdl h).ctrlRefs, w'.refId r = w.refId r := fun r hr =>
    hinv.refId_eq hgrows hr
  have hnew : w'.refId w.freshRef = (w.ctrl c).id := withRef_refId w h c
  have hmem : ∀ r, r ∈ before ++ w.freshRef :: after ↔
      r = w.freshRef ∨ r ∈ (w.hdl h).ctrlRefs := by
    intro r
    rw [hsplit]
    simp only [List.mem_append, List.mem_cons]
    tauto
  have hlisted : ∀ id, Listed w h id → Listed w' h id := by
    rintro id ⟨r, hr, hid⟩
    refine ⟨r, ?_, by rw [hids r hr, hid]⟩
    rw [insertedRef_hdl_self]
    exact (hmem r).mpr (.inr hr)
  have hself : Listed w' h (w.ctrl c).id :=
    ⟨w.freshRef, by rw [insertedRef_hdl_self]; exact (hmem _).mpr (.inl rfl), hnew⟩
  have hfresh : ∀ r ∈ (w.hdl h).ctrlRefs, r ≠ w.freshRef := fun r hr =>
    ne_of_lt (hinv.allocated r hr).1
  refine ⟨?_, ?_, ?_, ?_, ?_, ?_, ?_⟩ <;> rw [insertedRef_hdl_self] <;> dsimp only
  · have hasc : Ascending (fun r => (w'.refId r).toNat) (before ++ after) := by
      rw [← hsplit]
      refine List.Pairwise.imp_of_mem ?_ hinv.ascending
      intro a b ha hb hlt
      simpa [hids a ha, hids b hb] using hlt
    refine hasc.insert ?_ ?_
    · intro r hr
      rw [hids r (by rw [hsplit]; exact List.mem_append_left _ hr), hnew]
      exact lt_iff_toNat_lt.mp (hpre r hr)
    · intro r hr
      rw [hids r (by rw [hsplit]; exact List.mem_append_right _ hr), hnew]
      exact lt_iff_toNat_lt.mp (hafter r hr)
  · intro r hr
    rcases (hmem r).mp hr with rfl | hr
    · rw [hnew]
      exact hvalid
    · rw [hids r hr]
      exact hinv.valid r hr
  · intro buckets hbuckets bucket r
    obtain ⟨old, hold, rfl⟩ := map_eq_some_iff.mp hbuckets
    have hchain := hinv.chains old hold
    rw [hmem]
    rcases eq_or_ne r w.freshRef with rfl | hne
    · have hout : ∀ b, w.freshRef ∉ old b := fun b hin => hfresh _ ((hchain b _).mp hin).1 rfl
      rw [hnew]
      rcases eq_or_ne bucket ((w.ctrl c).id.toNat % (w.hdl h).nrOfBuckets) with rfl | hbucket
      · simp [chainInsert]
      · simp [chainInsert, hbucket, hout, Ne.symm hbucket]
    rcases eq_or_ne bucket ((w.ctrl c).id.toNat % (w.hdl h).nrOfBuckets) with rfl | hbucket
    · simp only [chainInsert, update_self, List.mem_cons, hne, false_or, hchain]
      apply and_congr_right
      intro hr
      rw [hids r hr]
    · simp only [chainInsert, update_of_ne hbucket, hne, false_or, hchain]
      apply and_congr_right
      intro hr
      rw [hids r hr]
  · intro hnone
    exact absurd herr (hinv.unusable (map_eq_none_iff.mp hnone)).2
  · intro r hr
    exact (hmem r).mpr (.inr (hinv.cached r hr))
  · intro r hr
    rcases (hmem r).mp hr with rfl | hr
    · rw [hnew]
      rcases hclass with heq | hlist
      · rw [← heq]
        exact hself
      · exact hlisted _ hlist
    · rw [hids r hr]
      exact hlisted _ (hinv.classes r hr)
  · intro r hr
    have hfreshRef : w'.freshRef = w.freshRef + 1 := withRef_freshRef w h c
    rcases (hmem r).mp hr with rfl | hr
    · refine ⟨by rw [hfreshRef]; exact Nat.lt_succ_self _, ?_⟩
      have href : (w'.ref w.freshRef).ctrl = c := by
        change ((withRef w h c).ref w.freshRef).ctrl = c
        rw [withRef_ref, update_self]
      rw [href]
      exact hc.trans_le hgrows.freshCtrl
    · obtain ⟨hlt, hctrl⟩ := hinv.allocated r hr
      rw [hgrows.ref r hlt]
      exact ⟨hlt.trans_le hgrows.freshRef, hctrl.trans_le hgrows.freshCtrl⟩

end References

def made (w : World) (h : Nat) (p : CtrlParams) : World :=
  { w.setCtrl w.freshCtrl (freshlyMade h p) with freshCtrl := w.freshCtrl + 1 }

def appended (w : World) (h c : Nat) : World :=
  w.setHdl h { w.hdl h with ctrls := (w.hdl h).ctrls ++ [c] }

theorem appended_ctrlRefs (w : World) (h c h' : Nat) :
    ((appended w h c).hdl h').ctrlRefs = (w.hdl h').ctrlRefs := by
  rcases eq_or_ne h' h with rfl | hne
  · simp [appended, setHdl]
  · simp [appended, setHdl, hne]

theorem mem_appended_ctrls {w : World} {h c h' c' : Nat} :
    c' ∈ ((appended w h c).hdl h').ctrls ↔ c' ∈ (w.hdl h').ctrls ∨ h' = h ∧ c' = c := by
  rcases eq_or_ne h' h with rfl | hne
  · simp [appended, setHdl]
  · simp [appended, setHdl, hne]

/-- The class control of the id is on the handler's list, or about to be put there. -/
def ClassReady (w : World) (h : Nat) (id : UInt32) : Prop :=
  id = classCtrl id ∨ Listed w h (classCtrl id)

/-- The small steps. In clean ones no control is made with an id that its handler
has already, and no control is clustered twice. -/
inductive Prim (clean : Bool) : World → World → Prop
  | fail {w : World} (h : Nat) (err : Int) (herr : err ≠ 0) : Prim clean w (handlerSetErr w h err)
  | cache {w : World} {h r : Nat} (hr : r ∈ (w.hdl h).ctrlRefs) :
      Prim clean w (w.setHdl h { w.hdl h with cached := some r })
  | make {w : World} (h : Nat) (p : CtrlParams) (hsane : ctrlSane p = true) :
      Prim clean w (made w h p)
  | attach {w : World} {h c : Nat} (herr : (w.hdl h).error = 0) (hc : c < w.freshCtrl)
      (howner : (w.ctrl c).handler = h) (hnew : c ∉ (w.hdl h).ctrls)
      (hvalid : ValidId (w.ctrl c).id) (hclass : ClassReady w h (w.ctrl c).id)
      (hclean : clean = true → ¬ Listed w h (w.ctrl c).id) :
      Prim clean w (appended (insertRef w h c true).2 h c)
  | adopt {w : World} {h c : Nat} (herr : (w.hdl h).error = 0) (howned : w.owned c)
      (hforeign : (w.ctrl c).handler ≠ h) (hclass : ClassReady w h (w.ctrl c).id) :
      Prim clean w (insertRef w h c true).2
  | adjust {w : World} (ctrl : Nat → Ctrl) (hsame : ∀ c, (ctrl c).id = (w.ctrl c).id ∧
      (ctrl c).handler = (w.ctrl c).handler ∧ (ctrl c).cluster = (w.ctrl c).cluster ∧
      (ctrl c).ncontrols = (w.ctrl c).ncontrols) : Prim clean w { w with ctrl := ctrl }
  | cluster {w w' : World} {controls : List (Option Nat)}
      (howned : ∀ c, some c ∈ controls → w.owned c)
      (hclean : clean = true → ∀ c, some c ∈ controls → ∃ r, (w.ctrl c).cluster = .ref r)
      (heq : v4l2CtrlCluster w controls = some w') : Prim clean w w'

theorem handlerSetErr_same (w : World) (h h' : Nat) {err : Int} (herr : err ≠ 0) :
    SameRefs (w.hdl h') ((handlerSetErr w h err).hdl h') ∧
      ((handlerSetErr w h err).hdl h').ctrls = (w.hdl h').ctrls := by
  unfold handlerSetErr
  split_ifs
  · rcases eq_or_ne h' h with rfl | hne
    · simp only [setHdl, update_self]
      exact ⟨⟨rfl, rfl, rfl, fun _ => herr, .inl rfl⟩, trivial⟩
    · simp only [setHdl, update_of_ne hne]
      exact ⟨.refl _, trivial⟩
  · exact ⟨.refl _, rfl⟩

theorem handlerSetErr_grows (w : World) (h : Nat) (err : Int) :
    Grows w (handlerSetErr w h err) := by
  unfold handlerSetErr
  split_ifs
  · exact .setHdl w h _
  · exact .refl w

theorem made_grows (w : World) (h : Nat) (p : CtrlParams) : Grows w (made w h p) where
  freshCtrl := Nat.le_succ _
  freshRef := le_rfl
  id := by
    intro c hc
    simp [made, World.setCtrl, ne_of_lt hc]
  handler := by
    intro c hc
    simp [made, World.setCtrl, ne_of_lt hc]
  ref := fun _ _ => rfl

variable {controls : List (Option Nat)} {clean : Bool}

theorem v4l2CtrlCluster_eq (heq : v4l2CtrlCluster w controls = some w') :
    (∃ m rest, controls = some m :: rest) ∧
    w' = { w with
           array := update w.array w.freshArray controls
           freshArray := w.freshArray + 1
           ctrl := fun c => if some c ∈ controls then
             { w.ctrl c with cluster := .array w.freshArray, ncontrols := controls.length }
             else w.ctrl c } := by
  match controls, heq with
  | some m :: rest, heq => exact ⟨⟨m, rest, rfl⟩, (some.inj heq).symm⟩

theorem cluster_grows (heq : v4l2CtrlCluster w controls = some w') : Grows w w' := by
  obtain ⟨-, rfl⟩ := v4l2CtrlCluster_eq heq
  refine ⟨le_rfl, le_rfl, ?_, ?_, fun _ _ => rfl⟩
  all_goals
    intro c _
    dsimp only
    split_ifs <;> rfl

/-- The references after an insertion, for the control's handler and the others. -/
theorem WorldInv.insertRef (hinv : WorldInv w) (herr : (w.hdl h).error = 0) (hc : c < w.freshCtrl)
    (hvalid : ValidId (w.ctrl c).id) (hclass : ClassReady w h (w.ctrl c).id) :
    Grows w (insertRef w h c true).2 ∧ WorldInv (insertRef w h c true).2 ∧
      ∀ h', ((insertRef w h c true).2.hdl h').ctrls = (w.hdl h').ctrls := by
  rcases (hinv.handlers h).insertRef_cases herr with ⟨-, heq⟩ | ⟨-, refs, heq, hat⟩
  · rw [heq]
    have hgrows := refusedRef_grows w h c
    have hhdl := refusedRef_hdl w h c
    refine ⟨hgrows, hinv.grow hgrows ?_ ?_, ?_⟩ <;> intro h' <;> dsimp only <;> rw [hhdl]
    exact .refl _
  rw [heq]
  have hgrows := insertedRef_grows w h c refs
  have hctrls : ∀ h', ((insertedRef w h c refs).hdl h').ctrls = (w.hdl h').ctrls := by
    intro h'
    rcases eq_or_ne h' h with rfl | hne
    · rw [insertedRef_hdl_self]
    · rw [insertedRef_hdl_other w c refs hne]
  refine ⟨hgrows, ⟨fun h' => ?_, fun h' c' hc' => ?_⟩, hctrls⟩
  · rcases eq_or_ne h' h with rfl | hne
    · exact (hinv.handlers h').inserted herr hc hvalid hclass hat
    refine (hinv.handlers h').grow hgrows ?_
    rw [insertedRef_hdl_other w c refs hne]
    exact .refl _
  · rw [hctrls] at hc'
    obtain ⟨hlt, howner, hvalid'⟩ := hinv.owned h' c' hc'
    rw [hgrows.handler c' hlt, hgrows.id c' hlt]
    exact ⟨hlt.trans_le hgrows.freshCtrl, howner, hvalid'⟩

theorem Prim.inv (hstep : Prim clean w w') (hinv : WorldInv w) : Grows w w' ∧ WorldInv w' := by
  cases hstep with
  | fail h err herr =>
    have hgrows := handlerSetErr_grows w h err
    exact ⟨hgrows, hinv.grow hgrows (fun h' => (handlerSetErr_same w h h' herr).1)
      (fun h' => (handlerSetErr_same w h h' herr).2)⟩
  | @cache h r hr =>
    have hgrows := Grows.setHdl w h { w.hdl h with cached := some r }
    refine ⟨hgrows, hinv.grow hgrows ?_ ?_⟩ <;> intro h' <;> rcases eq_or_ne h' h with rfl | hne
    · simp only [setHdl, update_self]
      exact ⟨rfl, rfl, rfl, fun h => h, .inr ⟨r, hr, rfl⟩⟩
    · simp only [setHdl, update_of_ne hne]
      exact .refl _
    · simp [setHdl]
    · simp [setHdl, hne]
  | make h p hsane =>
    have hgrows := made_grows w h p
    exact ⟨hgrows, hinv.grow hgrows (fun _ => .refl _) (fun _ => rfl)⟩
  | @attach h c herr hc howner hnew hvalid hclass hclean =>
    obtain ⟨hgrows, hinv', hctrls⟩ := hinv.insertRef herr hc hvalid hclass
    have hgrows' : Grows (insertRef w h c true).2 (appended (insertRef w h c true).2 h c) :=
      Grows.setHdl _ h _
    refine ⟨hgrows.trans hgrows', fun h' => ?_, fun h' c' hc' => ?_⟩
    · refine (hinv'.handlers h').grow hgrows' ?_
      rcases eq_or_ne h' h with rfl | hne
      · simp only [appended, setHdl, update_self]
        exact ⟨rfl, rfl, rfl, fun h => h, .inl rfl⟩
      · simp only [appended, setHdl, update_of_ne hne]
        exact .refl _
    · rcases mem_appended_ctrls.mp hc' with hc' | ⟨rfl, rfl⟩
      · exact hinv'.owned h' c' hc'
      refine ⟨hc.trans_le hgrows.freshCtrl, ?_, ?_⟩
      · exact (hgrows.handler c' hc).trans howner
      change ValidId ((insertRef w h' c' true).2.ctrl c').id
      rw [hgrows.id c' hc]
      exact hvalid
  | @adopt h c herr howned hforeign hclass =>
    obtain ⟨hc, -, hvalid⟩ := hinv.owned _ c howned
    obtain ⟨hgrows, hinv', -⟩ := hinv.insertRef herr hc hvalid hclass
    exact ⟨hgrows, hinv'⟩
  | adjust ctrl hsame =>
    have hgrows : Grows w { w with ctrl := ctrl } :=
      ⟨le_rfl, le_rfl, fun c _ => (hsame c).1, fun c _ => (hsame c).2.1, fun _ _ => rfl⟩
    exact ⟨hgrows, hinv.grow hgrows (fun _ => .refl _) (fun _ => rfl)⟩
  | cluster howned hclean heq =>
    have hgrows := cluster_grows heq
    obtain ⟨-, rfl⟩ := v4l2CtrlCluster_eq heq
    exact ⟨hgrows, hinv.grow hgrows (fun _ => .refl _) (fun _ => rfl)⟩

abbrev Path (clean : Bool) : World → World → Prop := Relation.ReflTransGen (Prim clean)

theorem Path.inv (hpath : Path clean w w') (hinv : WorldInv w) : Grows w w' ∧ WorldInv w' := by
  induction hpath with
  | refl => exact ⟨.refl w, hinv⟩
  | tail _ hstep ih =>
    obtain ⟨hgrows, hinv'⟩ := ih
    obtain ⟨hgrows', hinv''⟩ := hstep.inv hinv'
    exact ⟨hgrows.trans hgrows', hinv''⟩

end TbsMedia.Ctrls
