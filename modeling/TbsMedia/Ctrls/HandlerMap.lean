import TbsMedia.Ctrls.Calls
import TbsMedia.Lib.Run

/-!
A control handler is a sorted map: after any calls its list is in ascending
order, the hash chains and the remembered reference answer as the list does,
and asking for the next control again and again visits the list from the
beginning to the end.
-/

namespace TbsMedia.Ctrls

open Lib World Nat
open UInt32 (lt_iff_toNat_lt toNat_inj toNat_and)

variable {id : UInt32} {w : World} {h : Nat}

section Next

theorem flagNextCtrl_masked (hid : id < privateBase) : (id ||| flagNextCtrl) &&& idMask = id := by
  have hflag : flagNextCtrl.toNat &&& idMask.toNat = 0 := by decide
  have hid' : id.toNat &&& idMask.toNat = id.toNat := by rw [← toNat_and, and_idMask hid]
  apply toNat_inj.mp
  rw [toNat_and, UInt32.toNat_or, and_or_distrib_right, hid', hflag, or_zero]

theorem hasFlag_flagNextCtrl (id : UInt32) : hasFlag (id ||| flagNextCtrl) flagNextCtrl = true := by
  have hflag : (id ||| flagNextCtrl) &&& flagNextCtrl = flagNextCtrl := by
    apply toNat_inj.mp
    rw [toNat_and, UInt32.toNat_or, Nat.and_or_distrib_right, Nat.and_self]
    apply Nat.eq_of_testBit_eq
    intro i
    simp only [Nat.testBit_or, Nat.testBit_and]
    cases id.toNat.testBit i <;> simp
  rw [hasFlag, hflag]
  decide

theorem HandlerInv.findRef_same (hinv : HandlerInv w h) (hid : id < privateBase) :
    HandlerInv (findRef w h id).2 h ∧ (findRef w h id).2.ctrl = w.ctrl ∧
      (findRef w h id).2.ref = w.ref ∧
      ((findRef w h id).2.hdl h).ctrlRefs = (w.hdl h).ctrlRefs := by
  rcases (hinv.findRef_eq hid).2 with hw | ⟨r, hr, hw⟩ <;> rw [hw]
  · exact ⟨hinv, rfl, rfl, rfl⟩
  have hself : (w.setHdl h { w.hdl h with cached := some r }).hdl h =
      { w.hdl h with cached := some r } := by simp [setHdl]
  refine ⟨hinv.grow (.setHdl w h _) ?_, rfl, rfl, by rw [hself]⟩
  rw [hself]
  exact ⟨rfl, rfl, rfl, fun herr => herr, .inr ⟨r, hr, rfl⟩⟩

/-- The three cases of `v4l2_queryctrl` are one: the first larger id. -/
theorem HandlerInv.queryRef_next (hinv : HandlerInv w h) (hid : id < privateBase) :
    queryRef w h (id ||| flagNextCtrl) =
      (successor (fun r => (w.refId r).toNat) (w.hdl h).ctrlRefs id.toNat, (findRef w h id).2) := by
  obtain ⟨hfound, -⟩ := hinv.findRef_eq hid
  obtain ⟨-, hctrl, href, -⟩ := hinv.findRef_same hid
  have hrefId : (findRef w h id).2.refId = w.refId := by
    funext r
    rw [refId, hctrl, href]
    rfl
  have hasc := hinv.ascending
  unfold queryRef
  simp only [flagNextCtrl_masked hid, hasFlag_flagNextCtrl, hfound, hrefId]
  rcases hlast : (w.hdl h).ctrlRefs.getLast? with _ | last
  · rw [refWith, List.getLast?_eq_none_iff.mp hlast]
    rfl
  have hle := hasc.le_getLast hlast
  dsimp only
  by_cases hend : w.refId last ≤ id
  · have hbelow : ∀ r ∈ (w.hdl h).ctrlRefs, (w.refId r).toNat ≤ id.toNat := fun r hr =>
      (hle r hr).trans (UInt32.le_iff_toNat_le.mp hend)
    rw [if_pos hend, ← List.append_nil (w.hdl h).ctrlRefs, successor_split hbelow (by simp)]
    rfl
  rw [if_neg hend]
  rcases hwith : refWith w h id with _ | r
  · simp only [successor, lt_iff_toNat_lt]
  obtain ⟨hr, rfl⟩ := refWith_some hwith
  obtain ⟨before, after, hsplit⟩ := List.append_of_mem hr
  rw [hsplit] at hasc ⊢
  obtain ⟨-, hbelow, habove⟩ := hasc.split
  have hoth : ∀ r' ∈ before, decide (r' ≠ r) = true := by
    intro r' hr'
    have hlt := hbelow r' hr'
    exact decide_eq_true fun heq => by simp [heq] at hlt
  have hbelow' : ∀ r' ∈ before ++ [r], (w.refId r').toNat ≤ (w.refId r).toNat := by
    intro r' hr'
    rcases List.mem_append.mp hr' with hr' | hr'
    · exact (hbelow r' hr').le
    · rw [List.mem_singleton.mp hr']
  have hnext := successor_split hbelow' habove
  rw [List.append_assoc, List.singleton_append] at hnext
  dsimp only
  rw [hnext, List.dropWhile_append_of_pos hoth]
  simp [List.head?_eq_getElem?]

end Next

section Enumeration

/-- What `v4l2_queryctrl` tells of a control. -/
def answer (ctrl : Ctrl) : QueryCtrl where
  id := ctrl.id
  name := String.ofList (ctrl.name.toList.take 31)
  minimum := ctrl.minimum
  maximum := ctrl.maximum
  defaultValue := ctrl.defaultValue
  step := if ctrl.type = .menu then 1 else ctrl.step
  flags := ctrl.flags
  type := ctrl.type

/-- The application's loop: ask for the control after `id`, go on from the id of
the answer, until there is an error. Without fuel there is no result. -/
def enumerate (h : Nat) : Nat → World → UInt32 → List QueryCtrl × Option Int
  | 0, _, _ => ([], none)
  | fuel + 1, w, id =>
    match v4l2Queryctrl w h (id ||| flagNextCtrl) with
    | (.error err, _) => ([], some err)
    | (.ok qc, w) => (enumerate h fuel w qc.id).map (qc :: ·) fun err => err

variable (hinv : HandlerInv w h) {before after : List Nat}
  (hrefs : (w.hdl h).ctrlRefs = before ++ after) (hid : id < privateBase)
  (hbelow : ∀ r ∈ before, w.refId r ≤ id) (habove : ∀ r ∈ after, id < w.refId r)
include hinv hrefs hid hbelow habove

theorem HandlerInv.v4l2Queryctrl_next :
    v4l2Queryctrl w h (id ||| flagNextCtrl) =
      (match after.head? with
        | none => .error einval
        | some r => .ok (answer (w.ctrl (w.ref r).ctrl)), (findRef w h id).2) := by
  have hnext : successor (fun r => (w.refId r).toNat) (w.hdl h).ctrlRefs id.toNat =
      after.head? := by
    rw [hrefs]
    exact successor_split (fun r hr => UInt32.le_iff_toNat_le.mp (hbelow r hr))
      (fun r hr => lt_iff_toNat_lt.mp (habove r hr))
  obtain ⟨-, hctrl, href, -⟩ := hinv.findRef_same hid
  unfold v4l2Queryctrl
  rw [hinv.queryRef_next hid, hnext, flagNextCtrl_masked hid]
  rcases after.head? with _ | r
  · rfl
  dsimp only
  rw [hctrl, href, if_neg (UInt32.not_le.mpr hid)]
  rfl

theorem HandlerInv.enumerate_from {fuel : Nat} (hfuel : after.length < fuel) :
    enumerate h fuel w id = (after.map fun r => answer (w.ctrl (w.ref r).ctrl), some einval) := by
  induction after generalizing w before id fuel with
  | nil =>
    obtain ⟨fuel, rfl⟩ := exists_eq_add_one_of_ne_zero (ne_of_gt hfuel)
    rw [enumerate, hinv.v4l2Queryctrl_next hrefs hid hbelow habove]
    rfl
  | cons r rest ih =>
    obtain ⟨fuel, rfl⟩ := exists_eq_add_one_of_ne_zero (ne_zero_of_lt hfuel)
    obtain ⟨hinv1, hctrl, href, hrefs1⟩ := hinv.findRef_same hid
    have hids : ∀ r, (findRef w h id).2.refId r = w.refId r := by
      intro r
      rw [refId, hctrl, href]
      rfl
    have hvalid := hinv.valid r (by simp [hrefs])
    have hasc := hinv.ascending
    rw [hrefs] at hasc
    obtain ⟨-, hsmaller, hlarger⟩ := hasc.split
    have hsplit : ((findRef w h id).2.hdl h).ctrlRefs = (before ++ [r]) ++ rest := by
      rw [hrefs1, hrefs, List.append_assoc, List.singleton_append]
    have hbelow' : ∀ r' ∈ before ++ [r], (findRef w h id).2.refId r' ≤ w.refId r := by
      intro r' hr'
      rw [hids]
      rcases List.mem_append.mp hr' with hr' | hr'
      · exact UInt32.le_of_lt (lt_iff_toNat_lt.mpr (hsmaller r' hr'))
      · rw [List.mem_singleton.mp hr']
        exact UInt32.le_refl _
    have habove' : ∀ r' ∈ rest, w.refId r < (findRef w h id).2.refId r' := by
      intro r' hr'
      rw [hids]
      exact lt_iff_toNat_lt.mpr (hlarger r' hr')
    have hrest := ih hinv1 hsplit hvalid.2 hbelow' habove' (lt_of_succ_lt_succ hfuel)
    rw [hctrl, href] at hrest
    rw [enumerate, hinv.v4l2Queryctrl_next hrefs hid hbelow habove]
    change (enumerate h fuel (findRef w h id).2 (w.refId r)).map _ _ = _
    rw [hrest]
    rfl

end Enumeration

/-- A handler as a sorted map from ids to controls. `find_ref` divides by the
number of buckets. -/
structure SortedMap (w : World) (h : Nat) : Prop where
  ascending : (w.hdl h).ctrlRefs.Pairwise fun r r' => w.refId r < w.refId r'
  buckets : (w.hdl h).nrOfBuckets ≠ 0
  found : ∀ id, id < privateBase →
    (findRef w h id).1 = (w.hdl h).ctrlRefs.find? fun r => w.refId r = id
  classes : ∀ r ∈ (w.hdl h).ctrlRefs,
    ∃ r' ∈ (w.hdl h).ctrlRefs, w.refId r' = classCtrl (w.refId r)
  enumerated : ∀ fuel, (w.hdl h).ctrlRefs.length < fuel →
    enumerate h fuel w 0 =
      ((w.hdl h).ctrlRefs.map fun r => answer (w.ctrl (w.ref r).ctrl), some einval)

theorem HandlerInv.sortedMap (hinv : HandlerInv w h) (hbuckets : (w.hdl h).nrOfBuckets ≠ 0) :
    SortedMap w h where
  ascending := hinv.ascending.imp lt_iff_toNat_lt.mpr
  buckets := hbuckets
  found := by
    intro id hid
    rw [(hinv.findRef_eq hid).1, refWith, lookup]
    simp only [toNat_inj]
  classes := hinv.classes
  enumerated := by
    intro fuel hfuel
    refine hinv.enumerate_from (List.nil_append _).symm (by decide) (by simp) ?_ hfuel
    intro r hr
    exact UInt32.pos_iff_ne_zero.mpr (hinv.valid r hr).1

theorem HandlerInv.insertRef_nrOfBuckets {c : Nat} (hinv : HandlerInv w h)
    (herr : (w.hdl h).error = 0) (h' : Nat) :
    ((insertRef w h c true).2.hdl h').nrOfBuckets = (w.hdl h').nrOfBuckets := by
  rcases hinv.insertRef_cases herr with ⟨-, heq⟩ | ⟨-, refs, heq, -⟩ <;> rw [heq] <;> dsimp only
  · rw [refusedRef_hdl]
  rcases eq_or_ne h' h with rfl | hne
  · rw [insertedRef_hdl_self]
  · rw [insertedRef_hdl_other w c refs hne]

theorem Prim.nrOfBuckets {clean : Bool} {w' : World} (hstep : Prim clean w w') (hinv : WorldInv w)
    (h : Nat) : (w'.hdl h).nrOfBuckets = (w.hdl h).nrOfBuckets := by
  cases hstep with
  | fail h' err herr => exact (handlerSetErr_same w h' h herr).1.nrOfBuckets
  | @cache h' r hr =>
    rcases eq_or_ne h h' with rfl | hne
    · simp [setHdl]
    · simp [setHdl, hne]
  | make h' p hsane => rfl
  | @attach h' c' herr hc' howner hnew hvalid hclass hclean =>
    rw [← (hinv.handlers h').insertRef_nrOfBuckets (c := c') herr h]
    rcases eq_or_ne h h' with rfl | hne
    · simp [appended, setHdl]
    · simp [appended, setHdl, hne]
  | @adopt h' c' herr howned hforeign hclass =>
    exact (hinv.handlers h').insertRef_nrOfBuckets herr h
  | adjust ctrl hsame => rfl
  | cluster howned hclean heq =>
    obtain ⟨-, rfl⟩ := v4l2CtrlCluster_eq heq
    rfl

theorem Path.nrOfBuckets {clean : Bool} {w' : World} (hpath : Path clean w w') (hinv : WorldInv w)
    (h : Nat) : (w'.hdl h).nrOfBuckets = (w.hdl h).nrOfBuckets := by
  induction hpath with
  | refl => rfl
  | tail hpath hstep ih => exact (hstep.nrOfBuckets (Path.inv hpath hinv).2 h).trans ih

/-- After any calls, in any order and with any allocations failing, every handler
is a sorted map. A hint that leaves no bucket is excluded. -/
theorem handlers_sorted (tables : Tables) (hints : Nat → Nat) (kzalloc : Nat → Bool)
    (hbuckets : ∀ h, (v4l2CtrlHandlerInit (hints h) (kzalloc h)).nrOfBuckets ≠ 0)
    (calls : List Call) :
    Always (callStep tables) (fun w => ∀ h, SortedMap w h) (initWorld hints kzalloc) calls := by
  let inv : World → Prop := fun w => WorldInv w ∧ ∀ h, (w.hdl h).nrOfBuckets ≠ 0
  have hkeep : ∀ w call w', inv w → callStep tables w call = some w' → inv w' := by
    intro w call w' hinv hstep
    have hpath : Path false w w' := callStep_path tables hinv.1 hstep (by simp)
    refine ⟨(Path.inv hpath hinv.1).2, fun h => ?_⟩
    rw [Path.nrOfBuckets hpath hinv.1 h]
    exact hinv.2 h
  refine .of_inv inv hkeep ?_ ⟨initWorld_inv hints kzalloc, hbuckets⟩ calls
  intro w hinv h
  exact (hinv.1.handlers h).sortedMap (hinv.2 h)

def plainTables : Tables where
  getName := fun _ => some "Control"
  fill := fun id range =>
    if id = classCtrl id then ⟨.ctrlClass, flagReadOnly ||| flagWriteOnly, ⟨0, 0, 0, 0⟩⟩
    else ⟨.integer, 0, range⟩
  getMenu := fun _ => none

/-- What the calls make of handlers with 16 controls expected each. -/
def built (calls : List Call) : Option World :=
  calls.foldlM (callStep plainTables) (initWorld (fun _ => 16) fun _ => true)

def allGranted : Allocs := ⟨true, true, true, true⟩

/-- The contrast, the brightness and the contrast again are made, in a handler
whose hint is 16 controls. -/
theorem handlers_sorted_contrast :
    (v4l2CtrlHandlerInit 16 true).nrOfBuckets ≠ 0 ∧
      Always (callStep plainTables) (fun w => ∀ h, SortedMap w h)
        (initWorld (fun _ => 16) fun _ => true)
        [.newStd 0 noOps 0x00980901 ⟨0, 255, 1, 127⟩ allGranted,
          .newStd 0 noOps 0x00980900 ⟨0, 255, 1, 127⟩ allGranted,
          .newStd 0 noOps 0x00980901 ⟨0, 255, 1, 127⟩ allGranted] := by
  have hbuckets : (v4l2CtrlHandlerInit 16 true).nrOfBuckets ≠ 0 := by decide
  exact ⟨hbuckets, handlers_sorted plainTables _ _ (fun _ => hbuckets) _⟩

end TbsMedia.Ctrls
