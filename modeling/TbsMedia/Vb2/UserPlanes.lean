import TbsMedia.Vb2.Queue

/-!
The user memory of one buffer in `__qbuf_userptr`: which mappings its planes hold
after the loop over the planes and after the error exit, and that no mapping is
lost or given back twice on the way.
-/

namespace TbsMedia.Vb2

open Function List Nat

variable {numPlanes : Nat} {maps : Mappings} {plane : Plane}

section Counting

def holds (memPriv : Option MemPriv) (mapping : Nat) : Nat :=
  if memPriv = some (.user mapping) then 1 else 0

def heldBy (numPlanes : Nat) (planes : Nat → Plane) (mapping : Nat) : Nat :=
  ∑ i ∈ Finset.range numPlanes, holds (planes i).memPriv mapping

def putCount (maps : Mappings) (mapping : Nat) : Nat :=
  maps.put.count (some (.user mapping))

/-- Every mapping obtained so far is given back once, or held once by the planes
that `held` counts. -/
def Accounted (maps : Mappings) (held : Nat → Nat) : Prop :=
  ∀ mapping, putCount maps mapping + held mapping = if mapping < maps.got.length then 1 else 0

@[simp] theorem holds_none (mapping : Nat) : holds none mapping = 0 := rfl

section

variable (maps : Mappings)

@[simp] theorem getUserptr_got (plane : V4l2Plane) :
    (maps.getUserptr plane).got = maps.got ++ [plane] := rfl

@[simp] theorem putUserptr_got (memPriv : Option MemPriv) :
    (maps.putUserptr memPriv).got = maps.got := rfl

@[simp] theorem putCount_getUserptr (plane : V4l2Plane) (mapping : Nat) :
    putCount (maps.getUserptr plane) mapping = putCount maps mapping := rfl

@[simp] theorem putCount_putUserptr (memPriv : Option MemPriv) (mapping : Nat) :
    putCount (maps.putUserptr memPriv) mapping = putCount maps mapping + holds memPriv mapping := by
  simp only [putCount, Mappings.putUserptr, count_append, count_singleton, holds, beq_iff_eq]

end

/-- A change of one plane changes the count by what that plane held and holds. -/
theorem heldBy_update {i : Nat} (hi : i < numPlanes) (planes : Nat → Plane) (mapping : Nat) :
    ∃ rest, ∀ plane,
      heldBy numPlanes (update planes i plane) mapping = holds plane.memPriv mapping + rest := by
  refine ⟨∑ j ∈ (Finset.range numPlanes).erase i, holds (planes j).memPriv mapping, ?_⟩
  intro plane
  have hoth : ∑ j ∈ (Finset.range numPlanes).erase i,
        holds (update planes i plane j).memPriv mapping =
      ∑ j ∈ (Finset.range numPlanes).erase i, holds (planes j).memPriv mapping := by
    apply Finset.sum_congr rfl
    intro j hj
    rw [update_of_ne (Finset.ne_of_mem_erase hj)]
  rw [heldBy, ← Finset.add_sum_erase _ _ (Finset.mem_range.mpr hi), hoth, update_self]

theorem Accounted.update {maps' : Mappings} {i : Nat} {planes : Nat → Plane} {others : Nat → Nat}
    (hi : i < numPlanes)
    (h : Accounted maps fun mapping => heldBy numPlanes planes mapping + others mapping)
    (hstep : ∀ held : Nat → Nat,
      (Accounted maps fun mapping => holds (planes i).memPriv mapping + held mapping) →
      Accounted maps' fun mapping => holds plane.memPriv mapping + held mapping) :
    Accounted maps' fun mapping =>
      heldBy numPlanes (update planes i plane) mapping + others mapping := by
  choose rest hrest using fun mapping => heldBy_update hi planes mapping
  have hpre : ∀ mapping, heldBy numPlanes planes mapping =
      holds (planes i).memPriv mapping + rest mapping := by
    intro mapping
    have := hrest mapping (planes i)
    rwa [update_eq_self] at this
  simp only [hrest, hpre, add_assoc] at h ⊢
  exact hstep (fun mapping => rest mapping + others mapping) h

end Counting

theorem acquirePlane_accounted (new : V4l2Plane) (answer : UserptrAnswer) {held : Nat → Nat}
    (h : Accounted maps fun mapping => holds plane.memPriv mapping + held mapping) :
    Accounted (acquirePlane new answer plane maps).2.2 fun mapping =>
      holds (acquirePlane new answer plane maps).2.1.memPriv mapping + held mapping := by
  unfold acquirePlane
  split
  · exact h
  have hput : Accounted (if plane.memPriv.isSome then maps.putUserptr plane.memPriv else maps)
      held := by
    intro mapping
    have hmap := h mapping
    rcases hmem : plane.memPriv with _ | memPriv
    · simpa [hmem] using hmap
    simp only [hmem] at hmap
    simp only [Option.isSome_some, if_true, putCount_putUserptr, putUserptr_got]
    omega
  generalize (if plane.memPriv.isSome then maps.putUserptr plane.memPriv else maps) = released
    at hput
  split
  · simpa using hput
  split
  · simpa using hput
  intro mapping
  have hmap := hput mapping
  simp only [putCount_getUserptr, holds, getUserptr_got, length_append,
    length_singleton, Option.some.injEq, MemPriv.user.injEq]
  split_ifs at hmap ⊢ <;> omega

theorem acquirePlanes_accounted (new : Nat → V4l2Plane) (answers : Nat → UserptrAnswer)
    (todo plane : Nat) (planes : Nat → Plane) (maps : Mappings) (others : Nat → Nat)
    (hbound : plane + todo ≤ numPlanes)
    (h : Accounted maps fun mapping => heldBy numPlanes planes mapping + others mapping) :
    Accounted (acquirePlanes new answers todo plane planes maps).2.2.2 fun mapping =>
      heldBy numPlanes (acquirePlanes new answers todo plane planes maps).2.2.1 mapping +
        others mapping := by
  induction todo generalizing plane planes maps with
  | zero => exact h
  | succ todo ih =>
    have hnext := h.update (by omega : plane < numPlanes) fun held hheld =>
      acquirePlane_accounted (new plane) (answers plane) hheld
    simp only [acquirePlanes]
    split
    · exact hnext
    · exact ih (plane + 1) _ _ (by omega) hnext

section

variable (plane : Nat) (planes : Nat → Plane) (maps : Mappings)

theorem releasePlanes_accounted (others : Nat → Nat) (hbound : plane ≤ numPlanes)
    (h : Accounted maps fun mapping => heldBy numPlanes planes mapping + others mapping) :
    Accounted (releasePlanes plane planes maps).2 fun mapping =>
      heldBy numPlanes (releasePlanes plane planes maps).1 mapping + others mapping := by
  induction plane generalizing planes maps with
  | zero => exact h
  | succ plane ih =>
    refine ih _ _ (by omega) (h.update (by omega) ?_)
    intro held hheld mapping
    have hmap := hheld mapping
    dsimp only at hmap
    change _ + (holds none mapping + held mapping) = if mapping < maps.got.length then 1 else 0
    rw [putCount_putUserptr, holds_none, ← hmap]
    omega

theorem releasePlanes_apply (i : Nat) :
    (releasePlanes plane planes maps).1 i =
      if i < plane then { planes i with memPriv := none } else planes i := by
  induction plane generalizing planes maps with
  | zero => simp [releasePlanes]
  | succ plane ih =>
    rw [releasePlanes, ih]
    rcases eq_or_ne i plane with rfl | hne
    · simp
    · rw [update_of_ne hne]
      simp [show i < plane + 1 ↔ i < plane by omega]

@[simp] theorem releasePlanes_got : (releasePlanes plane planes maps).2.got = maps.got := by
  induction plane generalizing planes maps with
  | zero => rfl
  | succ plane ih =>
    rw [releasePlanes, ih]
    rfl

end

/-- What `acquirePlane` makes of a plane that it does not fail on. -/
def AcquiredFor (got : List V4l2Plane) (new : V4l2Plane) (null : Bool) (before after : Plane) :
    Prop :=
  if before.v4l2 = new then after = before
  else if null then after.memPriv = none
  else ∃ mapping, after.memPriv = some (.user mapping) ∧ got[mapping]? = some new

variable {got got' : List V4l2Plane} {new : V4l2Plane} {null : Bool} {before after : Plane}

theorem AcquiredFor.mono (hgot : got <+: got') (h : AcquiredFor got new null before after) :
    AcquiredFor got' new null before after := by
  unfold AcquiredFor at h ⊢
  split_ifs at h ⊢
  · exact h
  · exact h
  obtain ⟨mapping, hmem, hfor⟩ := h
  obtain ⟨tail, rfl⟩ := hgot
  refine ⟨mapping, hmem, ?_⟩
  obtain ⟨hlt, -⟩ := List.getElem?_eq_some_iff.mp hfor
  rw [List.getElem?_append_left hlt]
  exact hfor

theorem acquirePlane_spec (new : V4l2Plane) (answer : UserptrAnswer) (plane : Plane)
    (maps : Mappings) :
    maps.got <+: (acquirePlane new answer plane maps).2.2.got ∧
      (acquirePlane new answer plane maps).2.1.v4l2 = plane.v4l2 ∧
      ((acquirePlane new answer plane maps).1 = 0 ↔ (plane.v4l2 ≠ new → answer.err = 0)) ∧
      ((acquirePlane new answer plane maps).1 = 0 →
        AcquiredFor (acquirePlane new answer plane maps).2.2.got new answer.null plane
          (acquirePlane new answer plane maps).2.1) ∧
      ((acquirePlane new answer plane maps).1 ≠ 0 →
        (acquirePlane new answer plane maps).2.1.memPriv = none) := by
  have hrel : (if plane.memPriv.isSome then maps.putUserptr plane.memPriv else maps).got =
      maps.got := by
    split <;> rfl
  unfold acquirePlane
  generalize (if plane.memPriv.isSome then maps.putUserptr plane.memPriv else maps) = released
    at hrel
  split
  · next hsame => simp [hsame, AcquiredFor]
  rename_i hchange
  split
  · next hfail => simp [hrel, hchange, hfail]
  rename_i hans
  split
  · next hnull => simp [hrel, hchange, AcquiredFor, not_not.mp hans, hnull]
  · next hmap => simp [hrel, hchange, Mappings.getUserptr, AcquiredFor, not_not.mp hans, hmap]

/-- The first loop of `__qbuf_userptr`, from `plane` on. It ends behind the last
plane, or at one that could not be acquired and holds nothing now. -/
theorem acquirePlanes_spec (new : Nat → V4l2Plane) (answers : Nat → UserptrAnswer)
    (todo plane : Nat) (planes : Nat → Plane) (maps : Mappings) :
    ∃ ret last planes' maps', acquirePlanes new answers todo plane planes maps =
        (ret, last, planes', maps') ∧
      maps.got <+: maps'.got ∧
      (ret = 0 ↔ ∀ i, plane ≤ i → i < plane + todo → (planes i).v4l2 ≠ new i →
        (answers i).err = 0) ∧
      (ret = 0 → last = plane + todo) ∧ plane ≤ last ∧ last ≤ plane + todo ∧
      (ret ≠ 0 → (planes' last).memPriv = none) ∧
      (∀ i, i < plane ∨ last < i → planes' i = planes i) ∧
      (∀ i, (planes' i).v4l2 = (planes i).v4l2) ∧
      ∀ i, plane ≤ i → i < last →
        AcquiredFor maps'.got (new i) (answers i).null (planes i) (planes' i) := by
  induction todo generalizing plane planes maps with
  | zero =>
    refine ⟨0, plane, planes, maps, rfl, prefix_rfl, ?_⟩
    refine ⟨⟨fun _ i hlo hhi => absurd hhi (by omega), fun _ => rfl⟩, fun _ => rfl, le_refl _,
      le_refl _, fun h => absurd rfl h, fun _ _ => rfl, fun _ => rfl,
      fun i hlo hhi => absurd hhi (by omega)⟩
  | succ todo ih =>
    obtain ⟨hgot, hv4l2, hzero, hacquired, hnone⟩ :=
      acquirePlane_spec (new plane) (answers plane) (planes plane) maps
    simp only [acquirePlanes]
    generalize acquirePlane (new plane) (answers plane) (planes plane) maps = step at *
    obtain ⟨ret, acquired, maps1⟩ := step
    have hupd : ∀ i, (update planes plane acquired i).v4l2 = (planes i).v4l2 := by
      intro i
      rcases eq_or_ne i plane with rfl | hne
      · rw [update_self, hv4l2]
      · rw [update_of_ne hne]
    split
    · rename_i hfail
      refine ⟨ret, plane, _, maps1, rfl, hgot, ?_, fun h => absurd h hfail, le_refl _,
        by omega, fun _ => ?_, ?_, hupd, fun i hlo hhi => absurd hhi (by omega)⟩
      · refine ⟨fun h => absurd h hfail, fun h => absurd (hzero.mpr ?_) hfail⟩
        exact h plane (le_refl _) (by omega)
      · rw [update_self]
        exact hnone hfail
      · intro i hi
        exact update_of_ne (by omega) _ _
    · rename_i hok
      have hok := not_not.mp hok
      obtain ⟨ret', last, planes', maps', heq, hgot', hzero', hend, hlo, hhi, hnone', hsame,
        hv4l2', hrest⟩ := ih (plane + 1) (update planes plane acquired) maps1
      refine ⟨ret', last, planes', maps', heq, hgot.trans hgot', ?_, ?_, by omega, by omega,
        hnone', ?_, fun i => (hv4l2' i).trans (hupd i), ?_⟩
      · rw [hzero']
        constructor
        · intro h i hi hi' hne
          rcases eq_or_ne i plane with rfl | hip
          · exact hzero.mp hok hne
          · exact h i (by omega) (by omega) (by rw [hupd]; exact hne)
        · intro h i hi hi' hne
          exact h i (by omega) (by omega) (by rw [hupd] at hne; exact hne)
      · intro h
        omega
      · intro i hi
        rw [hsame i (by omega), update_of_ne (by omega)]
      · intro i hi hi'
        rcases eq_or_ne i plane with rfl | hip
        · rw [hsame i (by omega), update_self]
          exact (hacquired hok).mono hgot'
        · have := hrest i (by omega) hi'
          rwa [update_of_ne hip] at this

def PlaneMapped (got : List V4l2Plane) (plane : Plane) : Prop :=
  ∀ memPriv, plane.memPriv = some memPriv →
    ∃ mapping, memPriv = .user mapping ∧ got[mapping]? = some plane.v4l2

theorem PlaneMapped.mono (hgot : got <+: got') (h : PlaneMapped got plane) :
    PlaneMapped got' plane := by
  intro memPriv hmem
  obtain ⟨mapping, heq, hfor⟩ := h memPriv hmem
  obtain ⟨tail, rfl⟩ := hgot
  obtain ⟨hlt, -⟩ := List.getElem?_eq_some_iff.mp hfor
  exact ⟨mapping, heq, (List.getElem?_append_left hlt).trans hfor⟩

variable {vb : Vb2Buffer} {ret : Int} {b : V4l2Buffer}

theorem fillVb2Buffer_error {v4l2Planes : Nat → V4l2Plane}
    (hfill : fillVb2Buffer vb b v4l2Planes = .error ret) : ret ≠ 0 := by
  unfold fillVb2Buffer verifyPlanesArray at hfill
  have heinval : einval ≠ 0 := by decide
  split at hfill
  · split at hfill
    · rename_i hverify
      cases hfill
      split at hverify
      · cases hverify
        exact heinval
      split at hverify
      · cases hverify
        exact heinval
      · contradiction
    · split at hfill <;> contradiction
  · split at hfill <;> contradiction

/-- The user passes the planes `new`, the allocator gives no error for those that have
changed and the driver initialises the buffer. -/
structure UserptrGranted (vb : Vb2Buffer) (b : V4l2Buffer) (answers : QbufAnswers)
    (new : Nat → V4l2Plane) : Prop where
  fill : fillVb2Buffer vb b answers.stack = .ok new
  getUserptr : ∀ i, i < vb.numPlanes → (vb.planes i).v4l2 ≠ new i →
    (answers.getUserptr i).err = 0
  bufInit : answers.bufInit = 0

/-- The plane comes out of `__qbuf_userptr` with a `mem_priv`: it is kept with the one that it
has, or acquired again and the answer is not `NULL`. -/
def HeldAfter (plane : Plane) (new : V4l2Plane) (answer : UserptrAnswer) : Prop :=
  if plane.v4l2 = new then plane.memPriv.isSome = true else answer.null = false

/-- What `__qbuf_userptr` makes of a buffer. -/
structure UserptrResult (vb : Vb2Buffer) (b : V4l2Buffer) (answers : QbufAnswers)
    (maps : Mappings) (ret : Int) (vb' : Vb2Buffer) (maps' : Mappings) : Prop where
  numPlanes : vb'.numPlanes = vb.numPlanes
  got : maps.got <+: maps'.got
  accounted : ∀ others : Nat → Nat,
    (Accounted maps fun mapping => heldBy vb.numPlanes vb.planes mapping + others mapping) →
      Accounted maps' fun mapping => heldBy vb.numPlanes vb'.planes mapping + others mapping
  mapped : (∀ i, i < vb.numPlanes → PlaneMapped maps.got (vb.planes i)) →
    ∀ i, i < vb.numPlanes → PlaneMapped maps'.got (vb'.planes i)
  granted : ret = 0 ↔ ∃ new, UserptrGranted vb b answers new
  kept : ret = 0 → ∀ new, UserptrGranted vb b answers new → ∀ i, i < vb.numPlanes →
    ((vb'.planes i).memPriv.isSome ↔ HeldAfter (vb.planes i) (new i) (answers.getUserptr i))

theorem UserptrResult.of_error {answers : QbufAnswers}
    (hfill : fillVb2Buffer vb b answers.stack = .error ret) :
    UserptrResult vb b answers maps ret vb maps where
  numPlanes := rfl
  got := prefix_rfl
  accounted := fun _ h => h
  mapped := fun h => h
  granted := by
    refine ⟨fun hzero => absurd hzero (fillVb2Buffer_error hfill), ?_⟩
    rintro ⟨new, hgrant⟩
    exact absurd (hfill.symm.trans hgrant.fill) (by simp)
  kept := fun hzero => absurd hzero (fillVb2Buffer_error hfill)

theorem AcquiredFor.mapped (hgot : got <+: got') (h : AcquiredFor got' new null before after)
    (hpre : PlaneMapped got before) : PlaneMapped got' { after with v4l2 := new } := by
  unfold AcquiredFor at h
  split_ifs at h with hsame
  · subst h
    rw [← hsame]
    exact hpre.mono hgot
  · intro memPriv hsome
    simp [h] at hsome
  · obtain ⟨mapping, hmem, hfor⟩ := h
    intro memPriv hsome
    exact ⟨mapping, (Option.mem_unique hmem hsome).symm, hfor⟩

theorem AcquiredFor.isSome_iff {answer : UserptrAnswer}
    (h : AcquiredFor got new answer.null before after) :
    after.memPriv.isSome ↔ HeldAfter before new answer := by
  unfold AcquiredFor at h
  unfold HeldAfter
  split_ifs at h ⊢ with hsame hnull
  · rw [h]
  · simp [h, hnull]
  · obtain ⟨mapping, hmem, -⟩ := h
    simp [hmem, hnull]

theorem qbufUserptr_result (vb : Vb2Buffer) (b : V4l2Buffer) (answers : QbufAnswers)
    (maps : Mappings) :
    UserptrResult vb b answers maps (qbufUserptr vb b answers maps).1
      (qbufUserptr vb b answers maps).2.1 (qbufUserptr vb b answers maps).2.2 := by
  unfold qbufUserptr
  split
  · next ret hfill => exact .of_error hfill
  rename_i new hfill
  have hacquire := fun others => acquirePlanes_accounted new answers.getUserptr vb.numPlanes 0
    vb.planes maps others (le_of_eq (zero_add vb.numPlanes))
  obtain ⟨ret, last, planes, maps', heq, hgot, hzero, hend, -, hlast, hnone, hsame, hv4l2,
    hacquired⟩ := acquirePlanes_spec new answers.getUserptr vb.numPlanes 0 vb.planes maps
  rw [zero_add] at hlast hend hzero
  rw [heq] at hacquire ⊢
  dsimp only at hacquire ⊢
  have hgrant : (∃ new, UserptrGranted vb b answers new) ↔ ret = 0 ∧ answers.bufInit = 0 := by
    constructor
    · rintro ⟨new', hfill', hget, hinit⟩
      obtain rfl := Except.ok.inj (hfill.symm.trans hfill')
      exact ⟨hzero.mpr fun i _ hi => hget i hi, hinit⟩
    · rintro ⟨hret, hinit⟩
      exact ⟨new, hfill, fun i hi => hzero.mp hret i (zero_le i) hi, hinit⟩
  have hboth : (if ret ≠ 0 then ret else answers.bufInit) = 0 ↔
      ret = 0 ∧ answers.bufInit = 0 := by
    split_ifs with hret <;> simp_all
  generalize (if ret ≠ 0 then ret else answers.bufInit) = result at hboth ⊢
  split
  · rename_i hfail
    refine ⟨rfl, by simpa using hgot, fun others h => ?_, fun h i hi => ?_, ?_, ?_⟩
    · exact releasePlanes_accounted last planes maps' others hlast (hacquire others h)
    · rw [releasePlanes_got]
      change PlaneMapped maps'.got ((releasePlanes last planes maps').1 i)
      rw [releasePlanes_apply]
      split_ifs with hi'
      · exact fun memPriv hmem => absurd hmem (by simp)
      rcases eq_or_lt_of_le (not_lt.mp hi') with rfl | hlt
      · have hret : ret ≠ 0 := fun hret => absurd (hend hret) (by omega)
        intro memPriv hmem
        rw [hnone hret] at hmem
        contradiction
      · rw [hsame i (Or.inr hlt)]
        exact (h i hi).mono hgot
    · rw [hgrant, ← hboth]
    · exact fun hbad => absurd hbad hfail
  · rename_i hok
    obtain ⟨hret, hinit⟩ := hboth.mp (not_not.mp hok)
    have hdone : ∀ i, i < vb.numPlanes →
        AcquiredFor maps'.got (new i) (answers.getUserptr i).null (vb.planes i) (planes i) := by
      intro i hi
      exact hacquired i (zero_le i) (by rw [hend hret]; exact hi)
    refine ⟨rfl, hgot, fun others h => ?_, fun h i hi => ?_, ?_, fun _ new' hnew i hi => ?_⟩
    · have hheld : ∀ mapping, heldBy vb.numPlanes (fun plane => if plane < vb.numPlanes then
          { planes plane with v4l2 := new plane } else planes plane) mapping =
          heldBy vb.numPlanes planes mapping := by
        intro mapping
        apply Finset.sum_congr rfl
        intro i hi
        simp [Finset.mem_range.mp hi]
      simp only [hheld]
      exact hacquire others h
    · simp only [hi, if_true]
      exact (hdone i hi).mapped hgot (h i hi)
    · rw [hgrant]
      exact ⟨fun _ => ⟨hret, hinit⟩, fun _ => rfl⟩
    · obtain rfl := Except.ok.inj (hfill.symm.trans hnew.fill)
      simp only [hi, if_true]
      exact (hdone i hi).isSome_iff

end TbsMedia.Vb2
