import TbsMedia.Ctrls.ExtCtrls

/-!
`validate_new_int` rounds the value of an integer control. Half a step is added in 32 bits, so
large values can come out at the lower end.
-/

namespace TbsMedia.Ctrls

open Int

def IsS32 (n : Int) : Prop := -2 ^ 31 ≤ n ∧ n < 2 ^ 31

def LegalInt (ctrl : Ctrl) (n : Int) : Prop :=
  ctrl.minimum ≤ n ∧ n ≤ ctrl.maximum ∧ (ctrl.step.toNat : Int) ∣ n - ctrl.minimum

/-- A legal value, and no legal value is closer to what was asked for. -/
def ClosestInt (ctrl : Ctrl) (val r : Int) : Prop :=
  LegalInt ctrl r ∧ ∀ n, LegalInt ctrl n → (r - val).natAbs ≤ (n - val).natAbs

/-- Half a step more is an `s32` still, or there is only one legal value. -/
def RoundsRight (ctrl : Ctrl) (val : Int) : Prop :=
  val + ctrl.step.toNat / 2 < 2 ^ 31 ∨ ctrl.maximum - ctrl.minimum < ctrl.step.toNat

theorem toS32_of_isS32 {n : Int} (hn : IsS32 n) : toS32 n = n := by
  rw [toS32, BitVec.toInt_ofInt]
  exact bmod_eq_of_le (by have := hn.1; omega) (by have := hn.2; omega)

structure IntegerCtrl (ctrl : Ctrl) : Prop where
  type : ctrl.type = .integer
  step : 0 < ctrl.step.toNat
  order : ctrl.minimum ≤ ctrl.maximum
  minimum : IsS32 ctrl.minimum
  maximum : IsS32 ctrl.maximum

def gridFloor (ctrl : Ctrl) (x : Int) : Int :=
  ctrl.minimum + ctrl.step.toNat * ((x - ctrl.minimum) / ctrl.step.toNat)

section

variable {h : Nat} {p : CtrlParams} {ctrl : Ctrl} {val x n r : Int}

theorem legalInt_apart (hn : LegalInt ctrl n) (hr : LegalInt ctrl r) :
    n = r ∨ n + ctrl.step.toNat ≤ r ∨ r + ctrl.step.toNat ≤ n := by
  obtain ⟨k, hk⟩ := dvd_sub hn.2.2 hr.2.2
  rcases lt_trichotomy k 0 with hneg | rfl | hpos
  · exact .inr (.inl (by nlinarith))
  · exact .inl (by omega)
  · exact .inr (.inr (by nlinarith))

theorem gridFloor_bounds (hstep : 0 < ctrl.step.toNat) (x : Int) :
    gridFloor ctrl x ≤ x ∧ x < gridFloor ctrl x + ctrl.step.toNat := by
  have hdiv := mul_ediv_add_emod (x - ctrl.minimum) ctrl.step.toNat
  have hmod := emod_nonneg (x - ctrl.minimum) (b := ctrl.step.toNat) (by omega)
  have hlt := emod_lt_of_pos (x - ctrl.minimum) (b := ctrl.step.toNat) (by omega)
  unfold gridFloor
  omega

theorem gridFloor_legal (hstep : 0 < ctrl.step.toNat) (hlow : ctrl.minimum ≤ x)
    (hhigh : x ≤ ctrl.maximum) : LegalInt ctrl (gridFloor ctrl x) := by
  refine ⟨?_, (gridFloor_bounds hstep x).1.trans hhigh, ?_⟩
  · have hquot : 0 ≤ (x - ctrl.minimum) / ctrl.step.toNat := ediv_nonneg (by omega) (by omega)
    exact le_add_of_nonneg_right (mul_nonneg (by omega) hquot)
  · rw [gridFloor, add_sub_cancel_left]
    exact dvd_mul_right _ _

/-- The value is clamped and brought down to the grid. -/
theorem validateNewInt_integer (hctrl : IntegerCtrl ctrl) (val : Int) :
    ∃ x, x = max ctrl.minimum (min ctrl.maximum (toS32 (val + ctrl.step.toNat / 2))) ∧
      LegalInt ctrl (gridFloor ctrl x) ∧ validateNewInt ctrl val = .ok (gridFloor ctrl x) := by
  obtain ⟨htype, hstep, horder, hmin, hmax⟩ := hctrl
  refine ⟨_, rfl, gridFloor_legal hstep (by omega) (by omega), ?_⟩
  rw [validateNewInt, htype]
  dsimp only
  generalize toS32 (val + ctrl.step.toNat / 2) = u
  have hclamped : (if ctrl.maximum < (if u < ctrl.minimum then ctrl.minimum else u) then
      ctrl.maximum else if u < ctrl.minimum then ctrl.minimum else u) =
        max ctrl.minimum (min ctrl.maximum u) := by
    split_ifs <;> omega
  have hlow : ctrl.minimum ≤ max ctrl.minimum (min ctrl.maximum u) := by omega
  have hhigh : max ctrl.minimum (min ctrl.maximum u) ≤ ctrl.maximum := by omega
  rw [hclamped]
  generalize max ctrl.minimum (min ctrl.maximum u) = x at hlow hhigh
  obtain ⟨hge, hle, -⟩ := gridFloor_legal hstep hlow hhigh
  unfold IsS32 at hmin hmax
  have hoffset : ((toU32 (x - ctrl.minimum) : Nat) : Int) = x - ctrl.minimum := by
    rw [toU32, BitVec.toNat_ofInt]
    omega
  have hu32 : toU32 (x - ctrl.minimum) < 2 ^ 32 := BitVec.isLt _
  rw [Nat.mod_eq_of_lt (lt_of_le_of_lt (Nat.mul_div_le _ _) hu32), Nat.cast_mul,
    natCast_div, hoffset]
  exact congrArg _ (toS32_of_isS32 ⟨hmin.1.trans hge, hle.trans_lt hmax.2⟩)

theorem closest_iff (hctrl : IntegerCtrl ctrl) (hval : IsS32 val)
    (hround : validateNewInt ctrl val = .ok r) : ClosestInt ctrl val r ↔ RoundsRight ctrl val := by
  obtain ⟨x, hx, hlegal, hok⟩ := validateNewInt_integer hctrl val
  obtain rfl : gridFloor ctrl x = r := Except.ok.inj (hok.symm.trans hround)
  obtain ⟨-, hstep, horder, hmin, hmax⟩ := hctrl
  have hfloor := gridFloor_bounds hstep x
  have hsize := ctrl.step.toNat_lt
  unfold IsS32 at hval hmin hmax
  constructor
  · rintro ⟨-, hnear⟩
    by_contra hwrong
    rw [RoundsRight, not_or] at hwrong
    have hwrap : toS32 (val + ctrl.step.toNat / 2) = val + ctrl.step.toNat / 2 - 2 ^ 32 := by
      rw [toS32, BitVec.toInt_ofInt, ← sub_bmod_right]
      exact bmod_eq_of_le (by omega) (by omega)
    have htop := gridFloor_bounds hstep ctrl.maximum
    have hcloser := hnear _ (gridFloor_legal hstep horder le_rfl)
    have hlow := legalInt_apart ⟨le_rfl, horder, by simp⟩ hlegal
    omega
  · intro hright
    refine ⟨hlegal, fun n hn => ?_⟩
    have hapart := legalInt_apart hn hlegal
    obtain ⟨hnlow, hnhigh, -⟩ := hn
    obtain ⟨hlow, hhigh, -⟩ := hlegal
    rcases hright with hright | hone
    · have hsum := toS32_of_isS32 (n := val + ctrl.step.toNat / 2) ⟨by omega, hright⟩
      omega
    · omega

theorem ctrlSane_integer (hsane : ctrlSane p = true) (htype : p.type = .integer)
    (hmin : IsS32 p.range.min) (hmax : IsS32 p.range.max) : IntegerCtrl (freshlyMade h p) := by
  simp [ctrlSane, htype] at hsane
  obtain ⟨⟨⟨-, hstep⟩, horder⟩, -⟩ := hsane
  exact ⟨htype, pos_of_ne_zero (UInt32.toNat_inj.not.mpr hstep), horder, hmin, hmax⟩

end

/-- Values are rounded to the closest legal one exactly where they round right; there legal values
stay, and the order is kept. -/
def RoundedIff (ctrl : Ctrl) (round : Int → Int) : Prop :=
  ∀ val, IsS32 val → (ClosestInt ctrl val (round val) ↔ RoundsRight ctrl val) ∧
    (RoundsRight ctrl val → (LegalInt ctrl val → round val = val) ∧
      (RoundsRight ctrl (round val) → round (round val) = round val) ∧
      ∀ val', IsS32 val' → RoundsRight ctrl val' → val ≤ val' → round val ≤ round val')

/-- An integer control that was just made takes every value, and rounds it as said above. -/
theorem integers_rounded_iff (h : Nat) (p : CtrlParams) (hsane : ctrlSane p = true)
    (htype : p.type = .integer) (hmin : IsS32 p.range.min) (hmax : IsS32 p.range.max) :
    ∃ round, (∀ val, validateNewInt (freshlyMade h p) val = .ok (round val)) ∧
      RoundedIff (freshlyMade h p) round := by
  have hctrl : IntegerCtrl (freshlyMade h p) := ctrlSane_integer hsane htype hmin hmax
  choose x hx hlegal hok using validateNewInt_integer hctrl
  refine ⟨_, hok, fun val hval => ⟨closest_iff hctrl hval (hok val), fun hright => ?_⟩⟩
  have hclosest := fun val hval => (closest_iff hctrl hval (hok val)).mpr
  refine ⟨fun hstays => ?_, fun hagain => ?_, fun val' hval' hright' hle => ?_⟩
  · have := (hclosest val hval hright).2 val hstays
    omega
  · have hs32 : IsS32 (gridFloor _ (x val)) :=
      ⟨hmin.1.trans (hlegal val).1, (hlegal val).2.1.trans_lt hmax.2⟩
    have := (hclosest _ hs32 hagain).2 _ (hlegal val)
    omega
  · rcases hle.eq_or_lt with rfl | hlt
    · exact le_rfl
    have := (hclosest val hval hright).2 _ (hlegal val')
    have := (hclosest val' hval' hright').2 _ (hlegal val)
    omega

/-- Even numbers of 31 bits. -/
def evenNumbers : CtrlParams :=
  ⟨⟨false, false, false⟩, 0x980900, some "Even", .integer, ⟨0, 2 ^ 31 - 1, 2, 0⟩, 0, none⟩

theorem integers_rounded_iff_even :
    ∃ round, (∀ val, validateNewInt (freshlyMade 0 evenNumbers) val = .ok (round val)) ∧
      RoundedIff (freshlyMade 0 evenNumbers) round :=
  integers_rounded_iff 0 evenNumbers (by decide) rfl (by constructor <;> decide)
    (by constructor <;> decide)

theorem largest_value_rounds_to_zero :
    ctrlSane evenNumbers = true ∧ LegalInt (freshlyMade 0 evenNumbers) (2 ^ 31 - 2) ∧
      validateNewInt (freshlyMade 0 evenNumbers) (2 ^ 31 - 1) = .ok 0 :=
  ⟨by decide, ⟨by decide, by decide, by decide⟩, rfl⟩

end TbsMedia.Ctrls
