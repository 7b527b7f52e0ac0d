import Mathlib
import TbsMedia.Uvc.Transactions

/-!
`uvc_ctrl_set` rounds the value of an integer control to the steps that the device reports. The
sum is one of 32 bits without a sign, and the upper end of the range need not be a step.
-/

namespace TbsMedia.Uvc

open Control Int

/-- The values of an integer control; a step of 0 means 1. -/
structure StepRange where
  low : Int
  high : Int
  step : Int

def reported (mapping : Mapping) (ctrl : Control) : StepRange where
  low := (mapping.get .getMin ctrl.minimum).toInt
  high := (mapping.get .getMax ctrl.maximum).toInt
  step := max 1 (mapping.get .getRes ctrl.resolution).toNat

namespace StepRange

section Requests

variable (s : StepRange)

def Legal (n : Int) : Prop := s.low ≤ n ∧ n ≤ s.high ∧ s.step ∣ n - s.low

/-- A legal value, and no legal value is closer to what was asked for. -/
def Closest (value r : Int) : Prop :=
  s.Legal r ∧ ∀ n, s.Legal n → (r - value).natAbs ≤ (n - value).natAbs

/-- The step closest to `value`, also outside the range. -/
def nearest (value : Int) : Int :=
  s.low + (value - s.low + s.step / 2) / s.step * s.step

/-- A request more than half a step below the range is read as one that is `2 ^ 32` higher, whose
step has to be the lowest or no `s32`. Above the range the upper end has to be a step. -/
def Right (value : Int) : Prop :=
  if value < s.low then
    s.low ≤ value + s.step / 2 ∨ s.nearest (value + 2 ^ 32) = s.low ∨
      2 ^ 31 ≤ s.nearest (value + 2 ^ 32) ∨ s.high = s.low
  else if value - s.low + s.step / 2 < 2 ^ 32 ∧ s.nearest value < 2 ^ 31 then
    s.nearest value ≤ s.high ∨ s.step ∣ s.high - s.low
  else s.high - s.low < s.step

/-- The sum of the code before it is brought into the range of an `s32`. -/
def sum (value : Int) : Int :=
  s.low + (value - s.low + s.step / 2) % 2 ^ 32 / s.step * s.step

end Requests

variable {s : StepRange} {value x n r : Int}

theorem sum_eq_nearest (hmod : (value - s.low + s.step / 2) % 2 ^ 32 = n - s.low + s.step / 2) :
    s.sum value = s.nearest n := by
  rw [sum, hmod, nearest]

variable (hstep : 0 < s.step)
include hstep

theorem steps_apart (hn : s.step ∣ n - s.low) (hr : s.step ∣ r - s.low) :
    n = r ∨ n + s.step ≤ r ∨ r + s.step ≤ n := by
  obtain ⟨k, hk⟩ := dvd_sub hn hr
  rcases lt_trichotomy k 0 with hneg | rfl | hpos
  · exact .inr (.inl (by nlinarith))
  · exact .inl (by omega)
  · exact .inr (.inr (by nlinarith))

theorem last_step (hx : 0 ≤ x) :
    s.step ∣ s.low + x / s.step * s.step - s.low ∧ 0 ≤ x / s.step * s.step ∧
      x / s.step * s.step ≤ x ∧ x < x / s.step * s.step + s.step := by
  have hdiv := ediv_mul_add_emod x s.step
  have hmod := emod_nonneg x hstep.ne'
  have hlt := emod_lt_of_pos x hstep
  have hquot := mul_nonneg (ediv_nonneg hx hstep.le) hstep.le
  exact ⟨⟨x / s.step, by ring⟩, hquot, by omega, by omega⟩

variable (hsize : s.step < 2 ^ 32) (hvalue : -2 ^ 31 ≤ value ∧ value < 2 ^ 31)
include hsize hvalue

theorem right_iff_sum (hlow : -2 ^ 31 ≤ s.low ∧ s.low < 2 ^ 31) : s.Right value ↔
      if value < s.low then s.sum value = s.low ∨ 2 ^ 31 ≤ s.sum value ∨ s.high = s.low
      else if value - s.low + s.step / 2 < 2 ^ 32 ∧ s.sum value < 2 ^ 31 then
        s.sum value ≤ s.high ∨ s.step ∣ s.high - s.low
      else s.high - s.low < s.step := by
  unfold Right
  split
  · rcases le_or_gt s.low (value + s.step / 2) with hnear | hfar
    · have hsum : s.sum value = s.low := by
        rw [sum, emod_eq_of_lt, ediv_eq_zero_of_lt] <;> omega
      simp [hsum, hnear]
    · rw [sum_eq_nearest (n := value + 2 ^ 32) (by omega)]
      simp only [hfar.not_ge, false_or]
  · rcases lt_or_ge (value - s.low + s.step / 2) (2 ^ 32) with hroom | hwrap
    · rw [sum_eq_nearest (n := value) (by omega)]
    · simp only [hwrap.not_gt, false_and, if_false]

theorem closest_iff_right (horder : s.low ≤ s.high) (hlow : -2 ^ 31 ≤ s.low)
    (hhigh : s.high < 2 ^ 31)
    (hr : s.sum value < 2 ^ 31 ∧ r = min (s.sum value) s.high ∨ 2 ^ 31 ≤ s.sum value ∧ r = s.low) :
    s.Closest value r ↔ s.Right value := by
  have hlast := last_step hstep (show 0 ≤ (value - s.low + s.step / 2) % 2 ^ 32 by omega)
  have htop := last_step hstep (show 0 ≤ s.high - s.low by omega)
  have hbottom : s.step ∣ s.low - s.low := by simp
  have hends := steps_apart hstep htop.1 hbottom
  have hstart := steps_apart hstep hlast.1 hbottom
  rw [right_iff_sum hstep hsize hvalue ⟨hlow, by omega⟩]
  generalize hsum : s.sum value = sum at hr ⊢
  rw [StepRange.sum] at hsum
  rw [hsum] at hlast hstart
  generalize (s.high - s.low) / s.step * s.step = top at htop hends
  constructor
  · rintro ⟨⟨-, -, hdvd⟩, hclosest⟩
    have hfirst := hclosest s.low ⟨le_rfl, horder, hbottom⟩
    have hnext := hclosest (s.low + top) ⟨by omega, by omega, htop.1⟩
    split_ifs with hbelow hroom
    · omega
    · rcases le_or_gt sum s.high with hle | hgt
      · exact .inl hle
      · obtain rfl : r = s.high := by omega
        exact .inr hdvd
    · omega
  · intro hright
    have hclose (hdvd : s.step ∣ r - s.low) (hnear : ∀ n, s.low ≤ n → n ≤ s.high →
        n = r ∨ n + s.step ≤ r ∨ r + s.step ≤ n → (r - value).natAbs ≤ (n - value).natAbs) :
        s.Closest value r :=
      ⟨⟨by omega, by omega, hdvd⟩,
        fun n ⟨hge, hle, hn⟩ => hnear n hge hle (steps_apart hstep hn hdvd)⟩
    clear htop hends
    split_ifs at hright with hbelow hroom
    · obtain rfl : r = s.low := by omega
      exact hclose hbottom (by omega)
    · rcases le_or_gt sum s.high with hle | hgt
      · obtain rfl : r = sum := by omega
        exact hclose hlast.1 (by omega)
      obtain rfl : r = s.high := by omega
      have hdvd := hright.resolve_left hgt.not_ge
      have hover := steps_apart hstep hlast.1 hdvd
      exact hclose hdvd (by omega)
    · obtain rfl : r = s.low := by omega
      exact hclose hbottom (by omega)

end StepRange

theorem roundToStep_toInt (value low high step : BitVec 32) (horder : low.toInt ≤ high.toInt)
    {sum : Int} (hsum : StepRange.sum ⟨low.toInt, high.toInt, max 1 step.toNat⟩ value.toInt = sum) :
    sum < 2 ^ 31 ∧ (roundToStep value low high step).toInt = min sum high.toInt ∨
      2 ^ 31 ≤ sum ∧ (roundToStep value low high step).toInt = low.toInt := by
  have hstep : ((max 1 step.toNat : Nat) : Int) = (if step = 0 then 1 else step).toNat := by
    split_ifs with hzero
    · simp [hzero]
    · rw [max_eq_right (Nat.pos_of_ne_zero fun h => hzero (BitVec.eq_of_toNat_eq h))]
  unfold roundToStep clamp
  dsimp only [StepRange.sum] at hsum ⊢
  push_cast at hstep
  rw [hstep] at hsum
  generalize (if step = 0 then 1 else step) = s at hsum
  have hoffset : (((value - low + s / 2).toNat : Nat) : Int) =
      (value.toInt - low.toInt + s.toNat / 2) % 2 ^ 32 := by
    have := value.isLt
    have := low.isLt
    simp only [BitVec.toNat_add, BitVec.toNat_sub, BitVec.toNat_udiv, BitVec.toInt_eq_toNat_cond]
    split_ifs <;> simp <;> omega
  rw [← hoffset, ← natCast_div, ← Nat.cast_mul] at hsum
  generalize value - low + s / 2 = u at hsum
  have hle := Nat.div_mul_le_self u.toNat s.toNat
  have hprod : (u / s * s).toNat = u.toNat / s.toNat * s.toNat := by
    rw [BitVec.toNat_mul, BitVec.toNat_udiv, Nat.mod_eq_of_lt (hle.trans_lt u.isLt)]
  have hr : (low + u / s * s).toInt = sum.bmod (2 ^ 32) := by
    rw [BitVec.toInt_add, ← hsum, BitVec.toInt_eq_toNat_bmod (u / s * s), hprod, add_bmod_bmod]
  have := u.isLt
  have := BitVec.le_toInt low
  have := BitVec.toInt_lt (x := high)
  generalize low + u / s * s = v at hr
  simp only [BitVec.slt_iff_toInt_lt, bmod_def] at *
  split_ifs <;> omega

/-- An integer control is set to the closest legal value exactly where the sum comes out right. -/
theorem integer_set_closest_iff (ctrl after : Control) (mapping : Mapping) (value shown : BitVec 32)
    (range : RangeReplies) (reply : Reply) (htype : mapping.v4l2Type = .integer)
    (hset : ctrl.set mapping value range reply = (.ok shown, after))
    (horder : (reported mapping after).low ≤ (reported mapping after).high) :
    (∃ before, after.current = mapping.set shown before) ∧
      ((reported mapping after).Closest value.toInt shown.toInt ↔
        (reported mapping after).Right value.toInt) := by
  have hload : ∀ c : Control, ∃ current loaded, (c.loadForSet mapping reply).2 =
      { c with current := current, loaded := loaded } := by
    intro c
    unfold loadForSet getCur
    split_ifs <;> exact ⟨_, _, rfl⟩
  simp only [Control.set, legalValue, htype] at hset
  split_ifs at hset
  · cases hset
  · cases hset
  dsimp only at hset
  obtain ⟨current, loaded, heq⟩ := hload (ctrl.cacheRange range).2
  rw [heq] at hset
  split_ifs at hset
  · cases hset
  cases hset
  refine ⟨⟨_, rfl⟩, StepRange.closest_iff_right ?_ ?_ ⟨BitVec.le_toInt _, BitVec.toInt_lt⟩ horder
    (BitVec.le_toInt _) BitVec.toInt_lt (roundToStep_toInt _ _ _ _ horder rfl)⟩
  · exact lt_max_of_lt_left one_pos
  · exact max_lt (by decide) (by exact_mod_cast BitVec.isLt _)

def byteSteps : Mapping where
  id := 1
  size := 8
  v4l2Type := .integer
  menu := []
  get := fun _ data => BitVec.ofNat 32 (data.headD 0).toNat
  set := fun value _ => [UInt8.ofNat value.toNat]

/-- Values from 0 to `high` in steps of `step`. -/
def steppedByte (high step : UInt8) : Control :=
  { byteControl 1 with cached := true, maximum := [high], resolution := [step] }

theorem integer_set_closest_eight : ∃ after,
    (steppedByte 10 3).set byteSteps 8 noRange ⟨true, []⟩ = (.ok 9, after) ∧
      (reported byteSteps after).Closest 8 9 := by
  refine ⟨_, rfl, ?_⟩
  apply (integer_set_closest_iff (steppedByte 10 3) _ byteSteps 8 9 noRange ⟨true, []⟩ rfl rfl
    (by decide)).2.mpr
  unfold StepRange.Right
  decide

/-- A request above 10 is set to 10, which is no step of 3, and the lowest request there is to
the upper end of a range in steps of 7. -/
theorem integer_set_other_values :
    (∃ after, (steppedByte 10 3).set byteSteps 11 noRange ⟨true, []⟩ = (.ok 10, after) ∧
      reported byteSteps after = ⟨0, 10, 3⟩ ∧ ¬ (reported byteSteps after).Closest 11 10) ∧
    ∃ after, (steppedByte 7 7).set byteSteps (-2 ^ 31) noRange ⟨true, []⟩ = (.ok 7, after) ∧
      reported byteSteps after = ⟨0, 7, 7⟩ ∧ ¬ (reported byteSteps after).Closest (-2 ^ 31) 7 := by
  refine ⟨⟨_, rfl, rfl, fun hclosest => ?_⟩, _, rfl, rfl, fun hclosest => ?_⟩
  · exact absurd hclosest.1.2.2 (by decide)
  · exact absurd (hclosest.2 0 ⟨by decide, by decide, by decide⟩) (by decide)

end TbsMedia.Uvc
