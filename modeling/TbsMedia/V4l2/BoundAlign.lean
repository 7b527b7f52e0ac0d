import Mathlib.Data.Nat.Bitwise
import Mathlib.NumberTheory.Padics.PadicVal.Basic

/-!
`clamp_align` and `v4l_bound_align_image`: the size of an image is brought within bounds and to
multiples of powers of two. Half a step is added in 32 bits, so large requests can come out at the
lower bound.
-/

namespace TbsMedia.V4l2

open Nat Option

abbrev U32 := BitVec 32

/-- `wmin`, `wmax` and `walign`, or `hmin`, `hmax` and `halign`. -/
structure Side where
  min : U32
  max : U32
  align : Nat

def Side.step (s : Side) : Nat := 2 ^ s.align

def alignMask (align : Nat) : U32 := ~~~((1#32 <<< align) - 1#32)

/-- Shifts by 32 or more are undefined: `none`. -/
def clampAlign (x : U32) (s : Side) : Option (U32) :=
  if 32 ≤ s.align then none
  else
    let mask := alignMask s.align
    let x := if s.align = 0 then x else x + 1#32 <<< (s.align - 1) &&& mask
    some (if x < s.min then s.min + ~~~mask &&& mask else if s.max < x then s.max &&& mask else x)

/-- `__ffs`, the lowest bit set. -/
def ffs (x : U32) : Nat := padicValNat 2 x.toNat

/-- `__fls`, the highest bit set. -/
def fls (x : U32) : Nat := x.toNat.log2

/-- The alignment above which nothing is within the bounds. -/
def Side.maxa (s : Side) : Nat := fls (s.max ^^^ (s.min - 1))

/-- The loop: `walign` and `halign` are `__ffs` of the sizes all along. -/
def upAlign (sw sh : Side) (salign : Nat) :
    Nat → U32 → U32 → Option (U32 × U32)
  | 0, _, _ => none
  | fuel + 1, w, h => do
    let (w, h) ←
      if sh.maxa ≤ ffs h ∨ ffs w ≤ ffs h ∧ ffs w < sw.maxa then
        (clampAlign w { sw with align := ffs w + 1 }).map (·, h)
      else (clampAlign h { sh with align := ffs h + 1 }).map (w, ·)
    if ffs h + ffs w < salign then upAlign sw sh salign fuel w h else some (w, h)

def v4lBoundAlignImage (fuel : Nat) (w : U32) (sw : Side) (h : U32) (sh : Side)
    (salign : Nat) : Option (U32 × U32) := do
  let w ← clampAlign w sw
  let h ← clampAlign h sh
  if salign = 0 then some (w, h)
  else if ffs w + ffs h < salign then upAlign sw sh salign fuel w h
  else some (w, h)

/-- A multiple of the step within the bounds. -/
def OnGrid (s : Side) (n : U32) : Prop := s.min ≤ n ∧ n ≤ s.max ∧ s.step ∣ n.toNat

/-- On the grid, and nothing there is closer to the request. -/
def Nearest (x : U32) (s : Side) (r : U32) : Prop :=
  OnGrid s r ∧ ∀ n, OnGrid s n →
    (r.toNat - x.toNat : Int).natAbs ≤ (n.toNat - x.toNat : Int).natAbs

/-- Half a step more is a `u32` still, or there is only one choice. -/
def RoundsSafely (x : U32) (s : Side) : Prop :=
  s.align < 32 ∧ (x.toNat + s.step / 2 < 2 ^ 32 ∨ ∀ m n, OnGrid s m → OnGrid s n → m = n)

/-- A size within the bounds with all three alignments. -/
def FitsImage (sw sh : Side) (salign : Nat) (w h : U32) : Prop :=
  OnGrid sw w ∧ OnGrid sh h ∧ 2 ^ salign ∣ w.toNat * h.toNat

theorem toNat_and_mask (x : U32) {a : Nat} (ha : a < 32) :
    (x &&& alignMask a).toNat = x.toNat / 2 ^ a * 2 ^ a := by
  have hmask : ∀ a < 32, alignMask a = BitVec.allOnes 32 <<< a := by decide
  have hlt := (div_mul_le_self x.toNat (2 ^ a)).trans_lt x.isLt
  rw [hmask a ha, ← BitVec.shiftLeft_ushiftRight]
  simpa [shiftRight_eq_div_pow, shiftLeft_eq] using hlt

theorem toNat_not_mask : ∀ a < 32, (~~~alignMask a).toNat = 2 ^ a - 1 := by decide

theorem toNat_half : ∀ a < 32, a ≠ 0 → (1#32 <<< (a - 1)).toNat = 2 ^ a / 2 := by decide

theorem dvd_apart {d m k : Nat} (hm : d ∣ m) (hk : d ∣ k) : m = k ∨ m + d ≤ k ∨ k + d ≤ m := by
  obtain ⟨m, rfl⟩ := hm
  obtain ⟨k, rfl⟩ := hk
  rcases lt_trichotomy m k with hlt | rfl | hgt
  · exact .inr (.inl (mul_le_mul_left d hlt))
  · exact .inl rfl
  · exact .inr (.inr (mul_le_mul_left d hgt))

theorem floor_bounds (a m : Nat) :
    2 ^ a ∣ m / 2 ^ a * 2 ^ a ∧ m / 2 ^ a * 2 ^ a ≤ m ∧ m < m / 2 ^ a * 2 ^ a + 2 ^ a :=
  ⟨Nat.dvd_mul_left _ _, Nat.div_mul_le_self _ _, Nat.lt_div_mul_add (Nat.two_pow_pos a)⟩

section

variable {x x' n r r' : U32} {s : Side} {a : Nat}

theorem OnGrid.size (hn : OnGrid s n) (halign : s.align < 32) : n.toNat + s.step ≤ 2 ^ 32 := by
  have happart := dvd_apart hn.2.2 (pow_dvd_pow 2 halign.le)
  omega

/-- `y` is the request rounded to the grid, in 32 bits. -/
theorem clampAlign_spec (hn : OnGrid s n) (halign : s.align < 32) (x : U32) :
    ∃ r y, clampAlign x s = some r ∧ OnGrid s r ∧ s.step ∣ y ∧
      y ≤ (x.toNat + s.step / 2) % 2 ^ 32 ∧ (x.toNat + s.step / 2) % 2 ^ 32 < y + s.step ∧
      (y < s.min.toNat ∧ r.toNat < s.min.toNat + s.step ∨
        s.max.toNat < y ∧ s.max.toNat < r.toNat + s.step ∨ r.toNat = y) := by
  have hsize := hn.size halign
  obtain ⟨hnmin, hnmax, hdvd⟩ := hn
  unfold OnGrid Side.step at *
  have hceil : (s.min + ~~~alignMask s.align &&& alignMask s.align).toNat =
      (s.min.toNat + (2 ^ s.align - 1)) / 2 ^ s.align * 2 ^ s.align := by
    rw [toNat_and_mask _ halign, BitVec.toNat_add, toNat_not_mask s.align halign, mod_eq_of_lt]
    bv_omega
  have hround : (if s.align = 0 then x else
      x + 1#32 <<< (s.align - 1) &&& alignMask s.align).toNat =
        (x.toNat + 2 ^ s.align / 2) % 2 ^ 32 / 2 ^ s.align * 2 ^ s.align := by
    split_ifs with hzero
    · simpa [hzero] using (mod_eq_of_lt x.isLt).symm
    · rw [toNat_and_mask _ halign, BitVec.toNat_add, toNat_half s.align halign hzero]
  have hlow := floor_bounds s.align (s.min.toNat + (2 ^ s.align - 1))
  have hhigh := floor_bounds s.align s.max.toNat
  obtain ⟨hy, hle, hlt⟩ := floor_bounds s.align ((x.toNat + 2 ^ s.align / 2) % 2 ^ 32)
  rw [← hceil] at hlow
  rw [← toNat_and_mask _ halign] at hhigh
  have hlown := dvd_apart hdvd hlow.1
  have hhighn := dvd_apart hdvd hhigh.1
  rw [← hround] at hy hle hlt
  rw [clampAlign, if_neg halign.not_ge]
  dsimp only
  generalize (if s.align = 0 then x else _) = y at hy hle hlt ⊢
  refine ⟨_, y.toNat, rfl, ?_, hy, hle, hlt, ?_⟩
  all_goals split_ifs with hless hmore
  · exact ⟨by bv_omega, by bv_omega, hlow.1⟩
  · exact ⟨by bv_omega, by bv_omega, hhigh.1⟩
  · exact ⟨BitVec.not_lt.mp hless, BitVec.not_lt.mp hmore, hy⟩
  · exact .inl ⟨hless, by omega⟩
  · exact .inr (.inl ⟨hmore, by omega⟩)
  · exact .inr (.inr rfl)

theorem clampAlign_nearest_iff (hr : clampAlign x s = some r) (hn : OnGrid s n) :
    Nearest x s r ↔ RoundsSafely x s := by
  have halign : s.align < 32 := by
    by_contra hlarge
    rw [clampAlign, if_pos (not_lt.mp hlarge)] at hr
    cases hr
  obtain ⟨r, y, hspec, hgrid, hy, hle, hlt, hcases⟩ := clampAlign_spec hn halign x
  obtain rfl := some.inj (hspec.symm.trans hr)
  constructor
  · rintro ⟨-, hnear⟩
    refine ⟨halign, or_iff_not_imp_left.mpr fun hwrap => ?_⟩
    have hone : ∀ m, OnGrid s m → m = r := by
      intro m hm
      have hcloser := hnear m hm
      have hmr := dvd_apart hm.2.2 hgrid.2.2
      have hsize := hm.size halign
      have hzero := dvd_apart hy (dvd_zero _)
      obtain ⟨hmmin, hmmax, -⟩ := hm
      bv_omega
    intro m n hm hn
    rw [hone m hm, hone n hn]
  · rintro ⟨-, hfits | hsingle⟩
    all_goals refine ⟨hgrid, fun m hm => ?_⟩
    · have hmr := dvd_apart hm.2.2 hgrid.2.2
      have hmy := dvd_apart hm.2.2 hy
      have hry := dvd_apart hgrid.2.2 hy
      obtain ⟨hmmin, hmmax, -⟩ := hm
      obtain ⟨hrmin, hrmax, -⟩ := hgrid
      bv_omega
    · rw [hsingle m r hm hgrid]

theorem clampAlign_mono (hr : clampAlign x s = some r) (hr' : clampAlign x' s = some r')
    (hn : OnGrid s n) (hsafe : RoundsSafely x s) (hsafe' : RoundsSafely x' s) (hle : x ≤ x') :
    r ≤ r' := by
  obtain ⟨r, y, hspec, hgrid, hy, hfloor, hnext, hcases⟩ := clampAlign_spec hn hsafe.1 x
  obtain ⟨r', y', hspec', hgrid', hy', hfloor', hnext', hcases'⟩ := clampAlign_spec hn hsafe.1 x'
  obtain rfl := some.inj (hspec.symm.trans hr)
  obtain rfl := some.inj (hspec'.symm.trans hr')
  rcases hsafe.2, hsafe'.2 with ⟨hfits | hone, hfits' | hone⟩
  · have hyy := dvd_apart hy hy'
    have hrr := dvd_apart hgrid.2.2 hgrid'.2.2
    have hry := dvd_apart hgrid.2.2 hy'
    have hry' := dvd_apart hgrid'.2.2 hy
    obtain ⟨hrmin, hrmax, -⟩ := hgrid
    obtain ⟨hrmin', hrmax', -⟩ := hgrid'
    bv_omega
  all_goals exact BitVec.le_of_eq (hone r r' hgrid hgrid')

variable (hx : OnGrid s x) (hmin : 1 ≤ s.min)
include hx hmin

theorem OnGrid.ne_zero : x.toNat ≠ 0 := by
  obtain ⟨hle, -, -⟩ := hx
  bv_omega

theorem OnGrid.align_lt : s.align < 32 :=
  (Nat.pow_lt_pow_iff_right one_lt_two).mp
    ((Nat.le_of_dvd (pos_of_ne_zero (hx.ne_zero hmin)) hx.2.2).trans_lt x.isLt)

theorem OnGrid.le_ffs_iff : a ≤ ffs x ↔ 2 ^ a ∣ x.toNat :=
  (padicValNat_dvd_iff_le (hx.ne_zero hmin)).symm

/-- The maxima found with the xor are exact. -/
theorem le_maxa_iff : a ≤ s.maxa ↔ ∃ n, OnGrid { s with align := a } n := by
  obtain ⟨hxmin, hxmax, -⟩ := hx
  have hbelow : (s.min - 1).toNat + 1 = s.min.toNat := by bv_omega
  have hlow := floor_bounds a (s.min - 1).toNat
  have hhigh := floor_bounds a s.max.toNat
  have hpos := Nat.two_pow_pos a
  have hmaxa : a ≤ s.maxa ↔ s.max.toNat / 2 ^ a ≠ (s.min - 1).toNat / 2 ^ a := by
    rw [Side.maxa, fls, BitVec.toNat_xor, Nat.le_log2 (Nat.xor_ne_zero_iff.mpr (by bv_omega)),
      ← Nat.xor_ne_zero_iff, ← Nat.xor_div_two_pow, Nat.div_ne_zero_iff, and_iff_right hpos.ne']
  rw [hmaxa]
  constructor
  · intro hne
    have happart := dvd_apart hlow.1 hhigh.1
    have hcancel := mt (Nat.eq_of_mul_eq_mul_right hpos) hne
    have hn : (BitVec.ofNat 32 (s.max.toNat / 2 ^ a * 2 ^ a)).toNat =
        s.max.toNat / 2 ^ a * 2 ^ a :=
      Nat.mod_eq_of_lt (hhigh.2.1.trans_lt s.max.isLt)
    refine ⟨_, ?_, ?_, hhigh.1.trans (dvd_of_eq hn.symm)⟩
    all_goals
      rw [BitVec.le_def, hn]
      dsimp only
      bv_omega
  · rintro ⟨n, hn, hnmax, hdvd⟩ heq
    have happart := dvd_apart (d := 2 ^ a) hdvd hhigh.1
    rw [heq] at hhigh happart
    bv_omega

theorem OnGrid.ffs_le_maxa : ffs x ≤ s.maxa :=
  (le_maxa_iff hx hmin).mpr ⟨x, hx.1, hx.2.1, (hx.le_ffs_iff hmin).mp le_rfl⟩

theorem clampAlign_raises (hlt : ffs x < s.maxa) :
    ∃ r, clampAlign x { s with align := ffs x + 1 } = some r ∧ OnGrid s r ∧ ffs x < ffs r := by
  obtain ⟨n, hn⟩ := (le_maxa_iff hx hmin).mp hlt
  obtain ⟨r, -, hr, hgrid, -⟩ := clampAlign_spec hn (hn.align_lt hmin) x
  have hkept := ((hx.le_ffs_iff hmin).mpr hx.2.2).trans (le_succ _)
  exact ⟨r, hr, ⟨hgrid.1, hgrid.2.1, (pow_dvd_pow 2 hkept).trans hgrid.2.2⟩,
    (hgrid.le_ffs_iff hmin).mpr hgrid.2.2⟩

theorem clampAlign_keeps : clampAlign x s = some x := by
  have halign := hx.align_lt hmin
  have hsize := hx.size halign
  obtain ⟨r, y, hr, hgrid, hy, hle, hlt, hcases⟩ := clampAlign_spec hx halign x
  have hxy := dvd_apart hx.2.2 hy
  obtain ⟨hxmin, hxmax, -⟩ := hx
  rw [hr, show r = x by bv_omega]

end

section

variable {w h W H : U32} {sw sh : Side} {salign fuel : Nat}

theorem fitsImage_iff (hwmin : 1 ≤ sw.min) (hhmin : 1 ≤ sh.min) :
    FitsImage sw sh salign w h ↔ OnGrid sw w ∧ OnGrid sh h ∧ salign ≤ ffs w + ffs h := by
  refine and_congr_right fun hw => and_congr_right fun hh => ?_
  have hwpos := hw.ne_zero hwmin
  have hhpos := hh.ne_zero hhmin
  rw [padicValNat_dvd_iff_le (mul_ne_zero hwpos hhpos), padicValNat.mul hwpos hhpos, ffs, ffs]

/-- Each turn raises one of the alignments, and both cannot be at their maxima. -/
theorem upAlign_spec (hwmin : 1 ≤ sw.min) (hhmin : 1 ≤ sh.min) (hfit : FitsImage sw sh salign W H)
    (hw : OnGrid sw w) (hh : OnGrid sh h) (hshort : ffs w + ffs h < salign)
    (hfuel : salign ≤ fuel + (ffs w + ffs h)) :
    ∃ r, upAlign sw sh salign fuel w h = some r ∧ FitsImage sw sh salign r.1 r.2 := by
  induction fuel generalizing w h with
  | zero => omega
  | succ fuel ih =>
    obtain ⟨hW, hH, henough⟩ := (fitsImage_iff hwmin hhmin).mp hfit
    have hWmax := hW.ffs_le_maxa hwmin
    have hHmax := hH.ffs_le_maxa hhmin
    have hrest : ∀ w' h', OnGrid sw w' → OnGrid sh h' → ffs w + ffs h < ffs w' + ffs h' →
        ∃ r, (if ffs h' + ffs w' < salign then upAlign sw sh salign fuel w' h'
          else some (w', h')) = some r ∧ FitsImage sw sh salign r.1 r.2 := by
      intro w' h' hw' hh' hraised
      split_ifs with hmore
      · exact ih hw' hh' (by omega) (by omega)
      · exact ⟨_, rfl, (fitsImage_iff hwmin hhmin).mpr ⟨hw', hh', by dsimp only; omega⟩⟩
    rw [upAlign]
    split_ifs with hwidth
    · obtain ⟨w', hclamp, hw', hraised⟩ := clampAlign_raises hw hwmin (by omega)
      rw [hclamp]
      exact hrest w' h hw' hh (by omega)
    · obtain ⟨h', hclamp, hh', hraised⟩ := clampAlign_raises hh hhmin (by omega)
      rw [hclamp]
      exact hrest w h' hw hh' (by omega)

end

/-- The size is the nearest one exactly where neither side wraps around, and there larger
requests get no smaller sizes. -/
theorem nearest_size_iff (fuel : Nat) (sw sh : Side) (hwidth : ∃ n, OnGrid sw n)
    (hheight : ∃ n, OnGrid sh n) (w h : U32) :
    ((∃ r, v4lBoundAlignImage fuel w sw h sh 0 = some r ∧ Nearest w sw r.1 ∧ Nearest h sh r.2) ↔
      RoundsSafely w sw ∧ RoundsSafely h sh) ∧
    ∀ w' h' r r', RoundsSafely w sw → RoundsSafely h sh → RoundsSafely w' sw →
      RoundsSafely h' sh → v4lBoundAlignImage fuel w sw h sh 0 = some r →
      v4lBoundAlignImage fuel w' sw h' sh 0 = some r' →
      (w ≤ w' → r.1 ≤ r'.1) ∧ (h ≤ h' → r.2 ≤ r'.2) := by
  obtain ⟨n, hn⟩ := hwidth
  obtain ⟨m, hm⟩ := hheight
  have hrun : ∀ w h r, v4lBoundAlignImage fuel w sw h sh 0 = some r ↔
      clampAlign w sw = some r.1 ∧ clampAlign h sh = some r.2 := by
    intro w h r
    simp [v4lBoundAlignImage, bind_eq_some_iff, Prod.ext_iff]
  simp only [hrun]
  refine ⟨⟨?_, ?_⟩, ?_⟩
  · rintro ⟨r, ⟨hw, hh⟩, hnear⟩
    rwa [clampAlign_nearest_iff hw hn, clampAlign_nearest_iff hh hm] at hnear
  · rintro ⟨hwsafe, hhsafe⟩
    obtain ⟨w', -, hw, -⟩ := clampAlign_spec hn hwsafe.1 w
    obtain ⟨h', -, hh, -⟩ := clampAlign_spec hm hhsafe.1 h
    exact ⟨(w', h'), ⟨hw, hh⟩, (clampAlign_nearest_iff hw hn).mpr hwsafe,
      (clampAlign_nearest_iff hh hm).mpr hhsafe⟩
  · rintro w' h' r r' hw hh hw' hh' ⟨hr, hs⟩ ⟨hr', hs'⟩
    exact ⟨clampAlign_mono hr hr' hn hw hw', clampAlign_mono hs hs' hm hh hh'⟩

theorem nearest_size_iff_vga :
    ∃ r, v4lBoundAlignImage 0 641 ⟨48, 2048, 4⟩ 481 ⟨32, 1536, 0⟩ 0 = some r ∧
      Nearest 641 ⟨48, 2048, 4⟩ r.1 ∧ Nearest 481 ⟨32, 1536, 0⟩ r.2 := by
  have hgrid : OnGrid ⟨48, 2048, 4⟩ 48 ∧ OnGrid ⟨32, 1536, 0⟩ 32 := by unfold OnGrid; decide
  exact (nearest_size_iff 0 _ _ ⟨_, hgrid.1⟩ ⟨_, hgrid.2⟩ 641 481).1.mpr
    ⟨⟨by decide, .inl (by decide)⟩, by decide, .inl (by decide)⟩

/-- Asking for the largest `u32` gives the smallest width. -/
theorem largest_width_rounds_to_smallest :
    ∃ r, v4lBoundAlignImage 0 0xFFFFFFFF ⟨48, 2048, 4⟩ 480 ⟨32, 1536, 0⟩ 0 = some r ∧
      OnGrid ⟨48, 2048, 4⟩ 2048 ∧ r.1 = 48 ∧ ¬ Nearest 0xFFFFFFFF ⟨48, 2048, 4⟩ r.1 := by
  have hgrid : OnGrid ⟨48, 2048, 4⟩ 2048 := by unfold OnGrid; decide
  refine ⟨(48, 480), by decide, hgrid, rfl, fun hnear => ?_⟩
  exact absurd (hnear.2 2048 hgrid) (by decide)

/-- Where some size meets the constraints one is found, and a size that meets them stays. -/
theorem image_meets_constraints (sw sh : Side) (salign fuel : Nat) (hwmin : 1 ≤ sw.min)
    (hhmin : 1 ≤ sh.min) (hfeasible : ∃ w h, FitsImage sw sh salign w h) (hfuel : salign ≤ fuel)
    (w h : U32) :
    ∃ r, v4lBoundAlignImage fuel w sw h sh salign = some r ∧ FitsImage sw sh salign r.1 r.2 ∧
      (FitsImage sw sh salign w h → r = (w, h)) := by
  obtain ⟨W, H, hfit⟩ := hfeasible
  obtain ⟨w', -, hw, hwgrid, -⟩ := clampAlign_spec hfit.1 (hfit.1.align_lt hwmin) w
  obtain ⟨h', -, hh, hhgrid, -⟩ := clampAlign_spec hfit.2.1 (hfit.2.1.align_lt hhmin) h
  have hrun : v4lBoundAlignImage fuel w sw h sh salign =
      if ffs w' + ffs h' < salign then upAlign sw sh salign fuel w' h' else some (w', h') := by
    simp only [v4lBoundAlignImage, hw, hh, bind_eq_bind, bind_some]
    split_ifs <;> first | rfl | omega
  have hsame : FitsImage sw sh salign w h → (w', h') = (w, h) := by
    rintro ⟨hwsize, hhsize, -⟩
    rw [clampAlign_keeps hwsize hwmin] at hw
    rw [clampAlign_keeps hhsize hhmin] at hh
    rw [some.inj hw, some.inj hh]
  rw [hrun]
  split_ifs with hshort
  · obtain ⟨r, hr, hfits⟩ := upAlign_spec hwmin hhmin hfit hwgrid hhgrid hshort
      (hfuel.trans (le_add_right _ _))
    refine ⟨r, hr, hfits, fun hsize => ?_⟩
    obtain ⟨rfl, rfl⟩ := Prod.mk.inj (hsame hsize)
    exact absurd ((fitsImage_iff hwmin hhmin).mp hsize).2.2 hshort.not_ge
  · exact ⟨_, rfl, (fitsImage_iff hwmin hhmin).mpr ⟨hwgrid, hhgrid, not_lt.mp hshort⟩, hsame⟩

/-- 656 and 481 lack one factor of two. -/
theorem image_meets_constraints_vga :
    ∃ r, v4lBoundAlignImage 5 657 ⟨48, 2048, 4⟩ 481 ⟨32, 1536, 0⟩ 5 = some r ∧
      FitsImage ⟨48, 2048, 4⟩ ⟨32, 1536, 0⟩ 5 r.1 r.2 := by
  obtain ⟨r, hr, hfits, -⟩ := image_meets_constraints ⟨48, 2048, 4⟩ ⟨32, 1536, 0⟩ 5 5 (by decide)
    (by decide) ⟨640, 480, by unfold FitsImage OnGrid; decide⟩ le_rfl 657 481
  exact ⟨r, hr, hfits⟩

end TbsMedia.V4l2
