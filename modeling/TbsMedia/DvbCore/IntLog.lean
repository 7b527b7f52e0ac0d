import Mathlib.Tactic

/-!
The logarithms of `dvb_math.c`, with 24 bits behind the point, from a table of 256 entries.
-/

namespace TbsMedia.DvbCore.IntLog

def logtable : List Nat := [
  0x0000, 0x0171, 0x02e0, 0x044e, 0x05ba, 0x0725, 0x088e, 0x09f7, 0x0b5d, 0x0cc3, 0x0e27, 0x0f8a,
  0x10eb, 0x124b, 0x13aa, 0x1508, 0x1664, 0x17bf, 0x1919, 0x1a71, 0x1bc8, 0x1d1e, 0x1e73, 0x1fc6,
  0x2119, 0x226a, 0x23ba, 0x2508, 0x2656, 0x27a2, 0x28ed, 0x2a37, 0x2b80, 0x2cc8, 0x2e0f, 0x2f54,
  0x3098, 0x31dc, 0x331e, 0x345f, 0x359f, 0x36de, 0x381b, 0x3958, 0x3a94, 0x3bce, 0x3d08, 0x3e41,
  0x3f78, 0x40af, 0x41e4, 0x4319, 0x444c, 0x457f, 0x46b0, 0x47e1, 0x4910, 0x4a3f, 0x4b6c, 0x4c99,
  0x4dc5, 0x4eef, 0x5019, 0x5142, 0x526a, 0x5391, 0x54b7, 0x55dc, 0x5700, 0x5824, 0x5946, 0x5a68,
  0x5b89, 0x5ca8, 0x5dc7, 0x5ee5, 0x6003, 0x611f, 0x623a, 0x6355, 0x646f, 0x6588, 0x66a0, 0x67b7,
  0x68ce, 0x69e4, 0x6af8, 0x6c0c, 0x6d20, 0x6e32, 0x6f44, 0x7055, 0x7165, 0x7274, 0x7383, 0x7490,
  0x759d, 0x76aa, 0x77b5, 0x78c0, 0x79ca, 0x7ad3, 0x7bdb, 0x7ce3, 0x7dea, 0x7ef0, 0x7ff6, 0x80fb,
  0x81ff, 0x8302, 0x8405, 0x8507, 0x8608, 0x8709, 0x8809, 0x8908, 0x8a06, 0x8b04, 0x8c01, 0x8cfe,
  0x8dfa, 0x8ef5, 0x8fef, 0x90e9, 0x91e2, 0x92db, 0x93d2, 0x94ca, 0x95c0, 0x96b6, 0x97ab, 0x98a0,
  0x9994, 0x9a87, 0x9b7a, 0x9c6c, 0x9d5e, 0x9e4f, 0x9f3f, 0xa02e, 0xa11e, 0xa20c, 0xa2fa, 0xa3e7,
  0xa4d4, 0xa5c0, 0xa6ab, 0xa796, 0xa881, 0xa96a, 0xaa53, 0xab3c, 0xac24, 0xad0c, 0xadf2, 0xaed9,
  0xafbe, 0xb0a4, 0xb188, 0xb26c, 0xb350, 0xb433, 0xb515, 0xb5f7, 0xb6d9, 0xb7ba, 0xb89a, 0xb97a,
  0xba59, 0xbb38, 0xbc16, 0xbcf4, 0xbdd1, 0xbead, 0xbf8a, 0xc065, 0xc140, 0xc21b, 0xc2f5, 0xc3cf,
  0xc4a8, 0xc580, 0xc658, 0xc730, 0xc807, 0xc8de, 0xc9b4, 0xca8a, 0xcb5f, 0xcc34, 0xcd08, 0xcddc,
  0xceaf, 0xcf82, 0xd054, 0xd126, 0xd1f7, 0xd2c8, 0xd399, 0xd469, 0xd538, 0xd607, 0xd6d6, 0xd7a4,
  0xd872, 0xd93f, 0xda0c, 0xdad9, 0xdba5, 0xdc70, 0xdd3b, 0xde06, 0xded0, 0xdf9a, 0xe063, 0xe12c,
  0xe1f5, 0xe2bd, 0xe385, 0xe44c, 0xe513, 0xe5d9, 0xe69f, 0xe765, 0xe82a, 0xe8ef, 0xe9b3, 0xea77,
  0xeb3b, 0xebfe, 0xecc1, 0xed83, 0xee45, 0xef06, 0xefc8, 0xf088, 0xf149, 0xf209, 0xf2c8, 0xf387,
  0xf446, 0xf505, 0xf5c3, 0xf680, 0xf73e, 0xf7fb, 0xf8b7, 0xf973, 0xfa2f, 0xfaea, 0xfba5, 0xfc60,
  0xfd1a, 0xfdd4, 0xfe8e, 0xff47]

def fls (value : Nat) : Nat := if value = 0 then 0 else value.log2 + 1

/-- The value with its highest bit shifted to bit 31. -/
def significand (value : Nat) : Nat := value <<< (31 - (fls value - 1))

def logentry (significand : Nat) : Nat := significand >>> 23 &&& 0xff

/-- The product whose highest bits are the interpolation. -/
def interpolation (significand : Nat) : Nat :=
  let next := logtable.getD (logentry significand + 1 &&& 0xff) 0
  -- the difference is an `int` and may be negative
  (significand &&& 0x7fffff) *
    (next + 0x10000 - logtable.getD (logentry significand) 0 &&& 0xffff)

def intlog2 (value : Nat) : Nat :=
  if value = 0 then 0
  else
    let msb := fls value - 1
    let significand := significand value % 2 ^ 32
    ((msb <<< 24) + (logtable.getD (logentry significand) 0 <<< 8) +
      (interpolation significand % 2 ^ 32) >>> 15) % 2 ^ 32

def intlog10 (value : Nat) : Nat :=
  if value = 0 then 0 else ((intlog2 value * 646456993 % 2 ^ 64) >>> 31) % 2 ^ 32

/-- The table, continued by the logarithm of 2. -/
def entry (e : Nat) : Nat := if e < 256 then logtable.getD e 0 else 0x10000

/-- The straight lines between the entries. -/
def line (y : Nat) : Nat :=
  entry (y / 2 ^ 23) * 2 ^ 23 + y % 2 ^ 23 * (entry (y / 2 ^ 23 + 1) - entry (y / 2 ^ 23))

theorem entry_steps : ∀ e < 256, entry e < entry (e + 1) ∧ entry (e + 1) ≤ entry e + 0x171 ∧
    logtable.getD e 0 = entry e ∧
      (logtable.getD (e + 1 &&& 0xff) 0 + 0x10000 - logtable.getD e 0 &&& 0xffff) =
        entry (e + 1) - entry e := by
  decide +kernel

theorem entry_mono : Monotone entry := by
  apply monotone_nat_of_le_succ
  intro e
  rcases lt_or_ge e 256 with hlt | hge
  · exact (entry_steps e hlt).1.le
  · rw [entry, entry, if_neg (by omega), if_neg (by omega)]

theorem line_le (y : Nat) : line y ≤ entry (y / 2 ^ 23 + 1) * 2 ^ 23 := by
  have hle := entry_mono (Nat.le_succ (y / 2 ^ 23))
  have hmod := (Nat.mod_lt y (show 2 ^ 23 > 0 by decide)).le
  calc line y ≤ entry (y / 2 ^ 23) * 2 ^ 23 +
        2 ^ 23 * (entry (y / 2 ^ 23 + 1) - entry (y / 2 ^ 23)) := by
        unfold line
        gcongr
    _ = entry (y / 2 ^ 23 + 1) * 2 ^ 23 := by
        rw [mul_comm (2 ^ 23), ← add_mul, Nat.add_sub_cancel' hle]

theorem line_mono : Monotone line := by
  intro y z hle
  rcases (Nat.div_le_div_right hle : y / 2 ^ 23 ≤ z / 2 ^ 23).eq_or_lt with heq | hlt
  · unfold line
    rw [heq]
    gcongr
    omega
  · calc line y ≤ entry (y / 2 ^ 23 + 1) * 2 ^ 23 := line_le y
      _ ≤ entry (z / 2 ^ 23) * 2 ^ 23 := Nat.mul_le_mul_right _ (entry_mono hlt)
      _ ≤ line z := Nat.le_add_right _ _

section

variable {value m : Nat} (hge : 2 ^ m ≤ value) (hlt : value < 2 ^ (m + 1)) (hm : m < 32)
include hge hlt

theorem fls_eq : fls value = m + 1 := by
  have hne : value ≠ 0 := ((Nat.two_pow_pos m).trans_le hge).ne'
  rw [fls, if_neg hne, (Nat.log2_eq_iff hne).mpr ⟨hge, hlt⟩]

include hm

theorem significand_eq : ∃ y < 2 ^ 31, value * 2 ^ (31 - m) = 2 ^ 31 + y ∧
    significand value = 2 ^ 31 + y := by
  have hpow : 2 ^ m * 2 ^ (31 - m) = 2 ^ 31 := by
    rw [← pow_add, Nat.add_sub_cancel' (Nat.le_of_lt_succ hm)]
  have hlow := Nat.mul_le_mul_right (2 ^ (31 - m)) hge
  have hhigh := Nat.mul_lt_mul_of_pos_right hlt (Nat.two_pow_pos (31 - m))
  rw [pow_succ, mul_right_comm] at hhigh
  rw [hpow] at hlow hhigh
  obtain ⟨y, hy⟩ := Nat.exists_eq_add_of_le hlow
  refine ⟨y, by omega, hy, ?_⟩
  rw [significand, fls_eq hge hlt, Nat.shiftLeft_eq, ← hy]
  rfl

end

theorem logentry_eq {y : Nat} (hy : y < 2 ^ 31) : logentry (2 ^ 31 + y) = y / 2 ^ 23 := by
  rw [logentry, Nat.shiftRight_eq_div_pow, Nat.and_two_pow_sub_one_eq_mod _ 8]
  omega

theorem interpolation_eq {y : Nat} (hy : y < 2 ^ 31) : interpolation (2 ^ 31 + y) =
    y % 2 ^ 23 * (entry (y / 2 ^ 23 + 1) - entry (y / 2 ^ 23)) := by
  have hmask : (2 ^ 31 + y) &&& 0x7fffff = y % 2 ^ 23 := by
    rw [Nat.and_two_pow_sub_one_eq_mod _ 23]
    omega
  simp only [interpolation]
  rw [logentry_eq hy, hmask, (entry_steps (y / 2 ^ 23) (by omega)).2.2.2]

theorem interpolation_lt {y : Nat} (hy : y < 2 ^ 31) : interpolation (2 ^ 31 + y) < 2 ^ 32 := by
  have hstep := entry_steps (y / 2 ^ 23) (by omega)
  calc interpolation (2 ^ 31 + y) ≤ 2 ^ 23 * 0x171 := by
        rw [interpolation_eq hy]
        exact Nat.mul_le_mul (by omega) (by omega)
    _ < 2 ^ 32 := by decide

theorem intlog2_eq {value m : Nat} (hge : 2 ^ m ≤ value) (hlt : value < 2 ^ (m + 1))
    (hm : m < 32) : intlog2 value =
      m * 2 ^ 24 + line (value * 2 ^ (31 - m) - 2 ^ 31) / 2 ^ 15 ∧
        line (value * 2 ^ (31 - m) - 2 ^ 31) / 2 ^ 15 ≤ 2 ^ 24 := by
  obtain ⟨y, hy, hvalue, hsignificand⟩ := significand_eq hge hlt hm
  have hne : value ≠ 0 := ((Nat.two_pow_pos m).trans_le hge).ne'
  have hentry : entry (y / 2 ^ 23 + 1) ≤ 2 ^ 16 := entry_mono (show _ ≤ 256 by omega)
  have hline := line_le y
  have hsum : line y / 2 ^ 15 =
      entry (y / 2 ^ 23) * 2 ^ 8 + interpolation (2 ^ 31 + y) / 2 ^ 15 := by
    rw [interpolation_eq hy, line]
    omega
  rw [hvalue, Nat.add_sub_cancel_left, intlog2, if_neg hne]
  dsimp only
  rw [hsignificand, fls_eq hge hlt, Nat.mod_eq_of_lt (show 2 ^ 31 + y < 2 ^ 32 by omega),
    Nat.mod_eq_of_lt (interpolation_lt hy), logentry_eq hy,
    (entry_steps (y / 2 ^ 23) (by omega)).2.2.1]
  simp only [Nat.shiftLeft_eq, Nat.shiftRight_eq_div_pow, Nat.add_sub_cancel]
  omega

theorem exists_msb {value n : Nat} (hpos : 0 < value) (hlt : value < 2 ^ n) :
    ∃ m < n, 2 ^ m ≤ value ∧ value < 2 ^ (m + 1) :=
  ⟨value.log2, (Nat.log2_lt hpos.ne').mpr hlt, Nat.log2_self_le hpos.ne', Nat.lt_log2_self⟩

theorem intlog2_mono {v w : Nat} (hpos : 0 < v) (hle : v ≤ w) (hlt : w < 2 ^ 32) :
    intlog2 v ≤ intlog2 w := by
  obtain ⟨m, hm, hge, hv⟩ := exists_msb hpos (hle.trans_lt hlt)
  obtain ⟨n, hn, hge', hw⟩ := exists_msb (hpos.trans_le hle) hlt
  obtain ⟨hfirst, hbound⟩ := intlog2_eq hge hv hm
  obtain ⟨hsecond, -⟩ := intlog2_eq hge' hw hn
  rw [hfirst, hsecond]
  have hmn : m ≤ n := Nat.le_of_lt_succ ((Nat.pow_lt_pow_iff_right (by decide)).mp
    (hge.trans_lt (hle.trans_lt hw)))
  rcases hmn.eq_or_lt with rfl | hless
  · gcongr
    apply line_mono
    gcongr
  · omega

theorem intlog10_eq {value : Nat} (hne : value ≠ 0) :
    intlog10 value = intlog2 value * 646456993 / 2 ^ 31 := by
  have hlt : intlog2 value < 2 ^ 32 := by
    rw [intlog2, if_neg hne]
    exact Nat.mod_lt _ (by decide)
  rw [intlog10, if_neg hne, Nat.shiftRight_eq_div_pow,
    Nat.mod_eq_of_lt (show intlog2 value * 646456993 < 2 ^ 64 by omega)]
  exact Nat.mod_eq_of_lt (by omega)

/-- Nothing is lost on the way, and the result is a logarithm that never goes down. -/
theorem intlog2_logarithm :
    (∀ v, 0 < v → v < 2 ^ 32 → significand v < 2 ^ 32 ∧ interpolation (significand v) < 2 ^ 32) ∧
    (∀ v w, 0 < v → v ≤ w → w < 2 ^ 32 → intlog2 v ≤ intlog2 w ∧ intlog10 v ≤ intlog10 w) ∧
    (∀ v, 0 < v → v < 2 ^ 31 → intlog2 (2 * v) = intlog2 v + 2 ^ 24) ∧
    ∀ k < 32, intlog2 (2 ^ k) = k * 2 ^ 24 := by
  refine ⟨fun v hpos hlt => ?_, fun v w hpos hle hlt => ?_, fun v hpos hlt => ?_, fun k hk => ?_⟩
  · obtain ⟨m, hm, hge, hv⟩ := exists_msb hpos hlt
    obtain ⟨y, hy, -, heq⟩ := significand_eq hge hv hm
    rw [heq]
    exact ⟨by omega, interpolation_lt hy⟩
  · have hlog := intlog2_mono hpos hle hlt
    rw [intlog10_eq hpos.ne', intlog10_eq (hpos.trans_le hle).ne']
    exact ⟨hlog, Nat.div_le_div_right (Nat.mul_le_mul_right _ hlog)⟩
  · obtain ⟨m, hm, hge, hv⟩ := exists_msb hpos hlt
    have hdouble := @intlog2_eq (2 * v) (m + 1) (by rw [pow_succ]; omega) (by rw [pow_succ]; omega)
      (by omega)
    rw [hdouble.1, (intlog2_eq hge hv (by omega)).1, mul_comm 2 v, mul_assoc, ← pow_succ',
      show 31 - (m + 1) + 1 = 31 - m by omega]
    omega
  · rw [(intlog2_eq le_rfl (Nat.pow_lt_pow_succ (by decide)) hk).1, ← pow_add,
      Nat.add_sub_cancel' (Nat.le_of_lt_succ hk), Nat.sub_self, show line 0 = 0 by decide +kernel]
    omega

end TbsMedia.DvbCore.IntLog
