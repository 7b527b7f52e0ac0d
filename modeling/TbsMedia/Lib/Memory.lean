import Mathlib.Data.List.GetD
import Mathlib.Tactic

/-!
Flat memory cells for buffers that a program fills with `memcpy` and reads
back by offset. A memory is a total function: cells behind the end of an array
hold whatever the machine holds there, so a read past the data is a read of
some cell and not an error.
-/

namespace TbsMedia.Lib

open List

abbrev Mem (α : Type*) := Nat → α

/-- The contents of packets, sections and frames. -/
abbrev Bytes := List UInt8

namespace Mem

variable {α : Type*}

/-- `memcpy(m + dst, src, src.length)`. -/
def memcpy (m : Mem α) (dst : Nat) (src : List α) : Mem α :=
  fun i => if dst ≤ i then src.getD (i - dst) (m i) else m i

/-- The `len` cells from offset `start` on. -/
def read (m : Mem α) (start len : Nat) : List α :=
  (List.range len).map (fun i => m (start + i))

variable (m : Mem α)

@[simp]
theorem length_read (start len : Nat) : (m.read start len).length = len := by simp [read]

@[simp]
theorem read_zero (start : Nat) : m.read start 0 = [] := by simp [read]

theorem getD_read (start : Nat) {len k : Nat} (hk : k < len) (d : α) :
    (m.read start len).getD k d = m (start + k) := by
  simp [read, hk]

variable (dst : Nat) (src : List α)

theorem memcpy_below (i : Nat) (hbelow : i < dst) : m.memcpy dst src i = m i := by
  simp [memcpy, Nat.not_le.mpr hbelow]

theorem memcpy_above (i : Nat) (habove : dst + src.length ≤ i) : m.memcpy dst src i = m i := by
  have hend : src.length ≤ i - dst := by omega
  simp [memcpy, List.getElem?_eq_none hend]

theorem memcpy_inside (i : Nat) (hin : i < src.length) : m.memcpy dst src (dst + i) = src[i] := by
  simp [memcpy, hin]

theorem memcpy_append (first second : List α) :
    (m.memcpy dst first).memcpy (dst + first.length) second = m.memcpy dst (first ++ second) := by
  funext i
  simp only [memcpy]
  rcases lt_or_ge i dst with hbelow | hfrom
  · rw [if_neg (by omega), if_neg (by omega), if_neg (by omega)]
  rcases lt_or_ge i (dst + first.length) with hfirst | hnext
  · rw [if_neg (by omega), if_pos hfrom, if_pos hfrom, getD_append _ _ _ _ (by omega)]
  · rw [if_pos hnext, if_pos hfrom, if_pos hfrom, getD_append_right _ _ _ _ (by omega),
      getD_eq_default first _ (by omega), Nat.sub_add_eq]

@[simp]
theorem memcpy_nil : m.memcpy dst [] = m := by
  funext i
  simp [memcpy]

theorem read_add (start first second : Nat) :
    m.read start (first + second) = m.read start first ++ m.read (start + first) second := by
  simp [read, range_add, Function.comp_def, add_assoc]

theorem drop_take_read (start len k n : Nat) (hin : k + n ≤ len) :
    ((m.read start len).drop k).take n = m.read (start + k) n := by
  obtain ⟨rest, rfl⟩ := Nat.exists_eq_add_of_le hin
  rw [add_assoc, read_add, read_add, drop_left' (length_read m start k),
    take_left' (length_read m (start + k) n)]

theorem read_congr (m' : Mem α) (start len : Nat)
    (hcells : ∀ i < len, m (start + i) = m' (start + i)) :
    m.read start len = m'.read start len := by
  apply map_congr_left
  intro i hi
  exact hcells i (mem_range.mp hi)

theorem read_memcpy_below (start len : Nat) (hbelow : start + len ≤ dst) :
    (m.memcpy dst src).read start len = m.read start len := by
  apply read_congr
  intro i hi
  exact memcpy_below m dst src (start + i) (by omega)

theorem read_memcpy_above (start len : Nat) (habove : dst + src.length ≤ start) :
    (m.memcpy dst src).read start len = m.read start len := by
  apply read_congr
  intro i hi
  exact memcpy_above m dst src (start + i) (by omega)

theorem read_memcpy_self : (m.memcpy dst src).read dst src.length = src := by
  apply ext_getElem
  · simp
  · intro i hi hlen
    simp only [read, getElem_map, getElem_range]
    exact memcpy_inside m dst src i hlen

theorem read_memcpy_append (start len : Nat) :
    (m.memcpy (start + len) src).read start (len + src.length) = m.read start len ++ src := by
  rw [read_add, read_memcpy_below m (start + len) src start len le_rfl, read_memcpy_self]

end Mem

end TbsMedia.Lib
