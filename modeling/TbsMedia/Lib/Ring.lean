import TbsMedia.Lib.Memory

/-!
Memory used as a ring. Positions count on without end and stand for the cell that they
are congruent to, so what was written at a position can be said without regard to where
the ring starts over. Copies and reads are the two-part ones of a program that stops at
the end of the array and goes on at its front.
-/

namespace TbsMedia.Lib.Mem

open List Nat

variable {α : Type*}

/-- The `n` cells from position `pos` on. -/
def window (m : Mem α) (size pos n : Nat) : List α :=
  (List.range n).map (fun i => m ((pos + i) % size))

/-- A copy to cell `dst` that goes on at the front of the array. -/
def ringCopy (m : Mem α) (size dst : Nat) (src : List α) : Mem α :=
  let split := if dst + src.length > size then size - dst else 0
  if split > 0 then (m.memcpy dst (src.take split)).memcpy 0 (src.drop split)
  else m.memcpy dst src

/-- The `n` cells from cell `start` on, read in the same way. -/
def ringRead (m : Mem α) (size start n : Nat) : List α :=
  let split := if start + n > size then size - start else 0
  if split > 0 then m.read start split ++ m.read 0 (n - split) else m.read start n

theorem add_mod_of_le {size p i : Nat} (hp : p < size) (hi : i ≤ size) :
    (p + i) % size = if p + i < size then p + i else p + i - size := by
  split_ifs with hend
  · exact mod_eq_of_lt hend
  · rw [mod_eq_sub_mod (by omega), mod_eq_of_lt (by omega)]

theorem add_mod_step (pos : Nat) {size i : Nat} (hsize : 0 < size) (hi : i ≤ size) :
    (pos + i) % size =
      if pos % size + i < size then pos % size + i else pos % size + i - size := by
  rw [← mod_add_mod, add_mod_of_le (mod_lt pos hsize) hi]

variable (m : Mem α) (size : Nat)

@[simp]
theorem length_window (pos n : Nat) : (m.window size pos n).length = n := by simp [window]

theorem getElem_window (pos n i : Nat) (hi : i < (m.window size pos n).length) :
    (m.window size pos n)[i] = m ((pos + i) % size) := by
  simp [window]

theorem window_add (pos first second : Nat) :
    m.window size pos (first + second) =
      m.window size pos first ++ m.window size (pos + first) second := by
  simp [window, range_add, Function.comp_def, add_assoc]

theorem window_congr {m m' : Mem α} {size pos n : Nat}
    (hcells : ∀ i < n, m' ((pos + i) % size) = m ((pos + i) % size)) :
    m'.window size pos n = m.window size pos n := by
  apply map_congr_left
  intro i hi
  exact hcells i (mem_range.mp hi)

theorem window_mod (pos n : Nat) : m.window size (pos % size) n = m.window size pos n := by
  simp [window]

theorem drop_take_window (pos len k n : Nat) (hin : k + n ≤ len) :
    ((m.window size pos len).drop k).take n = m.window size (pos + k) n := by
  obtain ⟨rest, rfl⟩ := Nat.exists_eq_add_of_le hin
  rw [add_assoc, window_add, window_add, drop_left' (length_window m size pos k),
    take_left' (length_window m size (pos + k) n)]

theorem ringRead_eq_window (start n : Nat) (hstart : start < size) (hn : n ≤ size) :
    m.ringRead size start n = m.window size start n := by
  unfold ringRead
  rcases lt_or_ge size (start + n) with hsplit | hplain
  · obtain ⟨rest, rfl⟩ : ∃ rest, n = (size - start) + rest := ⟨n - (size - start), by omega⟩
    rw [if_pos hsplit, if_pos (by omega), window_add, Nat.add_sub_cancel_left]
    congr 1
    · apply map_congr_left
      intro i hi
      rw [Nat.mod_eq_of_lt (by have := mem_range.mp hi; omega)]
    · apply map_congr_left
      intro i hi
      have hi := mem_range.mp hi
      rw [show start + (size - start) + i = size + i by omega, Nat.add_mod_left,
        Nat.mod_eq_of_lt (by omega), zero_add]
  · rw [if_neg hplain.not_gt]
    apply map_congr_left
    intro i hi
    have hi := mem_range.mp hi
    rw [Nat.mod_eq_of_lt (by omega)]

theorem ringCopy_of_le {size dst : Nat} {src : List α} (hfit : dst + src.length ≤ size) :
    m.ringCopy size dst src = m.memcpy dst src := by
  rw [ringCopy, if_neg hfit.not_gt, if_neg (lt_irrefl 0)]

section

variable (pos : Nat) (src : List α)

theorem ringCopy_at (hlen : src.length ≤ size) (i : Nat) (hi : i < src.length) :
    m.ringCopy size (pos % size) src ((pos + i) % size) = src[i] := by
  have hsize : 0 < size := by omega
  have hcell := mod_lt pos hsize
  rw [add_mod_step _ hsize (by omega)]
  generalize pos % size = p at hcell
  unfold ringCopy
  rcases lt_or_ge size (p + src.length) with hsplit | hplain
  · rw [if_pos hsplit, if_pos (by omega)]
    have htake : (src.take (size - p)).length = size - p := by
      rw [length_take]
      omega
    have hdrop : (src.drop (size - p)).length = src.length - (size - p) := by simp
    rcases lt_or_ge (p + i) size with hfirst | hnext
    · rw [if_pos hfirst, memcpy_above _ 0 _ (p + i) (by omega),
        memcpy_inside m p _ i (by omega), getElem_take]
    rw [if_neg (by omega)]
    have hat := memcpy_inside (m.memcpy p (src.take (size - p))) 0 (src.drop (size - p))
      (p + i - size) (by omega)
    rw [zero_add] at hat
    rw [hat, getElem_drop]
    congr 1
    omega
  · rw [if_neg hplain.not_gt, if_neg (lt_irrefl 0), if_pos (by omega), memcpy_inside m p src i hi]

theorem ringCopy_other (q : Nat) (hpre : q < pos) (hround : pos + src.length ≤ q + size) :
    m.ringCopy size (pos % size) src (q % size) = m (q % size) := by
  have hsize : 0 < size := by omega
  obtain ⟨k, rfl⟩ := Nat.exists_eq_add_of_le hpre.le
  have hcell := Nat.mod_lt q hsize
  have hpos := add_mod_step q hsize (show k ≤ size by omega)
  rw [hpos]
  generalize q % size = c at hcell
  unfold ringCopy
  rcases lt_or_ge (c + k) size with hfirst | hnext
  · rw [if_pos hfirst]
    rcases lt_or_ge size (c + k + src.length) with hsplit | hplain
    · rw [if_pos hsplit, if_pos (by omega), memcpy_above _ 0 _ c ?_,
        memcpy_below _ _ _ c (by omega)]
      rw [length_drop]
      omega
    · rw [if_neg hplain.not_gt, if_neg (lt_irrefl 0), memcpy_below _ _ _ c (by omega)]
  · have hplain : ¬ c + k - size + src.length > size := by omega
    rw [if_neg hnext.not_gt, if_neg hplain, if_neg (lt_irrefl 0), memcpy_above _ _ _ c (by omega)]

theorem window_ringCopy_at (hlen : src.length ≤ size) :
    (m.ringCopy size (pos % size) src).window size pos src.length = src := by
  apply ext_getElem
  · simp
  · intro i hi hlt
    rw [getElem_window]
    exact ringCopy_at m size pos src hlen i hlt

end

/-- Two positions less than a round apart are different cells. -/
theorem mod_ne_of_lt {p q : Nat} (hlt : p < q) (hround : q < p + size) : p % size ≠ q % size := by
  obtain ⟨k, rfl⟩ := Nat.exists_eq_add_of_le hlt.le
  have hsize : 0 < size := by omega
  rw [add_mod_step _ hsize (by omega)]
  split_ifs
  · omega
  · omega

end TbsMedia.Lib.Mem
