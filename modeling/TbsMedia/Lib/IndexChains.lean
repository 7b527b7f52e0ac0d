import Mathlib.Tactic

/-!
Indices linked by key. Each index leads to the next one with the same key, and
0 ends a chain; a chain grows at its end when the last index of a key is
remembered. The chains of the first indices of the keys partition all indices.
-/

namespace TbsMedia.Lib

open Function List

section Chains

def Chained (next : Nat → Nat) : List Nat → Prop
  | [] => True
  | [i] => next i = 0
  | i :: j :: rest => next i = j ∧ Chained next (j :: rest)

variable {next : Nat → Nat} {l : List Nat} {i : Nat}

theorem Chained.congr {next' : Nat → Nat} (hchain : Chained next l)
    (hsame : ∀ i ∈ l, next' i = next i) : Chained next' l := by
  induction l with
  | nil => trivial
  | cons i rest ih =>
    obtain ⟨hi, hrest⟩ := forall_mem_cons.mp hsame
    cases rest with
    | nil => exact hi.trans hchain
    | cons j rest => exact ⟨hi.trans hchain.1, ih hchain.2 hrest⟩

/-- The last index of a chain is made to lead to a new end. -/
theorem Chained.extend {j : Nat} (hchain : Chained next (l ++ [j])) (hj : j ∉ l)
    (hi : i ∉ l ++ [j]) (hend : next i = 0) : Chained (update next j i) (l ++ [j, i]) := by
  induction l with
  | nil =>
    have hne : i ≠ j := by simpa using hi
    exact ⟨update_self .., by rwa [Chained, update_of_ne hne]⟩
  | cons a rest ih =>
    obtain ⟨haj, hrest⟩ := not_or.mp (mt mem_cons.mpr hj)
    have hi' : i ∉ rest ++ [j] := fun hin => hi (mem_cons_of_mem a hin)
    cases rest with
    | nil =>
      have ha := hchain.1
      refine ⟨?_, ih hchain.2 hrest hi'⟩
      rw [update_of_ne (Ne.symm haj), ha]
    | cons b rest =>
      refine ⟨?_, ih hchain.2 hrest hi'⟩
      rw [update_of_ne (Ne.symm haj), hchain.1]

def chainFrom (next : Nat → Nat) : Nat → Nat → List Nat
  | 0, _ => []
  | fuel + 1, i => i :: if next i = 0 then [] else chainFrom next fuel (next i)

theorem Chained.chainFrom_eq {rest : List Nat} (hchain : Chained next (i :: rest))
    (hpos : 0 ∉ rest) {fuel : Nat} (hfuel : rest.length < fuel) :
    chainFrom next fuel i = i :: rest := by
  induction rest generalizing i fuel with
  | nil =>
    obtain ⟨fuel, rfl⟩ := Nat.exists_eq_add_one_of_ne_zero (Nat.ne_zero_of_lt hfuel)
    have hend : next i = 0 := hchain
    rw [chainFrom, if_pos hend]
  | cons j rest ih =>
    obtain ⟨fuel, rfl⟩ := Nat.exists_eq_add_one_of_ne_zero (Nat.ne_zero_of_lt hfuel)
    obtain ⟨hj, hpos⟩ := not_or.mp (mt mem_cons.mpr hpos)
    have hnext := hchain.1
    rw [chainFrom, hnext, if_neg (Ne.symm hj), ih hchain.2 hpos (Nat.lt_of_succ_lt_succ hfuel)]

end Chains

variable {κ : Type*} [DecidableEq κ] (key : Nat → κ)

/-- The indices below `n` with a key, in ascending order. -/
def occurrences (n : Nat) (k : κ) : List Nat := (List.range n).filter fun i => key i = k

/-- The indices below `n` whose key occurs for the first time. -/
def firsts (n : Nat) : List Nat := (List.range n).filter fun i => ∀ j < i, key j ≠ key i

variable {key} {n i : Nat} {κ' : Type*} {key' : Nat → κ'}

theorem mem_occurrences {k : κ} : i ∈ occurrences key n k ↔ i < n ∧ key i = k := by
  simp [occurrences]

theorem occurrences_succ (n : Nat) (k : κ) :
    occurrences key (n + 1) k =
      if key n = k then occurrences key n k ++ [n] else occurrences key n k := by
  rw [occurrences, range_succ]
  split_ifs with hk
  all_goals simp [occurrences, hk]

variable (key) in
theorem occurrences_ascending (n : Nat) (k : κ) : (occurrences key n k).Pairwise (· < ·) :=
  (pairwise_lt_range).filter _

theorem mem_firsts : i ∈ firsts key n ↔ i < n ∧ ∀ j < i, key j ≠ key i := by simp [firsts]

theorem firsts_congr [DecidableEq κ'] (hsame : ∀ i < n, ∀ j < n, (key i = key j ↔ key' i = key' j))
    : firsts key n = firsts key' n := by
  refine filter_congr fun i hi => ?_
  have hi := mem_range.mp hi
  rw [decide_eq_decide]
  refine forall_congr' fun j => imp_congr_right fun hj => not_congr ?_
  exact hsame j (lt_trans hj hi) i hi

theorem occurrences_congr [DecidableEq κ'] (hsame : ∀ j < n, (key j = key i ↔ key' j = key' i)) :
    occurrences key n (key i) = occurrences key' n (key' i) := by
  refine filter_congr fun j hj => ?_
  rw [decide_eq_decide]
  exact hsame j (mem_range.mp hj)

theorem occurrences_of_first (hi : i ∈ firsts key n) :
    ∃ rest, occurrences key n (key i) = i :: rest ∧ ∀ j ∈ rest, i < j := by
  obtain ⟨hlt, hfirst⟩ := mem_firsts.mp hi
  have hmem : i ∈ occurrences key n (key i) := mem_occurrences.mpr ⟨hlt, rfl⟩
  have hasc := occurrences_ascending key n (key i)
  rcases hocc : occurrences key n (key i) with _ | ⟨j, rest⟩
  · simp [hocc] at hmem
  rw [hocc] at hmem hasc
  obtain ⟨habove, -⟩ := pairwise_cons.mp hasc
  rcases mem_cons.mp hmem with rfl | hin
  · exact ⟨rest, rfl, habove⟩
  · have hj : j ∈ occurrences key n (key i) := by simp [hocc]
    exact absurd (mem_occurrences.mp hj).2 (hfirst j (habove i hin))

variable (key) in
theorem exists_first {n i : Nat} (hi : i < n) : ∃ j ∈ firsts key n, key j = key i := by
  have hex : ∃ j, key j = key i := ⟨i, rfl⟩
  refine ⟨Nat.find hex, mem_firsts.mpr ⟨?_, ?_⟩, Nat.find_spec hex⟩
  · exact lt_of_le_of_lt (Nat.find_min' hex rfl) hi
  intro j hj
  rw [Nat.find_spec hex]
  exact Nat.find_min hex hj

theorem firsts_inj {j : Nat} (hi : i ∈ firsts key n) (hj : j ∈ firsts key n)
    (hkey : key i = key j) : i = j := by
  rcases lt_trichotomy i j with hlt | heq | hlt
  · exact absurd hkey ((mem_firsts.mp hj).2 i hlt)
  · exact heq
  · exact absurd hkey.symm ((mem_firsts.mp hi).2 j hlt)

end TbsMedia.Lib
