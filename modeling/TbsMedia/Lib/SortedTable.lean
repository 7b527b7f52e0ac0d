import TbsMedia.Lib.Memory

/-!
Tables of entries in strictly ascending order of a key, and the finite map such
a table stands for. Insertion, removal and replacement of one entry are changes
of the map at one key. The second part has the three changes as moves of cells
in a flat memory.
-/

namespace TbsMedia.Lib

open Function List

section Ascending

variable {α κ : Type*} [LinearOrder κ] (key : α → κ)

def Ascending (entries : List α) : Prop :=
  entries.Pairwise (fun a b => key a < key b)

def lookup (entries : List α) (k : κ) : Option α :=
  entries.find? (fun e => decide (key e = k))

def successor (entries : List α) (k : κ) : Option α :=
  entries.find? (fun e => decide (k < key e))

variable {key} {before after : List α} {e : α}

theorem Ascending.split (hasc : Ascending key (before ++ e :: after)) :
    Ascending key (before ++ after) ∧ (∀ x ∈ before, key x < key e) ∧
      ∀ x ∈ after, key e < key x := by
  obtain ⟨hpre, htail, hacross⟩ := pairwise_append.mp hasc
  obtain ⟨habove, hafter⟩ := pairwise_cons.mp htail
  refine ⟨pairwise_append.mpr ⟨hpre, hafter, ?_⟩, ?_, habove⟩
  · intro x hx y hy
    exact hacross x hx y (mem_cons_of_mem e hy)
  · intro x hx
    exact hacross x hx e mem_cons_self

theorem Ascending.insert (hasc : Ascending key (before ++ after))
    (hbelow : ∀ x ∈ before, key x < key e) (habove : ∀ x ∈ after, key e < key x) :
    Ascending key (before ++ e :: after) := by
  obtain ⟨hpre, hafter, hacross⟩ := pairwise_append.mp hasc
  apply pairwise_append.mpr
  refine ⟨hpre, pairwise_cons.mpr ⟨habove, hafter⟩, ?_⟩
  intro x hx y hy
  rcases mem_cons.mp hy with rfl | hy
  · exact hbelow x hx
  · exact hacross x hx y hy

theorem Ascending.replace {e' : α} (hasc : Ascending key (before ++ e :: after))
    (hkey : key e' = key e) : Ascending key (before ++ e' :: after) := by
  obtain ⟨hrest, hbelow, habove⟩ := hasc.split
  apply hrest.insert
  · simpa [hkey] using hbelow
  · simpa [hkey] using habove

variable {entries : List α} {k : κ}

theorem lookup_eq_none_iff : lookup key entries k = none ↔ ∀ e ∈ entries, key e ≠ k := by
  simp [lookup]

theorem lookup_some (hfound : lookup key entries k = some e) : e ∈ entries ∧ key e = k := by
  have hkey := List.find?_some hfound
  exact ⟨List.mem_of_find?_eq_some hfound, by simpa using hkey⟩

theorem lookup_insert (hbelow : ∀ x ∈ before, key x < key e) (k : κ) :
    lookup key (before ++ e :: after) k =
      if key e = k then some e else lookup key (before ++ after) k := by
  simp only [lookup, List.find?_append, List.find?_cons]
  by_cases hk : key e = k
  · have hpre : before.find? (fun x => decide (key x = k)) = none := by
      apply List.find?_eq_none.mpr
      intro x hx
      have hlt := hbelow x hx
      rw [hk] at hlt
      simpa using hlt.ne
    simp [hpre, hk]
  · simp [hk]

theorem lookup_erase (hasc : Ascending key (before ++ e :: after)) (k : κ) :
    lookup key (before ++ after) k =
      if key e = k then none else lookup key (before ++ e :: after) k := by
  obtain ⟨-, hbelow, habove⟩ := hasc.split
  by_cases hk : key e = k
  · rw [if_pos hk]
    apply lookup_eq_none_iff.mpr
    intro x hx
    rcases mem_append.mp hx with hx | hx
    · have hlt := hbelow x hx
      rw [hk] at hlt
      exact hlt.ne
    · have hlt := habove x hx
      rw [hk] at hlt
      exact hlt.ne'
  · rw [lookup_insert hbelow, if_neg hk, if_neg hk]

theorem lookup_replace {e' : α} (hasc : Ascending key (before ++ e :: after))
    (hkey : key e' = key e) (k : κ) :
    lookup key (before ++ e' :: after) k =
      if key e = k then some e' else lookup key (before ++ e :: after) k := by
  obtain ⟨-, hbelow, -⟩ := hasc.split
  rw [lookup_insert (by simpa [hkey] using hbelow), lookup_insert hbelow, hkey]
  split_ifs <;> rfl

theorem lookup_of_mem (hasc : Ascending key entries) (hmem : e ∈ entries) :
    lookup key entries (key e) = some e := by
  obtain ⟨before, after, rfl⟩ := append_of_mem hmem
  rw [lookup_insert hasc.split.2.1, if_pos rfl]

/-- Where the keys pass `k`, there the successor of `k` stands. -/
theorem successor_split (hbelow : ∀ x ∈ before, key x ≤ k) (habove : ∀ x ∈ after, k < key x) :
    successor key (before ++ after) k = after.head? := by
  have hpre : before.find? (fun e => decide (k < key e)) = none := by
    apply List.find?_eq_none.mpr
    intro x hx
    simpa using hbelow x hx
  rw [successor, List.find?_append, hpre]
  cases after with
  | nil => rfl
  | cons e rest => simp [habove e mem_cons_self]

theorem Ascending.le_getLast (hasc : Ascending key entries) {last : α}
    (hlast : entries.getLast? = some last) : ∀ x ∈ entries, key x ≤ key last := by
  obtain ⟨front, rfl⟩ := List.getLast?_eq_some_iff.mp hlast
  intro x hx
  rcases mem_append.mp hx with hx | hx
  · exact (hasc.split.2.1 x hx).le
  · rw [mem_singleton.mp hx]

end Ascending

namespace Mem

variable {α : Type*} (m : Mem α)

theorem read_cons_cell (start len : Nat) :
    m.read start (len + 1) = m start :: m.read (start + 1) len := by
  rw [add_comm len 1, read_add]
  rfl

variable (len i : Nat)

/-- The cells around cell `i` of a range. -/
theorem read_around (hi : i < len) :
    m.read 0 len = m.read 0 i ++ m i :: m.read (i + 1) (len - 1 - i) := by
  have hlen : len = i + (len - 1 - i + 1) := by omega
  rw [← read_cons_cell]
  nth_rewrite 1 [hlen]
  rw [read_add, zero_add]

theorem read_update_outside (i : Nat) (e : α) (start len : Nat) (hout : i < start ∨ start + len ≤ i)
    : Mem.read (update m i e) start len = m.read start len := by
  apply read_congr
  intro j hj
  have hne : start + j ≠ i := by omega
  exact update_of_ne hne e m

theorem read_update (e : α) (hi : i < len) :
    Mem.read (update m i e) 0 len = m.read 0 i ++ e :: m.read (i + 1) (len - 1 - i) := by
  rw [read_around (update m i e) len i hi, update_self, read_update_outside m i e 0 i (by omega),
    read_update_outside m i e (i + 1) (len - 1 - i) (by omega)]

/-- The cells from `i` on moved up by one and cell `i` written. -/
theorem read_move_up (e : α) (hi : i ≤ len) :
    Mem.read (update (m.memcpy (i + 1) (m.read i (len - i))) i e) 0 (len + 1) =
      m.read 0 i ++ e :: m.read i (len - i) := by
  rw [read_update _ (len + 1) i e (by omega), read_memcpy_below _ _ _ 0 i (by omega)]
  have hmoved := read_memcpy_self m (i + 1) (m.read i (len - i))
  rw [length_read] at hmoved
  have hcount : len + 1 - 1 - i = len - i := by omega
  rw [hcount, hmoved]

/-- The cells behind `i` moved down by one. -/
theorem read_move_down (hi : i < len) :
    (m.memcpy i (m.read (i + 1) (len - 1 - i))).read 0 (len - 1) =
      m.read 0 i ++ m.read (i + 1) (len - 1 - i) := by
  have hlen : len - 1 = i + (len - 1 - i) := by omega
  have hmoved := read_memcpy_self m i (m.read (i + 1) (len - 1 - i))
  rw [length_read] at hmoved
  rw [hlen, read_add, read_memcpy_below _ _ _ 0 i (by omega), ← hlen, zero_add, hmoved]

end Mem

end TbsMedia.Lib
