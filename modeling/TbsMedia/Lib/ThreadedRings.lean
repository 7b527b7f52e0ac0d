import TbsMedia.Lib.Ring

/-!
Rings of cells threaded onto one list. An entry of the list is an owner and a
cell of the ring of that owner; the entries of one owner stand in the order of
its ring, between them those of others.
-/

namespace TbsMedia.Lib

open List

variable {ω : Type*} [DecidableEq ω]

/-- The cells of a ring from `first` on. -/
def ringCells (size first n : Nat) : List Nat := Mem.window id size first n

def ofOwner (entries : List (ω × Nat)) (p : ω) : List (ω × Nat) :=
  entries.filter (fun x => x.1 = p)

def InRingOrder (entries : List (ω × Nat)) (p : ω) (size first n : Nat) : Prop :=
  ofOwner entries p = (ringCells size first n).map (fun cell => (p, cell))

@[simp]
theorem length_ringCells (size first n : Nat) : (ringCells size first n).length = n :=
  Mem.length_window id size first n

theorem ringCells_succ (size first n : Nat) :
    ringCells size first (n + 1) = (first % size) :: ringCells size (first + 1) n := by
  rw [ringCells, add_comm n 1, Mem.window_add]
  rfl

theorem ringCells_concat (size first n : Nat) :
    ringCells size first (n + 1) = ringCells size first n ++ [(first + n) % size] := by
  rw [ringCells, Mem.window_add]
  rfl

theorem ringCells_mod (size first n : Nat) :
    ringCells size (first % size) n = ringCells size first n :=
  Mem.window_mod id size first n

variable {size first n : Nat}

theorem next_notMem_ringCells (hroom : n < size) : (first + n) % size ∉ ringCells size first n := by
  intro hmem
  obtain ⟨i, hi, hcell⟩ := List.mem_map.mp hmem
  have hlt := mem_range.mp hi
  exact Mem.mod_ne_of_lt size (show first + i < first + n by omega) (by omega) hcell

variable {entries : List (ω × Nat)} {p : ω}

theorem mem_ofOwner {x : ω × Nat} : x ∈ ofOwner entries p ↔ x ∈ entries ∧ x.1 = p := by
  simp [ofOwner]

theorem InRingOrder.length (hring : InRingOrder entries p size first n) :
    (ofOwner entries p).length = n := by
  rw [hring, length_map, length_ringCells]

theorem InRingOrder.next_notMem (hring : InRingOrder entries p size first n) (hroom : n < size) :
    (p, (first + n) % size) ∉ entries := by
  intro hmem
  have howned := mem_ofOwner.mpr ⟨hmem, rfl⟩
  rw [hring] at howned
  obtain ⟨cell, hcell, hpair⟩ := List.mem_map.mp howned
  rw [(Prod.mk.inj hpair).2] at hcell
  exact next_notMem_ringCells hroom hcell

theorem InRingOrder.first_mem (hring : InRingOrder entries p size first (n + 1)) :
    (p, first % size) ∈ entries := by
  rw [InRingOrder, ringCells_succ] at hring
  have howned : (p, first % size) ∈ ofOwner entries p := by simp [hring]
  exact (mem_ofOwner.mp howned).1

theorem InRingOrder.drop (hring : InRingOrder entries p size first (n + 1)) :
    InRingOrder (entries.erase (p, first % size)) p size (first + 1) n := by
  rw [InRingOrder, ringCells_succ, map_cons] at hring
  rw [InRingOrder, ofOwner, ← erase_filter]
  rw [ofOwner] at hring
  rw [hring, erase_cons_head]

theorem InRingOrder.drop_other {q : ω} (hring : InRingOrder entries q size first n) (hne : p ≠ q)
    (cell : Nat) : InRingOrder (entries.erase (p, cell)) q size first n := by
  have hout : (p, cell) ∉ ofOwner entries q := fun hmem => hne (mem_ofOwner.mp hmem).2
  rw [InRingOrder, ofOwner, ← erase_filter]
  rw [ofOwner] at hout
  rw [erase_of_not_mem hout]
  exact hring

theorem InRingOrder.add (hring : InRingOrder entries p size first n) :
    InRingOrder (entries ++ [(p, (first + n) % size)]) p size first (n + 1) := by
  rw [InRingOrder, ofOwner] at hring
  rw [InRingOrder, ringCells_concat, ofOwner, filter_append, hring]
  simp

theorem InRingOrder.add_other {q : ω} (hring : InRingOrder entries q size first n) (hne : p ≠ q)
    (cell : Nat) : InRingOrder (entries ++ [(p, cell)]) q size first n := by
  rw [InRingOrder, ofOwner] at hring
  rw [InRingOrder, ofOwner, filter_append, hring]
  simp [hne]

theorem sum_map_eq_count (owners : List ω) (a : ω) :
    (owners.map (fun p => if p = a then 1 else 0)).sum = owners.count a := by
  induction owners with
  | nil => rfl
  | cons p rest ih =>
    rw [map_cons, sum_cons, ih, count_cons, add_comm]
    simp

/-- A list whose owners are among `owners` is as long as their rings together. -/
theorem sum_length_ofOwner {owners : List ω} (hnodup : owners.Nodup)
    (howner : ∀ x ∈ entries, x.1 ∈ owners) :
    (owners.map (fun p => (ofOwner entries p).length)).sum = entries.length := by
  induction entries with
  | nil => simp [ofOwner]
  | cons x rest ih =>
    have hrest := ih (fun y hy => howner y (mem_cons_of_mem x hy))
    have hcons (p : ω) : (ofOwner (x :: rest) p).length =
        (ofOwner rest p).length + if p = x.1 then 1 else 0 := by
      by_cases hp : x.1 = p <;> simp [ofOwner, hp, eq_comm (a := p)]
    have hone := count_eq_one_of_mem hnodup (howner x mem_cons_self)
    simp only [hcons]
    rw [sum_map_add, hrest, sum_map_eq_count, hone, length_cons]

end TbsMedia.Lib
