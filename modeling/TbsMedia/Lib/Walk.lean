import Mathlib.Tactic

/-!
Walking over a buffer of self-delimiting records. `next o` is the length of
the record at offset `o`, or `none` if no complete record starts there. A walk
collects records until there is none; `Steps` is the relation it computes.
-/

namespace TbsMedia.Lib

/-- `Steps next o records e`: from `o`, the records follow one another without
a gap and end at `e`. -/
inductive Steps (next : Nat → Option Nat) : Nat → List (Nat × Nat) → Nat → Prop
  | nil (o : Nat) : Steps next o [] o
  | cons {o len e : Nat} {records : List (Nat × Nat)} (hnext : next o = some len)
      (htail : Steps next (o + len) records e) :
      Steps next o ((o, len) :: records) e

/-- The records met from `o` on, at most `fuel` of them. -/
def walk (next : Nat → Option Nat) : Nat → Nat → List (Nat × Nat)
  | 0, _ => []
  | fuel + 1, o =>
    match next o with
    | none => []
    | some len => (o, len) :: walk next fuel (o + len)

def walkEnd (next : Nat → Option Nat) : Nat → Nat → Nat
  | 0, o => o
  | fuel + 1, o =>
    match next o with
    | none => o
    | some len => walkEnd next fuel (o + len)

variable {next next' : Nat → Option Nat} {o e : Nat}

theorem Steps.trans {m : Nat} {first second : List (Nat × Nat)} (hfirst : Steps next o first m)
    (hsecond : Steps next m second e) : Steps next o (first ++ second) e := by
  induction hfirst with
  | nil => exact hsecond
  | cons hnext _ ih => exact .cons hnext (ih hsecond)

variable {records : List (Nat × Nat)}

/-- More records may become complete, but those already met stay. -/
theorem Steps.mono (hmono : ∀ p len, next p = some len → next' p = some len)
    (hsteps : Steps next o records e) : Steps next' o records e := by
  induction hsteps with
  | nil => exact .nil _
  | cons hnext _ ih => exact .cons (hmono _ _ hnext) ih

/-- Records that fit in front of `limit` bound the end of the walk. -/
theorem Steps.end_le {limit : Nat} (hfit : ∀ p len, next p = some len → p + len ≤ limit)
    (hstart : o ≤ limit) (hsteps : Steps next o records e) : e ≤ limit := by
  induction hsteps with
  | nil => exact hstart
  | cons hnext _ ih => exact ih (hfit _ _ hnext)

section

variable (hsteps : Steps next o records e)
include hsteps

theorem Steps.eq_of_stop (hstop : next o = none) : records = [] ∧ e = o := by
  cases hsteps with
  | nil => exact ⟨rfl, rfl⟩
  | cons hnext _ => simp [hstop] at hnext

/-- A record reached by steps starts where the steps do or where another of
them ends. -/
theorem Steps.start_or_after (record : Nat × Nat) (hmem : record ∈ records) :
    record.1 = o ∨ ∃ before ∈ records, before.1 + before.2 = record.1 := by
  induction hsteps with
  | nil => simp at hmem
  | @cons o len e records hnext htail ih =>
    rcases List.mem_cons.mp hmem with hhead | hlater
    · exact .inl (by rw [hhead])
    right
    rcases ih hlater with hstart | ⟨before, hpre, hend⟩
    · exact ⟨(o, len), by simp, hstart.symm⟩
    · exact ⟨before, by simp [hpre], hend⟩

theorem Steps.next_eq (record : Nat × Nat)
    (hmem : record ∈ records) : next record.1 = some record.2 := by
  induction hsteps with
  | nil => simp at hmem
  | cons hnext _ ih =>
    rcases List.mem_cons.mp hmem with rfl | hlater
    · exact hnext
    · exact ih hlater

theorem Steps.end_or_after : e = o ∨ ∃ last ∈ records, last.1 + last.2 = e := by
  induction hsteps with
  | nil => exact .inl rfl
  | @cons o len e records hnext htail ih =>
    right
    rcases ih with hend | ⟨last, hlast, hend⟩
    · exact ⟨(o, len), by simp, hend.symm⟩
    · exact ⟨last, by simp [hlast], hend⟩

end

/-- With room for every record up to `limit`, the walk follows the steps to a
place where no record starts. -/
theorem steps_walk {limit : Nat} (hpos : ∀ p len, next p = some len → 0 < len)
    (hfit : ∀ p len, next p = some len → p + len ≤ limit)
    (fuel o : Nat) (hfuel : limit ≤ o + fuel) :
    Steps next o (walk next fuel o) (walkEnd next fuel o) ∧
      next (walkEnd next fuel o) = none := by
  induction fuel generalizing o with
  | zero =>
    refine ⟨.nil o, ?_⟩
    rcases hnext : next o with _ | len
    · simpa [walkEnd] using hnext
    have hlen := hfit o len hnext
    have hlenPos := hpos o len hnext
    omega
  | succ fuel ih =>
    rcases hnext : next o with _ | len
    · simp [walk, walkEnd, hnext, Steps.nil]
    have hlen := hpos o len hnext
    obtain ⟨hsteps, hstop⟩ := ih (o + len) (by omega)
    simp only [walk, walkEnd, hnext]
    exact ⟨.cons hnext hsteps, hstop⟩

/-- Steps to a place where no record starts are unique. -/
theorem Steps.unique {e' : Nat} {records' : List (Nat × Nat)} (hsteps : Steps next o records e)
    (hstop : next e = none) (hsteps' : Steps next o records' e') (hstop' : next e' = none) :
    records = records' ∧ e = e' := by
  induction hsteps generalizing records' with
  | nil =>
    obtain ⟨hrecs, hend⟩ := hsteps'.eq_of_stop hstop
    exact ⟨hrecs.symm, hend.symm⟩
  | cons hnext _ ih =>
    rcases hsteps' with _ | ⟨hnext', htail'⟩
    · simp [hstop'] at hnext
    obtain rfl := Option.mem_unique hnext hnext'
    obtain ⟨hrecs, hend⟩ := ih hstop htail'
    exact ⟨by rw [hrecs], hend⟩

end TbsMedia.Lib
