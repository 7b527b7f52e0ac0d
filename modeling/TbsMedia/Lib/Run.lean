import Mathlib.Tactic

/-!
Runs of step functions. An emitting step answers one input with the next state
and the outputs it makes on the way; a partial step may have no successor (the
machine stops there). Both come with the rules by which a fact about one step
becomes a fact about every run.
-/

namespace TbsMedia.Lib

open List

section Emitting

variable {σ τ ι ο : Type*}

def final (step : σ → ι → σ × List ο) (start : σ) : List ι → σ
  | [] => start
  | input :: rest => final step (step start input).1 rest

def emitted (step : σ → ι → σ × List ο) (start : σ) : List ι → List ο
  | [] => []
  | input :: rest =>
    (step start input).2 ++ emitted step (step start input).1 rest

variable (step : σ → ι → σ × List ο)

theorem emitted_append (start : σ) (first second : List ι) :
    emitted step start (first ++ second) =
      emitted step start first ++ emitted step (final step start first) second := by
  induction first generalizing start with
  | nil => rfl
  | cons input rest ih => simp [emitted, final, ih]

/-- A relation kept by every pair of steps that also emit the same outputs
makes whole runs emit the same outputs. -/
theorem emitted_eq_of_simulation (step' : τ → ι → τ × List ο) (rel : σ → τ → Prop)
    (hstep : ∀ s t input, rel s t → rel (step s input).1 (step' t input).1 ∧
      (step s input).2 = (step' t input).2)
    (s : σ) (t : τ) (hrel : rel s t) (inputs : List ι) :
    rel (final step s inputs) (final step' t inputs) ∧
      emitted step s inputs = emitted step' t inputs := by
  induction inputs generalizing s t with
  | nil => exact ⟨hrel, rfl⟩
  | cons input rest ih =>
    obtain ⟨hnext, hout⟩ := hstep s t input hrel
    obtain ⟨hend, htail⟩ := ih _ _ hnext
    exact ⟨hend, by simp only [emitted, hout, htail]⟩

end Emitting

section Partial

variable {σ ι : Type*}

/-- Every state of the run, from the start up to the last step that has a
successor, satisfies `good`. -/
def Always (step : σ → ι → Option σ) (good : σ → Prop) (start : σ) :
    List ι → Prop
  | [] => good start
  | input :: rest => good start ∧
      ∀ next, step start input = some next → Always step good next rest

/-- Every step the run takes meets `cond` in the state before it. -/
def Along (step : σ → ι → Option σ) (cond : σ → ι → Prop) (start : σ) :
    List ι → Prop
  | [] => True
  | input :: rest =>
    ∀ next, step start input = some next →
      cond start input ∧ Along step cond next rest

instance Along.decidable {step : σ → ι → Option σ} {cond : σ → ι → Prop}
    [∀ s input, Decidable (cond s input)] (start : σ) :
    (inputs : List ι) → Decidable (Along step cond start inputs)
  | [] => isTrue trivial
  | input :: rest =>
    match hnext : step start input with
    | none => isTrue fun _ hsome => absurd (hnext.symm.trans hsome) nofun
    | some next =>
      have : Decidable (Along step cond next rest) := Along.decidable next rest
      decidable_of_iff (cond start input ∧ Along step cond next rest)
        ⟨fun hboth _ hnext' => Option.mem_unique hnext hnext' ▸ hboth,
          fun halong => halong next hnext⟩

/-- An invariant that a step keeps exactly when its condition holds turns the
safety of a whole run into the condition along it: one bad step leaves the
good states at once, and without one they are never left. -/
theorem always_iff_along (step : σ → ι → Option σ) (good : σ → Prop) (cond : σ → ι → Prop)
    (inv : σ → Prop) (hgood : ∀ s, inv s → good s)
    (hkeep : ∀ s input next, inv s → step s input = some next → cond s input → inv next)
    (hbreak : ∀ s input next, inv s → step s input = some next → ¬ cond s input → ¬ good next)
    (start : σ) (hstart : inv start) (inputs : List ι) :
    Always step good start inputs ↔ Along step cond start inputs := by
  induction inputs generalizing start with
  | nil => simp [Always, Along, hgood start hstart]
  | cons input rest ih =>
    simp only [Always, Along, hgood start hstart, true_and]
    constructor
    · intro halways next hnext
      have hcond : cond start input := by
        by_contra hbad
        have hout : good next := by
          cases rest with
          | nil => exact halways next hnext
          | cons _ _ => exact (halways next hnext).1
        exact hbreak start input next hstart hnext hbad hout
      exact ⟨hcond, (ih next (hkeep start input next hstart hnext hcond)).mp (halways next hnext)⟩
    · intro halong next hnext
      obtain ⟨hcond, htail⟩ := halong next hnext
      exact (ih next (hkeep start input next hstart hnext hcond)).mpr htail

variable {start : σ} {inputs : List ι} {cond : σ → ι → Prop} {step : σ → ι → Option σ}

/-- Along a run that keeps an invariant, one condition on the steps gives another. -/
theorem Along.imp {cond' : σ → ι → Prop} (inv : σ → Prop)
    (hkeep : ∀ s input next, inv s → step s input = some next →
      cond s input → inv next ∧ cond' s input) (hstart : inv start)
    (halong : Along step cond start inputs) : Along step cond' start inputs := by
  induction inputs generalizing start with
  | nil => trivial
  | cons input rest ih =>
    intro next hnext
    obtain ⟨hcond, htail⟩ := halong next hnext
    obtain ⟨hinv, hcond'⟩ := hkeep start input next hstart hnext hcond
    exact ⟨hcond', ih hinv htail⟩

variable {good : σ → Prop}

section

variable (inv : σ → Prop) (hkeep : ∀ s input next, inv s → step s input = some next → inv next)
include hkeep

/-- Under an invariant that every step keeps, two properties of its states that agree
hold along the same runs. -/
theorem always_congr {good' : σ → Prop} (hiff : ∀ s, inv s → (good s ↔ good' s))
    (hstart : inv start) (inputs : List ι) :
    Always step good start inputs ↔ Always step good' start inputs := by
  induction inputs generalizing start with
  | nil => exact hiff start hstart
  | cons input rest ih =>
    apply and_congr (hiff start hstart)
    apply forall_congr'
    intro next
    apply imp_congr_right
    intro hnext
    exact ih (hkeep start input next hstart hnext)

/-- A property that an invariant gives holds along every run. -/
theorem Always.of_inv (hgood : ∀ s, inv s → good s) (hstart : inv start) (inputs : List ι) :
    Always step good start inputs := by
  induction inputs generalizing start with
  | nil => exact hgood start hstart
  | cons input rest ih =>
    refine ⟨hgood start hstart, ?_⟩
    intro next hnext
    exact ih (hkeep start input next hstart hnext)

end

/-- A property that an invariant gives holds along every run whose steps meet
the condition under which they keep the invariant. -/
theorem Along.always (inv : σ → Prop)
    (hkeep : ∀ s input next, inv s → step s input = some next → cond s input → inv next)
    (hgood : ∀ s, inv s → good s) (hstart : inv start) (halong : Along step cond start inputs) :
    Always step good start inputs := by
  induction inputs generalizing start with
  | nil => exact hgood start hstart
  | cons input rest ih =>
    refine ⟨hgood start hstart, ?_⟩
    intro next hnext
    obtain ⟨hcond, htail⟩ := halong next hnext
    exact ih (hkeep start input next hstart hnext hcond) htail

theorem Always.reached (halways : Always step good start inputs) {last : σ}
    (hlast : inputs.foldlM step start = some last) : good last := by
  induction inputs generalizing start with
  | nil =>
    cases hlast
    exact halways
  | cons input rest ih =>
    obtain ⟨next, hnext, hrest⟩ := Option.bind_eq_some_iff.mp hlast
    exact ih (halways.2 next hnext) hrest

/-- A run that is evaluated ends in a state that is not good. -/
theorem not_always_of_run (test : σ → Prop) [DecidablePred test]
    (hrun : (inputs.foldlM step start).any (test ·) = true) (hbad : ∀ s, test s → ¬ good s) :
    ¬ Always step good start inputs := by
  obtain ⟨last, hlast, htest⟩ := (Option.any_eq_true _ _).mp hrun
  exact fun halways => hbad last (of_decide_eq_true htest) (halways.reached hlast)

/-- A computation that is evaluated has a result, and what the test says of it. -/
theorem exists_of_run {x : Option σ} {P : σ → Prop} (test : σ → Prop) [DecidablePred test]
    (hrun : x.any (test ·) = true) (hres : ∀ s, test s → P s) : ∃ s, x = some s ∧ P s := by
  obtain ⟨s, hs, htest⟩ := (Option.any_eq_true _ _).mp hrun
  exact ⟨s, hs, hres s (of_decide_eq_true htest)⟩

end Partial

variable {σ ι : Type*} (step : σ → ι → σ) (stop : σ → Prop) [DecidablePred stop]

def runUntil : List ι → σ → σ
  | [], s => s
  | input :: rest, s =>
    if stop (step s input) then step s input else runUntil rest (step s input)

def Through : List ι → σ → Prop
  | [], _ => True
  | input :: rest, s => ¬ stop (step s input) ∧ Through rest (step s input)

variable {step stop} {s : σ}

omit [DecidablePred stop] in
theorem through_append {first second : List ι} :
    Through step stop (first ++ second) s ↔
      Through step stop first s ∧ Through step stop second (first.foldl step s) := by
  induction first generalizing s with
  | nil => simp [Through]
  | cons input rest ih => simp only [cons_append, Through, ih, foldl_cons, and_assoc]

theorem Through.runUntil_append {first : List ι} (hthru : Through step stop first s)
    (second : List ι) :
    runUntil step stop (first ++ second) s = runUntil step stop second (first.foldl step s) := by
  induction first generalizing s with
  | nil => rfl
  | cons input rest ih =>
    rw [cons_append, runUntil, if_neg hthru.1, ih hthru.2]
    rfl

theorem Through.runUntil_stop {before : List ι} (hthru : Through step stop before s) {input : ι}
    (hstop : stop (step (before.foldl step s) input)) (rest : List ι) :
    runUntil step stop (before ++ input :: rest) s = step (before.foldl step s) input := by
  rw [hthru.runUntil_append, runUntil, if_pos hstop]

variable (step stop) in
theorem runUntil_cases (inputs : List ι) (s : σ) :
    (Through step stop inputs s ∧ runUntil step stop inputs s = inputs.foldl step s) ∨
      ∃ before input rest, inputs = before ++ input :: rest ∧ Through step stop before s ∧
        stop (step (before.foldl step s) input) ∧
        runUntil step stop inputs s = step (before.foldl step s) input := by
  induction inputs generalizing s with
  | nil => exact .inl ⟨trivial, rfl⟩
  | cons input rest ih =>
    by_cases hstop : stop (step s input)
    · exact .inr ⟨[], input, rest, rfl, trivial, hstop, if_pos hstop⟩
    rw [runUntil, if_neg hstop]
    rcases ih (step s input) with ⟨hthru, heq⟩ | ⟨before, input', rest', rfl, hthru, hend, heq⟩
    · exact .inl ⟨⟨hstop, hthru⟩, heq⟩
    · exact .inr ⟨input :: before, input', rest', rfl, ⟨hstop, hthru⟩, hend, heq⟩

end TbsMedia.Lib
