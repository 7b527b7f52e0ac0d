import Mathlib.Computability.StateTransition
import Mathlib.Tactic

/-!
Deterministic machines: a step function that stops where it has no successor. The
states that a run passes through are those that the start reaches.
-/

namespace TbsMedia.Lib

open StateTransition Relation Option ReflTransGen

variable {σ : Type*} {step : σ → Option σ} {t s : σ} {fuel : Nat} {good inv cond : σ → Prop}
  {rel : σ → σ → Prop}

theorem reaches_step (hstep : step s = some t) : Reaches step s t := single hstep

/-- The last state of the run, if it stops within `fuel` steps. -/
def runMachine (step : σ → Option σ) : Nat → σ → Option σ
  | 0, _ => none
  | fuel + 1, s =>
    match step s with
    | none => some s
    | some t => runMachine step fuel t

theorem mem_eval_of_run (hrun : runMachine step fuel s = some t) : t ∈ eval step s := by
  induction fuel generalizing s with
  | zero => cases hrun
  | succ fuel ih =>
    rw [runMachine] at hrun
    cases hstep : step s with
    | none =>
      rw [hstep] at hrun
      cases hrun
      exact mem_eval.mpr ⟨refl, hstep⟩
    | some next =>
      rw [hstep] at hrun
      rw [reaches_eval (single hstep)]
      exact ih hrun

theorem exists_run_of_mem_eval (hend : t ∈ eval step s) :
    ∃ fuel, runMachine step fuel s = some t := by
  obtain ⟨hreach, hstop⟩ := mem_eval.mp hend
  induction hreach using head_induction_on with
  | refl => exact ⟨1, by rw [runMachine, hstop]⟩
  | head hstep hrest ih =>
    obtain ⟨fuel, hrun⟩ := ih (mem_eval.mpr ⟨hrest, hstop⟩)
    exact ⟨fuel + 1, by rw [runMachine, mem_def.mp hstep]; exact hrun⟩

theorem runMachine_mono {fuel' : Nat} (hrun : runMachine step fuel s = some t)
    (hle : fuel ≤ fuel') : runMachine step fuel' s = some t := by
  induction fuel generalizing s fuel' with
  | zero => cases hrun
  | succ fuel ih =>
    obtain ⟨more, rfl⟩ := Nat.exists_eq_add_of_le' (lt_of_lt_of_le (Nat.succ_pos fuel) hle)
    rw [runMachine] at hrun ⊢
    rcases hstep : step s with _ | next
    · rw [hstep] at hrun
      exact hrun
    rw [hstep] at hrun
    exact ih hrun (Nat.le_of_succ_le_succ hle)

/-- The state after `n` steps, if the run is that long. -/
def stepMachine (step : σ → Option σ) : Nat → σ → Option σ
  | 0, s => some s
  | n + 1, s => (step s).bind (stepMachine step n)

theorem reaches_of_stepMachine {n : Nat} (hsteps : stepMachine step n s = some t) :
    Reaches step s t := by
  induction n generalizing s with
  | zero =>
    cases hsteps
    exact refl
  | succ n ih =>
    obtain ⟨next, hnext, hrest⟩ := bind_eq_some_iff.mp hsteps
    exact (ih hrest).head hnext

/-- Whether a run ends within `fuel` steps and passes a test in every state. -/
def testMachine (step : σ → Option σ) (test : σ → Bool) : Nat → σ → Bool
  | 0, _ => false
  | fuel + 1, s => test s && (step s).all (testMachine step test fuel)

theorem test_of_testMachine {test : σ → Bool} (fuel : Nat)
    (htest : testMachine step test fuel s = true) (hreach : Reaches step s t) : test t = true := by
  induction hreach using head_induction_on generalizing fuel with
  | refl =>
    cases fuel with
    | zero => cases htest
    | succ fuel => exact ((Bool.and_eq_true _ _).mp htest).1
  | head hstep _ ih =>
    rcases fuel with _ | fuel
    · cases htest
    have hnext := ((Bool.and_eq_true _ _).mp htest).2
    rw [mem_def.mp hstep] at hnext
    exact ih fuel hnext

/-- A step that leads back to the same state is made forever. -/
theorem runMachine_of_fixed (hfixed : step s = some s) (fuel : Nat) :
    runMachine step fuel s = none := by
  induction fuel with
  | zero => rfl
  | succ fuel ih =>
    rw [runMachine, hfixed]
    exact ih

noncomputable def stepsLeft (step : σ → Option σ) (s : σ) : Nat :=
  sInf {fuel | (runMachine step fuel s).isSome}

theorem stepsLeft_lt {last : σ} (hend : last ∈ eval step s) (hstep : step s = some t) :
    stepsLeft step t < stepsLeft step s := by
  obtain ⟨fuel, hfuel⟩ := exists_run_of_mem_eval hend
  have hrun : (runMachine step (stepsLeft step s) s).isSome :=
    Nat.sInf_mem (s := {fuel | (runMachine step fuel s).isSome}) ⟨fuel, by simp [hfuel]⟩
  rcases hleft : stepsLeft step s with _ | left
  · rw [hleft] at hrun
    cases hrun
  rw [hleft, runMachine, hstep] at hrun
  exact Nat.lt_succ_of_le (Nat.sInf_le hrun)

def SafeRun (step : σ → Option σ) (good : σ → Prop) (s : σ) : Prop :=
  (∀ t, Reaches step s t → good t) ∧ ∃ t, t ∈ eval step s

theorem SafeRun.later (hsafe : SafeRun step good s) (hreach : Reaches step s t) :
    SafeRun step good t := by
  obtain ⟨hgood, last, hlast⟩ := hsafe
  refine ⟨?_, last, ?_⟩
  · intro u hlater
    exact hgood u (hreach.trans hlater)
  · rwa [← reaches_eval hreach]

/-- What a step keeps under its condition holds along a run that meets the condition. -/
theorem reaches_invariant (hkeep : ∀ s t, inv s → cond s → step s = some t → inv t) (hs : inv s)
    (hcond : ∀ t, Reaches step s t → cond t) (hreach : Reaches step s t) : inv t := by
  induction hreach with
  | refl => exact hs
  | tail hpre hstep ih => exact hkeep _ _ ih (hcond _ hpre) hstep

/-- Steps that go down a well-founded order come to an end. -/
theorem exists_mem_eval (inv : σ → Prop) (hwf : WellFounded rel)
    (hstep : ∀ s t, inv s → step s = some t → inv t ∧ rel t s) (hs : inv s) :
    ∃ t, t ∈ eval step s := by
  induction s using hwf.induction with
  | _ s ih =>
    rcases hnext : step s with _ | next
    · exact ⟨s, mem_eval.mpr ⟨refl, hnext⟩⟩
    obtain ⟨hinv, hless⟩ := hstep s next hs hnext
    rw [reaches_eval (single hnext)]
    exact ih next hless hinv

/-- An invariant that a step keeps, going down, when its condition holds, and that cannot be
kept when it does not: a run is safe if and only if it meets the condition everywhere. -/
theorem safeRun_iff (hwf : WellFounded rel) (hgood : ∀ s, inv s → good s)
    (hkeep : ∀ s t, inv s → cond s → step s = some t → inv t)
    (hless : ∀ s t, inv s → cond s → step s = some t → rel t s)
    (hbreak : ∀ s, inv s → ¬ cond s → ¬ SafeRun step good s) (hs : inv s) :
    SafeRun step good s ↔ ∀ t, Reaches step s t → cond t := by
  constructor
  · intro hsafe
    have hboth : ∀ t, Reaches step s t → inv t ∧ cond t := by
      intro t hreach
      induction hreach with
      | refl => exact ⟨hs, by_contra fun hbad => hbreak s hs hbad hsafe⟩
      | tail hpre hstep ih =>
        have hinv := hkeep _ _ ih.1 ih.2 hstep
        refine ⟨hinv, by_contra fun hbad => ?_⟩
        exact hbreak _ hinv hbad (hsafe.later (hpre.tail hstep))
    exact fun t hreach => (hboth t hreach).2
  · intro hcond
    refine ⟨fun t hreach => hgood t (reaches_invariant hkeep hs hcond hreach), ?_⟩
    apply exists_mem_eval (fun t => inv t ∧ ∀ u, Reaches step t u → cond u) hwf
    · intro t u ht hstep
      have hnow := ht.2 t refl
      exact ⟨⟨hkeep t u ht.1 hnow hstep, fun v hreach => ht.2 v (hreach.head hstep)⟩,
        hless t u ht.1 hnow hstep⟩
    · exact ⟨hs, hcond⟩

end TbsMedia.Lib
