import TbsMedia.Lib.Prog
import TbsMedia.Lib.Run

/-!
Two programs over one state, in any interleaving of their accesses. Each party has a
contract in which the other one is the environment; if what one may do is what the other
relies on, the invariant holds all the way.
-/

namespace TbsMedia.Lib

variable {σ τ α : Type}

structure Pair (σ τ : Type) where
  state : σ
  left : Prog σ τ Unit
  right : Prog σ τ Unit

inductive Side where
  | left
  | right

def Pair.turn (c : Pair σ τ) : Side → Option (Pair σ τ)
  | .left =>
    match c.left with
    | .atomic _ update rest => some { c with state := update c.state, left := rest c.state }
    | _ => none
  | .right =>
    match c.right with
    | .atomic _ update rest => some { c with state := update c.state, right := rest c.state }
    | _ => none

namespace Contract

variable {c : Contract σ τ}

/-- An update whose precondition the environment cannot take away, nor what it gives. -/
theorem Wp.modify_stable {tag : Option τ} {f : σ → σ} {s : σ} (pre post : σ → Prop)
    (hpre : pre s) (hstable : ∀ s t, c.env s t → pre s → pre t)
    (hpost : ∀ s t, c.env s t → post s → post t)
    (hstep : ∀ t, c.inv t → pre t → c.ready tag t (f t) ∧ (c.cond tag t →
      c.guar tag t (f t) ∧ c.inv (f t) ∧ post (f t))) :
    c.Wp (Prog.modify tag f) (fun _ => post) s := by
  apply Wp.modify
  intro t ht hinv
  obtain ⟨hready, hkeep⟩ := hstep t hinv (hstable s t ht hpre)
  refine ⟨hready, ?_⟩
  intro hcond
  obtain ⟨hguar, hinv', hafter⟩ := hkeep hcond
  exact ⟨hguar, hinv', fun u hu _ => hpost (f t) u hu hafter⟩

theorem Wp.read_stable {f : σ → α} {s : σ} (pre : σ → Prop) (post : α → σ → Prop)
    (hpre : pre s) (hstable : ∀ s t, c.env s t → pre s → pre t)
    (hpost : ∀ a s t, c.env s t → post a s → post a t)
    (hstep : ∀ t, c.inv t → pre t → c.ready none t t ∧ (c.cond none t →
      c.guar none t t ∧ post (f t) t)) :
    c.Wp (Prog.read f) post s := by
  apply Wp.read
  intro t ht hinv
  obtain ⟨hready, hkeep⟩ := hstep t hinv (hstable s t ht hpre)
  refine ⟨hready, ?_⟩
  intro hcond
  obtain ⟨hguar, hafter⟩ := hkeep hcond
  exact ⟨hguar, fun u hu _ => hpost (f t) t u hu hafter⟩

/-- Both parties keep their contracts, so the invariant holds in every interleaving. -/
theorem pair_always (cl cr : Contract σ τ) {good : σ → Prop} (hinv : ∀ s, cl.inv s ↔ cr.inv s)
    (hcondl : ∀ tag s, cl.cond tag s) (hcondr : ∀ tag s, cr.cond tag s)
    (hleft : ∀ tag s t, cl.guar tag s t → cr.env s t)
    (hright : ∀ tag s t, cr.guar tag s t → cl.env s t)
    (hgood : ∀ s, cl.inv s → good s) {start : Pair σ τ} (hstart : cl.inv start.state)
    (hwpl : cl.Wp start.left (fun _ _ => True) start.state)
    (hwpr : cr.Wp start.right (fun _ _ => True) start.state) (turns : List Side) :
    Always Pair.turn (fun c => good c.state) start turns := by
  apply Always.of_inv (fun c => cl.inv c.state ∧ cl.Wp c.left (fun _ _ => True) c.state ∧
    cr.Wp c.right (fun _ _ => True) c.state)
  · rintro c side next ⟨hi, hl, hr⟩ hturn
    cases side with
    | left =>
      rw [Pair.turn] at hturn
      split at hturn
      · next tag update rest hprog =>
        cases hturn
        rw [hprog] at hl
        obtain ⟨hguar, hi', hl'⟩ := (hl c.state (cl.env_refl _) hi).2 (hcondl tag c.state)
        exact ⟨hi', hl', hr.later (hleft tag _ _ hguar)⟩
      · cases hturn
    | right =>
      rw [Pair.turn] at hturn
      split at hturn
      · next tag update rest hprog =>
        cases hturn
        rw [hprog] at hr
        obtain ⟨hguar, hi', hr'⟩ :=
          (hr c.state (cr.env_refl _) ((hinv _).mp hi)).2 (hcondr tag c.state)
        exact ⟨(hinv _).mpr hi', hl.later (hright tag _ _ hguar), hr'⟩
      · cases hturn
  · exact fun c hc => hgood c.state hc.1
  · exact ⟨hstart, hwpl, hwpr⟩

end Contract

end TbsMedia.Lib
