import Mathlib.Tactic

/-!
Programs as sequences of atomic accesses to a shared state. A program can be
run on its own, from start to end; or it takes one access at a time, with
turns of an environment in between. For the second way there are rules in the
manner of preconditions, which every access has to meet whatever the environment
did before it.
-/

namespace TbsMedia.Lib

/-- `oops` is a program that stops for good at this point. An access reads and
updates the state in one piece; what comes after depends on what it read. -/
inductive Prog (σ τ α : Type) where
  | done (a : α)
  | oops
  | atomic (tag : Option τ) (update : σ → σ) (rest : σ → Prog σ τ α)

namespace Prog

variable {σ τ α β : Type}

protected def bind : Prog σ τ α → (α → Prog σ τ β) → Prog σ τ β
  | .done a, next => next a
  | .oops, _ => .oops
  | .atomic tag update rest, next => .atomic tag update (fun s => (rest s).bind next)

instance : Monad (Prog σ τ) where
  pure := .done
  bind := Prog.bind

def call (tag : Option τ) (f : σ → Option (α × σ)) : Prog σ τ α :=
  .atomic tag (fun s => ((f s).map Prod.snd).getD s) (fun s => match f s with
      | some out => .done out.1
      | none => .oops)

def read (f : σ → α) : Prog σ τ α :=
  .atomic none id (fun s => .done (f s))

def modify (tag : Option τ) (f : σ → σ) : Prog σ τ Unit :=
  .atomic tag f (fun _ => .done ())

def run : Prog σ τ α → σ → Option (α × σ)
  | .done a, s => some (a, s)
  | .oops, _ => none
  | .atomic _ update rest, s => (rest s).run (update s)

@[simp]
theorem run_pure (a : α) (s : σ) : (pure a : Prog σ τ α).run s = some (a, s) := rfl

@[simp]
theorem run_oops (s : σ) : (oops : Prog σ τ α).run s = none := rfl

@[simp]
theorem run_bind (p : Prog σ τ α) (next : α → Prog σ τ β) (s : σ) :
    (p >>= next).run s = (p.run s).bind (fun out => (next out.1).run out.2) := by
  induction p generalizing s with
  | done a => rfl
  | oops => rfl
  | atomic tag update rest ih => exact ih s (update s)

theorem run_bind_some {p : Prog σ τ α} {next : α → Prog σ τ β} {s s' : σ} {b : β}
    (hrun : (p >>= next).run s = some (b, s')) :
    ∃ a t, p.run s = some (a, t) ∧ (next a).run t = some (b, s') := by
  rw [run_bind] at hrun
  obtain ⟨⟨a, t⟩, hfirst, hnext⟩ := Option.bind_eq_some_iff.mp hrun
  exact ⟨a, t, hfirst, hnext⟩

@[simp]
theorem run_call (tag : Option τ) (f : σ → Option (α × σ)) (s : σ) : (call tag f).run s = f s := by
  cases hout : f s with
  | none => simp [call, run, hout]
  | some out => simp [call, run, hout]

@[simp]
theorem run_read (f : σ → α) (s : σ) : (read f : Prog σ τ α).run s = some (f s, s) := rfl

@[simp]
theorem run_modify (tag : Option τ) (f : σ → σ) (s : σ) :
    (modify tag f).run s = some ((), f s) := rfl

/-- Every access of the uninterrupted run meets `cond` in the state before it. -/
def Meets (cond : Option τ → σ → Prop) : Prog σ τ α → σ → Prop
  | .done _, _ => True
  | .oops, _ => True
  | .atomic tag update rest, s => cond tag s ∧ (rest s).Meets cond (update s)

variable (cond : Option τ → σ → Prop)

@[simp]
theorem meets_read (f : σ → α) (s : σ) : (read f : Prog σ τ α).Meets cond s ↔ cond none s := by
  simp [read, Meets]

@[simp]
theorem meets_modify (tag : Option τ) (f : σ → σ) (s : σ) :
    (modify tag f).Meets cond s ↔ cond tag s := by
  simp [modify, Meets]

@[simp]
theorem meets_call (tag : Option τ) (f : σ → Option (α × σ)) (s : σ) :
    (call tag f).Meets cond s ↔ cond tag s := by
  cases hout : f s with
  | none => simp [call, Meets, hout]
  | some out => simp [call, Meets, hout]

theorem Meets.mono {cond cond' : Option τ → σ → Prop} {p : Prog σ τ α} {s : σ}
    (hmeets : p.Meets cond s) (himp : ∀ tag s, cond tag s → cond' tag s) : p.Meets cond' s := by
  induction p generalizing s with
  | done a => trivial
  | oops => trivial
  | atomic tag update rest ih => exact ⟨himp tag s hmeets.1, ih s hmeets.2⟩

theorem meets_bind (p : Prog σ τ α) (next : α → Prog σ τ β) (s : σ) :
    (p >>= next).Meets cond s ↔
      p.Meets cond s ∧ ∀ out, p.run s = some out → (next out.1).Meets cond out.2 := by
  induction p generalizing s with
  | done a => simp [Meets, run, Bind.bind, Prog.bind]
  | oops => simp [Meets, run, Bind.bind, Prog.bind]
  | atomic tag update rest ih =>
    simp only [Meets, run, and_assoc]
    rw [← ih s (update s)]
    rfl

/-- Every access stays within `rel`, in whatever state it is made. -/
def Within (rel : Option τ → σ → σ → Prop) : Prog σ τ α → Prop
  | .done _ => True
  | .oops => True
  | .atomic tag update rest => ∀ s, rel tag s (update s) ∧ (rest s).Within rel

variable {rel : Option τ → σ → σ → Prop} {p : Prog σ τ α} {tag : Option τ}

theorem within_bind {next : α → Prog σ τ β} (hfirst : p.Within rel)
    (hnext : ∀ a, (next a).Within rel) : (p >>= next).Within rel := by
  induction p with
  | done a => exact hnext a
  | oops => trivial
  | atomic tag update rest ih => exact fun s => ⟨(hfirst s).1, ih s (hfirst s).2⟩

theorem within_read {f : σ → α} (hrel : ∀ s, rel none s s) :
    (read f : Prog σ τ α).Within rel := fun s => ⟨hrel s, trivial⟩

theorem within_modify {f : σ → σ} (hrel : ∀ s, rel tag s (f s)) :
    (modify tag f).Within rel := fun s => ⟨hrel s, trivial⟩

theorem within_call {f : σ → Option (α × σ)} (hsome : ∀ s out, f s = some out → rel tag s out.2)
    (hnone : ∀ s, f s = none → rel tag s s) : (call tag f).Within rel := by
  intro s
  cases hout : f s with
  | none => exact ⟨by simpa [hout] using hnone s hout, by simp [hout, Within]⟩
  | some out => exact ⟨by simpa [hout] using hsome s out hout, by simp [hout, Within]⟩

theorem Within.mono {rel' : Option τ → σ → σ → Prop} (hin : p.Within rel)
    (himp : ∀ tag s t, rel tag s t → rel' tag s t) : p.Within rel' := by
  induction p with
  | done a => trivial
  | oops => trivial
  | atomic tag update rest ih => exact fun s => ⟨himp tag s _ (hin s).1, ih s (hin s).2⟩

theorem Within.run {r : σ → σ → Prop} (hrefl : ∀ s, r s s) (htrans : ∀ s t u, r s t → r t u → r s u)
    {s s' : σ} {a : α} (hin : p.Within (fun _ => r)) (hrun : p.run s = some (a, s')) :
    r s s' := by
  induction p generalizing s with
  | done b =>
    obtain ⟨-, rfl⟩ := Prod.mk.inj (Option.some.inj hrun)
    exact hrefl s
  | oops => cases hrun
  | atomic tag update rest ih => exact htrans s _ s' (hin s).1 (ih s (hin s).2 hrun)

end Prog

section Interference

variable {σ τ α β ι ε : Type}

/-- One program at a time, and an environment that can act between any two of
its accesses. -/
structure Shared (σ τ α : Type) where
  state : σ
  running : Option (Prog σ τ α)

inductive Turn (ι ε : Type) where
  | enter (request : ι)
  | tick
  | env (event : ε)

/-- `code` says which requests the state admits and what is run for them. -/
def Shared.turn (code : σ → ι → Option (Prog σ τ α)) (react : σ → ε → σ)
    (c : Shared σ τ α) : Turn ι ε → Option (Shared σ τ α)
  | .enter request =>
    match c.running with
    | none => (code c.state request).map (fun p => { c with running := some p })
    | some _ => none
  | .tick =>
    match c.running with
    | some (.atomic _ update rest) =>
      some { state := update c.state, running := some (rest c.state) }
    | some (.done _) => some { c with running := none }
    | _ => none
  | .env event => some { c with state := react c.state event }

def Shared.tag (c : Shared σ τ α) : Option τ :=
  match c.running with
  | some (.atomic tag _ _) => tag
  | _ => none

/-- What a program may rely on, and what it has to keep. Every access is `ready` in
the state in which it happens and with what it makes of it. If that state also
meets `cond`, it keeps the invariant and stays within `guar`. -/
structure Contract (σ τ : Type) where
  inv : σ → Prop
  env : σ → σ → Prop
  env_refl : ∀ s, env s s
  env_trans : ∀ s t u, env s t → env t u → env s u
  ready : Option τ → σ → σ → Prop
  cond : Option τ → σ → Prop
  guar : Option τ → σ → σ → Prop

/-- From `s` on, the program keeps the contract whatever the environment does,
and ends, if it does, in states that satisfy `post`. -/
def Contract.Wp (c : Contract σ τ) :
    Prog σ τ α → (α → σ → Prop) → σ → Prop
  | .done a, post, s => ∀ t, c.env s t → c.inv t → post a t
  | .oops, _, _ => True
  | .atomic tag update rest, post, s => ∀ t, c.env s t → c.inv t →
      c.ready tag t (update t) ∧ (c.cond tag t →
        c.guar tag t (update t) ∧ c.inv (update t) ∧ c.Wp (rest t) post (update t))

namespace Contract

variable {c : Contract σ τ} {p : Prog σ τ α} {post : α → σ → Prop} {s : σ} {tag : Option τ}

theorem Wp.later {t : σ} (hwp : c.Wp p post s) (henv : c.env s t) : c.Wp p post t := by
  cases p with
  | done a => exact fun u hu => hwp u (c.env_trans s t u henv hu)
  | oops => trivial
  | atomic tag update rest => exact fun u hu => hwp u (c.env_trans s t u henv hu)

/-- It is enough to look at the states after the environment's next turns. -/
theorem Wp.of_later (hwp : ∀ t, c.env s t → c.inv t → c.Wp p post t) : c.Wp p post s := by
  cases p with
  | done a => exact fun t ht hinv => hwp t ht hinv t (c.env_refl t) hinv
  | oops => trivial
  | atomic tag update rest => exact fun t ht hinv => hwp t ht hinv t (c.env_refl t) hinv

theorem Wp.mono {post' : α → σ → Prop} (hwp : c.Wp p post s)
    (hpost : ∀ a t, c.inv t → post a t → post' a t) : c.Wp p post' s := by
  induction p generalizing s with
  | done a => exact fun t ht hinv => hpost a t hinv (hwp t ht hinv)
  | oops => trivial
  | atomic tag update rest ih =>
    intro t ht hinv
    obtain ⟨hready, hkeep⟩ := hwp t ht hinv
    refine ⟨hready, ?_⟩
    intro hcond
    obtain ⟨hguar, hinv', hrest⟩ := hkeep hcond
    exact ⟨hguar, hinv', ih t hrest⟩

theorem Wp.bind {next : α → Prog σ τ β} {post : β → σ → Prop}
    (hwp : c.Wp p (fun a t => c.Wp (next a) post t) s) : c.Wp (p >>= next) post s := by
  induction p generalizing s with
  | done a => exact .of_later hwp
  | oops => trivial
  | atomic tag update rest ih =>
    intro t ht hinv
    obtain ⟨hready, hkeep⟩ := hwp t ht hinv
    refine ⟨hready, ?_⟩
    intro hcond
    obtain ⟨hguar, hinv', hrest⟩ := hkeep hcond
    exact ⟨hguar, hinv', ih t hrest⟩

theorem Wp.pure {a : α} (hpost : ∀ t, c.env s t → c.inv t → post a t) :
    c.Wp (Pure.pure a : Prog σ τ α) post s := hpost

theorem Wp.call {f : σ → Option (α × σ)} (hcall : ∀ t, c.env s t → c.inv t →
      c.ready tag t (((f t).map Prod.snd).getD t) ∧ (c.cond tag t →
      c.guar tag t (((f t).map Prod.snd).getD t) ∧ c.inv (((f t).map Prod.snd).getD t) ∧
      ∀ out, f t = some out → ∀ u, c.env out.2 u → c.inv u → post out.1 u)) :
    c.Wp (Prog.call tag f) post s := by
  intro t ht hinv
  obtain ⟨hready, hkeep⟩ := hcall t ht hinv
  refine ⟨hready, ?_⟩
  intro hcond
  obtain ⟨hguar, hinv', hout⟩ := hkeep hcond
  refine ⟨hguar, hinv', ?_⟩
  dsimp only
  cases hf : f t with
  | none => trivial
  | some out => exact hout out hf

theorem Wp.read {f : σ → α} (hread : ∀ t, c.env s t → c.inv t → c.ready none t t ∧ (c.cond none t →
      c.guar none t t ∧ ∀ u, c.env t u → c.inv u → post (f t) u)) : c.Wp (Prog.read f) post s := by
  intro t ht hinv
  obtain ⟨hready, hkeep⟩ := hread t ht hinv
  exact ⟨hready, fun hcond => ⟨(hkeep hcond).1, hinv, (hkeep hcond).2⟩⟩

theorem Wp.modify {f : σ → σ} {post : Unit → σ → Prop}
    (hcall : ∀ t, c.env s t → c.inv t → c.ready tag t (f t) ∧ (c.cond tag t →
      c.guar tag t (f t) ∧ c.inv (f t) ∧ ∀ u, c.env (f t) u → c.inv u → post () u)) :
    c.Wp (Prog.modify tag f) post s := hcall

/-- Nobody interferes. All that is asked of an access is `ready`. -/
def alone (ready : Option τ → σ → Prop) : Contract σ τ where
  inv := fun _ => True
  env := Eq
  env_refl := fun _ => rfl
  env_trans := fun _ _ _ => Eq.trans
  ready := fun tag s _ => ready tag s
  cond := fun _ _ => True
  guar := fun _ _ _ => True

variable {ready : Option τ → σ → Prop} {post : α → σ → Prop} {s : σ} {a : α} {tag : Option τ}
  {p : Prog σ τ α}

theorem alone_pure (hpost : post a s) : (alone ready).Wp (Pure.pure a : Prog σ τ α) post s := by
  rintro t rfl -
  exact hpost

theorem alone_read {f : σ → α} (hready : ready none s) (hpost : post (f s) s) :
    (alone ready).Wp (Prog.read f) post s := by
  rintro t rfl -
  refine ⟨hready, fun _ => ⟨trivial, trivial, ?_⟩⟩
  rintro u rfl -
  exact hpost

theorem alone_modify {f : σ → σ} {post : Unit → σ → Prop} (hready : ready tag s)
    (hpost : post () (f s)) : (alone ready).Wp (Prog.modify tag f) post s := by
  rintro t rfl -
  refine ⟨hready, fun _ => ⟨trivial, trivial, ?_⟩⟩
  rintro u rfl -
  exact hpost

theorem alone_call {f : σ → Option (α × σ)} (hready : ready tag s)
    (hpost : ∀ out, f s = some out → post out.1 out.2) :
    (alone ready).Wp (Prog.call tag f) post s := by
  apply Wp.call
  rintro t rfl -
  refine ⟨hready, fun _ => ⟨trivial, trivial, ?_⟩⟩
  rintro out hout u rfl -
  exact hpost out hout

/-- The uninterrupted run of a program that keeps the contract. -/
theorem alone_run {s' : σ} (hwp : (alone ready).Wp p post s) (hrun : p.run s = some (a, s')) :
    post a s' := by
  induction p generalizing s with
  | done b =>
    obtain ⟨rfl, rfl⟩ := Prod.mk.inj (Option.some.inj hrun)
    exact hwp s rfl trivial
  | oops => cases hrun
  | atomic tag update rest ih => exact ih s ((hwp s rfl trivial).2 trivial).2.2 hrun

theorem alone_meets (hwp : (alone ready).Wp p post s) : p.Meets ready s := by
  induction p generalizing s with
  | done b => trivial
  | oops => trivial
  | atomic tag update rest ih =>
    obtain ⟨hready, hrest⟩ := hwp s rfl trivial
    exact ⟨hready, ih s (hrest trivial).2.2⟩

end Contract

end Interference

end TbsMedia.Lib
