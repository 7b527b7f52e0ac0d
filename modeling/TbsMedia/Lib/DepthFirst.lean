import Mathlib.Tactic

/-!
Depth-first search to a fixed depth that only remembers the node it came from. It
visits the ends of all walks that do not turn back at once, a node once for each
walk. Every node that can be reached is visited exactly once if and only if what
the search sees is a tree.
-/

namespace TbsMedia.Lib

open List

section Search

variable {α : Type*} (next : α → List (Option α))

/-- A walk from `start`, entered from `origin`, by the positions of the links taken,
the last one first. It does not go back to the node that it just came from. -/
inductive Walk (origin : Option α) (start : α) : List Nat → Option α → α → Prop
  | nil : Walk origin start [] origin start
  | cons {path : List Nat} {prev : Option α} {x y : α} {i : Nat}
      (hwalk : Walk origin start path prev x) (hlink : (next x)[i]? = some (some y))
      (hback : some y ≠ prev) : Walk origin start (i :: path) (some x) y

variable {next} {origin prev : Option α} {start x y : α} {path : List Nat} {i depth : Nat}
  {link : Option α}

theorem Walk.front {z : α} (hlink : (next start)[i]? = some (some z)) (hback : some z ≠ origin)
    (hwalk : Walk next (some start) z path prev y) :
    Walk next origin start (path ++ [i]) prev y := by
  induction hwalk with
  | nil => exact .cons Walk.nil hlink hback
  | cons _ hlink' hback' ih => exact .cons ih hlink' hback'

theorem Walk.front_inv (hwalk : Walk next origin start (path ++ [i]) prev y) :
    ∃ z, (next start)[i]? = some (some z) ∧ some z ≠ origin ∧
      Walk next (some start) z path prev y := by
  induction path generalizing prev y with
  | nil =>
    cases hwalk with
    | cons hnil hlink hback =>
      cases hnil
      exact ⟨y, hlink, hback, .nil⟩
  | cons j rest ih =>
    cases hwalk with
    | cons hrest hlink hback =>
      obtain ⟨z, hz, hne, hwalk⟩ := ih hrest
      exact ⟨z, hz, hne, .cons hwalk hlink hback⟩

theorem Walk.unique {prev' : Option α} {y' : α} (hwalk : Walk next origin start path prev y)
    (hwalk' : Walk next origin start path prev' y') : prev = prev' ∧ y = y' := by
  induction hwalk generalizing prev' y' with
  | nil =>
    cases hwalk'
    exact ⟨rfl, rfl⟩
  | cons _ hlink _ ih =>
    cases hwalk' with
    | cons hrest hlink' _ =>
      obtain ⟨-, rfl⟩ := ih hrest
      rw [hlink] at hlink'
      exact ⟨rfl, Option.some.inj (Option.some.inj hlink')⟩

variable [DecidableEq α]

def follow (prev link : Option α) : Option α := link.filter fun y => some y ≠ prev

theorem follow_eq_some : follow prev link = some y ↔ link = some y ∧ some y ≠ prev := by
  rw [follow]
  simp

theorem follow_of_ne (hback : some y ≠ prev) : follow prev (some y) = some y :=
  follow_eq_some.mpr ⟨rfl, hback⟩

theorem follow_of_eq (hback : some y = prev) : follow prev (some y) = none := by
  rw [← hback, follow]
  simp

def behind {β : Type*} (search : α → List β) (prev link : Option α) : List β :=
  match follow prev link with
  | none => []
  | some y => search y

theorem mem_behind {β : Type*} {search : α → List β} {b : β} :
    b ∈ behind search prev link ↔ ∃ y, link = some y ∧ some y ≠ prev ∧ b ∈ search y := by
  unfold behind
  rcases hfoll : follow prev link with _ | z
  · refine iff_of_false not_mem_nil ?_
    rintro ⟨y, rfl, hback, -⟩
    rw [follow_of_ne hback] at hfoll
    simp at hfoll
  obtain ⟨rfl, hback⟩ := follow_eq_some.mp hfoll
  constructor
  · exact fun hb => ⟨z, rfl, hback, hb⟩
  · rintro ⟨y, heq, -, hb⟩
    rwa [Option.some.inj heq]

variable (next) in
def visits : Nat → Option α → α → List α
  | 0, _, _ => []
  | depth + 1, prev, x => (next x).flatMap (behind (visits depth (some x)) prev) ++ [x]

variable (next) in
def walks : Nat → List Nat → Option α → α → List (List Nat × α)
  | 0, _, _, _ => []
  | depth + 1, path, prev, x =>
    ((next x).zipIdx.flatMap fun (link, i) => behind (walks depth (i :: path) (some x)) prev link)
      ++ [(path, x)]

theorem visits_eq_walks (depth : Nat) (path : List Nat) (prev : Option α) (x : α) :
    visits next depth prev x = (walks next depth path prev x).map Prod.snd := by
  induction depth generalizing path prev x with
  | zero => rfl
  | succ depth ih =>
    rw [visits, walks, map_append, map_flatMap]
    nth_rewrite 1 [← zipIdx_map_fst 0 (next x)]
    rw [flatMap_map]
    congr 1
    refine flatMap_congr fun ⟨link, i⟩ _ => ?_
    unfold behind
    rcases hfoll : follow prev link with _ | y
    · simp [hfoll]
    simp only [hfoll]
    exact ih (i :: path) (some x) y

theorem mem_walks {p : List Nat} :
    (p, y) ∈ walks next depth path prev x ↔ ∃ extra prev', p = extra ++ path ∧
      extra.length < depth ∧ Walk next prev x extra prev' y := by
  induction depth generalizing path prev x p with
  | zero => simp [walks]
  | succ depth ih =>
    rw [walks, mem_append, mem_flatMap]
    constructor
    · rintro (⟨⟨link, i⟩, hlink, hin⟩ | hin)
      · rw [mem_zipIdx_iff_getElem?] at hlink
        obtain ⟨z, rfl, hback, hin⟩ := mem_behind.mp hin
        obtain ⟨extra, prev', rfl, hlen, hwalk⟩ := ih.mp hin
        refine ⟨extra ++ [i], prev', by simp, by simpa using hlen, ?_⟩
        exact hwalk.front hlink hback
      · obtain ⟨rfl, rfl⟩ := Prod.mk.inj (mem_singleton.mp hin)
        exact ⟨[], prev, rfl, Nat.succ_pos depth, .nil⟩
    · rintro ⟨extra, prev', rfl, hlen, hwalk⟩
      rcases eq_nil_or_concat extra with rfl | ⟨rest, i, rfl⟩
      · cases hwalk
        exact .inr (mem_singleton.mpr rfl)
      rw [concat_eq_append] at hwalk hlen ⊢
      obtain ⟨z, hz, hback, hwalk⟩ := hwalk.front_inv
      refine .inl ⟨(some z, i), mem_zipIdx_iff_getElem?.mpr hz, ?_⟩
      rw [append_assoc]
      exact mem_behind.mpr ⟨z, rfl, hback, ih.mpr ⟨rest, prev', rfl, by simpa using hlen, hwalk⟩⟩

variable (next) in
theorem walks_nodup (depth : Nat) (path : List Nat) (prev : Option α) (x : α) :
    (walks next depth path prev x).Nodup := by
  induction depth generalizing path prev x with
  | zero => exact nodup_nil
  | succ depth ih =>
    have hbelow : ∀ link i p y, (p, y) ∈ behind (walks next depth (i :: path) (some x)) prev link →
        ∃ extra, p = extra ++ i :: path := by
      intro link i p y hin
      obtain ⟨z, -, -, hin⟩ := mem_behind.mp hin
      obtain ⟨extra, -, hp, -⟩ := mem_walks.mp hin
      exact ⟨extra, hp⟩
    rw [walks, nodup_append']
    refine ⟨nodup_flatMap.mpr ⟨fun ⟨link, i⟩ _ => ?_, ?_⟩, nodup_singleton _, ?_⟩
    · unfold behind
      rcases hfoll : follow prev link with _ | z
      · simp [hfoll]
      simp only [hfoll]
      exact ih (i :: path) (some x) z
    · have hindices : ((next x).zipIdx.map Prod.snd).Nodup := by
        rw [zipIdx_map_snd]
        exact nodup_range'
      refine (pairwise_map.mp hindices).imp ?_
      rintro ⟨link, i⟩ ⟨link', i'⟩ hne ⟨p, y⟩ hin hin'
      obtain ⟨extra, rfl⟩ := hbelow link i p y hin
      obtain ⟨extra', heq⟩ := hbelow link' i' _ y hin'
      have hsame : extra ++ [i] ++ path = extra' ++ [i'] ++ path := by simpa using heq
      have hlast := append_inj_right' (append_cancel_right hsame) rfl
      exact hne (List.cons.inj hlast).1
    · rintro ⟨p, y⟩ hin hself
      obtain ⟨rfl, -⟩ := Prod.mk.inj (mem_singleton.mp hself)
      obtain ⟨⟨link, i⟩, -, hin⟩ := mem_flatMap.mp hin
      obtain ⟨extra, heq⟩ := hbelow link i _ y hin
      have hlen := congrArg List.length heq
      simp at hlen
      omega

/-- A node is visited once if and only if one walk leads to it. -/
theorem count_visits_eq_one_iff :
    (visits next depth origin start).count y = 1 ↔
      ∃! path : List Nat, path.length < depth ∧ ∃ prev, Walk next origin start path prev y := by
  have hmem : ∀ path : List Nat, (path, y) ∈ walks next depth [] origin start ↔
      path.length < depth ∧ ∃ prev, Walk next origin start path prev y := by
    intro path
    rw [mem_walks]
    constructor
    · rintro ⟨extra, prev, rfl, hlen, hwalk⟩
      rw [append_nil]
      exact ⟨hlen, prev, hwalk⟩
    · rintro ⟨hlen, prev, hwalk⟩
      exact ⟨path, prev, (append_nil path).symm, hlen, hwalk⟩
  have hnodup := (walks_nodup next depth [] origin start).filter fun step => step.2 = y
  have hcount : (visits next depth origin start).count y =
      ((walks next depth [] origin start).filter fun step => step.2 = y).length := by
    rw [visits_eq_walks depth [], List.count, countP_map, countP_eq_length_filter]
    rfl
  rw [hcount]
  constructor
  · intro hone
    obtain ⟨⟨path, y'⟩, hflt⟩ := length_eq_one_iff.mp hone
    have hin : ∀ path', (path', y) ∈ walks next depth [] origin start ↔
        (path', y) = (path, y') := by
      intro path'
      rw [← mem_singleton, ← hflt]
      simp
    have hself := mem_singleton_self (path, y')
    rw [← hflt, mem_filter, decide_eq_true_eq] at hself
    obtain ⟨hwalk, rfl⟩ := hself
    exact ⟨path, (hmem path).mp hwalk, fun path' hpath' =>
      (Prod.mk.inj ((hin path').mp ((hmem path').mpr hpath'))).1⟩
  · rintro ⟨path, hpath, hunique⟩
    have hin : (path, y) ∈ (walks next depth [] origin start).filter fun step => step.2 = y :=
      mem_filter.mpr ⟨(hmem path).mpr hpath, by simp⟩
    have hall : ∀ step ∈ (walks next depth [] origin start).filter fun step => step.2 = y,
        step = (path, y) := by
      rintro ⟨path', y'⟩ hstep
      rw [mem_filter, decide_eq_true_eq] at hstep
      obtain ⟨hwalk, rfl⟩ := hstep
      rw [hunique path' ((hmem path').mp hwalk)]
    rw [eq_replicate_of_mem hall, nodup_replicate] at hnodup
    exact le_antisymm hnodup (length_pos_of_mem hin)

end Search

section Levels

variable {α : Type*} (next : α → List (Option α)) (e : α)

/-- `n` links lead to a node. -/
def StepsTo : Nat → α → Prop
  | 0, y => y = e
  | n + 1, y => ∃ x, StepsTo n x ∧ some y ∈ next x

/-- The fewest links that lead to a node are `n`. -/
def Level (n : Nat) (y : α) : Prop := StepsTo next e n y ∧ ∀ m, m < n → ¬ StepsTo next e m y

/-- What a search from `e` sees is a tree: all nodes are near, there is one link to a
node from the level before its own, and none between nodes of a level but the last. -/
structure TreeTo (depth : Nat) : Prop where
  near : ∀ n y, Level next e n y → n < depth
  single : ∀ n x x' y (i i' : Nat), Level next e n x → Level next e n x' → Level next e (n + 1) y →
    (next x)[i]? = some (some y) → (next x')[i']? = some (some y) → x = x' ∧ i = i'
  across : ∀ n x y, n + 1 < depth → Level next e n x → Level next e n y → some y ∉ next x

variable {next e} {y : α} {n depth : Nat} {prev : Option α} {path : List Nat}

theorem steps_of_reaches (hreach : Relation.ReflTransGen (fun x y => some y ∈ next x) e y) :
    ∃ n, StepsTo next e n y := by
  induction hreach with
  | refl => exact ⟨0, rfl⟩
  | tail _ hlink ih =>
    obtain ⟨n, hsteps⟩ := ih
    exact ⟨n + 1, _, hsteps, hlink⟩

theorem StepsTo.reaches (hsteps : StepsTo next e n y) :
    Relation.ReflTransGen (fun x y => some y ∈ next x) e y := by
  induction n generalizing y with
  | zero =>
    obtain rfl := hsteps
    exact Relation.ReflTransGen.refl
  | succ n ih =>
    obtain ⟨x, hx, hlink⟩ := hsteps
    exact (ih hx).tail hlink

theorem StepsTo.level (hsteps : StepsTo next e n y) : ∃ m, m ≤ n ∧ Level next e m y := by
  classical
  have hexists : ∃ m, StepsTo next e m y := ⟨n, hsteps⟩
  exact ⟨Nat.find hexists, Nat.find_min' hexists hsteps, Nat.find_spec hexists,
    fun m hm => Nat.find_min hexists hm⟩

theorem Level.unique {m : Nat} (hm : Level next e m y) (hn : Level next e n y) : m = n := by
  rcases lt_trichotomy m n with hlt | heq | hgt
  · exact absurd hm.1 (hn.2 m hlt)
  · exact heq
  · exact absurd hn.1 (hm.2 n hgt)

/-- A node on the level after `x` that `x` links to. -/
theorem Level.before (hy : Level next e (n + 1) y) : ∃ x, Level next e n x ∧ some y ∈ next x := by
  obtain ⟨x, hx, hlink⟩ := hy.1
  exact ⟨x, ⟨hx, fun m hm hsteps => hy.2 (m + 1) (Nat.succ_lt_succ hm) ⟨x, hsteps, hlink⟩⟩, hlink⟩

theorem Walk.steps (hwalk : Walk next none e path prev y) : StepsTo next e path.length y := by
  induction hwalk with
  | nil => exact rfl
  | cons _ hlink _ ih => exact ⟨_, ih, mem_of_getElem? hlink⟩

/-- A walk may go on to every node that is not nearer than the node it is at. -/
theorem Walk.extend {x : α} {i : Nat} (hwalk : Walk next none e path prev x)
    (hlink : (next x)[i]? = some (some y)) (hfar : ∀ m < path.length, ¬ StepsTo next e m y) :
    Walk next none e (i :: path) (some x) y := by
  refine .cons hwalk hlink ?_
  rcases hwalk with _ | ⟨hpre, _, _⟩
  · simp
  rintro heq
  cases heq
  exact hfar _ (Nat.lt_succ_self _) hpre.steps

theorem Level.walk (hy : Level next e n y) :
    ∃ path prev, path.length = n ∧ Walk next none e path prev y := by
  induction n generalizing y with
  | zero =>
    obtain rfl := hy.1
    exact ⟨[], none, rfl, .nil⟩
  | succ n ih =>
    obtain ⟨x, hx, hlink⟩ := hy.before
    obtain ⟨path, prev, hlen, hwalk⟩ := ih hx
    obtain ⟨i, hi⟩ := mem_iff_getElem?.mp hlink
    refine ⟨i :: path, some x, by rw [length_cons, hlen], hwalk.extend hi fun m hm => ?_⟩
    exact hy.2 m (by omega)

variable (hsymm : ∀ x y, some y ∈ next x → some x ∈ next y)

include hsymm

theorem TreeTo.walk_level (htree : TreeTo next e depth) (hwalk : Walk next none e path prev y)
    (hlen : path.length < depth) :
    Level next e path.length y ∧ ∀ x, prev = some x → ∃ n, n + 1 = path.length ∧
      Level next e n x := by
  induction hwalk with
  | nil => exact ⟨⟨rfl, fun m hm => absurd hm (Nat.not_lt_zero m)⟩, fun x hx => by simp at hx⟩
  | @cons path prev x y i hwalk hlink hback ih =>
    rw [length_cons] at hlen ⊢
    obtain ⟨hx, hprev⟩ := ih (by omega)
    have hin := mem_of_getElem? hlink
    refine ⟨?_, fun z hz => ⟨path.length, rfl, by rwa [← Option.some.inj hz]⟩⟩
    obtain ⟨k, hk, hy⟩ := StepsTo.level (n := path.length + 1) ⟨x, hx.1, hin⟩
    -- the link back makes the levels of neighbours differ by one at most
    have hclose : path.length ≤ k + 1 := by
      by_contra hlt
      exact hx.2 (k + 1) (by omega) ⟨y, hy.1, hsymm x y hin⟩
    rcases lt_trichotomy k path.length with hlt | heq | hgt
    · exfalso
      cases hwalk with
      | nil => simp at hlt
      | @cons path' prev' z _ i' hwalk' hlink' hback' =>
        obtain ⟨n, hn, hz⟩ := hprev z rfl
        obtain ⟨j, hj⟩ := mem_iff_getElem?.mp (hsymm x y hin)
        obtain rfl : k = n := by omega
        rw [← hn] at hx
        obtain ⟨rfl, -⟩ := htree.single k z y x i' j hz hy hx hlink' hj
        exact hback rfl
    · rw [heq] at hy
      exact absurd hin (htree.across path.length x y hlen hx hy)
    · obtain rfl : k = path.length + 1 := by omega
      exact hy

theorem TreeTo.walk_unique (htree : TreeTo next e depth) {path' : List Nat} {prev' : Option α}
    (hwalk : Walk next none e path prev y) (hwalk' : Walk next none e path' prev' y)
    (hlen : path.length < depth) (hlen' : path'.length < depth) : path = path' := by
  have hsame := ((htree.walk_level hsymm hwalk hlen).1).unique
    (htree.walk_level hsymm hwalk' hlen').1
  induction hwalk generalizing path' prev' with
  | nil => exact (length_eq_zero_iff.mp hsame.symm).symm
  | @cons path prev x y i hwalk hlink hback ih =>
    have hy := (htree.walk_level hsymm (.cons hwalk hlink hback) hlen).1
    cases hwalk' with
    | nil => simp at hsame
    | @cons path' prev' x' _ i' hwalk' hlink' hback' =>
      rw [length_cons] at hlen hlen' hsame hy
      rw [length_cons] at hsame
      have hx := (htree.walk_level hsymm hwalk (by omega)).1
      have hx' := (htree.walk_level hsymm hwalk' (by omega)).1
      have hlens : path.length = path'.length := by omega
      rw [← hlens] at hx'
      obtain ⟨rfl, rfl⟩ := htree.single _ x x' y i i' hx hx' hy hlink hlink'
      rw [ih hwalk' (by omega) (by omega) hlens]

end Levels

variable {α : Type*} [DecidableEq α] {next : α → List (Option α)} {e : α} {depth : Nat}

theorem reaches_of_mem_visits {y : α} (hy : y ∈ visits next depth none e) :
    Relation.ReflTransGen (fun x y => some y ∈ next x) e y := by
  rw [visits_eq_walks depth []] at hy
  obtain ⟨⟨path, y'⟩, hin, rfl⟩ := List.mem_map.mp hy
  obtain ⟨extra, prev, -, -, hwalk⟩ := mem_walks.mp hin
  exact hwalk.steps.reaches

/-- Visiting every node that can be reached once, the search sees a tree. -/
theorem treeTo_of_once (honce : ∀ y, Relation.ReflTransGen (fun x y => some y ∈ next x) e y →
      (visits next depth none e).count y = 1) : TreeTo next e depth := by
  have hnear : ∀ n y, Level next e n y → n < depth := by
    intro n y hy
    obtain ⟨path, ⟨hlen, prev, hwalk⟩, -⟩ := count_visits_eq_one_iff.mp (honce y hy.1.reaches)
    by_contra hfar
    exact hy.2 path.length (by omega) hwalk.steps
  have hone : ∀ (y : α) {path path' : List Nat} {prev prev' : Option α},
      Walk next none e path prev y → Walk next none e path' prev' y → path.length < depth →
      path'.length < depth → path = path' := by
    intro y path path' prev prev' hwalk hwalk' hlen hlen'
    obtain ⟨_, -, hunique⟩ := count_visits_eq_one_iff.mp (honce y hwalk.steps.reaches)
    exact (hunique path ⟨hlen, prev, hwalk⟩).trans (hunique path' ⟨hlen', prev', hwalk'⟩).symm
  refine ⟨hnear, fun n x x' y i i' hx hx' hy hlink hlink' => ?_, fun n x y hn hx hy hlink => ?_⟩
  · obtain ⟨path, prev, hpath, hwalk⟩ := hx.walk
    obtain ⟨path', prev', hpath', hwalk'⟩ := hx'.walk
    have hlong := hwalk.extend hlink fun m hm => hy.2 m (by omega)
    have hlong' := hwalk'.extend hlink' fun m hm => hy.2 m (by omega)
    have hdepth := hnear (n + 1) y hy
    have hsame := hone y hlong hlong' (by rw [length_cons]; omega) (by rw [length_cons]; omega)
    obtain ⟨rfl, rfl⟩ := List.cons.inj hsame
    exact ⟨(hwalk.unique hwalk').2, rfl⟩
  · obtain ⟨path, prev, hpath, hwalk⟩ := hx.walk
    obtain ⟨path', prev', hpath', hwalk'⟩ := hy.walk
    obtain ⟨i, hi⟩ := mem_iff_getElem?.mp hlink
    have hlong := hwalk.extend hi fun m hm => hy.2 m (by omega)
    have hsame := hone y hlong hwalk' (by rw [length_cons]; omega) (by omega)
    have hlens := congrArg List.length hsame
    rw [length_cons] at hlens
    omega

variable (next e depth) in
theorem visits_once_iff (hsymm : ∀ x y, some y ∈ next x → some x ∈ next y) :
    (∀ y, Relation.ReflTransGen (fun x y => some y ∈ next x) e y →
      (visits next depth none e).count y = 1) ↔ TreeTo next e depth := by
  refine ⟨treeTo_of_once, fun htree y hreach => count_visits_eq_one_iff.mpr ?_⟩
  obtain ⟨n, hsteps⟩ := steps_of_reaches hreach
  obtain ⟨m, -, hy⟩ := hsteps.level
  obtain ⟨path, prev, hlen, hwalk⟩ := hy.walk
  have hnear := htree.near m y hy
  rw [← hlen] at hnear
  refine ⟨path, ⟨hnear, prev, hwalk⟩, ?_⟩
  rintro path' ⟨hlen', prev', hwalk'⟩
  exact htree.walk_unique hsymm hwalk' hwalk hlen' hnear

/-- A search only looks at the links of the nodes it visits. -/
theorem visits_congr {next' : α → List (Option α)} {prev : Option α} {x : α}
    (hsame : ∀ y ∈ visits next depth prev x, next' y = next y) :
    visits next' depth prev x = visits next depth prev x := by
  induction depth generalizing prev x with
  | zero => rfl
  | succ depth ih =>
    rw [visits, hsame x (mem_append_right _ (mem_singleton_self x))]
    congr 1
    refine flatMap_congr fun link hlink => ?_
    unfold behind
    rcases hfoll : follow prev link with _ | y
    · rfl
    obtain ⟨rfl, hback⟩ := follow_eq_some.mp hfoll
    refine ih fun z hz => hsame z (mem_append_left _ ?_)
    exact mem_flatMap.mpr ⟨some y, hlink, mem_behind.mpr ⟨y, rfl, hback, hz⟩⟩

end TbsMedia.Lib
