import TbsMedia.Lib.DepthFirst
import TbsMedia.Media.Entity

/-!
The graph walk as a depth-first search. The stack machine of
`media_entity_graph_walk_next` always ends, and gives the entities in the order in
which the search leaves them.
-/

namespace TbsMedia.Media

open Lib List

section Fuel

variable {α : Type} {loop : Nat → Option α} {result result' : α}

def Ends {α : Type} (loop : Nat → Option α) (result : α) : Prop :=
  ∃ n, ∀ fuel, n ≤ fuel → loop fuel = some result

theorem Ends.unique (hends : Ends loop result) (hends' : Ends loop result') : result = result' := by
  obtain ⟨n, hn⟩ := hends
  obtain ⟨n', hn'⟩ := hends'
  exact Option.some.inj ((hn (max n n') (le_max_left ..)).symm.trans
    (hn' (max n n') (le_max_right ..)))

theorem Ends.of_succ (n : Nat) (hsucc : ∀ fuel, n ≤ fuel → loop (fuel + 1) = some result) :
    Ends loop result := by
  refine ⟨n + 1, fun fuel hfuel => ?_⟩
  obtain ⟨fuel, rfl⟩ := Nat.exists_eq_add_of_le' (le_trans (Nat.le_add_left 1 n) hfuel)
  exact hsucc fuel (Nat.le_of_succ_le_succ hfuel)

end Fuel

variable {x : Nat}

section Links

def entry (g : Graph) (x i : Nat) : Option Nat :=
  if hasFlag (g.linkAt x i).flags linkEnabled then
    some (mediaEntityOther x (g.linkAt x i)) else none

def neighbours (g : Graph) (x : Nat) : List (Option Nat) :=
  (List.range (g.entity x).numLinks).map (entry g x)

/-- The entities that a walk from `x` gives. -/
def visited (g : Graph) (x : Nat) : List Nat :=
  visits (neighbours g) (mediaEntityEnumMaxDepth - 1) none x

theorem neighbours_getElem? (g : Graph) (x i : Nat) :
    (neighbours g x)[i]? = if i < (g.entity x).numLinks then some (entry g x i) else none := by
  rw [neighbours, List.getElem?_map]
  split_ifs with hi
  · rw [List.getElem?_range hi]
    rfl
  · rw [List.getElem?_eq_none (by simpa using hi)]
    rfl

theorem neighbours_drop {g : Graph} {i : Nat} (hi : i < (g.entity x).numLinks) :
    (neighbours g x).drop i = entry g x i :: (neighbours g x).drop (i + 1) := by
  have hlen : i < (neighbours g x).length := by simpa [neighbours] using hi
  rw [drop_eq_getElem_cons hlen]
  congr 1
  have hget := neighbours_getElem? g x i
  rw [if_pos hi, List.getElem?_eq_getElem hlen] at hget
  exact Option.some.inj hget

end Links

/-- `media_entity_graph_walk_next` gives an entity and leaves a stack behind. -/
inductive Gives (g : Graph) : List Frame → Nat → List Frame → Prop
  | pop {x link : Nat} {below : List Frame} (hend : (g.entity x).numLinks ≤ link) :
      Gives g (⟨x, link⟩ :: below) x below
  | pass {x link y : Nat} {below stack : List Frame} (hlink : link < (g.entity x).numLinks)
      (hfollow : follow (stackPeek below) (entry g x link) = none)
      (hgives : Gives g (⟨x, link + 1⟩ :: below) y stack) : Gives g (⟨x, link⟩ :: below) y stack
  | push {x link z y : Nat} {below stack : List Frame} (hlink : link < (g.entity x).numLinks)
      (hfollow : follow (stackPeek below) (entry g x link) = some z)
      (hgives : Gives g (stackPush (⟨x, link + 1⟩ :: below) z) y stack) :
      Gives g (⟨x, link⟩ :: below) y stack

variable {g : Graph}

theorem walkNext_frame (g : Graph) (fuel x link : Nat) (below : List Frame)
    (hlink : link < (g.entity x).numLinks) :
    mediaEntityGraphWalkNext g (fuel + 1) (⟨x, link⟩ :: below) =
      match follow (stackPeek below) (entry g x link) with
      | none => mediaEntityGraphWalkNext g fuel (⟨x, link + 1⟩ :: below)
      | some z => mediaEntityGraphWalkNext g fuel (stackPush (⟨x, link + 1⟩ :: below) z) := by
  rw [mediaEntityGraphWalkNext, if_pos hlink, entry]
  rcases henabled : hasFlag (g.linkAt x link).flags linkEnabled with _ | _
  · rfl
  rw [if_neg (by simp), if_pos rfl]
  by_cases hback : some (mediaEntityOther x (g.linkAt x link)) = stackPeek below
  · rw [if_pos hback, follow_of_eq hback]
  · rw [if_neg hback, follow_of_ne hback]

variable {stack : List Frame}

theorem Gives.walkNext {stack' : List Frame} {y : Nat} (hgives : Gives g stack y stack') :
    Ends (mediaEntityGraphWalkNext g · stack) (some y, stack') := by
  induction hgives with
  | @pop x link below hend =>
    refine .of_succ 0 fun fuel _ => ?_
    rw [mediaEntityGraphWalkNext, if_neg hend.not_gt]
  | pass hlink hfoll _ ih =>
    obtain ⟨n, hn⟩ := ih
    refine .of_succ n fun fuel hfuel => ?_
    rw [walkNext_frame g fuel _ _ _ hlink, hfoll]
    exact hn fuel hfuel
  | push hlink hfoll _ ih =>
    obtain ⟨n, hn⟩ := ih
    refine .of_succ n fun fuel hfuel => ?_
    rw [walkNext_frame g fuel _ _ _ hlink, hfoll]
    exact hn fuel hfuel

inductive Lists (g : Graph) : List Frame → List Nat → Prop
  | done : Lists g [] []
  | more {stack stack' : List Frame} {y : Nat} {rest : List Nat} (hgives : Gives g stack y stack')
      (hlists : Lists g stack' rest) : Lists g stack (y :: rest)

variable {below : List Frame} {out : List Nat}

theorem Lists.pass {link : Nat} (hlink : link < (g.entity x).numLinks)
    (hfoll : follow (stackPeek below) (entry g x link) = none)
    (hlists : Lists g (⟨x, link + 1⟩ :: below) out) : Lists g (⟨x, link⟩ :: below) out := by
  cases hlists with
  | more hgives hrest => exact .more (.pass hlink hfoll hgives) hrest

theorem Lists.push {link z : Nat} (hlink : link < (g.entity x).numLinks)
    (hfoll : follow (stackPeek below) (entry g x link) = some z)
    (hlists : Lists g (stackPush (⟨x, link + 1⟩ :: below) z) out) :
    Lists g (⟨x, link⟩ :: below) out := by
  generalize hstack : stackPush (⟨x, link + 1⟩ :: below) z = stack at hlists
  cases hlists with
  | done =>
    unfold stackPush at hstack
    split_ifs at hstack
  | more hgives hrest => exact .more (.push hlink hfoll (hstack ▸ hgives)) hrest

/-- The links of the top frame that are left, if what is pushed is searched. -/
theorem lists_links {depth : Nat} (hbelow : Lists g below out)
    (hpush : ∀ link z out', Lists g (⟨x, link⟩ :: below) out' →
      Lists g (stackPush (⟨x, link⟩ :: below) z)
        (visits (neighbours g) depth (some x) z ++ out')) (link : Nat) :
    Lists g (⟨x, link⟩ :: below) (((neighbours g x).drop link).flatMap
      (behind (visits (neighbours g) depth (some x)) (stackPeek below)) ++ x :: out) := by
  induction hleft : (g.entity x).numLinks - link generalizing link with
  | zero =>
    have hend : (g.entity x).numLinks ≤ link := by omega
    rw [drop_eq_nil_of_le (by simpa [neighbours] using hend)]
    exact .more (.pop hend) hbelow
  | succ left ih =>
    have hlink : link < (g.entity x).numLinks := by omega
    have hnext := ih (link + 1) (by omega)
    rw [neighbours_drop hlink, flatMap_cons, append_assoc]
    rcases hfoll : follow (stackPeek below) (entry g x link) with _ | z
    · simp only [behind, hfoll]
      exact .pass hlink hfoll hnext
    simp only [behind, hfoll]
    exact .push hlink hfoll (hpush (link + 1) z _ hnext)

/-- The machine searches what is pushed on the stack, to the depth that is left. -/
theorem lists_push (depth : Nat) (hdepth : stack.length + depth = mediaEntityEnumMaxDepth - 1)
    (hstack : Lists g stack out) :
    Lists g (stackPush stack x) (visits (neighbours g) depth (stackPeek stack) x ++ out) := by
  induction depth generalizing x stack out with
  | zero =>
    rw [Nat.add_zero] at hdepth
    rw [stackPush, if_pos hdepth]
    exact hstack
  | succ depth ih =>
    rw [stackPush, if_neg (by omega), visits, append_assoc]
    refine lists_links hstack (fun link z out' hlists => ?_) 0
    exact ih (by rw [length_cons]; omega) hlists

theorem lists_visited (g : Graph) (x : Nat) :
    Lists g (mediaEntityGraphWalkStart x) (visited g x) := by
  have hlists := lists_push (g := g) (mediaEntityEnumMaxDepth - 1) (x := x) rfl Lists.done
  rwa [append_nil] at hlists

theorem Lists.graphWalk (hlists : Lists g stack out) : Ends (graphWalk g · stack) out := by
  induction hlists with
  | done =>
    refine ⟨2, fun fuel hfuel => ?_⟩
    obtain ⟨fuel, rfl⟩ := Nat.exists_eq_add_of_le' hfuel
    rfl
  | more hgives _ ih =>
    obtain ⟨n, hn⟩ := hgives.walkNext
    obtain ⟨n', hn'⟩ := ih
    refine .of_succ (max n n') fun fuel hfuel => ?_
    simp [Media.graphWalk, hn fuel (by omega), hn' fuel (by omega)]

/-- The walk always ends, and gives what the search visits. -/
theorem graphWalk_eq (g : Graph) (x : Nat) :
    Ends (graphWalk g · (mediaEntityGraphWalkStart x)) (visited g x) :=
  (lists_visited g x).graphWalk

end TbsMedia.Media
