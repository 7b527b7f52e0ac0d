import TbsMedia.Media.Walk

/-!
Pipelines. A start adds to the stream count of every entity as often as the walk
gives it, which is once for all connected ones only if they form a tree that is
not too deep. What starts add stops take away again, since links between entities
that stream stay as they are.
-/

namespace TbsMedia.Media

open Lib List Function

section Loops

structure SameLinks (g g' : Graph) : Prop where
  numLinks : ∀ x, (g'.entity x).numLinks = (g.entity x).numLinks
  links : ∀ x, (g'.entity x).links = (g.entity x).links
  link : g'.link = g.link

variable {g g' g'' : Graph}

theorem SameLinks.refl (g : Graph) : SameLinks g g := ⟨fun _ => rfl, fun _ => rfl, rfl⟩

theorem SameLinks.trans (hfirst : SameLinks g g') (hnext : SameLinks g' g'') : SameLinks g g'' :=
  ⟨fun x => (hnext.numLinks x).trans (hfirst.numLinks x),
    fun x => (hnext.links x).trans (hfirst.links x), hnext.link.trans hfirst.link⟩

section

variable (hsame : SameLinks g g')
include hsame

theorem SameLinks.linkAt (x i : Nat) : g'.linkAt x i = g.linkAt x i := by
  rw [Graph.linkAt, hsame.link, hsame.links, Graph.linkAt]

theorem SameLinks.entry (x i : Nat) : entry g' x i = entry g x i := by
  rw [Media.entry, hsame.linkAt, Media.entry]

theorem SameLinks.neighbours : neighbours g' = neighbours g := by
  funext x
  rw [Media.neighbours, hsame.numLinks]
  exact map_congr_left fun i _ => hsame.entry x i

theorem SameLinks.visited (x : Nat) : visited g' x = visited g x := by
  rw [Media.visited, hsame.neighbours, Media.visited]

theorem SameLinks.gives {stack stack' : List Frame} {y : Nat}
    (hgives : Gives g stack y stack') : Gives g' stack y stack' := by
  induction hgives with
  | pop hend => exact .pop (by rwa [hsame.numLinks])
  | pass hlink hfoll _ ih => exact .pass (by rwa [hsame.numLinks]) (by rwa [hsame.entry]) ih
  | push hlink hfoll _ ih => exact .push (by rwa [hsame.numLinks]) (by rwa [hsame.entry]) ih

end

def touch (update : Entity → Entity) (g : Graph) (x : Nat) : Graph :=
  g.setEntity x (update (g.entity x))

def KeepsLinks (update : Entity → Entity) : Prop :=
  ∀ entity, (update entity).numLinks = entity.numLinks ∧ (update entity).links = entity.links

variable {update : Entity → Entity}

theorem touch_self (g : Graph) (x : Nat) : (touch update g x).entity x = update (g.entity x) :=
  update_self ..

theorem touch_of_ne (g : Graph) {x y : Nat} (hne : y ≠ x) :
    (touch update g x).entity y = g.entity y :=
  update_of_ne hne ..

theorem touch_same (hkeeps : KeepsLinks update) (g : Graph) (x : Nat) :
    SameLinks g (touch update g x) := by
  refine ⟨fun y => ?_, fun y => ?_, rfl⟩
  · rcases eq_or_ne y x with rfl | hne
    · rw [touch_self]
      exact (hkeeps _).1
    · rw [touch_of_ne g hne]
  · rcases eq_or_ne y x with rfl | hne
    · rw [touch_self]
      exact (hkeeps _).2
    · rw [touch_of_ne g hne]

theorem foldl_touch_same (hkeeps : KeepsLinks update) (out : List Nat) (g : Graph) :
    SameLinks g (out.foldl (touch update) g) := by
  induction out generalizing g with
  | nil => exact .refl g
  | cons x rest ih => exact (touch_same hkeeps g x).trans (ih _)

theorem foldl_touch_entity (out : List Nat) (g : Graph) (y : Nat) :
    (out.foldl (touch update) g).entity y = update^[out.count y] (g.entity y) := by
  induction out generalizing g with
  | nil => rfl
  | cons x rest ih =>
    rw [foldl_cons, ih, count_cons]
    rcases eq_or_ne y x with rfl | hne
    · rw [touch_self, if_pos (by simp), iterate_succ_apply]
    · rw [touch_of_ne g hne, if_neg (by simpa using hne.symm), Nat.add_zero]

theorem Lists.pipelineLoop (hkeeps : KeepsLinks update) {stack : List Frame} {out : List Nat}
    (hlists : Lists g stack out) (hsame : SameLinks g g') :
    Ends (fun fuel => pipelineLoop update fuel stack g') (out.foldl (touch update) g') := by
  induction hlists generalizing g' with
  | done =>
    refine ⟨2, fun fuel hfuel => ?_⟩
    obtain ⟨fuel, rfl⟩ := Nat.exists_eq_add_of_le' hfuel
    rfl
  | @more stack stack' y rest hgives _ ih =>
    obtain ⟨n, hn⟩ := (hsame.gives hgives).walkNext
    obtain ⟨n', hn'⟩ := ih (hsame.trans (touch_same hkeeps g' y))
    refine .of_succ (max n n') fun fuel hfuel => ?_
    simp only [Media.pipelineLoop, hn fuel (by omega)]
    exact hn' fuel (by omega)

theorem markStreaming_keepsLinks (pipe : Option Nat) : KeepsLinks (markStreaming pipe) :=
  fun _ => ⟨rfl, rfl⟩

theorem markStopped_keepsLinks : KeepsLinks markStopped := by
  intro entity
  unfold markStopped
  dsimp only
  split_ifs <;> exact ⟨rfl, rfl⟩

theorem pipelineStart_ends (g : Graph) (e : Nat) (pipe : Option Nat) :
    Ends (fun fuel => mediaEntityPipelineStart fuel g e pipe)
      ((visited g e).foldl (touch (markStreaming pipe)) g) :=
  (lists_visited g e).pipelineLoop (markStreaming_keepsLinks pipe) (.refl g)

theorem pipelineStop_ends (g : Graph) (e : Nat) :
    Ends (fun fuel => mediaEntityPipelineStop fuel g e)
      ((visited g e).foldl (touch markStopped) g) :=
  (lists_visited g e).pipelineLoop markStopped_keepsLinks (.refl g)

theorem markStreaming_iterate (pipe : Option Nat) (entity : Entity) (n : Nat) :
    (markStreaming pipe)^[n] entity = { entity with
      increments := entity.increments + n, pipe := if n = 0 then entity.pipe else pipe } := by
  induction n with
  | zero => simp
  | succ n ih =>
    rw [iterate_succ_apply', ih, markStreaming]
    simp [Int.add_assoc]

variable (entity : Entity)

theorem markStopped_increments : (markStopped entity).increments = entity.increments - 1 := by
  unfold markStopped
  dsimp only
  split_ifs <;> rfl

theorem markStopped_pipe : (markStopped entity).pipe =
    if (entity.increments - 1).bmod (2 ^ 32) = 0 then none else entity.pipe := by
  unfold markStopped Entity.streamCount
  dsimp only
  split_ifs <;> rfl

theorem markStopped_iterate_increments (n : Nat) :
    (markStopped^[n] entity).increments = entity.increments - n := by
  induction n with
  | zero => simp
  | succ n ih =>
    rw [iterate_succ_apply', markStopped_increments, ih]
    omega

theorem markStopped_iterate_pipe (n : Nat) (hpipe : entity.increments = 0 → entity.pipe = none)
    (hzero : entity.increments - n = 0) : (markStopped^[n] entity).pipe = none := by
  rcases n with _ | n
  · exact hpipe (by omega)
  rw [iterate_succ_apply', markStopped_pipe, markStopped_iterate_increments]
  have hlast : entity.increments - n - 1 = 0 := by omega
  rw [hlast, if_pos (by decide)]

end Loops

section Start

def Linked (g : Graph) (x y : Nat) : Prop :=
  ∃ i, i < (g.entity x).numLinks ∧ hasFlag (g.linkAt x i).flags linkEnabled = true ∧
    mediaEntityOther x (g.linkAt x i) = y

def Connected (g : Graph) : Nat → Nat → Prop := Relation.ReflTransGen (Linked g)

/-- Every link is a link of the entity that it is in an array of, and has a reverse
link in the array of the entity at its other end. -/
def Paired (g : Graph) : Prop :=
  ∀ x i, i < (g.entity x).numLinks →
    ((g.linkAt x i).source.entity = x ∨ (g.linkAt x i).sink.entity = x) ∧
    ∃ j, j < (g.entity (mediaEntityOther x (g.linkAt x i))).numLinks ∧
      (g.linkAt x i).reverse = ⟨(g.entity (mediaEntityOther x (g.linkAt x i))).links, j⟩ ∧
      g.linkOf (g.linkAt x i).reverse =
        { g.linkAt x i with reverse := ⟨(g.entity x).links, i⟩ }

structure MarkedOnce (g g' : Graph) (e : Nat) (pipe : Option Nat) : Prop where
  connected : ∀ y, Connected g e y → g'.entity y =
    { g.entity y with increments := (g.entity y).increments + 1, pipe := pipe }
  other : ∀ y, ¬ Connected g e y → g'.entity y = g.entity y
  rest : g'.link = g.link ∧ g'.linkNotify = g.linkNotify

variable {g g' : Graph}

theorem mem_neighbours {x y : Nat} : some y ∈ neighbours g x ↔ Linked g x y := by
  simp only [neighbours, List.mem_map, mem_range, Linked, entry]
  refine exists_congr fun i => and_congr_right fun _ => ?_
  split_ifs with henabled
  · rw [Option.some_inj, and_iff_right henabled]
  · simp [henabled]

theorem neighbours_eq_linked (g : Graph) : (fun x y => some y ∈ neighbours g x) = Linked g := by
  funext x y
  exact propext mem_neighbours

theorem other_other {x : Nat} {link : Link} (hend : link.source.entity = x ∨ link.sink.entity = x) :
    mediaEntityOther (mediaEntityOther x link) link = x := by
  unfold mediaEntityOther
  by_cases hsrc : link.source.entity = x
  · rw [if_pos hsrc]
    split_ifs with hsink
    · rw [← hsink]
      exact hsrc
    · exact hsrc
  · rw [if_neg hsrc, if_pos rfl]
    exact hend.resolve_left hsrc

theorem Paired.linked_symm (hpaired : Paired g) {x y : Nat} (hlinked : Linked g x y) :
    Linked g y x := by
  obtain ⟨i, hi, henabled, rfl⟩ := hlinked
  obtain ⟨hend, j, hj, hptr, hrev⟩ := hpaired x i hi
  have hlink : g.linkAt (mediaEntityOther x (g.linkAt x i)) j =
      { g.linkAt x i with reverse := ⟨(g.entity x).links, i⟩ } := by
    rw [← hrev, hptr]
    rfl
  refine ⟨j, hj, ?_, ?_⟩
  · rw [hlink]
    exact henabled
  · rw [hlink]
    exact other_other hend

theorem foldl_touch_other (update : Entity → Entity) (out : List Nat) (g : Graph) :
    (out.foldl (touch update) g).link = g.link ∧
      (out.foldl (touch update) g).linkNotify = g.linkNotify := by
  induction out generalizing g with
  | nil => exact ⟨rfl, rfl⟩
  | cons x rest ih => exact ih (touch update g x)

theorem markedOnce_iff (g : Graph) (e : Nat) (pipe : Option Nat) :
    MarkedOnce g ((visited g e).foldl (touch (markStreaming pipe)) g) e pipe ↔
      ∀ y, Connected g e y → (visited g e).count y = 1 := by
  have hentity : ∀ y, ((visited g e).foldl (touch (markStreaming pipe)) g).entity y =
      { g.entity y with
        increments := (g.entity y).increments + (visited g e).count y
        pipe := if (visited g e).count y = 0 then (g.entity y).pipe else pipe } := by
    intro y
    rw [foldl_touch_entity, markStreaming_iterate]
  constructor
  · intro hmark y hy
    have hcount := congrArg Entity.increments ((hentity y).symm.trans (hmark.connected y hy))
    dsimp only at hcount
    omega
  intro honce
  refine ⟨fun y hy => ?_, fun y hy => ?_, foldl_touch_other ..⟩
  · rw [hentity y, honce y hy]
    rfl
  have hzero : (visited g e).count y = 0 := by
    refine count_eq_zero.mpr fun hin => hy ?_
    have hreach := reaches_of_mem_visits hin
    rwa [neighbours_eq_linked] at hreach
  rw [hentity y, hzero]
  simp

/-- A start marks every connected entity once if and only if these form a tree on
levels that the stack has room for. Counted are the increments of `stream_count`. -/
theorem pipeline_start_marks_once_iff (g : Graph) (hpaired : Paired g) (e : Nat)
    (pipe : Option Nat) :
    (∃ g', Ends (fun fuel => mediaEntityPipelineStart fuel g e pipe) g' ∧
      MarkedOnce g g' e pipe) ↔
      TreeTo (neighbours g) e (mediaEntityEnumMaxDepth - 1) := by
  have hends := pipelineStart_ends g e pipe
  have hsymm : ∀ x y, some y ∈ neighbours g x → some x ∈ neighbours g y := by
    intro x y hlink
    exact mem_neighbours.mpr (hpaired.linked_symm (mem_neighbours.mp hlink))
  have hiff := visits_once_iff (neighbours g) e (mediaEntityEnumMaxDepth - 1) hsymm
  rw [neighbours_eq_linked] at hiff
  rw [← hiff]
  constructor
  · rintro ⟨g', hends', hmarked⟩
    rw [hends'.unique hends] at hmarked
    exact (markedOnce_iff g e pipe).mp hmarked
  · intro honce
    exact ⟨_, hends, (markedOnce_iff g e pipe).mpr honce⟩

def linkedGraph (links : Nat → List Link) : Graph where
  entity := fun x => ⟨(links x).length, x, false, 0, none⟩
  link := fun x i => (links x).getD i ⟨⟨0, 0⟩, ⟨0, 0⟩, ⟨0, 0⟩, 0⟩
  linkNotify := false

def pairedBelow (g : Graph) (n : Nat) : Bool :=
  (List.range n).all fun x => (List.range (g.entity x).numLinks).all fun i =>
    let link := g.linkAt x i
    let other := mediaEntityOther x link
    decide (link.source.entity = x ∨ link.sink.entity = x) &&
      decide (link.reverse.index < (g.entity other).numLinks) &&
      decide (link.reverse.array = (g.entity other).links) &&
      decide (g.linkOf link.reverse = { link with reverse := ⟨(g.entity x).links, i⟩ })

theorem paired_of_below {n : Nat} (hnone : ∀ x, n ≤ x → (g.entity x).numLinks = 0)
    (hcheck : pairedBelow g n = true) : Paired g := by
  intro x i hi
  have hx : x < n := by
    by_contra hle
    rw [hnone x (by omega)] at hi
    exact absurd hi (Nat.not_lt_zero i)
  have hlink := List.all_eq_true.mp (List.all_eq_true.mp hcheck x (mem_range.mpr hx)) i
    (mem_range.mpr hi)
  simp only [Bool.and_eq_true, decide_eq_true_eq] at hlink
  obtain ⟨⟨⟨hend, hindex⟩, harray⟩, hrev⟩ := hlink
  exact ⟨hend, (g.linkAt x i).reverse.index, hindex, by rw [← harray], hrev⟩

def sensorAndBridge : Graph := linkedGraph fun
  | 0 => [⟨⟨0, 0⟩, ⟨1, 0⟩, ⟨1, 0⟩, linkEnabled⟩]
  | 1 => [⟨⟨0, 0⟩, ⟨1, 0⟩, ⟨0, 0⟩, linkEnabled⟩]
  | _ => []

theorem sensor_paired : Paired sensorAndBridge := by
  refine paired_of_below (n := 2) (fun x hx => ?_) (by decide)
  obtain ⟨x, rfl⟩ := Nat.exists_eq_add_of_le' hx
  rfl

theorem sensor_connected {y : Nat} (hy : Connected sensorAndBridge 0 y) : y = 0 ∨ y = 1 := by
  induction hy with
  | refl => exact .inl rfl
  | tail _ hlinked ih =>
    have hin := mem_neighbours.mpr hlinked
    rcases ih with rfl | rfl
    · exact .inr (Option.some.inj (mem_singleton.mp hin))
    · exact .inl (Option.some.inj (mem_singleton.mp hin))

/-- Both sides hold of a sensor and a bridge. -/
theorem pipeline_start_marks_once_sensor :
    Paired sensorAndBridge ∧
      (∃ g', Ends (fun fuel => mediaEntityPipelineStart fuel sensorAndBridge 0 (some 7)) g' ∧
        MarkedOnce sensorAndBridge g' 0 (some 7)) ∧
      TreeTo (neighbours sensorAndBridge) 0 (mediaEntityEnumMaxDepth - 1) := by
  have hmarks : ∃ g', Ends (fun fuel => mediaEntityPipelineStart fuel sensorAndBridge 0 (some 7))
      g' ∧ MarkedOnce sensorAndBridge g' 0 (some 7) := by
    refine ⟨_, pipelineStart_ends _ _ _, (markedOnce_iff ..).mpr fun y hy => ?_⟩
    rcases sensor_connected hy with rfl | rfl <;> decide
  exact ⟨sensor_paired, hmarks,
    (pipeline_start_marks_once_iff _ sensor_paired 0 (some 7)).mp hmarks⟩

def parallelLinks : Graph := linkedGraph fun
  | 0 => [⟨⟨0, 0⟩, ⟨1, 0⟩, ⟨1, 0⟩, linkEnabled⟩, ⟨⟨0, 1⟩, ⟨1, 1⟩, ⟨1, 1⟩, linkEnabled⟩]
  | 1 => [⟨⟨0, 0⟩, ⟨1, 0⟩, ⟨0, 0⟩, linkEnabled⟩, ⟨⟨0, 1⟩, ⟨1, 1⟩, ⟨0, 1⟩, linkEnabled⟩]
  | _ => []

def longChain : Graph := linkedGraph fun x =>
  (if x = 0 ∨ 15 < x then []
    else [⟨⟨x - 1, 1⟩, ⟨x, 0⟩, ⟨x - 1, if x = 1 then 0 else 1⟩, linkEnabled⟩]) ++
  if x < 15 then [⟨⟨x, 1⟩, ⟨x + 1, 0⟩, ⟨x + 1, 0⟩, linkEnabled⟩] else []

theorem longChain_connected (n : Nat) (hn : n ≤ 15) : Connected longChain 0 n := by
  induction n with
  | zero => exact Relation.ReflTransGen.refl
  | succ n ih =>
    refine (ih (by omega)).tail ?_
    have hlink : ∀ x < 15, some (x + 1) ∈ neighbours longChain x := by decide
    exact mem_neighbours.mp (hlink n (by omega))

/-- Two links count twice, and the end of a long chain is not reached. -/
theorem pipeline_start_marks_wrong :
    (Paired parallelLinks ∧ ∃ g',
      Ends (fun fuel => mediaEntityPipelineStart fuel parallelLinks 0 (some 7)) g' ∧
      (g'.entity 1).increments = 2 ∧ ¬ MarkedOnce parallelLinks g' 0 (some 7)) ∧
    Paired longChain ∧ Connected longChain 0 15 ∧ ∃ g',
      Ends (fun fuel => mediaEntityPipelineStart fuel longChain 0 (some 7)) g' ∧
      (g'.entity 15).increments = 0 ∧ ¬ MarkedOnce longChain g' 0 (some 7) := by
  have hcount : (((visited parallelLinks 0).foldl (touch (markStreaming (some 7)))
      parallelLinks).entity 1).increments = 2 := by decide
  have hcount' : (((visited longChain 0).foldl (touch (markStreaming (some 7)))
      longChain).entity 15).increments = 0 := by decide +kernel
  refine ⟨⟨paired_of_below (n := 2) (fun x hx => ?_) (by decide), _,
    pipelineStart_ends _ _ _, hcount, fun hmarked => ?_⟩,
    paired_of_below (n := 16) (fun x hx => ?_) (by decide +kernel),
    longChain_connected 15 (by decide),
    _, pipelineStart_ends _ _ _, hcount', fun hmarked => ?_⟩
  · obtain ⟨x, rfl⟩ := Nat.exists_eq_add_of_le' hx
    rfl
  · have hlinked : Linked parallelLinks 0 1 := mem_neighbours.mp (by decide)
    rw [hmarked.connected 1 (Relation.ReflTransGen.single hlinked)] at hcount
    exact absurd hcount (by decide)
  · change (List.length (_ ++ _)) = 0
    rw [if_pos (by omega), if_neg (by omega)]
    rfl
  · rw [hmarked.connected 15 (longChain_connected 15 (by decide))] at hcount'
    exact absurd hcount' (by decide)

end Start

structure Start where
  entity : Nat
  walk : List Nat

structure System where
  graph : Graph
  starts : List Start

/-- A start, a stop for an unmatched start at the same entity, or the set-up of a link
of the graph. -/
inductive Step : System → System → Prop
  | start {g g' : Graph} {starts : List Start} {e : Nat} {pipe : Option Nat} {walk : List Nat}
      (hwalk : Ends (fun fuel => graphWalk g fuel (mediaEntityGraphWalkStart e)) walk)
      (hstart : Ends (fun fuel => mediaEntityPipelineStart fuel g e pipe) g') :
      Step ⟨g, starts⟩ ⟨g', ⟨e, walk⟩ :: starts⟩
  | stop {g g' : Graph} {before after : List Start} {matched : Start}
      (hstop : Ends (fun fuel => mediaEntityPipelineStop fuel g matched.entity) g') :
      Step ⟨g, before ++ matched :: after⟩ ⟨g', before ++ after⟩
  | setupLink {g : Graph} {starts : List Start} (x i : Nat) (hi : i < (g.entity x).numLinks)
      (flags : UInt32) (answers : SetupAnswers) :
      Step ⟨g, starts⟩
        ⟨(mediaEntitySetupLink g (some ⟨(g.entity x).links, i⟩) flags answers).graph, starts⟩
  | setupNull {g : Graph} {starts : List Start} (flags : UInt32) (answers : SetupAnswers) :
      Step ⟨g, starts⟩ ⟨(mediaEntitySetupLink g none flags answers).graph, starts⟩

def Static (g : Graph) : Prop :=
  ∀ x i, i < (g.entity x).numLinks → hasFlag (g.linkAt x i).flags linkDynamic = false

def given (starts : List Start) (x : Nat) : Nat := (starts.map fun start => start.walk.count x).sum

structure SystemInv (s : System) : Prop where
  paired : Paired s.graph
  static : Static s.graph
  walks : ∀ start ∈ s.starts, start.walk = visited s.graph start.entity
  count : ∀ x, (s.graph.entity x).increments = given s.starts x
  pipe : ∀ x, (s.graph.entity x).increments = 0 → (s.graph.entity x).pipe = none

theorem given_cons (start : Start) (starts : List Start) (x : Nat) :
    given (start :: starts) x = start.walk.count x + given starts x := by
  simp [given]

theorem given_append (before after : List Start) (x : Nat) :
    given (before ++ after) x = given before x + given after x := by
  simp [given]

variable {starts : List Start}

theorem given_pos {start : Start} (hstart : start ∈ starts) {x : Nat} (hx : x ∈ start.walk) :
    0 < given starts x := by
  obtain ⟨before, after, rfl⟩ := append_of_mem hstart
  have hpos := count_pos_iff.mpr hx
  rw [given_append, given_cons]
  omega

variable {g g' : Graph}

theorem SameLinks.paired (hsame : SameLinks g g') (hpaired : Paired g) : Paired g' := by
  intro x i hi
  rw [hsame.numLinks] at hi
  rw [hsame.linkAt, hsame.links, hsame.links, hsame.numLinks, Graph.linkOf, hsame.link]
  exact hpaired x i hi

theorem SameLinks.static (hsame : SameLinks g g') (hstatic : Static g) : Static g' := by
  intro x i hi
  rw [hsame.numLinks] at hi
  rw [hsame.linkAt]
  exact hstatic x i hi

theorem SystemInv.start (hinv : SystemInv ⟨g, starts⟩) (e : Nat) (pipe : Option Nat) :
    SystemInv ⟨(visited g e).foldl (touch (markStreaming pipe)) g, ⟨e, visited g e⟩ :: starts⟩ := by
  have hsame := foldl_touch_same (markStreaming_keepsLinks pipe) (visited g e) g
  have hentity : ∀ x, ((visited g e).foldl (touch (markStreaming pipe)) g).entity x = _ := fun x =>
    (foldl_touch_entity (visited g e) g x).trans (markStreaming_iterate pipe _ _)
  refine ⟨hsame.paired hinv.paired, hsame.static hinv.static, fun start hstart => ?_, fun x => ?_,
    fun x hx => ?_⟩
  · rw [hsame.visited]
    rcases mem_cons.mp hstart with rfl | hstart
    · rfl
    · exact hinv.walks start hstart
  · have hcount := hinv.count x
    rw [hentity, given_cons, hcount]
    dsimp only
    omega
  · have hcount := hinv.count x
    dsimp only at hcount hx ⊢
    rw [hentity] at hx ⊢
    dsimp only at hx ⊢
    have hzero : (visited g e).count x = 0 := by omega
    rw [if_pos hzero]
    exact hinv.pipe x (by dsimp only; omega)

theorem SystemInv.stop {before after : List Start} {matched : Start}
    (hinv : SystemInv ⟨g, before ++ matched :: after⟩) :
    SystemInv ⟨(visited g matched.entity).foldl (touch markStopped) g, before ++ after⟩ := by
  have hsame := foldl_touch_same markStopped_keepsLinks (visited g matched.entity) g
  have hwalk := hinv.walks matched (by simp)
  have hcount : ∀ x, (g.entity x).increments =
      ((visited g matched.entity).count x + given (before ++ after) x : Nat) := by
    intro x
    have hcount := hinv.count x
    rw [given_append, given_cons, hwalk] at hcount
    rw [given_append]
    dsimp only at hcount
    omega
  refine ⟨hsame.paired hinv.paired, hsame.static hinv.static, fun start hstart => ?_, fun x => ?_,
    fun x hx => ?_⟩
  · dsimp only
    rw [hsame.visited]
    refine hinv.walks start ?_
    rcases mem_append.mp hstart with hin | hin
    · exact mem_append_left _ hin
    · exact mem_append_right _ (mem_cons_of_mem _ hin)
  · have hx := hcount x
    dsimp only
    rw [foldl_touch_entity, markStopped_iterate_increments]
    omega
  · dsimp only at hx ⊢
    rw [foldl_touch_entity, markStopped_iterate_increments] at hx
    rw [foldl_touch_entity]
    exact markStopped_iterate_pipe _ _ (hinv.pipe x) hx

def relinked (g : Graph) (ptr : LinkPtr) (flags : UInt32) : Graph :=
  (g.setFlags ptr flags).setFlags (g.linkOf ptr).reverse flags

section

variable (g : Graph) (ptr : LinkPtr) (flags : UInt32) (answers : SetupAnswers)

theorem setupLinkNotify_graph :
    (mediaEntitySetupLinkNotify g ptr flags answers).graph = g ∨
      (mediaEntitySetupLinkNotify g ptr flags answers).graph = relinked g ptr flags := by
  unfold mediaEntitySetupLinkNotify
  dsimp only
  split_ifs
  · exact .inl rfl
  · exact .inl rfl
  · exact .inr rfl

/-- A set-up changes flags only of a link that is dynamic or between idle entities, and
only the flag that says whether it is enabled. -/
theorem setupLink_graph :
    (mediaEntitySetupLink g (some ptr) flags answers).graph = g ∨
      ((mediaEntitySetupLink g (some ptr) flags answers).graph = relinked g ptr flags ∧
        (g.linkOf ptr).flags &&& ~~~ linkEnabled = flags &&& ~~~ linkEnabled ∧
        (hasFlag (g.linkOf ptr).flags linkDynamic = false →
          (g.entity (g.linkOf ptr).source.entity).streamCount = 0 ∧
            (g.entity (g.linkOf ptr).sink.entity).streamCount = 0)) := by
  have hnotify := setupLinkNotify_graph g ptr flags answers
  unfold mediaEntitySetupLink
  dsimp only
  split
  · exact .inl rfl
  rename_i hmask
  split
  · exact .inl rfl
  split
  · exact .inl rfl
  split
  · exact .inl rfl
  rename_i hbusy
  have hidle : hasFlag (g.linkOf ptr).flags linkDynamic = false →
      (g.entity (g.linkOf ptr).source.entity).streamCount = 0 ∧
        (g.entity (g.linkOf ptr).sink.entity).streamCount = 0 := by
    intro hstatic
    have hnot := not_or.mp fun hcount => hbusy ⟨hstatic, hcount⟩
    exact ⟨not_not.mp hnot.1, not_not.mp hnot.2⟩
  generalize mediaEntitySetupLinkNotify g ptr flags answers = result at hnotify
  have hdone : result.graph = g ∨ (result.graph = relinked g ptr flags ∧ _ ∧ _) :=
    hnotify.imp_right fun heq => ⟨heq, not_not.mp hmask, hidle⟩
  split
  · exact .inl rfl
  split
  all_goals exact hdone

end

theorem setFlags_linkOf (g : Graph) (ptr ptr' : LinkPtr) (flags : UInt32) :
    (g.setFlags ptr flags).linkOf ptr' =
      if ptr' = ptr then { g.linkOf ptr with flags := flags } else g.linkOf ptr' := by
  obtain ⟨a, i⟩ := ptr
  obtain ⟨a', i'⟩ := ptr'
  simp only [Graph.setFlags, Graph.linkOf, LinkPtr.mk.injEq]
  rcases eq_or_ne a' a with rfl | harray
  · rw [update_self]
    rcases eq_or_ne i' i with rfl | hindex
    · rw [update_self, if_pos ⟨rfl, rfl⟩]
    · rw [update_of_ne hindex, if_neg fun hboth => hindex hboth.2]
  · rw [update_of_ne harray, if_neg fun hboth => harray hboth.1]

theorem relinked_linkOf (g : Graph) (ptr ptr' : LinkPtr) (flags : UInt32) :
    (relinked g ptr flags).linkOf ptr' =
      if ptr' = ptr ∨ ptr' = (g.linkOf ptr).reverse then { g.linkOf ptr' with flags := flags }
      else g.linkOf ptr' := by
  rw [relinked, setFlags_linkOf]
  rcases eq_or_ne ptr' (g.linkOf ptr).reverse with rfl | hrev
  · rw [if_pos rfl, if_pos (.inr rfl), setFlags_linkOf]
    split_ifs with hself
    · rw [hself]
    · rfl
  · rw [if_neg hrev, setFlags_linkOf]
    rcases eq_or_ne ptr' ptr with rfl | hne
    · rw [if_pos rfl, if_pos (.inl rfl)]
    · rw [if_neg hne, if_neg (by simp [hne, hrev])]

theorem relinked_linkAt (g : Graph) (x i : Nat) (ptr : LinkPtr) (flags : UInt32) :
    (relinked g ⟨(g.entity x).links, i⟩ flags).linkOf ptr =
      if ptr = ⟨(g.entity x).links, i⟩ ∨ ptr = (g.linkAt x i).reverse then
        { g.linkOf ptr with flags := flags }
      else g.linkOf ptr :=
  relinked_linkOf g ⟨(g.entity x).links, i⟩ ptr flags

section Relinked

variable {x i : Nat} (hpaired : Paired g) (hi : i < (g.entity x).numLinks)

include hpaired hi

theorem Paired.reverse_reverse :
    (g.linkOf (g.linkOf ⟨(g.entity x).links, i⟩).reverse).reverse = ⟨(g.entity x).links, i⟩ := by
  obtain ⟨-, j, -, -, hrev⟩ := hpaired x i hi
  exact congrArg Link.reverse hrev

/-- A link is one of the two directions if and only if its reverse is. -/
theorem Paired.reverse_changed {x' i' : Nat} (hi' : i' < (g.entity x').numLinks) :
    ((g.linkAt x' i').reverse = ⟨(g.entity x).links, i⟩ ∨
        (g.linkAt x' i').reverse = (g.linkAt x i).reverse) ↔
      ((⟨(g.entity x').links, i'⟩ : LinkPtr) = ⟨(g.entity x).links, i⟩ ∨
        (⟨(g.entity x').links, i'⟩ : LinkPtr) = (g.linkAt x i).reverse) := by
  have hback := hpaired.reverse_reverse hi
  have hback' := hpaired.reverse_reverse hi'
  change (g.linkOf (g.linkAt x i).reverse).reverse = _ at hback
  change (g.linkOf (g.linkAt x' i').reverse).reverse = _ at hback'
  constructor
  · rintro (heq | heq)
    · rw [heq] at hback'
      exact .inr hback'.symm
    · rw [heq, hback] at hback'
      exact .inl hback'.symm
  · rintro (heq | heq)
    · have hlink : g.linkAt x' i' = g.linkAt x i := congrArg g.linkOf heq
      exact .inr (by rw [hlink])
    · have hlink : g.linkAt x' i' = g.linkOf (g.linkAt x i).reverse := congrArg g.linkOf heq
      exact .inl (by rw [hlink, hback])

theorem Paired.relinked (flags : UInt32) : Paired (relinked g ⟨(g.entity x).links, i⟩ flags) := by
  intro x' i' hi'
  obtain ⟨hend, j, hj, hptr, hrev⟩ := hpaired x' i' hi'
  have hchange := hpaired.reverse_changed hi hi'
  have hlink := relinked_linkAt g x i ⟨(g.entity x').links, i'⟩ flags
  have hback := relinked_linkAt g x i (g.linkAt x' i').reverse flags
  change (Media.relinked g _ flags).linkAt x' i' = _ at hlink
  rw [hrev] at hback
  split_ifs at hlink with hpart
  · rw [if_pos (hchange.mpr hpart)] at hback
    rw [hlink]
    exact ⟨hend, j, hj, hptr, hback⟩
  · rw [if_neg fun hboth => hpart (hchange.mp hboth)] at hback
    rw [hlink]
    exact ⟨hend, j, hj, hptr, hback⟩

omit hpaired hi in
theorem hasFlag_dynamic {flags flags' : UInt32}
    (hmask : flags &&& ~~~ linkEnabled = flags' &&& ~~~ linkEnabled) :
    hasFlag flags linkDynamic = hasFlag flags' linkDynamic := by
  have hpart : ~~~ linkEnabled &&& linkDynamic = linkDynamic := by decide
  have hsplit : ∀ f : UInt32, f &&& linkDynamic = (f &&& ~~~ linkEnabled) &&& linkDynamic := by
    intro f
    rw [UInt32.and_assoc, hpart]
  rw [hasFlag, hasFlag, hsplit flags, hsplit flags', hmask]

omit hpaired in
theorem Static.relinked (hstatic : Static g) {flags : UInt32}
    (hmask : (g.linkAt x i).flags &&& ~~~ linkEnabled = flags &&& ~~~ linkEnabled) :
    Static (Media.relinked g ⟨(g.entity x).links, i⟩ flags) := by
  intro x' i' hi'
  have hlink := relinked_linkAt g x i ⟨(g.entity x').links, i'⟩ flags
  change (Media.relinked g _ flags).linkAt x' i' = _ at hlink
  rw [hlink]
  split_ifs
  · rw [← hasFlag_dynamic hmask]
    exact hstatic x i hi
  · exact hstatic x' i' hi'

theorem Paired.neighbours_relinked {flags : UInt32}
    (hsrc : (g.entity (g.linkAt x i).source.entity).streamCount = 0)
    (hsink : (g.entity (g.linkAt x i).sink.entity).streamCount = 0) {y : Nat}
    (hy : (g.entity y).streamCount ≠ 0) :
    neighbours (Media.relinked g ⟨(g.entity x).links, i⟩ flags) y = neighbours g y := by
  refine map_congr_left fun k hk => ?_
  have hk := mem_range.mp hk
  have hlink := relinked_linkAt g x i ⟨(g.entity y).links, k⟩ flags
  change (Media.relinked g _ flags).linkAt y k = _ at hlink
  have hnot : ¬ ((⟨(g.entity y).links, k⟩ : LinkPtr) = ⟨(g.entity x).links, i⟩ ∨
      (⟨(g.entity y).links, k⟩ : LinkPtr) = (g.linkAt x i).reverse) := by
    intro hpart
    obtain ⟨-, j, -, -, hrev⟩ := hpaired x i hi
    have hpads : (g.linkAt y k).source = (g.linkAt x i).source ∧
        (g.linkAt y k).sink = (g.linkAt x i).sink := by
      rcases hpart with heq | heq
      · have hsame : g.linkAt y k = g.linkAt x i := congrArg g.linkOf heq
        rw [hsame]
        exact ⟨rfl, rfl⟩
      · have hsame : g.linkAt y k = g.linkOf (g.linkAt x i).reverse := congrArg g.linkOf heq
        rw [hsame, hrev]
        exact ⟨rfl, rfl⟩
    rcases (hpaired y k hk).1 with hend | hend
    · rw [hpads.1] at hend
      exact hy (hend ▸ hsrc)
    · rw [hpads.2] at hend
      exact hy (hend ▸ hsink)
  rw [if_neg hnot] at hlink
  rw [entry, hlink]
  rfl

end Relinked

/-- No sum of the unmatched starts is too large for an `int`. -/
def Fits (starts : List Start) : Prop := ∀ x, given starts x < 2 ^ 31

theorem SystemInv.streamCount_eq_iff {s : System} (hinv : SystemInv s) (x : Nat) :
    (s.graph.entity x).streamCount = given s.starts x ↔ given s.starts x < 2 ^ 31 := by
  rw [Entity.streamCount, hinv.count x, Int.bmod]
  split_ifs <;> omega

theorem SystemInv.setupLink (hinv : SystemInv ⟨g, starts⟩) (hfits : Fits starts) {x i : Nat}
    (hi : i < (g.entity x).numLinks) (flags : UInt32) (answers : SetupAnswers) :
    SystemInv
      ⟨(mediaEntitySetupLink g (some ⟨(g.entity x).links, i⟩) flags answers).graph, starts⟩ := by
  rcases setupLink_graph g ⟨(g.entity x).links, i⟩ flags answers with
    heq | ⟨heq, hmask, hidle⟩
  · rw [heq]
    exact hinv
  obtain ⟨hsrc, hsink⟩ := hidle (hinv.static x i hi)
  rw [heq]
  refine ⟨hinv.paired.relinked hi flags, .relinked hi hinv.static hmask,
    fun start hstart => ?_, hinv.count, hinv.pipe⟩
  refine (hinv.walks start hstart).trans (visits_congr fun y hy => ?_).symm
  refine hinv.paired.neighbours_relinked hi hsrc hsink ?_
  have hcount : (g.entity y).streamCount = given starts y :=
    (hinv.streamCount_eq_iff y).mpr (hfits y)
  have hpos : 0 < given starts y := given_pos hstart ((hinv.walks start hstart).symm ▸ hy)
  rw [hcount]
  omega

theorem Step.inv {s s' : System} (hstep : Step s s') (hfits : Fits s.starts)
    (hinv : SystemInv s) : SystemInv s' := by
  cases hstep with
  | @start g g' starts e pipe walk hwalk hstart =>
    rw [hwalk.unique (graphWalk_eq g e), hstart.unique (pipelineStart_ends g e pipe)]
    exact hinv.start e pipe
  | @stop g g' before after matched hstop =>
    rw [hstop.unique (pipelineStop_ends g matched.entity)]
    exact hinv.stop
  | setupLink x i hi flags answers => exact hinv.setupLink hfits hi flags answers
  | setupNull flags answers => exact hinv

/-- Over any run from an idle graph without dynamic links, as long as no sum has been too large
before, every stream count is the number of times the walks of the unmatched starts gave the
entity if and only if these numbers fit in an `int`. The walks of these starts would go the
same way again, and nothing is left once every start is matched. -/
theorem stream_count_balanced (g : Graph) (hpaired : Paired g) (hstatic : Static g)
    (hidle : ∀ x, (g.entity x).increments = 0 ∧ (g.entity x).pipe = none) (s : System)
    (hrun : Relation.ReflTransGen (fun s s' => Fits s.starts ∧ Step s s') ⟨g, []⟩ s) :
    ((∀ x, (s.graph.entity x).streamCount = given s.starts x) ↔ Fits s.starts) ∧
    (∀ start ∈ s.starts,
      Ends (fun fuel => graphWalk s.graph fuel (mediaEntityGraphWalkStart start.entity))
        start.walk) ∧
    (Fits s.starts → ∀ x, 0 ≤ (s.graph.entity x).streamCount) ∧
    (s.starts = [] → ∀ x, (s.graph.entity x).streamCount = 0 ∧ (s.graph.entity x).pipe = none) := by
  have hinv : SystemInv s := by
    induction hrun with
    | refl =>
      exact ⟨hpaired, hstatic, fun start hstart => by simp at hstart, fun x => (hidle x).1,
        fun x _ => (hidle x).2⟩
    | tail _ hstep ih => exact hstep.2.inv hstep.1 ih
  refine ⟨forall_congr' hinv.streamCount_eq_iff, fun start hstart => ?_, fun hfits x => ?_,
    fun hnone x => ?_⟩
  · rw [hinv.walks start hstart]
    exact graphWalk_eq s.graph start.entity
  · rw [(hinv.streamCount_eq_iff x).mpr (hfits x)]
    exact Int.natCast_nonneg _
  · have hzero : (s.graph.entity x).increments = 0 := by
      rw [hinv.count x, hnone]
      rfl
    exact ⟨by rw [Entity.streamCount, hzero]; rfl, hinv.pipe x hzero⟩

theorem stream_count_balanced_sensor :
    ∃ s s', Step ⟨sensorAndBridge, []⟩ s ∧ Step s s' ∧ (s.graph.entity 1).streamCount = 1 ∧
      s.starts ≠ [] ∧ s'.starts = [] ∧
      ∀ x, (s'.graph.entity x).streamCount = 0 ∧ (s'.graph.entity x).pipe = none := by
  have hstart : Step ⟨sensorAndBridge, []⟩ ⟨_, [⟨0, visited sensorAndBridge 0⟩]⟩ :=
    Step.start (graphWalk_eq sensorAndBridge 0)
      (pipelineStart_ends sensorAndBridge 0 (some 7))
  have hstop : Step ⟨_, [] ++ ⟨0, visited sensorAndBridge 0⟩ :: []⟩ ⟨_, [] ++ []⟩ :=
    Step.stop (pipelineStop_ends
      ((visited sensorAndBridge 0).foldl (touch (markStreaming (some 7))) sensorAndBridge) 0)
  refine ⟨_, _, hstart, hstop, by decide, by simp, rfl, ?_⟩
  have hfits : Fits [⟨0, visited sensorAndBridge 0⟩] := by
    intro x
    have hle : (visited sensorAndBridge 0).count x ≤ 2 := count_le_length
    rw [given_cons, given, map_nil, sum_nil]
    dsimp only
    omega
  refine (stream_count_balanced sensorAndBridge sensor_paired ?_ (fun x => ⟨rfl, rfl⟩) _
    ((Relation.ReflTransGen.single ⟨fun x => by simp [given], hstart⟩).tail
      ⟨hfits, hstop⟩)).2.2.2 rfl
  intro x i hi
  match x, hi with
  | 0, hi =>
    obtain rfl : i = 0 := Nat.lt_one_iff.mp hi
    decide
  | 1, hi =>
    obtain rfl : i = 0 := Nat.lt_one_iff.mp hi
    decide
  | x + 2, hi => exact absurd hi (Nat.not_lt_zero i)

/-- One entity without links. -/
def aloneEntity : Graph := linkedGraph fun _ => []

theorem alone_started (n : Nat) : ∃ s : System, SameLinks aloneEntity s.graph ∧
    Relation.ReflTransGen Step ⟨aloneEntity, []⟩ s ∧ (s.graph.entity 0).increments = n ∧
    given s.starts 0 = n := by
  induction n with
  | zero => exact ⟨⟨aloneEntity, []⟩, .refl _, .refl, rfl, rfl⟩
  | succ n ih =>
    obtain ⟨⟨g, starts⟩, hsame, hrun, hcount, hgiven⟩ := ih
    have hvisited : visited g 0 = [0] := hsame.visited 0
    have hstart : Step ⟨g, starts⟩ _ := .start (graphWalk_eq g 0) (pipelineStart_ends g 0 none)
    rw [hvisited] at hstart
    refine ⟨_, hsame.trans (foldl_touch_same (markStreaming_keepsLinks none) [0] g),
      hrun.tail hstart, ?_, ?_⟩
    · rw [foldl_touch_entity, markStreaming_iterate]
      simpa using hcount
    · rw [given_cons, hgiven]
      exact Nat.add_comm ..

/-- After 2^31 starts without a stop the count is negative. -/
theorem stream_count_negative :
    Paired aloneEntity ∧ Static aloneEntity ∧
      (∀ x, (aloneEntity.entity x).increments = 0 ∧ (aloneEntity.entity x).pipe = none) ∧
      ∃ s, Relation.ReflTransGen Step ⟨aloneEntity, []⟩ s ∧
        (s.graph.entity 0).streamCount = -2147483648 ∧ given s.starts 0 = 2147483648 := by
  obtain ⟨s, -, hrun, hcount, hgiven⟩ := alone_started 2147483648
  refine ⟨nofun, nofun, fun x => ⟨rfl, rfl⟩, s, hrun, ?_, hgiven⟩
  rw [Entity.streamCount, hcount]
  norm_num [Int.bmod]

end TbsMedia.Media
