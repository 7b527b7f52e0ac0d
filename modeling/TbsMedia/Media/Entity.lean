import Mathlib.Tactic

/-!
Media entities and their links (`media-entity.c`): the graph walk, pipelines and
the set-up of links. Entities are known by number, arrays of links by allocation
number. Loops have fuel; `none` means that it was used up. What the notified
parties answer is an argument. Counters do not overflow here.
-/

namespace TbsMedia.Media

open Function

def einval : Int := -22

def ebusy : Int := -16

def enoioctlcmd : Int := -515

def linkEnabled : UInt32 := 1

def linkImmutable : UInt32 := 2

def linkDynamic : UInt32 := 4

def hasFlag (flags flag : UInt32) : Bool := flags &&& flag ≠ 0

/-- `struct media_pad`. -/
structure Pad where
  entity : Nat
  index : Nat
  deriving DecidableEq

structure LinkPtr where
  array : Nat
  index : Nat
  deriving DecidableEq

/-- `struct media_link`. -/
structure Link where
  source : Pad
  sink : Pad
  reverse : LinkPtr
  flags : UInt32
  deriving DecidableEq

/-- `struct media_entity`. `linkSetup` says whether there is such an operation. `increments`
is how often `stream_count` was incremented less how often it was decremented. -/
structure Entity where
  numLinks : Nat
  links : Nat
  linkSetup : Bool
  increments : Int
  pipe : Option Nat

/-- The `int` that `stream_count` is, which wraps. -/
def Entity.streamCount (entity : Entity) : Int := entity.increments.bmod (2 ^ 32)

structure Graph where
  entity : Nat → Entity
  link : Nat → Nat → Link
  linkNotify : Bool

def Graph.setEntity (g : Graph) (x : Nat) (entity : Entity) : Graph :=
  { g with entity := update g.entity x entity }

/-- `entity->links[i]`. -/
def Graph.linkAt (g : Graph) (x i : Nat) : Link := g.link (g.entity x).links i

section Walk

def mediaEntityOther (entity : Nat) (link : Link) : Nat :=
  if link.source.entity = entity then link.sink.entity else link.source.entity

def mediaEntityEnumMaxDepth : Nat := 16

structure Frame where
  entity : Nat
  link : Nat

/-- `stack_push`. The stack has the top first; below its end there is a frame with a
null pointer. -/
def stackPush (stack : List Frame) (entity : Nat) : List Frame :=
  if stack.length = mediaEntityEnumMaxDepth - 1 then stack else ⟨entity, 0⟩ :: stack

def mediaEntityGraphWalkStart (entity : Nat) : List Frame := stackPush [] entity

def stackPeek (below : List Frame) : Option Nat := below.head?.map Frame.entity

/-- `media_entity_graph_walk_next`: the entity, if there is one more. -/
def mediaEntityGraphWalkNext (g : Graph) : Nat → List Frame → Option (Option Nat × List Frame)
  | 0, _ => none
  | _ + 1, [] => some (none, [])
  | fuel + 1, ⟨entity, link⟩ :: below =>
    if link < (g.entity entity).numLinks then
      if hasFlag (g.linkAt entity link).flags linkEnabled = false then
        mediaEntityGraphWalkNext g fuel (⟨entity, link + 1⟩ :: below)
      else
        let next := mediaEntityOther entity (g.linkAt entity link)
        if some next = stackPeek below then
          mediaEntityGraphWalkNext g fuel (⟨entity, link + 1⟩ :: below)
        else mediaEntityGraphWalkNext g fuel (stackPush (⟨entity, link + 1⟩ :: below) next)
    else some (some entity, below)

def graphWalk (g : Graph) : Nat → List Frame → Option (List Nat)
  | 0, _ => none
  | fuel + 1, stack =>
    match mediaEntityGraphWalkNext g fuel stack with
    | none => none
    | some (none, _) => some []
    | some (some entity, stack) => (graphWalk g fuel stack).map (entity :: ·)

end Walk

section Pipelines

def pipelineLoop (update : Entity → Entity) : Nat → List Frame → Graph → Option Graph
  | 0, _, _ => none
  | fuel + 1, stack, g =>
    match mediaEntityGraphWalkNext g fuel stack with
    | none => none
    | some (none, _) => some g
    | some (some entity, stack) =>
      pipelineLoop update fuel stack (g.setEntity entity (update (g.entity entity)))

def markStreaming (pipe : Option Nat) (entity : Entity) : Entity :=
  { entity with increments := entity.increments + 1, pipe := pipe }

def mediaEntityPipelineStart (fuel : Nat) (g : Graph) (entity : Nat) (pipe : Option Nat) :
    Option Graph :=
  pipelineLoop (markStreaming pipe) fuel (mediaEntityGraphWalkStart entity) g

def markStopped (entity : Entity) : Entity :=
  let entity := { entity with increments := entity.increments - 1 }
  if entity.streamCount = 0 then { entity with pipe := none } else entity

def mediaEntityPipelineStop (fuel : Nat) (g : Graph) (entity : Nat) : Option Graph :=
  pipelineLoop markStopped fuel (mediaEntityGraphWalkStart entity) g

end Pipelines

/-- The calls of `link_notify` and of the entities' `link_setup`. -/
inductive Notice
  | linkNotify (source sink : Pad) (flags : UInt32)
  | linkSetup (pad remote : Pad) (flags : UInt32)
  deriving DecidableEq

structure SetupAnswers where
  linkNotify : Int
  sourceSetup : Int
  sinkSetup : Int

structure SetupResult where
  ret : Int
  notices : List Notice
  graph : Graph

def Graph.linkOf (g : Graph) (ptr : LinkPtr) : Link := g.link ptr.array ptr.index

/-- `link->flags = flags`. -/
def Graph.setFlags (g : Graph) (ptr : LinkPtr) (flags : UInt32) : Graph :=
  { g with link := update g.link ptr.array
             (update (g.link ptr.array) ptr.index { g.linkOf ptr with flags := flags }) }

/-- `media_entity_call` for `link_setup`. -/
def callLinkSetup (g : Graph) (pad remote : Pad) (flags : UInt32) (answer : Int) :
    Int × List Notice :=
  if (g.entity pad.entity).linkSetup then (answer, [.linkSetup pad remote flags])
  else (enoioctlcmd, [])

/-- `__media_entity_setup_link_notify`. -/
def mediaEntitySetupLinkNotify (g : Graph) (ptr : LinkPtr) (flags : UInt32)
    (answers : SetupAnswers) : SetupResult :=
  let link := g.linkOf ptr
  let (ret, first) := callLinkSetup g link.source link.sink flags answers.sourceSetup
  if ret < 0 ∧ ret ≠ enoioctlcmd then ⟨ret, first, g⟩
  else
    let (ret, second) := callLinkSetup g link.sink link.source flags answers.sinkSetup
    if ret < 0 ∧ ret ≠ enoioctlcmd then
      let (_, third) := callLinkSetup g link.source link.sink link.flags answers.sourceSetup
      ⟨ret, first ++ second ++ third, g⟩
    else ⟨0, first ++ second, (g.setFlags ptr flags).setFlags link.reverse flags⟩

/-- `__media_entity_setup_link`. -/
def mediaEntitySetupLink (g : Graph) (ptr : Option LinkPtr) (flags : UInt32)
    (answers : SetupAnswers) : SetupResult :=
  match ptr with
  | none => ⟨einval, [], g⟩
  | some ptr =>
    let link := g.linkOf ptr
    if link.flags &&& ~~~ linkEnabled ≠ flags &&& ~~~ linkEnabled then ⟨einval, [], g⟩
    else if hasFlag link.flags linkImmutable then
      ⟨if link.flags = flags then 0 else einval, [], g⟩
    else if link.flags = flags then ⟨0, [], g⟩
    else if hasFlag link.flags linkDynamic = false ∧
        ((g.entity link.source.entity).streamCount ≠ 0 ∨
          (g.entity link.sink.entity).streamCount ≠ 0) then ⟨ebusy, [], g⟩
    else
      let enable := hasFlag flags linkEnabled
      let before := if enable && g.linkNotify then
        [Notice.linkNotify link.source link.sink linkEnabled] else []
      if enable && g.linkNotify && answers.linkNotify < 0 then ⟨answers.linkNotify, before, g⟩
      else
        let result := mediaEntitySetupLinkNotify g ptr flags answers
        let undone := [Notice.linkNotify link.source link.sink 0]
        if result.ret < 0 then
          { result with
            notices := before ++ result.notices ++ if enable && g.linkNotify then undone else [] }
        else
          ⟨0, before ++ result.notices ++ if !enable && g.linkNotify then undone else [],
            result.graph⟩

end TbsMedia.Media
