import Mathlib.Tactic

/-!
A buffer queue of videobuf2 (`videobuf2-core.c`), without its emulation of file
I/O. A buffer is known by the number of its allocation, so an entry of a list
that outlives its buffer stays recognisable. What the callbacks of the driver
and of the memory allocator answer is given with each call. `none` is an access
to a buffer that has been freed.
-/

namespace TbsMedia.Vb2

open Function

def eagain : Int := -11

def enomem : Int := -12

def ebusy : Int := -16

def einval : Int := -22

def erestartsys : Int := -512

def videoMaxFrame : Nat := 32

def videoMaxPlanes : Nat := 8

inductive BufType
  | videoCapture | videoOutput | videoOverlay | vbiCapture | vbiOutput
  | slicedVbiCapture | slicedVbiOutput | videoOutputOverlay
  | videoCaptureMplane | videoOutputMplane | private_
  deriving DecidableEq

def BufType.isMultiplanar : BufType → Bool
  | videoCaptureMplane | videoOutputMplane => true
  | _ => false

def BufType.isOutput : BufType → Bool
  | videoOutput | videoOutputMplane | videoOverlay | videoOutputOverlay
  | vbiOutput | slicedVbiOutput => true
  | _ => false

/-- `enum v4l2_memory`; `unset` is the zero that a freed queue holds. -/
inductive Memory
  | unset | mmap | userptr | overlay
  deriving DecidableEq

inductive BufState
  | dequeued | queued | active | done | error
  deriving DecidableEq

/-- The private data of an allocator: video memory, or a mapping of user memory
by its number. -/
inductive MemPriv
  | video
  | user (mapping : Nat)
  deriving DecidableEq

/-- The part of `struct v4l2_plane` that says which user memory is meant. `m` is
the union of `userptr` and `mem_offset`. -/
structure V4l2Plane where
  m : Nat
  length : Nat
  deriving DecidableEq

/-- An entry of `planes` and the entry of `v4l2_planes` beside it. -/
structure Plane where
  memPriv : Option MemPriv
  v4l2 : V4l2Plane

structure Vb2Buffer where
  state : BufState
  numPlanes : Nat
  planes : Nat → Plane

/-- What `get_userptr` was asked for, mapping by mapping, and what `put_userptr`
was called with. -/
structure Mappings where
  got : List V4l2Plane
  put : List (Option MemPriv)

/-- `struct vb2_queue` and the memory of its buffers; `bufs` lists
`bufs[0 .. num_buffers)`, and `fresh` numbers the next allocation. -/
structure Vb2Queue where
  type : BufType
  mmapOps : Bool
  userptrOps : Bool
  memory : Memory
  bufs : List Nat
  queuedList : List Nat
  doneList : List Nat
  queuedCount : Int
  streaming : Bool
  vb : Nat → Vb2Buffer
  fresh : Nat
  maps : Mappings

def Vb2Queue.setState (q : Vb2Queue) (p : Nat) (state : BufState) : Vb2Queue :=
  { q with vb := update q.vb p { q.vb p with state := state } }

def Mappings.getUserptr (maps : Mappings) (plane : V4l2Plane) : Mappings :=
  { maps with got := maps.got ++ [plane] }

def Mappings.putUserptr (maps : Mappings) (memPriv : Option MemPriv) : Mappings :=
  { maps with put := maps.put ++ [memPriv] }

def zeroedPlane : Plane := ⟨none, ⟨0, 0⟩⟩

/-- `vb2_queue_init` on a zeroed queue. -/
def vb2QueueInit (type : BufType) (mmapOps userptrOps : Bool) : Vb2Queue where
  type := type
  mmapOps := mmapOps
  userptrOps := userptrOps
  memory := .unset
  bufs := []
  queuedList := []
  doneList := []
  queuedCount := 0
  streaming := false
  vb := fun _ => ⟨.dequeued, 0, fun _ => zeroedPlane⟩
  fresh := 0
  maps := ⟨[], []⟩

/-- `__vb2_buf_mem_alloc`; `alloc` says for which planes the allocator has memory. -/
def vb2BufMemAlloc (planeSizes : Nat → Nat) (alloc : Nat → Bool) :
    Nat → Nat → (Nat → Plane) → Option (Nat → Plane)
  | 0, _, planes => some planes
  | todo + 1, plane, planes =>
    if alloc plane then
      vb2BufMemAlloc planeSizes alloc todo (plane + 1) (update planes plane
          { memPriv := some .video,
            v4l2 := { (planes plane).v4l2 with length := planeSizes plane } })
    else none

/-- `__vb2_buf_userptr_put`. -/
def vb2BufUserptrPut : Nat → Nat → (Nat → Plane) → Mappings → Mappings
  | 0, _, _, maps => maps
  | todo + 1, plane, planes, maps =>
    vb2BufUserptrPut todo (plane + 1) planes
      (if (planes plane).memPriv.isSome then maps.putUserptr (planes plane).memPriv else maps)

def pageAlign (off : Nat) : Nat := (off + 4095) / 4096 * 4096

def setupPlaneOffsets : Nat → Nat → Nat → (Nat → Plane) → (Nat → Plane) × Nat
  | 0, _, off, planes => (planes, off)
  | todo + 1, plane, off, planes =>
    let p := planes plane
    setupPlaneOffsets todo (plane + 1) (pageAlign (off + p.v4l2.length))
      (update planes plane { p with v4l2 := { p.v4l2 with m := off % 2 ^ 32 } })

/-- `__setup_offsets`. -/
def setupOffsets : List Nat → Nat → (Nat → Vb2Buffer) → (Nat → Vb2Buffer)
  | [], _, vb => vb
  | p :: rest, off, vb =>
    let (planes, off) := setupPlaneOffsets (vb p).numPlanes 0 off (vb p).planes
    setupOffsets rest off (update vb p { vb p with planes := planes })

structure BufferAnswers where
  kzalloc : Bool
  alloc : Nat → Bool
  bufInit : Int

/-- One round of the loop of `__vb2_queue_alloc`; `none` leaves the loop. -/
def allocBuffer (memory : Memory) (numPlanes : Nat) (planeSizes : Nat → Nat)
    (answers : BufferAnswers) : Option Vb2Buffer :=
  if answers.kzalloc = false then none
  else if memory = .mmap then
    match vb2BufMemAlloc planeSizes answers.alloc numPlanes 0 (fun _ => zeroedPlane) with
    | none => none
    | some planes =>
      if answers.bufInit ≠ 0 then none else some ⟨.dequeued, numPlanes, planes⟩
  else some ⟨.dequeued, numPlanes, fun _ => zeroedPlane⟩

def allocBuffers (memory : Memory) (numPlanes : Nat) (planeSizes : Nat → Nat)
    (answers : Nat → BufferAnswers) : Nat → Nat → Vb2Queue → List Nat × Vb2Queue
  | 0, _, q => ([], q)
  | todo + 1, buffer, q =>
    match allocBuffer memory numPlanes planeSizes (answers buffer) with
    | none => ([], q)
    | some vb =>
      let (rest, q') := allocBuffers memory numPlanes planeSizes answers todo (buffer + 1)
        { q with vb := update q.vb q.fresh vb, fresh := q.fresh + 1 }
      (q.fresh :: rest, q')

/-- `__vb2_queue_alloc`; the number of buffers it returns is the length of `bufs`. -/
def vb2QueueAlloc (q : Vb2Queue) (memory : Memory) (numBuffers numPlanes : Nat)
    (planeSizes : Nat → Nat) (answers : Nat → BufferAnswers) : Vb2Queue :=
  let (bufs, q) := allocBuffers memory numPlanes planeSizes answers numBuffers 0 q
  { q with bufs := bufs, vb := setupOffsets bufs 0 q.vb }

/-- `__vb2_free_mem`. Video memory goes back to the allocator without a record. -/
def vb2FreeMem (q : Vb2Queue) : Mappings :=
  if q.memory = .mmap then q.maps
  else q.bufs.foldl
    (fun maps p => vb2BufUserptrPut (q.vb p).numPlanes 0 (q.vb p).planes maps) q.maps

/-- `__vb2_queue_free`. -/
def vb2QueueFree (q : Vb2Queue) : Vb2Queue :=
  { q with maps := vb2FreeMem q, bufs := [], memory := .unset }

/-- `__buffers_in_use`; `numUsers` is the allocator's count of a plane's users. -/
def buffersInUse (q : Vb2Queue) (numUsers : Nat → Nat → Nat) : Bool :=
  q.bufs.any fun p => (List.range (q.vb p).numPlanes).any fun plane => 1 < numUsers p plane

structure QueueSetup where
  ret : Int
  numBuffers : Nat
  numPlanes : Nat
  planeSizes : Nat → Nat

structure RequestBuffers where
  count : Nat
  type : BufType
  memory : Memory

/-- The answers during `vb2_reqbufs`; `queue_setup` is asked with a number of
buffers, and asked again when fewer could be allocated. -/
structure ReqbufsAnswers where
  numUsers : Nat → Nat → Nat
  queueSetup : Nat → QueueSetup
  buffers : Nat → BufferAnswers
  queueSetupAgain : Nat → QueueSetup

/-- The part of `vb2_reqbufs` from `q->memory = req->memory` on. The middle
component is what is left in `req->count`. -/
def requestBuffers (q : Vb2Queue) (req : RequestBuffers) (answers : ReqbufsAnswers) :
    Int × Nat × Vb2Queue :=
  let q := { q with memory := req.memory }
  let setup := answers.queueSetup (min req.count videoMaxFrame)
  if setup.ret ≠ 0 then (setup.ret, req.count, q)
  else
    let q := vb2QueueAlloc q req.memory setup.numBuffers setup.numPlanes setup.planeSizes
      answers.buffers
    let allocated := q.bufs.length
    if allocated = 0 then (enomem, req.count, q)
    else if allocated < setup.numBuffers then
      let again := answers.queueSetupAgain allocated
      if again.ret ≠ 0 then (again.ret, req.count, vb2QueueFree q)
      else if allocated < again.numBuffers then (enomem, req.count, vb2QueueFree q)
      else (0, again.numBuffers, q)
    else (0, allocated, q)

def vb2Reqbufs (q : Vb2Queue) (req : RequestBuffers) (answers : ReqbufsAnswers) :
    Int × Nat × Vb2Queue :=
  if req.memory ≠ .mmap ∧ req.memory ≠ .userptr then (einval, req.count, q)
  else if req.type ≠ q.type then (einval, req.count, q)
  else if q.streaming then (ebusy, req.count, q)
  else if req.memory = .mmap ∧ q.mmapOps = false then (einval, req.count, q)
  else if req.memory = .userptr ∧ q.userptrOps = false then (einval, req.count, q)
  else if req.count = 0 ∨ q.bufs ≠ [] ∨ q.memory ≠ req.memory then
    if q.memory = .mmap ∧ buffersInUse q answers.numUsers then (ebusy, req.count, q)
    else if req.count = 0 then (0, 0, vb2QueueFree q)
    else requestBuffers (vb2QueueFree q) req answers
  else requestBuffers q req answers

def vb2BufferDone (q : Vb2Queue) (p : Nat) (state : BufState) : Option Vb2Queue :=
  if p ∉ q.bufs then none
  else if (q.vb p).state ≠ .active then some q
  else if state ≠ .done ∧ state ≠ .error then some q
  else some { q.setState p state with
              doneList := q.doneList ++ [p], queuedCount := q.queuedCount - 1 }

/-- `struct v4l2_buffer`; `planes` is the array that `m.planes` points to. -/
structure V4l2Buffer where
  index : Nat
  type : BufType
  memory : Memory
  userptr : Nat
  length : Nat
  planes : Option (Nat → V4l2Plane)

/-- `__verify_planes_array`. -/
def verifyPlanesArray (vb : Vb2Buffer) (b : V4l2Buffer) : Except Int (Nat → V4l2Plane) :=
  match b.planes with
  | none => .error einval
  | some planes =>
    if b.length < vb.numPlanes ∨ videoMaxPlanes < b.length then .error einval else .ok planes

/-- `__fill_vb2_buffer` into the array `v4l2Planes`. -/
def fillVb2Buffer (vb : Vb2Buffer) (b : V4l2Buffer) (v4l2Planes : Nat → V4l2Plane) :
    Except Int (Nat → V4l2Plane) :=
  if b.type.isMultiplanar then
    match verifyPlanesArray vb b with
    | .error ret => .error ret
    | .ok planes =>
      if b.memory = .userptr then
        .ok fun plane => if plane < vb.numPlanes then planes plane else v4l2Planes plane
      else .ok v4l2Planes
  else if b.memory = .userptr then .ok (update v4l2Planes 0 ⟨b.userptr, b.length⟩)
  else .ok v4l2Planes

/-- What `get_userptr` gives: an error pointer where `err` is not zero, else a mapping, or
`NULL`, with which allocators also fail and which `IS_ERR` does not find. -/
structure UserptrAnswer where
  err : Int
  null : Bool

/-- The answers during `vb2_qbuf`, and what the stack holds where `__qbuf_userptr`
keeps its array of planes. -/
structure QbufAnswers where
  stack : Nat → V4l2Plane
  getUserptr : Nat → UserptrAnswer
  bufInit : Int
  bufPrepare : Int

/-- One plane that is to hold the user memory `new`. -/
def acquirePlane (new : V4l2Plane) (answer : UserptrAnswer) (plane : Plane) (maps : Mappings) :
    Int × Plane × Mappings :=
  if plane.v4l2 = new then (0, plane, maps)
  else
    let maps := if plane.memPriv.isSome then maps.putUserptr plane.memPriv else maps
    if answer.err ≠ 0 then (answer.err, { plane with memPriv := none }, maps)
    else if answer.null then (0, { plane with memPriv := none }, maps)
    else (0, { plane with memPriv := some (.user maps.got.length) }, maps.getUserptr new)

/-- The first loop of `__qbuf_userptr`, with the plane at which it ends. -/
def acquirePlanes (new : Nat → V4l2Plane) (answers : Nat → UserptrAnswer) :
    Nat → Nat → (Nat → Plane) → Mappings → Int × Nat × (Nat → Plane) × Mappings
  | 0, plane, planes, maps => (0, plane, planes, maps)
  | todo + 1, plane, planes, maps =>
    let (ret, acquired, maps) := acquirePlane (new plane) (answers plane) (planes plane) maps
    let planes := update planes plane acquired
    if ret ≠ 0 then (ret, plane, planes, maps)
    else acquirePlanes new answers todo (plane + 1) planes maps

/-- The error exit of `__qbuf_userptr`. -/
def releasePlanes : Nat → (Nat → Plane) → Mappings → (Nat → Plane) × Mappings
  | 0, planes, maps => (planes, maps)
  | plane + 1, planes, maps =>
    releasePlanes plane (update planes plane { planes plane with memPriv := none })
      (maps.putUserptr (planes plane).memPriv)

/-- `__qbuf_userptr`. -/
def qbufUserptr (vb : Vb2Buffer) (b : V4l2Buffer) (answers : QbufAnswers) (maps : Mappings) :
    Int × Vb2Buffer × Mappings :=
  match fillVb2Buffer vb b answers.stack with
  | .error ret => (ret, vb, maps)
  | .ok new =>
    let (ret, plane, planes, maps) :=
      acquirePlanes new answers.getUserptr vb.numPlanes 0 vb.planes maps
    let ret := if ret ≠ 0 then ret else answers.bufInit
    if ret ≠ 0 then
      let (planes, maps) := releasePlanes plane planes maps
      (ret, { vb with planes := planes }, maps)
    else
      (0, { vb with planes := fun plane => if plane < vb.numPlanes then
              { planes plane with v4l2 := new plane } else planes plane }, maps)

/-- `__qbuf_mmap`; of the fields modelled here it changes none. -/
def qbufMmap (vb : Vb2Buffer) (b : V4l2Buffer) : Int :=
  match fillVb2Buffer vb b (fun plane => (vb.planes plane).v4l2) with
  | .error ret => ret
  | .ok _ => 0

variable (q : Vb2Queue)

/-- `__enqueue_in_driver`. -/
def enqueueInDriver (p : Nat) : Vb2Queue :=
  { q.setState p .active with queuedCount := q.queuedCount + 1 }

/-- The part of `vb2_qbuf` after the memory of the buffer is held. -/
def prepareAndQueue (p : Nat) (bufPrepare : Int) : Int × Vb2Queue :=
  if bufPrepare ≠ 0 then (bufPrepare, q)
  else
    let q := { q.setState p .queued with queuedList := q.queuedList ++ [p] }
    (0, if q.streaming then enqueueInDriver q p else q)

def vb2Qbuf (b : V4l2Buffer) (answers : QbufAnswers) : Int × Vb2Queue :=
  if b.type ≠ q.type then (einval, q)
  else
    match q.bufs[b.index]? with
    | none => (einval, q)
    | some p =>
      if b.memory ≠ q.memory then (einval, q)
      else if (q.vb p).state ≠ .dequeued then (einval, q)
      else if q.memory = .mmap then
        let ret := qbufMmap (q.vb p) b
        if ret ≠ 0 then (ret, q) else prepareAndQueue q p answers.bufPrepare
      else if q.memory = .userptr then
        let (ret, vb, maps) := qbufUserptr (q.vb p) b answers q.maps
        let q := { q with vb := update q.vb p vb, maps := maps }
        if ret ≠ 0 then (ret, q) else prepareAndQueue q p answers.bufPrepare
      else (einval, q)

/-- `__vb2_get_done_vb`. A call that sleeps for a buffer is modelled from the
moment it wakes up, so one that finds none here has been interrupted. -/
def vb2GetDoneVb (nonblocking : Bool) : Except Int (Nat × Vb2Queue) :=
  if q.streaming = false then .error einval
  else
    match q.doneList with
    | [] => .error (if nonblocking then eagain else erestartsys)
    | p :: rest => .ok (p, { q with doneList := rest })

def vb2Dqbuf (type : BufType) (nonblocking : Bool) (bufFinish : Int) : Option (Int × Vb2Queue) :=
  if type ≠ q.type then some (einval, q)
  else
    match vb2GetDoneVb q nonblocking with
    | .error ret => some (ret, q)
    | .ok (p, q) =>
      if p ∉ q.bufs then none
      else if bufFinish ≠ 0 then some (bufFinish, q)
      else if (q.vb p).state = .done ∨ (q.vb p).state = .error then
        some (0, { q.setState p .dequeued with queuedList := q.queuedList.erase p })
      else some (einval, q)

def vb2Streamon (type : BufType) (startStreaming : Int) : Option (Int × Vb2Queue) :=
  if type ≠ q.type then some (einval, q)
  else if q.streaming then some (ebusy, q)
  else if q.type.isOutput ∧ q.queuedList = [] then some (einval, q)
  else if startStreaming ≠ 0 then some (startStreaming, q)
  else if ∀ p ∈ q.queuedList, p ∈ q.bufs then
    some (0, q.queuedList.foldl enqueueInDriver { q with streaming := true })
  else none

/-- `__vb2_queue_cancel`. -/
def vb2QueueCancel : Vb2Queue :=
  { q with streaming := false, queuedList := [], doneList := [], queuedCount := 0,
           vb := fun p => if p ∈ q.bufs then { q.vb p with state := .dequeued } else q.vb p }

def vb2Streamoff (type : BufType) : Int × Vb2Queue :=
  if type ≠ q.type then (einval, q)
  else if q.streaming = false then (einval, q)
  else (0, vb2QueueCancel q)

def vb2QueueRelease : Vb2Queue := vb2QueueFree (vb2QueueCancel q)

inductive Call
  | reqbufs (req : RequestBuffers) (answers : ReqbufsAnswers)
  | qbuf (b : V4l2Buffer) (answers : QbufAnswers)
  | bufferDone (p : Nat) (state : BufState)
  | dqbuf (type : BufType) (nonblocking : Bool) (bufFinish : Int)
  | streamon (type : BufType) (startStreaming : Int)
  | streamoff (type : BufType)
  | queueRelease

def callStep : Call → Option Vb2Queue
  | .reqbufs req answers => some (vb2Reqbufs q req answers).2.2
  | .qbuf b answers => some (vb2Qbuf q b answers).2
  | .bufferDone p state => vb2BufferDone q p state
  | .dqbuf type nonblocking bufFinish =>
    (vb2Dqbuf q type nonblocking bufFinish).map Prod.snd
  | .streamon type startStreaming => (vb2Streamon q type startStreaming).map Prod.snd
  | .streamoff type => some (vb2Streamoff q type).2
  | .queueRelease => some (vb2QueueRelease q)

end TbsMedia.Vb2
