import TbsMedia.Lib.Prog
import TbsMedia.DvbCore.Demux
import TbsMedia.DvbCore.RingBuffer

/-!
The demux device of `dmxdev.c`: the filters behind its file handles, and the
code that runs for them under `dmxdev->mutex`. The code is a program whose
accesses to the shared state are atomic; section callbacks and timers run
between them.

The members of the unions `feed` and `params` are separate fields here. `type`
says which of them the code uses, each is written before it is used under a new
type, and `params.pes` is too short to reach `params.sec.flags`.
-/

namespace TbsMedia.DvbCore

open Lib

variable {nd nf nq : Nat}

abbrev dmxFilterSize : Nat := 16

scoped instance neZero_dmxFilterSize : NeZero dmxFilterSize := ⟨by decide⟩

/-- `DMX_PES_OTHER`, the largest value of `dmx_pes_type_t`. -/
def dmxPesOther : Nat := 20

def dmxCheckCrc : Nat := 1
def dmxOneshot : Nat := 2
def dmxImmediateStart : Nat := 4

def eoverflow : Int := 75
def etimedout : Int := 110

inductive DmxdevType where
  | none
  | sec
  | pes
deriving DecidableEq, Inhabited, Repr

inductive DmxdevState where
  | free
  | allocated
  | set
  | go
  | done
  | timedout
deriving DecidableEq, Inhabited, Repr

/-- The numbers behind `DMXDEV_STATE_*`; the code compares states by order. -/
def DmxdevState.toNat : DmxdevState → Nat
  | .free => 0
  | .allocated => 1
  | .set => 2
  | .go => 3
  | .done => 4
  | .timedout => 5

/-- `dmx_filter_t`. -/
structure DmxFilter where
  filter : Fin dmxFilterSize → UInt8
  mask : Fin dmxFilterSize → UInt8
  mode : Fin dmxFilterSize → UInt8
deriving Inhabited

structure DmxSctFilterParams where
  pid : Nat
  filter : DmxFilter
  timeout : Nat
  flags : Nat
deriving Inhabited

structure DmxPesFilterParams where
  pid : Nat
  output : DmxOutput
  pesType : Nat
  flags : Nat
deriving Inhabited

/-- `struct dmxdev_feed`; `addr` tells one allocated entry from another. -/
structure DmxdevFeed (nf : Nat) where
  pid : Nat
  ts : Option (Fin nf)
  addr : Nat
deriving DecidableEq, Inhabited, Repr

/-- `struct dmxdev_filter`. `timer` is whether the timer is pending, `expiring`
whether its handler has begun and not yet taken the lock, `calling` the same of a
section callback. -/
structure DmxdevFilter (nf nq : Nat) where
  filterSec : Option (Fin nq)
  feedTs : List (DmxdevFeed nf)
  feedSec : Option (Fin nf)
  paramsSec : DmxSctFilterParams
  paramsPes : DmxPesFilterParams
  type : DmxdevType
  state : DmxdevState
  buffer : DvbRingbuffer
  timer : Bool
  expiring : Bool
  calling : Bool
  todo : Int
deriving Inhabited

/-- The device with its demux. `world` holds the answers that the calls from now on
will get from outside, `fresh` is the address that the next entry gets. -/
structure Dmxdev (nd nf nq : Nat) where
  filter : Fin nd → DmxdevFilter nf nq
  demux : DvbDemux nf nq
  world : Nat → Answer
  fresh : Nat

variable (i : Fin nd) (change : DmxdevFilter nf nq → DmxdevFilter nf nq)

namespace Dmxdev

def upd (s : Dmxdev nd nf nq) (i : Fin nd)
    (change : DmxdevFilter nf nq → DmxdevFilter nf nq) : Dmxdev nd nf nq :=
  { s with filter := Function.update s.filter i (change (s.filter i)) }

variable (s : Dmxdev nd nf nq)

def answered : Dmxdev nd nf nq :=
  { s with world := fun n => s.world (n + 1) }

def withDemux (d : DvbDemux nf nq) : Dmxdev nd nf nq :=
  { s with demux := d }

/-- An active section filter on this PID: the test of the loops in
`dvb_dmxdev_feed_restart` and `dvb_dmxdev_filter_start`. -/
def active (pid : Nat) (j : Fin nd) : Bool :=
  DmxdevState.go.toNat ≤ (s.filter j).state.toNat ∧ (s.filter j).type = .sec ∧
    (s.filter j).paramsSec.pid = pid

@[simp]
theorem upd_filter :
    (s.upd i change).filter = Function.update s.filter i (change (s.filter i)) := rfl

@[simp]
theorem upd_demux : (s.upd i change).demux = s.demux := rfl

@[simp]
theorem upd_world : (s.upd i change).world = s.world := rfl

@[simp]
theorem answered_filter : s.answered.filter = s.filter := rfl

@[simp]
theorem answered_demux : s.answered.demux = s.demux := rfl

@[simp]
theorem answered_world (n : Nat) : s.answered.world n = s.world (n + 1) := rfl

variable (d : DvbDemux nf nq)

@[simp]
theorem withDemux_filter : (s.withDemux d).filter = s.filter := rfl

@[simp]
theorem withDemux_demux : (s.withDemux d).demux = d := rfl

@[simp]
theorem withDemux_world : (s.withDemux d).world = s.world := rfl

@[simp]
theorem withDemux_withDemux (d' : DvbDemux nf nq) :
    (s.withDemux d).withDemux d' = s.withDemux d' := rfl

end Dmxdev

/-- Accesses that properties of whole runs speak about: the two that set a filter
going, at the end of its own `dvb_dmxdev_filter_start` and in
`dvb_dmxdev_feed_start`, and the allocation in `dvb_dmxdev_start_feed`. -/
inductive Mark (nd : Nat) where
  | start (i : Fin nd)
  | feedStart (i : Fin nd)
  | allocateTs (i : Fin nd) (pid : Nat)
deriving DecidableEq

abbrev Code (nd nf nq : Nat) (α : Type) := Prog (Dmxdev nd nf nq) (Mark nd) α

/-! Accesses to the filters, and calls that get an answer from outside. -/

def theFilter : Code nd nf nq (DmxdevFilter nf nq) :=
  Prog.read (fun s => s.filter i)

def filterUpd (change : DmxdevFilter nf nq → DmxdevFilter nf nq) : Code nd nf nq Unit :=
  Prog.modify none (fun s => s.upd i change)

def ask : Code nd nf nq Answer :=
  Prog.call none (fun s => some (s.world 0, s.answered))

def demuxCall {α : Type} (f : Answer → DvbDemux nf nq → α × DvbDemux nf nq) : Code nd nf nq α :=
  Prog.call none (fun s => some ((f (s.world 0) s.demux).1,
    s.answered.withDemux (f (s.world 0) s.demux).2))

def demuxRelease {α : Type} (f : DvbDemux nf nq → Option (α × DvbDemux nf nq)) : Code nd nf nq α :=
  Prog.call none (fun s => (f s.demux).map (fun out => (out.1, s.withDemux out.2)))

@[simp]
theorem run_theFilter (s : Dmxdev nd nf nq) : (theFilter i).run s = some (s.filter i, s) := rfl

@[simp]
theorem run_filterUpd (s : Dmxdev nd nf nq) :
    (filterUpd i change).run s = some ((), s.upd i change) := rfl

@[simp]
theorem run_demuxCall {α : Type} (f : Answer → DvbDemux nf nq → α × DvbDemux nf nq)
    (s : Dmxdev nd nf nq) :
    (demuxCall f).run s = some ((f (s.world 0) s.demux).1,
      s.answered.withDemux (f (s.world 0) s.demux).2) := by
  simp [demuxCall]

@[simp]
theorem run_demuxRelease {α : Type} (f : DvbDemux nf nq → Option (α × DvbDemux nf nq))
    (s : Dmxdev nd nf nq) :
    (demuxRelease f).run s = (f s.demux).map (fun out => (out.1, s.withDemux out.2)) := by
  simp [demuxRelease]

def dvbDmxdevFilterStateSet (state : DmxdevState) : Code nd nf nq Unit :=
  filterUpd i (fun flt => { flt with state := state })

def delTimer (flt : DmxdevFilter nf nq) : DmxdevFilter nf nq :=
  { flt with timer := false }

def dvbDmxdevFilterTimer (flt : DmxdevFilter nf nq) : DmxdevFilter nf nq :=
  { flt with timer := flt.paramsSec.timeout ≠ 0 }

def flushBuffer (flt : DmxdevFilter nf nq) : DmxdevFilter nf nq :=
  { flt with buffer := dvbRingbufferFlush flt.buffer }

/-- `feed->ts = ts` in the entry at `addr`. -/
def setTs (addr : Nat) (ts : Option (Fin nf)) (flt : DmxdevFilter nf nq) : DmxdevFilter nf nq :=
  { flt with feedTs := flt.feedTs.map (fun e => if e.addr = addr then { e with ts := ts } else e) }

/-- The loop of `dvb_dmxdev_feed_stop` over the entries of a PES filter. -/
def stopFeeds : List (DmxdevFeed nf) → Code nd nf nq Unit
  | [] => pure ()
  | e :: rest =>
    match e.ts with
    | none => Prog.oops
    | some ts => do
      let _ ← demuxCall (fun a => dmxTsFeedStopFiltering a ts)
      stopFeeds rest

/-- The `switch` of `dvb_dmxdev_feed_stop`. -/
def stopByType : Code nd nf nq Ret := do
  let flt ← theFilter i
  match flt.type with
  | .sec => do
    filterUpd i delTimer
    match flt.feedSec with
    | none => Prog.oops
    | some sec => do
      let _ ← demuxCall (fun a => dmxSectionFeedStopFiltering a sec)
      pure (.ok ())
  | .pes => do
    stopFeeds flt.feedTs
    pure (.ok ())
  | .none => pure (.error .einval)

def dvbDmxdevFeedStop : Code nd nf nq Ret := do
  dvbDmxdevFilterStateSet i .set
  stopByType i

/-- The loop of `dvb_dmxdev_feed_start` over the entries of a PES filter. -/
def startFeedsAgain : List (DmxdevFeed nf) → Code nd nf nq Ret
  | [] => pure (.ok ())
  | e :: rest =>
    match e.ts with
    | none => Prog.oops
    | some ts => do
      match ← demuxCall (fun a => dmxTsFeedStartFiltering a ts) with
      | .error err => do
        let _ ← dvbDmxdevFeedStop i
        pure (.error err)
      | .ok () => startFeedsAgain rest

/-- The `switch` of `dvb_dmxdev_feed_start`. -/
def startAgainByType : Code nd nf nq Ret := do
  let flt ← theFilter i
  match flt.type with
  | .sec =>
    match flt.feedSec with
    | none => Prog.oops
    | some sec => demuxCall (fun a => dmxSectionFeedStartFiltering a sec)
  | .pes => startFeedsAgain i flt.feedTs
  | .none => pure (.error .einval)

def dvbDmxdevFeedStart : Code nd nf nq Ret := do
  Prog.modify (some (.feedStart i)) (fun s => s.upd i (fun flt => { flt with state := .go }))
  startAgainByType i

/-- The rest of `dvb_dmxdev_feed_restart` when its loop is at these filters. -/
def feedRestartFrom (pid : Nat) : List (Fin nd) → Code nd nf nq Ret
  | [] => do
    let flt ← theFilter i
    match flt.feedSec with
    | none => Prog.oops
    | some sec => do
      let _ ← demuxRelease (fun d => some (dvbdmxReleaseSectionFeed sec d))
      pure (.ok ())
  | j :: rest => do
    if ← Prog.read (fun s => s.active pid j) then do
      let _ ← dvbDmxdevFeedStart j
      pure (.ok ())
    else feedRestartFrom pid rest

def dvbDmxdevFeedRestart : Code nd nf nq Ret := do
  let flt ← theFilter i
  feedRestartFrom i flt.paramsSec.pid (List.finRange nd)

/-- The loop of `dvb_dmxdev_filter_stop` over the entries of a PES filter. -/
def releaseFeeds : List (DmxdevFeed nf) → Code nd nf nq Unit
  | [] => pure ()
  | e :: rest =>
    match e.ts with
    | none => Prog.oops
    | some ts => do
      let _ ← demuxRelease (dvbdmxReleaseTsFeed ts)
      filterUpd i (setTs e.addr none)
      releaseFeeds rest

def releaseSecfilter (sec : Fin nf) : Option (Fin nq) → Code nd nf nq Unit
  | none => pure ()
  | some q => do
    let _ ← demuxRelease (dmxSectionFeedReleaseFilter sec q)
    pure ()

def dvbDmxdevFilterStop : Code nd nf nq Ret := do
  let flt ← theFilter i
  if flt.state.toNat < DmxdevState.go.toNat then pure (.ok ())
  else
    match flt.type with
    | .sec =>
      match flt.feedSec with
      | none => do
        filterUpd i flushBuffer
        pure (.ok ())
      | some sec => do
        let _ ← dvbDmxdevFeedStop i
        releaseSecfilter sec flt.filterSec
        let _ ← dvbDmxdevFeedRestart i
        filterUpd i (fun flt => { flt with feedSec := none })
        filterUpd i flushBuffer
        pure (.ok ())
    | .pes => do
      let _ ← dvbDmxdevFeedStop i
      releaseFeeds i flt.feedTs
      filterUpd i flushBuffer
      pure (.ok ())
    | .none =>
      if flt.state = .allocated then pure (.ok ()) else pure (.error .einval)

/-- `dvb_dmxdev_delete_pids` and `type = DMXDEV_TYPE_NONE`. -/
def resetType (flt : DmxdevFilter nf nq) : DmxdevFilter nf nq :=
  { flt with feedTs := if flt.type = .pes then [] else flt.feedTs, type := .none }

def dvbDmxdevFilterReset : Code nd nf nq Ret := do
  let flt ← theFilter i
  if flt.state.toNat < DmxdevState.set.toNat then pure (.ok ())
  else do
    filterUpd i resetType
    dvbDmxdevFilterStateSet i .allocated
    pure (.ok ())

/-- What `allocate_ts_feed(.., &feed->ts, ..)` does for the entry at `addr`: a slot
that was claimed is stored there also when the call fails afterwards. -/
def tsAllocated (addr : Nat) (out : Ret × Option (Fin nf) × DvbDemux nf nq)
    (s : Dmxdev nd nf nq) : Dmxdev nd nf nq :=
  match out.2.1 with
  | none => s.answered.withDemux out.2.2
  | some ts => (s.upd i (setTs addr (some ts))).answered.withDemux out.2.2

def allocateTs (pid addr : Nat) : Code nd nf nq (Ret × Option (Fin nf)) :=
  Prog.call (some (.allocateTs i pid)) (fun s =>
    let out := dvbdmxAllocateTsFeed (s.world 0) (some addr) s.demux
    some ((out.1, out.2.1), tsAllocated i addr out s))

/-- `tsfeed->priv = filter`. -/
def setPriv (ts : Fin nf) : Code nd nf nq Unit :=
  Prog.modify none (fun s =>
    s.withDemux (s.demux.updFeed ts (fun feed => { feed with priv := some i })))

/-- The feed is released on an error path; `feed->ts` stays as it is. -/
def giveBack (ts : Fin nf) (err : Errno) : Code nd nf nq Ret := do
  let _ ← demuxRelease (dvbdmxReleaseTsFeed ts)
  pure (.error err)

/-- `set` and `start_filtering` for a feed that has been allocated. -/
def setAndStart (ts : Fin nf) (pid tsType pesType : Nat) : Code nd nf nq Ret := do
  match ← demuxCall (fun a => dmxTsFeedSet a ts pid tsType pesType) with
  | .error err => giveBack ts err
  | .ok () => do
    match ← demuxCall (fun a => dmxTsFeedStartFiltering a ts) with
    | .error err => giveBack ts err
    | .ok () => pure (.ok ())

def dvbDmxdevStartFeed (pid addr : Nat) : Code nd nf nq Ret := do
  let flt ← theFilter i
  filterUpd i (setTs addr none)
  match ← allocateTs i pid addr with
  | (.error err, _) => pure (.error err)
  | (.ok (), none) => Prog.oops
  | (.ok (), some ts) => do
    setPriv i ts
    setAndStart ts pid (dmxdevTsType flt.paramsPes.output flt.paramsPes.pesType)
      flt.paramsPes.pesType

/-- The loop of `dvb_dmxdev_filter_start` over the entries of a PES filter. -/
def startFeeds : List (DmxdevFeed nf) → Code nd nf nq Ret
  | [] => pure (.ok ())
  | e :: rest => do
    match ← dvbDmxdevStartFeed i e.pid e.addr with
    | .error err => do
      let _ ← dvbDmxdevFilterStop i
      pure (.error err)
    | .ok () => startFeeds rest

/-- The user's filter as `dvb_dmxdev_filter_start` writes it into the filter of
the demux: its bytes from the second on go behind the length field of a section. -/
def writeSecfilter (para : DmxFilter) (flt : DvbDemuxFilter nf) : DvbDemuxFilter nf :=
  let spread (bytes : Fin dmxFilterSize → UInt8) (lengthField : Fin dmxMaxFilterSize → UInt8)
      (k : Fin dmxMaxFilterSize) : UInt8 :=
    if k.val = 0 then bytes 0
    else if hk : 3 ≤ k.val then bytes ⟨k.val - 2,
      Nat.sub_lt_right_of_lt_add (Nat.le_trans (by decide) hk) k.isLt⟩
    else lengthField k
  { flt with
    priv := some i
    filterValue := spread para.filter flt.filterValue
    filterMask := spread para.mask (fun _ => 0)
    filterMode := spread para.mode flt.filterMode }

def startSecfilter (sec : Fin nf) (para : DmxSctFilterParams) : Code nd nf nq Ret := do
  match ← demuxCall (fun a => dmxSectionFeedAllocateFilter a sec) with
  | .error err => do
    let _ ← dvbDmxdevFeedRestart i
    let _ ← demuxCall (fun a => dmxSectionFeedStartFiltering a sec)
    pure (.error err)
  | .ok q => do
    Prog.modify none (fun s =>
      (s.upd i (fun flt => { flt with filterSec := some q, todo := 0 })).withDemux
        (s.demux.updFilter q (writeSecfilter i para.filter)))
    match ← demuxCall (fun a => dmxSectionFeedStartFiltering a sec) with
    | .error err => pure (.error err)
    | .ok () => do
      filterUpd i dvbDmxdevFilterTimer
      pure (.ok ())

def startNewSection (para : DmxSctFilterParams) : Code nd nf nq Ret := do
  match ← demuxCall dvbdmxAllocateSectionFeed with
  | .error err => pure (.error err)
  | .ok sec => do
    filterUpd i (fun flt => { flt with feedSec := some sec })
    match ← demuxCall (fun a => dmxSectionFeedSet a sec para.pid
        (para.flags &&& dmxCheckCrc ≠ 0)) with
    | .error err => do
      let _ ← dvbDmxdevFeedRestart i
      pure (.error err)
    | .ok () => startSecfilter i sec para

def findFeed (pid : Nat) : List (Fin nd) → Code nd nf nq (Option (Fin nf))
  | [] => pure none
  | j :: rest => do
    if ← Prog.read (fun s => s.active pid j) then
      Prog.read (fun s => (s.filter j).feedSec)
    else findFeed pid rest

def clearSection (flt : DmxdevFilter nf nq) : DmxdevFilter nf nq :=
  { flt with filterSec := none, feedSec := none }

def startSection : Code nd nf nq Ret := do
  let flt ← theFilter i
  filterUpd i clearSection
  match ← findFeed flt.paramsSec.pid (List.finRange nd) with
  | none => startNewSection i flt.paramsSec
  | some sec => do
    filterUpd i (fun flt => { flt with feedSec := some sec })
    let _ ← dvbDmxdevFeedStop i
    startSecfilter i sec flt.paramsSec

/-- The first part of `dvb_dmxdev_filter_start`: the filter is stopped. -/
def stopRunning : Code nd nf nq Unit := do
  let flt ← theFilter i
  if DmxdevState.go.toNat ≤ flt.state.toNat then do
    let _ ← dvbDmxdevFilterStop i
    pure ()
  else pure ()

/-- Its buffer gets memory, unless it has some; the contents are not looked at before
they are written. -/
def provideBuffer : Code nd nf nq Bool := do
  let flt ← theFilter i
  match flt.buffer.data with
  | some _ => do
    filterUpd i flushBuffer
    pure true
  | none => do
    let a ← ask
    if a.noMemory then pure false
    else do
      filterUpd i (fun flt =>
        flushBuffer { flt with buffer := { flt.buffer with data := some (fun _ => 0) } })
      pure true

/-- The `switch` of `dvb_dmxdev_filter_start`. -/
def startByType : Code nd nf nq Ret := do
  let flt ← theFilter i
  match flt.type with
  | .sec => startSection i
  | .pes => startFeeds i flt.feedTs
  | .none => pure (.error .einval)

def startStopped : Code nd nf nq Ret := do
  match ← startByType i with
  | .error err => pure (.error err)
  | .ok () => do
    Prog.modify (some (.start i)) (fun s => s.upd i (fun flt => { flt with state := .go }))
    pure (.ok ())

def dvbDmxdevFilterStart : Code nd nf nq Ret := do
  let flt ← theFilter i
  if flt.state.toNat < DmxdevState.set.toNat then pure (.error .einval)
  else do
    stopRunning i
    if ← provideBuffer i then startStopped i
    else pure (.error .enomem)

/-- `kzalloc` and `list_add` of a new entry. -/
def Dmxdev.addEntry (s : Dmxdev nd nf nq) (i : Fin nd) (pid : Nat) : Dmxdev nd nf nq :=
  { s.upd i (fun flt => { flt with
      feedTs := { pid := pid, ts := none, addr := s.fresh } :: flt.feedTs }) with
    fresh := s.fresh + 1 }

def newFeed (pid : Nat) : Code nd nf nq Nat :=
  Prog.call none (fun s => some (s.fresh, s.addEntry i pid))

def dvbDmxdevAddPid (pid : Nat) : Code nd nf nq Ret := do
  let flt ← theFilter i
  if flt.type ≠ .pes ∨ flt.state.toNat < DmxdevState.set.toNat then pure (.error .einval)
  else if flt.paramsPes.output ≠ .tsdemuxTap ∧ flt.feedTs ≠ [] then pure (.error .einval)
  else do
    let a ← ask
    if a.noMemory then pure (.error .enomem)
    else do
      let addr ← newFeed i pid
      let flt ← theFilter i
      if DmxdevState.go.toNat ≤ flt.state.toNat then dvbDmxdevStartFeed i pid addr
      else pure (.ok ())

/-- The loop of `dvb_dmxdev_remove_pid`. -/
def removeFeeds (pid : Nat) : List (DmxdevFeed nf) → Code nd nf nq Unit
  | [] => pure ()
  | e :: rest =>
    match e.ts with
    | none => removeFeeds pid rest
    | some ts =>
      if e.pid = pid then do
        let _ ← demuxCall (fun a => dmxTsFeedStopFiltering a ts)
        let _ ← demuxRelease (dvbdmxReleaseTsFeed ts)
        filterUpd i (fun flt => { flt with
          feedTs := flt.feedTs.filter (fun e' => e'.addr ≠ e.addr) })
        removeFeeds pid rest
      else removeFeeds pid rest

def dvbDmxdevRemovePid (pid : Nat) : Code nd nf nq Ret := do
  let flt ← theFilter i
  if flt.type ≠ .pes ∨ flt.state.toNat < DmxdevState.set.toNat then pure (.error .einval)
  else do
    removeFeeds i pid flt.feedTs
    pure (.ok ())

def invertMode (filter : DmxFilter) : DmxFilter :=
  { filter with mode := fun k => filter.mode k ^^^ 0xff }

def dvbDmxdevFilterSet (params : DmxSctFilterParams) : Code nd nf nq Ret := do
  let _ ← dvbDmxdevFilterStop i
  filterUpd i (fun flt => { flt with
    type := .sec, paramsSec := { params with filter := invertMode params.filter } })
  dvbDmxdevFilterStateSet i .set
  if params.flags &&& dmxImmediateStart ≠ 0 then dvbDmxdevFilterStart i
  else pure (.ok ())

def dvbDmxdevPesFilterSet (params : DmxPesFilterParams) : Code nd nf nq Ret := do
  let _ ← dvbDmxdevFilterStop i
  let _ ← dvbDmxdevFilterReset i
  if params.pesType > dmxPesOther then pure (.error .einval)
  else do
    filterUpd i (fun flt => { flt with type := .pes, paramsPes := params, feedTs := [] })
    dvbDmxdevFilterStateSet i .set
    match ← dvbDmxdevAddPid i params.pid with
    | .error err => pure (.error err)
    | .ok () =>
      if params.flags &&& dmxImmediateStart ≠ 0 then dvbDmxdevFilterStart i
      else pure (.ok ())

def dvbDmxdevSetBufferSize (size : Nat) : Code nd nf nq Ret := do
  let flt ← theFilter i
  if flt.buffer.size = size then pure (.ok ())
  else if size = 0 then pure (.error .einval)
  else if DmxdevState.go.toNat ≤ flt.state.toNat then pure (.error .ebusy)
  else do
    let a ← ask
    if a.noMemory then pure (.error .enomem)
    else do
      filterUpd i (fun flt => { flt with
        buffer := dvbRingbufferReset { flt.buffer with
          data := some (fun _ => 0), size := size } })
      pure (.ok ())

/-- The free slot that `dvb_demux_open` takes. -/
def openFrom : List (Fin nd) → Code nd nf nq (Except Errno (Fin nd))
  | [] => pure (.error .emfile)
  | i :: rest => do
    let flt ← theFilter i
    if flt.state = .free then do
      filterUpd i (fun flt => { flt with
        buffer := dvbRingbufferInit none 8192, type := .none })
      dvbDmxdevFilterStateSet i .allocated
      filterUpd i delTimer
      pure (.ok i)
    else openFrom rest

def dvbDemuxOpen : Code nd nf nq (Except Errno (Fin nd)) := do
  let a ← ask
  if a.interrupted then pure (.error .erestartsys)
  else openFrom (List.finRange nd)

def dvbDmxdevFilterFree : Code nd nf nq Ret := do
  let _ ← dvbDmxdevFilterStop i
  let _ ← dvbDmxdevFilterReset i
  filterUpd i (fun flt => { flt with buffer := { flt.buffer with data := none } })
  dvbDmxdevFilterStateSet i .free
  pure (.ok ())

inductive DmxCmd where
  | start
  | stop
  | setFilter (params : DmxSctFilterParams)
  | setPesFilter (params : DmxPesFilterParams)
  | setBufferSize (size : Nat)
  | addPid (pid : Nat)
  | removePid (pid : Nat)

def dmxCmd : DmxCmd → Code nd nf nq Ret
  | .start => do
    let flt ← theFilter i
    if flt.state.toNat < DmxdevState.set.toNat then pure (.error .einval)
    else dvbDmxdevFilterStart i
  | .stop => dvbDmxdevFilterStop i
  | .setFilter params => dvbDmxdevFilterSet i params
  | .setPesFilter params => dvbDmxdevPesFilterSet i params
  | .setBufferSize size => dvbDmxdevSetBufferSize i size
  | .addPid pid => dvbDmxdevAddPid i pid
  | .removePid pid => dvbDmxdevRemovePid i pid

/-- The device's mutex first, then the filter's; a signal ends the wait for either. -/
def dvbDemuxDoIoctl (cmd : DmxCmd) : Code nd nf nq Ret := do
  let device ← ask
  if device.interrupted then pure (.error .erestartsys)
  else do
    let filter ← ask
    if filter.interrupted then pure (.error .erestartsys)
    else dmxCmd i cmd

inductive HandleCall (nd : Nat) where
  | openDemux
  | ioctl (i : Fin nd) (cmd : DmxCmd)
  | close (i : Fin nd)

/-- The part of `dvb_dmxdev_init` that the filters see: no handle is open, no filter
has a buffer, and no timer or callback runs. The rest is whatever was in that memory. -/
def dvbDmxdevInit (s : Dmxdev nd nf nq) : Dmxdev nd nf nq :=
  { s with
    filter := fun i => { s.filter i with
      state := .free
      buffer := { (s.filter i).buffer with data := none }
      timer := false
      expiring := false
      calling := false }
    demux := dvbDmxInit s.demux }

/-! Section callbacks and timers. -/

def dvbDmxdevBufferWrite (buf : DvbRingbuffer) (src : Bytes) : Int × DvbRingbuffer :=
  match buf.data with
  | none => (0, buf)
  | some data =>
    if src.length = 0 then (0, buf)
    else if src.length > dvbRingbufferFree buf then (-eoverflow, buf)
    else (src.length, dvbRingbufferWrite buf data src)

/-- The part of `dvb_dmxdev_section_callback` under the lock. -/
def dvbDmxdevSectionCallback (buffer1 buffer2 : Bytes) (flt : DmxdevFilter nf nq) :
    DmxdevFilter nf nq :=
  if flt.state ≠ .go then flt
  else
    let first := dvbDmxdevBufferWrite flt.buffer buffer1
    let ret := if first.1 = buffer1.length then dvbDmxdevBufferWrite first.2 buffer2 else first
    { delTimer flt with
      buffer := if ret.1 < 0 then { dvbRingbufferFlush ret.2 with error := ret.1 } else ret.2
      state := if flt.paramsSec.flags &&& dmxOneshot ≠ 0 then .done else flt.state }

/-- A section feed that is filtering has a filter for the dmxdev filter `i`. -/
def Dmxdev.receives (s : Dmxdev nd nf nq) (i : Fin nd) : Bool :=
  s.demux.feedList.any (fun f => (s.demux.feed f).type = .sec && (s.demux.feed f).isFiltering &&
    (s.demux.feed f).filter.any (fun q => (s.demux.filter q).priv = some i.val))

/-- What happens outside the requests. A callback and a timer's handler each look at
or change `buffer.error` before they take the lock. -/
inductive DmxdevEvent (nd : Nat) where
  | callback (i : Fin nd)
  | callbackLocked (i : Fin nd) (buffer1 buffer2 : Bytes)
  | timeout (i : Fin nd)
  | timeoutLocked (i : Fin nd)

def dmxdevEvent (s : Dmxdev nd nf nq) : DmxdevEvent nd → Dmxdev nd nf nq
  | .callback i =>
    if s.receives i ∧ (s.filter i).buffer.error = 0 then
      s.upd i (fun flt => { flt with calling := true })
    else s
  | .callbackLocked i buffer1 buffer2 =>
    if (s.filter i).calling then
      s.upd i (fun flt => { dvbDmxdevSectionCallback buffer1 buffer2 flt with
        calling := false })
    else s
  | .timeout i =>
    if (s.filter i).timer then
      s.upd i (fun flt => { delTimer flt with
        expiring := true, buffer := { flt.buffer with error := -etimedout } })
    else s
  | .timeoutLocked i =>
    if (s.filter i).expiring then
      s.upd i (fun flt => { flt with expiring := false, state := .timedout })
    else s

def handleCode : HandleCall nd → Code nd nf nq Unit
  | .openDemux => do
    let _ ← dvbDemuxOpen
  | .ioctl i cmd => do
    let _ ← dvbDemuxDoIoctl i cmd
  | .close i => do
    let _ ← dvbDmxdevFilterFree i

end TbsMedia.DvbCore
