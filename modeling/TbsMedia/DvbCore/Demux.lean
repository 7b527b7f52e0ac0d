import TbsMedia.DvbCore.SectionFeed

/-!
The demux of `dvb_demux.c`: its state and the calls of the kernel demux API.
Each call runs under the demux mutex and is one step. What a call learns from
outside is in its `Answer`: whether waiting for the mutex was interrupted by a
signal, what the driver's `start_feed` or `stop_feed` returned, and, for the
clients of the demux, whether the kernel had no memory to give.

A result `none` is a call that does not come back: it dereferences a null
pointer or waits for a mutex that it holds itself.
-/

namespace TbsMedia.DvbCore

open Lib Function

variable {nf nq : Nat}

inductive Errno where
  | einval
  | ebusy
  | erestartsys
  | enodev
  | enomem
  | emfile
  | driver (code : Int)
deriving DecidableEq, Repr

abbrev Ret := Except Errno Unit

structure Answer where
  interrupted : Bool
  driver : Int
  noMemory : Bool
deriving DecidableEq, Repr

def Answer.ok : Answer := { interrupted := false, driver := 0, noMemory := false }

/-- `struct dvb_demux`. A feed is in `feed_list` once at most, since adding and
deleting look for it first. -/
structure DvbDemux (nf nq : Nat) where
  feed : Fin nf → DvbDemuxFeed nq
  filter : Fin nq → DvbDemuxFilter nf
  feedList : List (Fin nf)
  nodup : feedList.Nodup
  pesfilter : Fin dmxTsPesOther → Option (Fin nf)
  pids : Fin dmxTsPesOther → Nat
  startFeed : Bool
  stopFeed : Bool
  writeToDecoder : Bool

instance : Inhabited (DvbDemux nf nq) :=
  ⟨{ feed := default, filter := default, feedList := [], nodup := List.nodup_nil,
     pesfilter := default, pids := default, startFeed := false, stopFeed := false,
     writeToDecoder := false }⟩

/-- The demux of a driver that can start and stop feeds. -/
def readyDemux (nf nq : Nat) : DvbDemux nf nq :=
  { (default : DvbDemux nf nq) with startFeed := true, stopFeed := true }

scoped instance neZero_one : NeZero 1 := ⟨by decide⟩
scoped instance neZero_two : NeZero 2 := ⟨by decide⟩

variable (d : DvbDemux nf nq) (f : Fin nf) (change : DvbDemuxFeed nq → DvbDemuxFeed nq)

namespace DvbDemux

def updFeed (d : DvbDemux nf nq) (f : Fin nf)
    (change : DvbDemuxFeed nq → DvbDemuxFeed nq) : DvbDemux nf nq :=
  { d with feed := update d.feed f (change (d.feed f)) }

def updFilter (d : DvbDemux nf nq) (q : Fin nq)
    (change : DvbDemuxFilter nf → DvbDemuxFilter nf) : DvbDemux nf nq :=
  { d with filter := update d.filter q (change (d.filter q)) }

@[simp]
theorem updFeed_feed : (d.updFeed f change).feed = update d.feed f (change (d.feed f)) := rfl

@[simp]
theorem updFeed_filter : (d.updFeed f change).filter = d.filter := rfl

@[simp]
theorem updFeed_pesfilter : (d.updFeed f change).pesfilter = d.pesfilter := rfl

@[simp]
theorem updFilter_feed (q : Fin nq) (change : DvbDemuxFilter nf → DvbDemuxFilter nf) :
    (d.updFilter q change).feed = d.feed := rfl

@[simp]
theorem updFilter_filter (q : Fin nq) (change : DvbDemuxFilter nf → DvbDemuxFilter nf) :
    (d.updFilter q change).filter = update d.filter q (change (d.filter q)) := rfl

end DvbDemux

/-- The part of `dvb_dmx_init` that the feeds and filters see. The arrays come
from `vmalloc`, so all but the states is whatever was in that memory. -/
def dvbDmxInit (d : DvbDemux nf nq) : DvbDemux nf nq :=
  { d with
    feed := fun f => { d.feed f with state := .free }
    filter := fun q => { d.filter q with state := .free }
    feedList := []
    nodup := List.nodup_nil
    pesfilter := fun _ => none
    pids := fun _ => 0xffff }

/-- The first free slot, as the loops of `dvb_dmx_filter_alloc` and
`dvb_dmx_feed_alloc` find it. -/
def freeFilter (d : DvbDemux nf nq) : Option (Fin nq) :=
  (List.finRange nq).find? (fun q => (d.filter q).state = .free)

def freeFeed (d : DvbDemux nf nq) : Option (Fin nf) :=
  (List.finRange nf).find? (fun f => (d.feed f).state = .free)

theorem freeFilter_updFeed : freeFilter (d.updFeed f change) = freeFilter d := rfl

def dvbDmxFilterAlloc (d : DvbDemux nf nq) : Option (Fin nq × DvbDemux nf nq) :=
  match freeFilter d with
  | none => none
  | some q => some (q, d.updFilter q (fun flt => { flt with state := .allocated }))

def dvbDmxFeedAlloc (d : DvbDemux nf nq) : Option (Fin nf × DvbDemux nf nq) :=
  match freeFeed d with
  | none => none
  | some f => some (f, d.updFeed f (fun feed => { feed with state := .allocated }))

def dvbDemuxFeedAdd (f : Fin nf) (d : DvbDemux nf nq) : DvbDemux nf nq :=
  if hlisted : f ∈ d.feedList then d
  else { d with
    feedList := f :: d.feedList, nodup := List.nodup_cons.mpr ⟨hlisted, d.nodup⟩ }

def dvbDemuxFeedDel (f : Fin nf) (d : DvbDemux nf nq) : DvbDemux nf nq :=
  { d with feedList := d.feedList.erase f, nodup := d.nodup.erase f }

/-- Another feed holds the decoder of `pes`. -/
def pesBusy (d : DvbDemux nf nq) (f : Fin nf) (pes : Fin dmxTsPesOther) : Bool :=
  match d.pesfilter pes with
  | none => false
  | some holder => holder ≠ f

/-- `demux->pesfilter[pes_type] = feed; demux->pids[pes_type] = pid;` -/
def takeDecoder (f : Fin nf) (pes : Fin dmxTsPesOther) (pid : Nat)
    (d : DvbDemux nf nq) : DvbDemux nf nq :=
  { d with
    pesfilter := update d.pesfilter pes (some f)
    pids := update d.pids pes pid }

def tsFeedReady (pid tsType pesType : Nat) (feed : DvbDemuxFeed nq) : DvbDemuxFeed nq :=
  { feed with pid := pid, tsType := tsType, pesType := pesType, state := .ready }

section

variable (a : Answer) (f : Fin nf)

def dmxTsFeedSet (pid tsType pesType : Nat) (d : DvbDemux nf nq) : Ret × DvbDemux nf nq :=
  if pid > dmxMaxPid then (.error .einval, d)
  else if a.interrupted then (.error .erestartsys, d)
  else if tsType &&& tsDecoder = 0 then
    (.ok (), (dvbDemuxFeedAdd f d).updFeed f (tsFeedReady pid tsType pesType))
  else if hpes : pesType < dmxTsPesOther then
    if pesBusy d f ⟨pesType, hpes⟩ then (.error .einval, d)
    else (.ok (), (dvbDemuxFeedAdd f (takeDecoder f ⟨pesType, hpes⟩ pid d)).updFeed f
      (tsFeedReady pid tsType pesType))
  else (.error .einval, d)

def tsFeedStarted (feed : DvbDemuxFeed nq) : DvbDemuxFeed nq :=
  { feed with isFiltering := true, state := .go }

def dmxTsFeedStartFiltering (d : DvbDemux nf nq) : Ret × DvbDemux nf nq :=
  if a.interrupted then (.error .erestartsys, d)
  else if (d.feed f).state ≠ .ready ∨ (d.feed f).type ≠ .ts then
    (.error .einval, d)
  else if !d.startFeed then (.error .enodev, d)
  else if a.driver < 0 then (.error (.driver a.driver), d)
  else (.ok (), d.updFeed f tsFeedStarted)

def tsFeedStopped (feed : DvbDemuxFeed nq) : DvbDemuxFeed nq :=
  { feed with isFiltering := false, state := .allocated }

def dmxTsFeedStopFiltering (d : DvbDemux nf nq) : Ret × DvbDemux nf nq :=
  if (d.feed f).state.toNat < DmxState.go.toNat then (.error .einval, d)
  else if !d.stopFeed then (.error .enodev, d)
  else (if a.driver < 0 then .error (.driver a.driver) else .ok (),
    d.updFeed f tsFeedStopped)

/-- What `dvbdmx_allocate_ts_feed` writes into the slot it has claimed. -/
def tsFeedInit (holder : Option Nat) (feed : DvbDemuxFeed nq) : DvbDemuxFeed nq :=
  { feed with
    type := .ts, pid := 0xffff, peslen := 0xfffa, priv := none,
    isFiltering := false, holder := holder, state := .allocated }

def tsFeedGivenBack (holder : Option Nat) (feed : DvbDemuxFeed nq) : DvbDemuxFeed nq :=
  { tsFeedInit holder feed with filter := [], state := .free }

def tsFeedTaken (holder : Option Nat) (q : Fin nq) (feed : DvbDemuxFeed nq) : DvbDemuxFeed nq :=
  { tsFeedInit holder feed with filter := [q] }

def tsFilterTaken (flt : DvbDemuxFilter nf) : DvbDemuxFilter nf :=
  { flt with type := .ts, feed := some f, state := .ready }

/-- The result, and what was stored through the caller's `ts_feed` pointer, if
anything: it is filled before the filter is allocated, also when that fails and
the slot is given back. -/
def dvbdmxAllocateTsFeed (holder : Option Nat)
    (d : DvbDemux nf nq) : Ret × Option (Fin nf) × DvbDemux nf nq :=
  if a.interrupted then (.error .erestartsys, none, d)
  else match dvbDmxFeedAlloc d with
    | none => (.error .ebusy, none, d)
    | some (f, d) =>
      match dvbDmxFilterAlloc (d.updFeed f (tsFeedInit holder)) with
      | none => (.error .ebusy, some f, d.updFeed f (tsFeedGivenBack holder))
      | some (q, d) => (.ok (), some f,
          (d.updFeed f (tsFeedTaken holder q)).updFilter q (tsFilterTaken f))

def pesRelease (feed : DvbDemuxFeed nq) (d : DvbDemux nf nq) : DvbDemux nf nq :=
  if hpes : feed.tsType &&& tsDecoder ≠ 0 ∧ feed.pesType < dmxTsPesOther then
    { d with pesfilter := update d.pesfilter ⟨feed.pesType, hpes.2⟩ none }
  else d

def tsFeedReleased (feed : DvbDemuxFeed nq) : DvbDemuxFeed nq :=
  { feed with state := .free, pid := 0xffff, holder := none }

def filterFreed (flt : DvbDemuxFilter nf) : DvbDemuxFilter nf :=
  { flt with state := .free }

def dvbdmxReleaseTsFeed (d : DvbDemux nf nq) : Option (Ret × DvbDemux nf nq) :=
  if (d.feed f).state = .free then some (.error .einval, d)
  else match (d.feed f).filter with
    | [] => none
    | q :: _ => some (.ok (), pesRelease (d.feed f)
        ((dvbDemuxFeedDel f (d.updFilter q filterFreed)).updFeed f tsFeedReleased))

def dmxSectionFeedAllocateFilter (d : DvbDemux nf nq) : Except Errno (Fin nq) × DvbDemux nf nq :=
  if a.interrupted then (.error .erestartsys, d)
  else match dvbDmxFilterAlloc d with
    | none => (.error .ebusy, d)
    | some (q, d) =>
      let d := d.updFilter q (fun flt => { flt with
        priv := none, feed := some f, type := .sec, state := .ready })
      (.ok q, d.updFeed f (fun feed => { feed with filter := q :: feed.filter }))

def dmxSectionFeedSet (pid : Nat) (checkCrc : Bool) (d : DvbDemux nf nq) : Ret × DvbDemux nf nq :=
  if pid > 0x1fff then (.error .einval, d)
  else if a.interrupted then (.error .erestartsys, d)
  else (.ok (), (dvbDemuxFeedAdd f d).updFeed f (fun feed => { feed with
    pid := pid, sec := { feed.sec with checkCrc := checkCrc }, state := .ready }))

/-- The loop body of `prepare_secfilters`. -/
def prepareSecfilter (flt : DvbDemuxFilter nf) : DvbDemuxFilter nf :=
  let maskandnotmode := fun i => flt.filterMask i &&& ~~~ flt.filterMode i
  { flt with
    maskandmode := fun i => flt.filterMask i &&& flt.filterMode i
    maskandnotmode := maskandnotmode
    doneq := (List.finRange dmxMaxFilterSize).foldl
      (fun doneq i => doneq ||| maskandnotmode i) 0 ≠ 0 }

theorem prepareSecfilter_doneq {flt : DvbDemuxFilter nf} :
    (prepareSecfilter flt).doneq = true ↔ ∃ i, flt.filterMask i &&& ~~~ flt.filterMode i ≠ 0 := by
  simp [prepareSecfilter, foldl_or_ne_zero]

def prepareSecfilters (d : DvbDemux nf nq) : DvbDemux nf nq :=
  (d.feed f).filter.foldl (fun d q => d.updFilter q prepareSecfilter) d

theorem prepareSecfilters_feed (d : DvbDemux nf nq) : (prepareSecfilters f d).feed = d.feed := by
  unfold prepareSecfilters
  generalize (d.feed f).filter = chain
  induction chain generalizing d with
  | nil => rfl
  | cons q rest ih =>
    rw [List.foldl_cons, ih]
    rfl

/-- The buffer is emptied by the same four assignments as in
`dvb_dmx_swfilter_section_new`. -/
def dmxSectionFeedStartFiltering (d : DvbDemux nf nq) : Ret × DvbDemux nf nq :=
  if a.interrupted then (.error .erestartsys, d)
  else if (d.feed f).isFiltering then (.error .ebusy, d)
  else if (d.feed f).filter.isEmpty then (.error .einval, d)
  else if !d.startFeed then
    (.error .enodev, d.updFeed f dvbDmxSwfilterSectionNew)
  else if a.driver < 0 then
    (.error (.driver a.driver),
      prepareSecfilters f (d.updFeed f dvbDmxSwfilterSectionNew))
  else
    (.ok (), (prepareSecfilters f (d.updFeed f dvbDmxSwfilterSectionNew)).updFeed f
      (fun feed => { feed with isFiltering := true, state := .go }))

def dmxSectionFeedStopFiltering (d : DvbDemux nf nq) : Ret × DvbDemux nf nq :=
  if !d.stopFeed then (.error .enodev, d)
  else (if a.driver < 0 then .error (.driver a.driver) else .ok (),
    d.updFeed f (fun feed =>
      { feed with state := .ready, isFiltering := false }))

/-- A feed that is still filtering would be stopped under the mutex that
`stop_filtering` takes again; a filter that is not in the chain is looked for
behind its end. Neither comes back. -/
def dmxSectionFeedReleaseFilter (q : Fin nq) (d : DvbDemux nf nq) : Option (Ret × DvbDemux nf nq) :=
  if (d.filter q).feed ≠ some f then some (.error .einval, d)
  else if (d.feed f).isFiltering then none
  else if q ∈ (d.feed f).filter then
    let d := d.updFeed f (fun feed => { feed with filter := feed.filter.erase q })
    some (.ok (), d.updFilter q (fun flt => { flt with state := .free }))
  else none

def dvbdmxAllocateSectionFeed (d : DvbDemux nf nq) : Except Errno (Fin nf) × DvbDemux nf nq :=
  if a.interrupted then (.error .erestartsys, d)
  else match dvbDmxFeedAlloc d with
    | none => (.error .ebusy, d)
    | some (f, d) =>
      (.ok f, d.updFeed f (fun feed => { feed with
        type := .sec, pid := 0xffff, filter := [], isFiltering := false,
        priv := none, holder := none,
        sec := { feed.sec with secbuf := 0, secbufp := 0, seclen := 0, tsfeedp := 0 } }))

end

def dvbdmxReleaseSectionFeed (f : Fin nf) (d : DvbDemux nf nq) : Ret × DvbDemux nf nq :=
  if (d.feed f).state = .free then (.error .einval, d)
  else
    let d := d.updFeed f (fun feed => { feed with state := .free })
    let d := dvbDemuxFeedDel f d
    (.ok (), d.updFeed f (fun feed => { feed with pid := 0xffff }))

/-! What a call of the TS feed API can have done. -/

theorem freeFeed_some {d : DvbDemux nf nq} {f : Fin nf} (hfree : freeFeed d = some f) :
    (d.feed f).state = .free := by
  simpa using List.find?_some hfree

theorem freeFilter_some {d : DvbDemux nf nq} {q : Fin nq} (hfree : freeFilter d = some q) :
    (d.filter q).state = .free := by
  simpa using List.find?_some hfree

variable (a : Answer)

/-- The three outcomes of an allocation: no slot was touched; a slot was claimed
and given back for want of a filter; a slot and a filter were taken. -/
theorem allocateTsFeed_cases (holder : Option Nat) (d : DvbDemux nf nq) :
    ((a.interrupted = true ∨ freeFeed d = none) ∧
      ∃ err, dvbdmxAllocateTsFeed a holder d = (.error err, none, d)) ∨
    (∃ f, a.interrupted = false ∧ freeFeed d = some f ∧ freeFilter d = none ∧
      dvbdmxAllocateTsFeed a holder d =
        (.error .ebusy, some f, d.updFeed f (tsFeedGivenBack holder))) ∨
    (∃ f q, a.interrupted = false ∧ freeFeed d = some f ∧ freeFilter d = some q ∧
      dvbdmxAllocateTsFeed a holder d = (.ok (), some f,
        (d.updFeed f (tsFeedTaken holder q)).updFilter q (tsFilterTaken f))) := by
  cases hlock : a.interrupted with
  | true => exact .inl ⟨.inl rfl, _, by simp only [dvbdmxAllocateTsFeed, hlock, if_true]; rfl⟩
  | false =>
    rcases hfeed : freeFeed d with _ | f
    · refine .inl ⟨.inr rfl, .ebusy, ?_⟩
      simp only [dvbdmxAllocateTsFeed, hlock, dvbDmxFeedAlloc, hfeed]
      rfl
    right
    cases hflt : freeFilter d with
    | none =>
      refine .inl ⟨f, rfl, rfl, rfl, ?_⟩
      simp only [dvbdmxAllocateTsFeed, hlock, dvbDmxFeedAlloc, hfeed, dvbDmxFilterAlloc,
        freeFilter_updFeed, hflt]
      simp [DvbDemux.updFeed, tsFeedGivenBack, tsFeedInit]
    | some q =>
      refine .inr ⟨f, q, rfl, rfl, rfl, ?_⟩
      simp only [dvbdmxAllocateTsFeed, hlock, dvbDmxFeedAlloc, hfeed, dvbDmxFilterAlloc,
        freeFilter_updFeed, hflt]
      simp [DvbDemux.updFeed, DvbDemux.updFilter, tsFeedTaken, tsFeedInit, tsFilterTaken]

/-- What `set` asks of its arguments and of the decoder entries. -/
def TsSetAccepted (a : Answer) (f : Fin nf) (pid tsType pesType : Nat)
    (d : DvbDemux nf nq) : Prop :=
  pid ≤ dmxMaxPid ∧ a.interrupted = false ∧ (tsType &&& tsDecoder ≠ 0 →
    ∃ hpes : pesType < dmxTsPesOther, pesBusy d f ⟨pesType, hpes⟩ = false)

theorem dmxTsFeedSet_cases (f : Fin nf) (pid tsType pesType : Nat) (d : DvbDemux nf nq) :
    (¬ TsSetAccepted a f pid tsType pesType d ∧
      ∃ err, dmxTsFeedSet a f pid tsType pesType d = (.error err, d)) ∨
    (TsSetAccepted a f pid tsType pesType d ∧ tsType &&& tsDecoder = 0 ∧
      dmxTsFeedSet a f pid tsType pesType d =
        (.ok (), (dvbDemuxFeedAdd f d).updFeed f (tsFeedReady pid tsType pesType))) ∨
    (TsSetAccepted a f pid tsType pesType d ∧ ∃ hpes : pesType < dmxTsPesOther,
      tsType &&& tsDecoder ≠ 0 ∧ pesBusy d f ⟨pesType, hpes⟩ = false ∧
      dmxTsFeedSet a f pid tsType pesType d =
        (.ok (), (dvbDemuxFeedAdd f (takeDecoder f ⟨pesType, hpes⟩ pid d)).updFeed f
          (tsFeedReady pid tsType pesType))) := by
  unfold dmxTsFeedSet TsSetAccepted
  split_ifs with hpid hlock hplain hpes hbusy
  · exact .inl ⟨fun h => absurd h.1 (by omega), _, rfl⟩
  · exact .inl ⟨fun h => by simp [hlock] at h, _, rfl⟩
  · refine .inr (.inl ⟨⟨by omega, by simpa using hlock, ?_⟩, hplain, rfl⟩)
    exact fun h => absurd hplain h
  · refine .inl ⟨?_, _, rfl⟩
    rintro ⟨-, -, hfree⟩
    obtain ⟨_, hvacant⟩ := hfree hplain
    exact absurd hbusy (by simp [hvacant])
  · have hvacant : pesBusy d f ⟨pesType, hpes⟩ = false := by simpa using hbusy
    exact .inr (.inr ⟨⟨by omega, by simpa using hlock, fun _ => ⟨hpes, hvacant⟩⟩,
      hpes, hplain, hvacant, rfl⟩)
  · refine .inl ⟨?_, _, rfl⟩
    rintro ⟨-, -, hfree⟩
    exact hpes (hfree hplain).1

def StartAccepted (a : Answer) (d : DvbDemux nf nq) : Prop :=
  a.interrupted = false ∧ d.startFeed = true ∧ 0 ≤ a.driver

theorem startFiltering_cases (f : Fin nf) (d : DvbDemux nf nq) :
    ((¬ StartAccepted a d ∨ (d.feed f).state ≠ .ready ∨ (d.feed f).type ≠ .ts) ∧
      ∃ err, dmxTsFeedStartFiltering a f d = (.error err, d)) ∨
    (StartAccepted a d ∧ (d.feed f).state = .ready ∧ (d.feed f).type = .ts ∧
      dmxTsFeedStartFiltering a f d = (.ok (), d.updFeed f tsFeedStarted)) := by
  unfold dmxTsFeedStartFiltering StartAccepted
  split_ifs with hlock hready hdrv hfail
  · exact .inl ⟨.inl (by simp [hlock]), _, rfl⟩
  · exact .inl ⟨.inr hready, _, rfl⟩
  · refine .inl ⟨.inl ?_, _, rfl⟩
    rintro ⟨-, hstart, -⟩
    simp [hstart] at hdrv
  · exact .inl ⟨.inl (fun h => absurd h.2.2 (by omega)), _, rfl⟩
  · push Not at hready
    exact .inr ⟨⟨by simpa using hlock, by simpa using hdrv, by omega⟩, hready.1, hready.2, rfl⟩

theorem stopFiltering_cases (f : Fin nf) (d : DvbDemux nf nq) :
    (∃ err, dmxTsFeedStopFiltering a f d = (.error err, d)) ∨
    ((d.feed f).state = .go ∧
      ∃ ret, dmxTsFeedStopFiltering a f d = (ret, d.updFeed f tsFeedStopped)) := by
  unfold dmxTsFeedStopFiltering
  split_ifs with hstate hdrv hfail
  · exact .inl ⟨_, rfl⟩
  · exact .inl ⟨_, rfl⟩
  all_goals
    right
    refine ⟨?_, _, rfl⟩
    revert hstate
    cases (d.feed f).state <;> simp [DmxState.toNat]

theorem releaseTsFeed_cases (d d' : DvbDemux nf nq) (ret : Ret)
    (hrel : dvbdmxReleaseTsFeed f d = some (ret, d')) :
    ((d.feed f).state = .free ∧ d' = d) ∨
    ((d.feed f).state ≠ .free ∧ ∃ q rest, (d.feed f).filter = q :: rest ∧
      d' = pesRelease (d.feed f)
        ((dvbDemuxFeedDel f (d.updFilter q filterFreed)).updFeed f tsFeedReleased)) := by
  unfold dvbdmxReleaseTsFeed at hrel
  split_ifs at hrel with hfree
  · cases hrel
    exact .inl ⟨hfree, rfl⟩
  rcases hchain : (d.feed f).filter with _ | ⟨q, rest⟩
  · simp [hchain] at hrel
  rw [hchain] at hrel
  cases hrel
  exact .inr ⟨hfree, q, rest, rfl, rfl⟩

end TbsMedia.DvbCore
