import TbsMedia.Lib.Run
import TbsMedia.Rc.KeyTable

/-!
Raw IR events on their way to the decoders (`ir-raw.c`). A driver stores events
from its interrupt, a thread takes them out and hands them to the decoders.
Between them is a byte FIFO: the capacity is the requested size rounded to a
power of two, a write takes as many bytes as are free and a read gives as many
as are there. The size of an event is not a power of two.
-/

namespace TbsMedia.Rc

open Lib List

/-- `sizeof(struct ir_raw_event)`: the union of 8 bytes and the flags. -/
def rawEventSize : Nat := 12

def maxIrEventSize : Nat := 512

/-- The bytes of a `struct ir_raw_event`. -/
structure IrRawEvent where
  bytes : Bytes
  size : bytes.length = rawEventSize

structure Kfifo where
  capacity : Nat
  bytes : Bytes

def kfifoIn (fifo : Kfifo) (src : Bytes) : Nat × Kfifo :=
  let len := min src.length (fifo.capacity - fifo.bytes.length)
  (len, { fifo with bytes := fifo.bytes ++ src.take len })

/-- The bytes copied out, at most `len`. -/
def kfifoOut (fifo : Kfifo) (len : Nat) : Bytes × Kfifo :=
  (fifo.bytes.take len, { fifo with bytes := fifo.bytes.drop len })

/-- The FIFO of `ir_raw_event_register`; older kernels round the requested size
up, newer ones down. -/
def rawKfifo (roundUp : Bool) : Kfifo where
  capacity :=
    if roundUp then 2 ^ Nat.clog 2 (rawEventSize * maxIrEventSize)
    else 2 ^ Nat.log 2 (rawEventSize * maxIrEventSize)
  bytes := []

/-- `raw` is `dev->raw`. -/
def irRawEventStore (raw : Option Kfifo) (ev : IrRawEvent) : Int × Option Kfifo :=
  match raw with
  | none => (einval, none)
  | some fifo =>
    let (copied, fifo) := kfifoIn fifo ev.bytes
    (if copied ≠ rawEventSize then enomem else 0, some fifo)

/-- What one round of `ir_raw_event_thread` does. -/
inductive ThreadRound
  | sleeps
  /-- `BUG_ON(retval != sizeof(ev))` fires. -/
  | bug
  | decodes (ev : Bytes)
  deriving DecidableEq

def irRawEventThread (fifo : Kfifo) : ThreadRound × Kfifo :=
  let (ev, fifo) := kfifoOut fifo rawEventSize
  if ev.length = 0 then (.sleeps, fifo)
  else if ev.length ≠ rawEventSize then (.bug, fifo)
  else (.decodes ev, fifo)

/-- The FIFO with what has happened to it: the events whose store returned 0,
those given to the decoders, whether a store that returned `-ENOMEM` has changed
the FIFO, and whether the thread has run into its `BUG_ON`. -/
structure RawState where
  fifo : Kfifo
  stored : List Bytes
  decoded : List Bytes
  torn : Bool
  bug : Bool

inductive RawInput
  | store (ev : IrRawEvent)
  | thread

def rawStep (s : RawState) : RawInput → Option RawState
  | .store ev =>
    match irRawEventStore (some s.fifo) ev with
    | (ret, some fifo) =>
      some { s with fifo := fifo,
                    stored := if ret = 0 then s.stored ++ [ev.bytes] else s.stored,
                    torn := s.torn || (ret = enomem && fifo.bytes ≠ s.fifo.bytes) }
    | (_, none) => none
  | .thread =>
    if s.bug then none
    else
      match irRawEventThread s.fifo with
      | (.sleeps, fifo) => some { s with fifo := fifo }
      | (.bug, fifo) => some { s with fifo := fifo, bug := true }
      | (.decodes ev, fifo) => some { s with fifo := fifo, decoded := s.decoded ++ [ev] }

def rawStart (roundUp : Bool) : RawState where
  fifo := rawKfifo roundUp
  stored := []
  decoded := []
  torn := false
  bug := false

/-- The decoders have got the stored events, in order and intact, no failed
store has left bytes behind, and the thread is alive. -/
def EventsIntact (s : RawState) : Prop :=
  s.decoded <+: s.stored ∧ s.torn = false ∧ s.bug = false

def RoomForEvent (s : RawState) : RawInput → Prop
  | .store _ => s.fifo.bytes.length + rawEventSize ≤ s.fifo.capacity
  | .thread => True

structure HoldsEvents (s : RawState) : Prop where
  capacity : s.fifo.capacity = 4096 ∨ s.fifo.capacity = 8192
  fits : s.fifo.bytes.length ≤ s.fifo.capacity
  pending : ∃ events : List Bytes, s.stored = s.decoded ++ events ∧
    s.fifo.bytes = events.flatten ∧ ∀ ev ∈ events, ev.length = rawEventSize
  untorn : s.torn = false
  alive : s.bug = false

variable {events : List Bytes} {s next : RawState} {ev : IrRawEvent}

theorem length_flatten_events (hsize : ∀ ev ∈ events, ev.length = rawEventSize) :
    events.flatten.length = events.length * rawEventSize := by
  induction events with
  | nil => simp
  | cons ev rest ih =>
    have hrest := ih (fun e he => hsize e (mem_cons_of_mem ev he))
    rw [flatten_cons, length_append, hrest, hsize ev mem_cons_self, length_cons]
    ring

theorem HoldsEvents.intact (hholds : HoldsEvents s) : EventsIntact s := by
  obtain ⟨events, hstore, -, -⟩ := hholds.pending
  exact ⟨⟨events, hstore.symm⟩, hholds.untorn, hholds.alive⟩

theorem HoldsEvents.store (hholds : HoldsEvents s) (hstep : rawStep s (.store ev) = some next)
    (hroom : RoomForEvent s (.store ev)) : HoldsEvents next := by
  have hsize := ev.size
  have hcopy : min ev.bytes.length (s.fifo.capacity - s.fifo.bytes.length) = rawEventSize := by
    rw [RoomForEvent] at hroom
    omega
  simp only [rawStep, irRawEventStore, kfifoIn, hcopy, ne_eq, not_true_eq_false, if_false,
    if_true, Option.some.injEq] at hstep
  subst hstep
  obtain ⟨events, hstore, hbytes, hsizes⟩ := hholds.pending
  have htake := take_of_length_le hsize.le
  refine ⟨hholds.capacity, ?_, ⟨events ++ [ev.bytes], ?_, ?_, ?_⟩, ?_, hholds.alive⟩
  · simp only [htake, length_append, hsize]
    exact hroom
  · simp [hstore]
  · simp [htake, hbytes]
  · intro e he
    rcases mem_append.mp he with he | he
    · exact hsizes e he
    · rw [mem_singleton.mp he]
      exact hsize
  · simp [hholds.untorn, enomem]

structure HoldsPart (s : RawState) (events : List Bytes) : Prop where
  bytes : ∃ part, s.fifo.bytes = events.flatten ++ part ∧ 0 < part.length ∧
    part.length < rawEventSize
  sizes : ∀ ev ∈ events, ev.length = rawEventSize
  alive : s.bug = false

/-- A store into the rest of the capacity leaves a part of its event behind. -/
theorem HoldsEvents.torn (hholds : HoldsEvents s) (hstep : rawStep s (.store ev) = some next)
    (hroom : ¬ RoomForEvent s (.store ev)) :
    next.torn = true ∧ ∃ events, HoldsPart next events := by
  have hsize := ev.size
  obtain ⟨events, -, hbytes, hsizes⟩ := hholds.pending
  have hused := length_flatten_events hsizes
  have hfits := hholds.fits
  have hcapacity := hholds.capacity
  rw [← hbytes] at hused
  simp only [RoomForEvent, rawEventSize] at hroom hused hsize
  have hfree : 0 < s.fifo.capacity - s.fifo.bytes.length ∧
      s.fifo.capacity - s.fifo.bytes.length < 12 := by omega
  obtain ⟨n, hn⟩ : ∃ n, min ev.bytes.length (s.fifo.capacity - s.fifo.bytes.length) = n := ⟨_, rfl⟩
  have hpart : 0 < n ∧ n < 12 := by omega
  have hshort : n ≠ rawEventSize := by
    unfold rawEventSize
    omega
  simp only [rawStep, irRawEventStore, kfifoIn, hn, ne_eq, hshort, not_false_eq_true, if_true,
    Option.some.injEq] at hstep
  subst hstep
  have hchange : ev.bytes.take n ≠ [] := by
    intro hnil
    have hlen := congrArg List.length hnil
    simp only [length_take, length_nil] at hlen
    omega
  refine ⟨by simp [hchange], events, ⟨ev.bytes.take n, by simp [hbytes], ?_⟩, hsizes, hholds.alive⟩
  rw [length_take]
  unfold rawEventSize
  omega

theorem rawStep_decodes (halive : s.bug = false) {ev rest : Bytes}
    (hbytes : s.fifo.bytes = ev ++ rest) (hev : ev.length = rawEventSize) :
    rawStep s .thread = some { s with fifo := { s.fifo with bytes := rest },
                                      decoded := s.decoded ++ [ev] } := by
  have htake : s.fifo.bytes.take rawEventSize = ev := by rw [hbytes, take_left' hev]
  have hdrop : s.fifo.bytes.drop rawEventSize = rest := by rw [hbytes, drop_left' hev]
  have hsome : ¬ rawEventSize = 0 := by decide
  simp [rawStep, halive, irRawEventThread, kfifoOut, htake, hdrop, hev, hsome]

theorem HoldsEvents.thread (hholds : HoldsEvents s) (hstep : rawStep s .thread = some next) :
    HoldsEvents next := by
  obtain ⟨events, hstore, hbytes, hsizes⟩ := hholds.pending
  have halive := hholds.alive
  have hfits := hholds.fits
  rcases events with _ | ⟨ev, rest⟩
  · simp only [rawStep, halive, irRawEventThread, kfifoOut, hbytes] at hstep
    cases hstep
    refine ⟨hholds.capacity, Nat.zero_le _, ⟨[], hstore, rfl, hsizes⟩, hholds.untorn, rfl⟩
  have hev := hsizes ev mem_cons_self
  rw [flatten_cons] at hbytes
  rw [rawStep_decodes halive hbytes hev] at hstep
  cases hstep
  refine ⟨hholds.capacity, ?_, ⟨rest, ?_, rfl, ?_⟩, hholds.untorn, halive⟩
  · have hlen := congrArg List.length hbytes
    rw [length_append] at hlen
    simp only
    omega
  · simp [hstore]
  · exact fun e he => hsizes e (mem_cons_of_mem ev he)

/-- The thread takes out the whole events and runs into its `BUG_ON` with the part. -/
theorem HoldsPart.thread_bug (hpart : HoldsPart s events) :
    ∃ last, (List.replicate (events.length + 1) RawInput.thread).foldlM rawStep s = some last ∧
      last.bug = true := by
  obtain ⟨part, hbytes, hpos, hlt⟩ := hpart.bytes
  have halive := hpart.alive
  induction events generalizing s with
  | nil =>
    have htake : s.fifo.bytes.take rawEventSize = part := by
      rw [hbytes, flatten_nil, nil_append, take_of_length_le hlt.le]
    have hstep : rawStep s .thread = some { s with
        fifo := { s.fifo with bytes := s.fifo.bytes.drop rawEventSize }, bug := true } := by
      have hsome := ne_nil_of_length_pos hpos
      simp [rawStep, halive, irRawEventThread, kfifoOut, htake, hsome, hlt.ne]
    exact ⟨_, by rw [replicate_succ, foldlM_cons, hstep]; rfl, rfl⟩
  | cons ev rest ih =>
    have hev := hpart.sizes ev mem_cons_self
    rw [flatten_cons, append_assoc] at hbytes
    let next : RawState := { s with fifo := { s.fifo with bytes := rest.flatten ++ part },
                                    decoded := s.decoded ++ [ev] }
    have hstep := rawStep_decodes halive hbytes hev
    have hnext : HoldsPart next rest :=
      ⟨⟨part, rfl, hpos, hlt⟩, fun e he => hpart.sizes e (mem_cons_of_mem ev he), halive⟩
    obtain ⟨last, hrun, hbug⟩ := ih hnext rfl halive
    refine ⟨last, ?_, hbug⟩
    rw [replicate_succ, foldlM_cons, hstep]
    exact hrun

theorem stores_fill (hholds : HoldsEvents s) (ev : IrRawEvent) (count : Nat)
    (hroom : s.fifo.bytes.length + count * rawEventSize ≤ s.fifo.capacity) :
    ∃ last, (List.replicate count (RawInput.store ev)).foldlM rawStep s = some last ∧
      HoldsEvents last ∧ last.fifo.capacity = s.fifo.capacity ∧
      last.fifo.bytes.length = s.fifo.bytes.length + count * rawEventSize := by
  induction count generalizing s with
  | zero => exact ⟨s, rfl, hholds, rfl, by simp⟩
  | succ count ih =>
    rw [Nat.succ_mul] at hroom
    have hfirst : RoomForEvent s (.store ev) := by
      rw [RoomForEvent]
      omega
    obtain ⟨next, hstep⟩ : ∃ next, rawStep s (.store ev) = some next := ⟨_, rfl⟩
    have hnext := hholds.store hstep hfirst
    have hlen : next.fifo.bytes.length = s.fifo.bytes.length + rawEventSize ∧
        next.fifo.capacity = s.fifo.capacity := by
      have hsize := ev.size
      rw [RoomForEvent] at hfirst
      cases hstep
      refine ⟨?_, rfl⟩
      simp only [length_append, length_take]
      omega
    obtain ⟨last, hrun, hlast, hcapacity, hused⟩ := ih hnext (by omega)
    refine ⟨last, ?_, hlast, hcapacity.trans hlen.2, ?_⟩
    · rw [replicate_succ, foldlM_cons, hstep]
      exact hrun
    · rw [hused, hlen.1, Nat.succ_mul]
      omega

theorem holdsEvents_start (roundUp : Bool) : HoldsEvents (rawStart roundUp) := by
  refine ⟨?_, Nat.zero_le _, ⟨[], rfl, rfl, by simp⟩, rfl, rfl⟩
  cases roundUp
  · exact .inl (by decide)
  · exact .inr (by decide)

/-- Events survive the FIFO in a run exactly if no store finds less room than a
whole event needs. -/
theorem events_intact_iff_room (roundUp : Bool) (inputs : List RawInput) :
    Always rawStep EventsIntact (rawStart roundUp) inputs ↔
      Along rawStep RoomForEvent (rawStart roundUp) inputs := by
  apply always_iff_along rawStep EventsIntact RoomForEvent HoldsEvents
  · exact fun s hholds => hholds.intact
  · intro s input next hholds hstep hroom
    cases input with
    | store ev => exact hholds.store hstep hroom
    | thread => exact hholds.thread hstep
  · intro s input next hholds hstep hroom hintact
    cases input with
    | store ev =>
      have htorn := (hholds.torn hstep hroom).1
      rw [hintact.2.1] at htorn
      exact absurd htorn (by decide)
    | thread => exact hroom trivial
  · exact holdsEvents_start roundUp

def sampleEvent : IrRawEvent where
  bytes := [1, 0, 0, 0, 0, 0, 0, 0, 1, 0, 0, 0]
  size := rfl

/-- The 342nd store finds 4 bytes free, leaves them filled and returns
`-ENOMEM`, and some rounds later the thread runs into its `BUG_ON`. -/
theorem full_fifo_tears_event :
    ∃ full torn dead rounds,
      (List.replicate 341 (RawInput.store sampleEvent)).foldlM rawStep (rawStart false) =
        some full ∧
      rawStep full (.store sampleEvent) = some torn ∧ torn.torn = true ∧
      (List.replicate rounds RawInput.thread).foldlM rawStep torn = some dead ∧
      dead.bug = true := by
  have hcapacity : (rawStart false).fifo.capacity = 4096 := by decide
  obtain ⟨full, hfill, hholds, hsame, hused⟩ :=
    stores_fill (holdsEvents_start false) sampleEvent 341 (by decide)
  obtain ⟨torn, hstep⟩ : ∃ torn, rawStep full (.store sampleEvent) = some torn := ⟨_, rfl⟩
  have hroom : ¬ RoomForEvent full (.store sampleEvent) := by
    simp only [RoomForEvent, hsame, hused, hcapacity]
    decide
  obtain ⟨htorn, events, hpart⟩ := hholds.torn hstep hroom
  obtain ⟨dead, hrun, hbug⟩ := hpart.thread_bug
  exact ⟨full, torn, dead, events.length + 1, hfill, hstep, htorn, hrun, hbug⟩

end TbsMedia.Rc
