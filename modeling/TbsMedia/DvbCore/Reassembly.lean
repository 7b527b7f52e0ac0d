import TbsMedia.Lib.Run
import TbsMedia.Lib.Walk
import TbsMedia.DvbCore.SectionFeed

/-!
What the section path is for, without its scratch fields: a buffer that grows
by the payload bytes of a PID, is walked for complete sections, and is emptied
where a section starts or where bytes were lost. A packet is a short list of
such actions. The last part proves that the code's section feed carries out
exactly the actions of each packet and hands on exactly the same sections.
-/

namespace TbsMedia.DvbCore

open Lib List

variable {nf nq : Nat}

/-- The size of the section at offset `o`, if it may be handed on and all of it
lies in front of `limit`. -/
def nextSection (mem : Mem UInt8) (limit o : Nat) : Option Nat :=
  let seclen := sectionLength (fun i => mem (o + i))
  if o + 2 < limit ∧ seclen ≤ dmxMaxSectionSize ∧ o + seclen ≤ limit then
    some seclen else none

variable {mem : Mem UInt8} {limit : Nat}

theorem nextSection_eq_some {o len : Nat} :
    nextSection mem limit o = some len ↔
      sectionLength (fun i => mem (o + i)) = len ∧
        o + 2 < limit ∧ len ≤ dmxMaxSectionSize ∧ o + len ≤ limit := by
  simp only [nextSection, Option.ite_none_right_eq_some, Option.some.injEq]
  constructor
  · rintro ⟨hroom, rfl⟩
    exact ⟨rfl, hroom⟩
  · rintro ⟨rfl, hroom⟩
    exact ⟨hroom, rfl⟩

theorem nextSection_pos (o len : Nat) (hnext : nextSection mem limit o = some len) : 0 < len := by
  have hlen := (nextSection_eq_some.mp hnext).1
  have hbounds := sectionLength_bounds (fun i => mem (o + i))
  omega

theorem nextSection_fit (o len : Nat) (hnext : nextSection mem limit o = some len) :
    o + len ≤ limit :=
  (nextSection_eq_some.mp hnext).2.2.2

/-- A section that was complete stays the same section when bytes are added
behind the ones that were there. -/
theorem nextSection_memcpy (xs : Bytes) (limit' : Nat) (hgrow : limit ≤ limit') (o len : Nat)
    (hnext : nextSection mem limit o = some len) :
    nextSection (mem.memcpy limit xs) limit' o = some len := by
  obtain ⟨hlen, hroom, hmax, hfit⟩ := nextSection_eq_some.mp hnext
  refine nextSection_eq_some.mpr ⟨?_, by omega, hmax, by omega⟩
  rw [← hlen]
  exact sectionLength_congr _ _ (Mem.memcpy_below mem limit xs (o + 1) (by omega))
    (Mem.memcpy_below mem limit xs (o + 2) (by omega))

/-- The reassembly buffer of a section feed. `parsed` says that `secbufp` is
reached from the start of the buffer over complete sections. -/
structure Reassembly where
  mem : Mem UInt8
  secbufp : Nat
  tsfeedp : Nat
  pusiSeen : Bool
  bound : tsfeedp ≤ dmxMaxSecfeedSize
  parsed : ∃ records, Steps (nextSection mem tsfeedp) 0 records secbufp

open Reassembly

inductive Action where
  /-- Bytes of the PID are missing: empty the buffer and wait for a start. -/
  | lose
  /-- A section starts here: empty the buffer. -/
  | start
  | append (bytes : Bytes)
  /-- What a packet without payload does: go back to the start of the buffer. -/
  | rewind
deriving DecidableEq

namespace Reassembly

theorem secbufp_le (r : Reassembly) : r.secbufp ≤ r.tsfeedp := by
  obtain ⟨records, hsteps⟩ := r.parsed
  exact hsteps.end_le nextSection_fit (Nat.zero_le _)

/-- The bytes of `xs` for which the buffer has room. -/
def accepted (r : Reassembly) (xs : Bytes) : Bytes :=
  xs.take (dmxMaxSecfeedSize - r.tsfeedp)

theorem length_accepted (r : Reassembly) (xs : Bytes) :
    r.tsfeedp + (r.accepted xs).length ≤ dmxMaxSecfeedSize := by
  have hbound := r.bound
  simp only [accepted, length_take]
  omega

def empty (r : Reassembly) (pusiSeen : Bool) : Reassembly :=
  { r with secbufp := 0, tsfeedp := 0, pusiSeen := pusiSeen,
           bound := Nat.zero_le _, parsed := ⟨[], .nil 0⟩ }

def rewound (r : Reassembly) : Reassembly :=
  { r with secbufp := 0, parsed := ⟨[], .nil 0⟩ }

section

variable (r : Reassembly)

/-- The sections that are complete once `xs` is in the buffer. -/
def records (xs : Bytes) : List (Nat × Nat) :=
  walk (nextSection (r.mem.memcpy r.tsfeedp (r.accepted xs))
    (r.tsfeedp + (r.accepted xs).length)) (r.tsfeedp + (r.accepted xs).length)
    r.secbufp

def recordsEnd (xs : Bytes) : Nat :=
  walkEnd (nextSection (r.mem.memcpy r.tsfeedp (r.accepted xs))
    (r.tsfeedp + (r.accepted xs).length)) (r.tsfeedp + (r.accepted xs).length)
    r.secbufp

theorem steps_records (xs : Bytes) :
    Steps (nextSection (r.mem.memcpy r.tsfeedp (r.accepted xs))
        (r.tsfeedp + (r.accepted xs).length)) r.secbufp (r.records xs)
        (r.recordsEnd xs) ∧
      nextSection (r.mem.memcpy r.tsfeedp (r.accepted xs))
        (r.tsfeedp + (r.accepted xs).length) (r.recordsEnd xs) = none :=
  steps_walk nextSection_pos nextSection_fit _ _ (Nat.le_add_left _ _)

theorem parsed_append (xs : Bytes) :
    ∃ records, Steps (nextSection (r.mem.memcpy r.tsfeedp (r.accepted xs))
      (r.tsfeedp + (r.accepted xs).length)) 0 records r.secbufp := by
  obtain ⟨records, hsteps⟩ := r.parsed
  exact ⟨records, hsteps.mono (nextSection_memcpy _ _ (Nat.le_add_right _ _))⟩

def filled (xs : Bytes) : Reassembly :=
  { r with
    mem := r.mem.memcpy r.tsfeedp (r.accepted xs)
    secbufp := r.recordsEnd xs
    tsfeedp := r.tsfeedp + (r.accepted xs).length
    bound := r.length_accepted xs
    parsed := by
      obtain ⟨records, hsteps⟩ := r.parsed_append xs
      exact ⟨_, hsteps.trans (r.steps_records xs).1⟩ }

end

def dump (calls : Mem UInt8 → Nat → Nat → List (Fin nq)) (mem : Mem UInt8)
    (record : Nat × Nat) : SectionDump nq :=
  { start := record.1
    bytes := mem.read record.1 record.2
    filters := calls mem record.1 record.2 }

def step (calls : Mem UInt8 → Nat → Nat → List (Fin nq)) (r : Reassembly) :
    Action → Reassembly × List (SectionDump nq)
  | .lose => (r.empty false, [])
  | .start => (r.empty true, [])
  | .rewind => (r.rewound, [])
  | .append xs =>
    if r.accepted xs = [] then (r, [])
    else (r.filled xs, if r.pusiSeen then
      (r.records xs).map (dump calls (r.filled xs).mem) else [])

end Reassembly

/-- The packet does not continue the one with counter `cc`. -/
def lost (cc : Int) (buf : TsPacket) : Bool :=
  (cc + 1) % 16 ≠ continuityCounter buf ∨ discontinuityIndicator buf

def pointerValid (buf : TsPacket) : Bool :=
  payload buf > 1 ∧ (buf.byte (188 - payload buf)).toNat < payload buf

/-- What the payload of a packet does to the buffer. A start packet ends the
section before its pointer and begins the one behind it. -/
def payloadActions (buf : TsPacket) : List Action :=
  let count := payload buf
  let p := 188 - count
  let pointer := (buf.byte p).toNat
  if pusi buf then
    if pointerValid buf then
      [.append (buf.slice (p + 1) pointer), .start,
        .append (buf.slice (p + 1 + pointer) (count - 1 - pointer))]
    else []
  else [.append (buf.slice p count)]

/-- What a packet does to the buffer of a feed whose last counter was `cc`. -/
def packetActions (cc : Int) (buf : TsPacket) : List Action :=
  if payload buf = 0 then [.rewind]
  else (if lost cc buf then [.lose] else []) ++ payloadActions buf

def nextCc (cc : Int) (buf : TsPacket) : Int :=
  if payload buf = 0 then cc else continuityCounter buf

def streamActions (cc : Int) : List TsPacket → List Action
  | [] => []
  | buf :: rest => packetActions cc buf ++ streamActions (nextCc cc buf) rest

/-! The code carries out the actions. -/

variable (ops : SectionOps nq) (flt : Fin nq → DvbDemuxFilter nf)

/-- The filters that `dvb_dmx_swfilter_section_feed` calls for the section of
`len` bytes at `start`. The CRC register is set before every call. -/
def sectionCalls (feed : DvbDemuxFeed nq) (mem : Mem UInt8) (start len : Nat) : List (Fin nq) :=
  (dvbDmxSwfilterSectionFeed ops flt { feed with sec := { feed.sec with
    secbufBase := mem, secbuf := start, seclen := len, crcVal := 0xffffffff } }).2

/-- `feed'` is `feed` with other contents of the section buffer. What decides
about the callbacks is the same in both. -/
structure SameSink (feed feed' : DvbDemuxFeed nq) : Prop where
  isFiltering : feed'.isFiltering = feed.isFiltering
  filter : feed'.filter = feed.filter
  checkCrc : feed'.sec.checkCrc = feed.sec.checkCrc

variable {feed : DvbDemuxFeed nq}

theorem SameSink.sectionCalls_eq {feed' : DvbDemuxFeed nq} (hsame : SameSink feed feed') :
    sectionCalls ops flt feed' = sectionCalls ops flt feed := by
  funext mem start len
  simp only [sectionCalls, dvbDmxSwfilterSectionFeed, hsame.isFiltering,
    hsame.filter, hsame.checkCrc]
  split_ifs <;> rfl

theorem sectionFeed_sec (feed : DvbDemuxFeed nq) :
    ∃ crc len, (dvbDmxSwfilterSectionFeed ops flt feed).1 =
      { feed.sec with crcVal := crc, seclen := len } := by
  simp only [dvbDmxSwfilterSectionFeed]
  split_ifs <;> exact ⟨_, _, rfl⟩

def withScratch (feed : DvbDemuxFeed nq) (secbufp secbuf seclen : Nat)
    (crc : UInt32) : DvbDemuxFeed nq :=
  { feed with sec := { feed.sec with
      secbufp := secbufp, secbuf := secbuf, seclen := seclen, crcVal := crc } }

theorem dumpSection_spec (feed : DvbDemuxFeed nq) (seclen : Nat) :
    (∃ len crc, (dumpSection ops flt feed seclen).1 =
      withScratch feed ((feed.sec.secbufp + seclen) % 2 ^ 16) (feed.sec.secbuf + seclen) len crc) ∧
    (dumpSection ops flt feed seclen).2 =
      if feed.pusiSeen then
        [Reassembly.dump (sectionCalls ops flt feed) feed.sec.secbufBase
          (feed.sec.secbuf, seclen)] else [] := by
  obtain ⟨crc, len, hsec⟩ := sectionFeed_sec ops flt { feed with sec :=
    { feed.sec with seclen := seclen, crcVal := 0xffffffff } }
  constructor
  · simp only [dumpSection, hsec]
    split_ifs <;> exact ⟨_, _, rfl⟩
  · rw [dumpSection]
    split_ifs <;> rfl

/-- The dump loop is the walk over the buffer. Every round moves both
`secbufp` and `secbuf` to the next record, and no `u16` wraps below `limit`. -/
theorem dumpLoop_spec (limit : Nat) (hlimit : limit ≤ dmxMaxSecfeedSize)
    (rounds : Nat) (feed : DvbDemuxFeed nq) (htogether : feed.sec.secbuf = feed.sec.secbufp) :
    let next := nextSection feed.sec.secbufBase limit
    (∃ secbuf len crc, (dumpLoop ops flt limit rounds feed).1 =
      withScratch feed (walkEnd next rounds feed.sec.secbufp) secbuf len crc) ∧
    (dumpLoop ops flt limit rounds feed).2 =
      if feed.pusiSeen then (walk next rounds feed.sec.secbufp).map
        (dump (sectionCalls ops flt feed) feed.sec.secbufBase)
      else [] := by
  intro next
  induction rounds generalizing feed with
  | zero => exact ⟨⟨_, _, _, rfl⟩, by simp [dumpLoop, walk]⟩
  | succ rounds ih =>
    obtain ⟨seclen, hseclen⟩ : ∃ n, sectionLength
        (fun i => feed.sec.secbufBase (feed.sec.secbufp + i)) = n := ⟨_, rfl⟩
    have hbounds := sectionLength_bounds (fun i => feed.sec.secbufBase (feed.sec.secbufp + i))
    have hmod : seclen % 2 ^ 16 = seclen := Nat.mod_eq_of_lt (by omega)
    have hmax : dmxMaxSecfeedSize = 4284 := rfl
    by_cases hcomp : feed.sec.secbufp + 2 < limit ∧
        seclen ≤ dmxMaxSectionSize ∧ feed.sec.secbufp + seclen ≤ limit
    · obtain ⟨hroom, hsize, hfit⟩ := hcomp
      have hnext : next feed.sec.secbufp = some seclen :=
        nextSection_eq_some.mpr ⟨hseclen, hroom, hsize, hfit⟩
      obtain ⟨⟨len, crc, hfeed⟩, hdumps⟩ := dumpSection_spec ops flt feed seclen
      have hwrap : (feed.sec.secbufp + seclen) % 2 ^ 16 =
          feed.sec.secbufp + seclen := Nat.mod_eq_of_lt (by omega)
      rw [hwrap] at hfeed
      obtain ⟨⟨secbuf, len', crc', hrest⟩, hmore⟩ := ih (dumpSection ops flt feed seclen).1
        (by rw [hfeed]; simp [withScratch, htogether])
      have hsame : SameSink feed (dumpSection ops flt feed seclen).1 := by
        rw [hfeed]
        exact ⟨rfl, rfl, rfl⟩
      have hgo : dumpLoop ops flt limit (rounds + 1) feed =
          ((dumpLoop ops flt limit rounds (dumpSection ops flt feed seclen).1).1,
            (dumpSection ops flt feed seclen).2 ++
            (dumpLoop ops flt limit rounds (dumpSection ops flt feed seclen).1).2) := by
        simp only [dumpLoop, htogether, hseclen, hmod, if_pos hroom]
        exact if_neg (by omega)
      simp only [hgo, walk, walkEnd, hnext]
      refine ⟨⟨secbuf, len', crc', ?_⟩, ?_⟩
      · rw [hrest, hfeed]
        rfl
      rw [hmore, hdumps, hsame.sectionCalls_eq, hfeed]
      simp only [withScratch, htogether]
      split_ifs
      · rfl
      · rfl
    · have hnext : next feed.sec.secbufp = none := by
        simp only [next, nextSection, hseclen]
        exact if_neg hcomp
      have hstop : dumpLoop ops flt limit (rounds + 1) feed = (feed, []) := by
        simp only [dumpLoop, htogether, hseclen, hmod]
        split_ifs with hroom hcond
        · rfl
        · omega
        · rfl
      simp only [hstop, walk, walkEnd, hnext]
      exact ⟨⟨_, _, _, rfl⟩, by simp⟩

/-- The section buffer of `feed` is in state `r`, and what decides about the
callbacks and the continuity counter is as in `origin`. -/
structure Represents (origin feed : DvbDemuxFeed nq) (r : Reassembly) : Prop where
  mem : feed.sec.secbufBase = r.mem
  secbufp : feed.sec.secbufp = r.secbufp
  tsfeedp : feed.sec.tsfeedp = r.tsfeedp
  pusiSeen : feed.pusiSeen = r.pusiSeen
  sink : SameSink origin feed

variable {origin : DvbDemuxFeed nq} {r : Reassembly}

theorem Represents.sectionNew (hrep : Represents origin feed r) (seen : Bool) :
    Represents origin (dvbDmxSwfilterSectionNew { feed with pusiSeen := seen }) (r.empty seen) :=
  ⟨hrep.mem, rfl, rfl, rfl, hrep.sink.isFiltering, hrep.sink.filter, hrep.sink.checkCrc⟩

theorem copied_length (r : Reassembly) (xs : Bytes) (hxs : xs.length < 256) :
    (if r.tsfeedp + xs.length > dmxMaxSecfeedSize then
      (dmxMaxSecfeedSize - r.tsfeedp) % 2 ^ 8 else xs.length) = (r.accepted xs).length := by
  have hbound := r.bound
  simp only [accepted, length_take]
  split_ifs <;> omega

theorem take_accepted (r : Reassembly) (xs : Bytes) :
    xs.take (r.accepted xs).length = r.accepted xs := by
  rw [accepted, length_take, ← take_eq_take_min]

section

variable (hrep : Represents origin feed r)
include hrep

/-- Copying the bytes of a packet into the section buffer and dumping what is
complete is the `append` action. -/
theorem copyDump_refines (xs : Bytes) (hxs : xs.length < 256) :
    let out := dvbDmxSwfilterSectionCopyDump ops flt feed xs
    let next := r.step (sectionCalls ops flt origin) (.append xs)
    Represents origin out.1 next.1 ∧ out.1.cc = feed.cc ∧ out.2 = next.2 := by
  intro out next
  have hmax : dmxMaxSecfeedSize = 4284 := rfl
  have hlen := copied_length r xs hxs
  have htotal := r.length_accepted xs
  by_cases hnone : r.accepted xs = []
  · have hzero : (r.accepted xs).length = 0 := by simp [hnone]
    have hout : out = (feed, []) := by
      simp only [out, dvbDmxSwfilterSectionCopyDump, hrep.tsfeedp, hlen, hzero]
      simp
    have hnext : next = (r, []) := if_pos hnone
    rw [hout, hnext]
    exact ⟨hrep, rfl, rfl⟩
  · have hsome := length_pos_of_ne_nil hnone
    have hnext : next = (r.filled xs, if r.pusiSeen then (r.records xs).map
        (dump (sectionCalls ops flt origin) (r.filled xs).mem) else []) :=
      if_neg hnone
    have hwrap : (r.tsfeedp + (r.accepted xs).length) % 2 ^ 16 =
        r.tsfeedp + (r.accepted xs).length := Nat.mod_eq_of_lt (by omega)
    let copied : DvbDemuxFeed nq := { feed with sec := { feed.sec with
      secbufBase := r.mem.memcpy r.tsfeedp (r.accepted xs)
      tsfeedp := r.tsfeedp + (r.accepted xs).length
      secbuf := r.secbufp
      secbufp := r.secbufp } }
    have hout : out = dumpLoop ops flt (r.tsfeedp + (r.accepted xs).length)
        (r.tsfeedp + (r.accepted xs).length) copied := by
      simp only [out, dvbDmxSwfilterSectionCopyDump, hrep.tsfeedp, hrep.mem,
        hrep.secbufp, hlen, take_accepted, hwrap]
      rw [if_neg (by omega), if_neg (by omega), if_neg (by omega)]
    obtain ⟨⟨secbuf, len, crc, hfeed⟩, hdumps⟩ := dumpLoop_spec ops flt
      (r.tsfeedp + (r.accepted xs).length) htotal
      (r.tsfeedp + (r.accepted xs).length) copied rfl
    have hsink : SameSink origin copied :=
      ⟨hrep.sink.isFiltering, hrep.sink.filter, hrep.sink.checkCrc⟩
    rw [hout, hnext, hfeed, hdumps]
    refine ⟨⟨rfl, rfl, rfl, hrep.pusiSeen, hsink.isFiltering, hsink.filter,
      hsink.checkCrc⟩, rfl, ?_⟩
    rw [hsink.sectionCalls_eq, show copied.pusiSeen = r.pusiSeen from hrep.pusiSeen]
    rfl

/-- The code behind its check for lost packets carries out the actions of the
payload. -/
theorem sectionPayload_refines (buf : TsPacket) : let out := sectionPayload ops flt feed buf
    let step := step (sectionCalls ops flt origin)
    Represents origin out.1 (final step r (payloadActions buf)) ∧
      out.1.cc = feed.cc ∧ out.2 = emitted step r (payloadActions buf) := by
  have hcount := payload_le buf
  have hslice (start len : Nat) (hlen : len < 256) :
      (buf.slice start len).length < 256 := by
    simp only [TsPacket.slice, length_take]
    omega
  unfold sectionPayload payloadActions
  by_cases hstart : pusi buf = true
  · rw [if_pos hstart, if_pos hstart]
    by_cases hvalid : payload buf > 1 ∧ (buf.byte (188 - payload buf)).toNat < payload buf
    · have hptr : pointerValid buf = true := decide_eq_true hvalid
      rw [if_pos hvalid, if_pos hptr]
      obtain ⟨hfirst, hcc, hdumps⟩ := copyDump_refines ops flt hrep
        (buf.slice (188 - payload buf + 1) (buf.byte (188 - payload buf)).toNat)
        (hslice _ _ (by omega))
      obtain ⟨hsecond, hcc', hdumps'⟩ := copyDump_refines ops flt (hfirst.sectionNew true)
        (buf.slice (188 - payload buf + 1 + (buf.byte (188 - payload buf)).toNat)
          (payload buf - 1 - (buf.byte (188 - payload buf)).toNat))
        (hslice _ _ (by omega))
      refine ⟨hsecond, hcc'.trans hcc, ?_⟩
      simp only [emitted, append_nil]
      exact congrArg₂ (· ++ ·) hdumps hdumps'
    · rw [if_neg hvalid, if_neg (by simpa [pointerValid] using hvalid)]
      exact ⟨hrep, rfl, rfl⟩
  · rw [if_neg hstart, if_neg hstart]
    obtain ⟨hnext, hcc, hdumps⟩ := copyDump_refines ops flt hrep
      (buf.slice (188 - payload buf) (payload buf)) (hslice _ _ (by omega))
    refine ⟨hnext, hcc, ?_⟩
    simp only [emitted, append_nil]
    exact hdumps

theorem sectionPacketType_refines (hon : feed.isFiltering = true) (buf : TsPacket) :
    let out := sectionPacketType ops flt feed buf
    let step := step (sectionCalls ops flt origin)
    Represents origin out.1 (final step r (packetActions feed.cc buf)) ∧
      out.1.cc = nextCc feed.cc buf ∧
      out.2 = emitted step r (packetActions feed.cc buf) := by
  unfold sectionPacketType dvbDmxSwfilterSectionPacket packetActions nextCc
  rw [if_neg (by simp [hon])]
  by_cases hpay : payload buf = 0
  · rw [if_pos hpay, if_pos hpay, if_pos hpay]
    exact ⟨⟨hrep.mem, rfl, hrep.tsfeedp, hrep.pusiSeen, hrep.sink.isFiltering,
      hrep.sink.filter, hrep.sink.checkCrc⟩, rfl, rfl⟩
  rw [if_neg hpay, if_neg hpay, if_neg hpay]
  have hcount : Represents origin { feed with cc := continuityCounter buf } r :=
    ⟨hrep.mem, hrep.secbufp, hrep.tsfeedp, hrep.pusiSeen,
      hrep.sink.isFiltering, hrep.sink.filter, hrep.sink.checkCrc⟩
  by_cases hlost : ¬ (feed.cc + 1) % 16 = continuityCounter buf ∨ discontinuityIndicator buf = true
  · have hflag : lost feed.cc buf = true := decide_eq_true hlost
    rw [if_pos hflag]
    simp only [if_pos hlost]
    exact sectionPayload_refines ops flt (hcount.sectionNew false) buf
  · have hflag : ¬ lost feed.cc buf = true := by simpa [lost] using hlost
    rw [if_neg hflag]
    simp only [if_neg hlost]
    exact sectionPayload_refines ops flt hcount buf

end

variable (packets : List TsPacket) (hrep : Represents origin feed r)
  (hon : origin.isFiltering = true)
include hrep hon

/-- Any run of packets through a filtering section feed hands on exactly the
sections that the actions of the packets make. -/
theorem section_run_refines :
    emitted (sectionPacketType ops flt) feed packets =
      emitted (Reassembly.step (sectionCalls ops flt origin)) r
        (streamActions feed.cc packets) := by
  induction packets generalizing feed r with
  | nil => rfl
  | cons buf rest ih =>
    obtain ⟨hnext, hcc, hdumps⟩ := sectionPacketType_refines ops flt hrep
      (hrep.sink.isFiltering.trans hon) buf
    simp only [emitted, streamActions]
    rw [emitted_append, hdumps, ih hnext, hcc]

/-- A buffer that is in some state of the reassembly stays so. -/
theorem section_run_represents :
    ∃ r', Represents origin (final (sectionPacketType ops flt) feed packets) r' := by
  induction packets generalizing feed r with
  | nil => exact ⟨r, hrep⟩
  | cons buf rest ih =>
    exact ih (sectionPacketType_refines ops flt hrep (hrep.sink.isFiltering.trans hon) buf).1

end TbsMedia.DvbCore
