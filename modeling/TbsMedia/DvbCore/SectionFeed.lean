import TbsMedia.DvbCore.DemuxTypes

/-!
The section path of the software filter: `dvb_dmx_swfilter_sectionfilter` up to
`dvb_dmx_swfilter_section_packet`. `u16` and `u8` assignments are reduced as
the source's types do it.

A call of `dvb_dmx_swfilter_section_feed` is recorded as a `SectionDump`, with
the filters whose callback it made.
-/

namespace TbsMedia.DvbCore

open Lib

variable {nf nq : Nat}

/-- The loop over the filter bytes. `none` is its early `return 0`, otherwise
the value is `neq` at its end. -/
def sectionfilterLoop (f : DvbDemuxFilter nf) (secbuf : Nat → UInt8) : Option UInt8 :=
  (List.finRange dmxMaxFilterSize).foldlM (fun neq i =>
    let xor := f.filterValue i ^^^ secbuf i
    if f.maskandmode i &&& xor ≠ 0 then none
    else some (neq ||| (f.maskandnotmode i &&& xor))) 0

/-- Whether `dvb_dmx_swfilter_sectionfilter` gets as far as `cb.sec`. -/
def dvbDmxSwfilterSectionfilter (f : DvbDemuxFilter nf) (secbuf : Nat → UInt8) : Bool :=
  match sectionfilterLoop f secbuf with
  | none => false
  | some neq => !(f.doneq && neq == 0)

/-- An OR over a list of bytes is not zero as soon as one of them is not. -/
theorem foldl_or_ne_zero {α : Type} (byte : α → UInt8) (l : List α) (acc : UInt8) :
    l.foldl (fun acc i => acc ||| byte i) acc ≠ 0 ↔ acc ≠ 0 ∨ ∃ i ∈ l, byte i ≠ 0 := by
  induction l generalizing acc with
  | nil => simp
  | cons i rest ih => simp [ih, UInt8.or_eq_zero_iff, imp_iff_not_or, or_assoc]

theorem sectionfilter_iff (f : DvbDemuxFilter nf) (secbuf : Nat → UInt8) :
    dvbDmxSwfilterSectionfilter f secbuf = true ↔
      (∀ i : Fin dmxMaxFilterSize, f.maskandmode i &&& (f.filterValue i ^^^ secbuf i) = 0) ∧
      (f.doneq = true →
        ∃ i : Fin dmxMaxFilterSize, f.maskandnotmode i &&& (f.filterValue i ^^^ secbuf i) ≠ 0) := by
  have hloop (l : List (Fin dmxMaxFilterSize)) (neq : UInt8) :
      l.foldlM (fun neq i =>
        let xor := f.filterValue i ^^^ secbuf i
        if f.maskandmode i &&& xor ≠ 0 then none
        else some (neq ||| (f.maskandnotmode i &&& xor))) neq =
      if ∀ i ∈ l, f.maskandmode i &&& (f.filterValue i ^^^ secbuf i) = 0 then
        some (l.foldl (fun neq i =>
          neq ||| (f.maskandnotmode i &&& (f.filterValue i ^^^ secbuf i))) neq)
      else none := by
    induction l generalizing neq with
    | nil => simp
    | cons i rest ih =>
      by_cases hi : f.maskandmode i &&& (f.filterValue i ^^^ secbuf i) = 0
      · simpa [hi] using ih _
      · simp [hi]
  rw [dvbDmxSwfilterSectionfilter, sectionfilterLoop, hloop]
  split_ifs with hall
  · have hneq := foldl_or_ne_zero (fun i : Fin dmxMaxFilterSize =>
      f.maskandnotmode i &&& (f.filterValue i ^^^ secbuf i)) (List.finRange _) 0
    simp only [List.mem_finRange, true_and, ne_eq, not_true_eq_false, false_or] at hneq
    cases hdoneq : f.doneq <;> simp [hall, ← hneq]
  · simp only [List.mem_finRange, forall_const] at hall
    simp [hall]

variable (ops : SectionOps nq) (flt : Fin nq → DvbDemuxFilter nf)

/-- The `do ... while` over the filters of a feed: those whose callback was
made, and whether the walk came to its end without a negative result. -/
def sectionFilterWalk (secbuf : Nat → UInt8) (bytes : Bytes) :
    List (Fin nq) → List (Fin nq) × Bool
  | [] => ([], true)
  | q :: next =>
    if dvbDmxSwfilterSectionfilter (flt q) secbuf then
      if ops.cbSec q bytes < 0 then ([q], false)
      else
        let rest := sectionFilterWalk secbuf bytes next
        (q :: rest.1, rest.2)
    else sectionFilterWalk secbuf bytes next

/-- `dvb_dmx_swfilter_section_feed`: the section feed afterwards and the
filters that were called. Its caller ignores the return value. -/
def dvbDmxSwfilterSectionFeed (feed : DvbDemuxFeed nq) : DmxSectionFeed × List (Fin nq) :=
  let sec := feed.sec
  let secbuf : Nat → UInt8 := fun i => sec.secbufBase (sec.secbuf + i)
  let bytes := sec.secbufBase.read sec.secbuf sec.seclen
  if !feed.isFiltering then (sec, [])
  else if feed.filter.isEmpty then (sec, [])
  else
    let checked := sec.checkCrc && secbuf 1 &&& 0x80 != 0
    let sec := if checked then
        { sec with crcVal := ops.crc32Be sec.crcVal bytes } else sec
    if checked && sec.crcVal != 0 then (sec, [])
    else
      let walk := sectionFilterWalk ops flt secbuf bytes feed.filter
      (if walk.2 then { sec with seclen := 0 } else sec, walk.1)

/-- One call of `dvb_dmx_swfilter_section_feed`: the bytes
`[secbuf .. secbuf + seclen)` and the filters that were called with them. -/
structure SectionDump (nq : Nat) where
  start : Nat
  bytes : Bytes
  filters : List (Fin nq)
deriving DecidableEq

def dvbDmxSwfilterSectionNew (feed : DvbDemuxFeed nq) : DvbDemuxFeed nq :=
  { feed with sec := { feed.sec with
      tsfeedp := 0, secbufp := 0, seclen := 0, secbuf := 0 } }

/-- One round of the dump loop for a section of `seclen` bytes. -/
def dumpSection (feed : DvbDemuxFeed nq) (seclen : Nat) : DvbDemuxFeed nq × List (SectionDump nq) :=
  let feed := { feed with sec := { feed.sec with
    seclen := seclen, crcVal := 0xffffffff } }
  let fed := dvbDmxSwfilterSectionFeed ops flt feed
  let dumps := if feed.pusiSeen then
      [{ start := feed.sec.secbuf,
         bytes := feed.sec.secbufBase.read feed.sec.secbuf seclen,
         filters := fed.2 }] else []
  let sec := if feed.pusiSeen then fed.1 else feed.sec
  ({ feed with sec := { sec with
      secbufp := (sec.secbufp + seclen) % 2 ^ 16
      secbuf := sec.secbuf + seclen } }, dumps)

/-- `for (n = 0; sec->secbufp + 2 < limit; n++)`. A round moves `secbufp` by at
least three, so `limit` rounds are enough. -/
def dumpLoop (limit : Nat) : Nat → DvbDemuxFeed nq →
    DvbDemuxFeed nq × List (SectionDump nq)
  | 0, feed => (feed, [])
  | rounds + 1, feed =>
    if feed.sec.secbufp + 2 < limit then
      let seclen := sectionLength (fun i => feed.sec.secbufBase (feed.sec.secbuf + i)) % 2 ^ 16
      if seclen ≤ 0 ∨ seclen > dmxMaxSectionSize ∨ seclen + feed.sec.secbufp > limit then (feed, [])
      else
        let dumped := dumpSection ops flt feed seclen
        let rest := dumpLoop limit rounds dumped.1
        (rest.1, dumped.2 ++ rest.2)
    else (feed, [])

/-- `dvb_dmx_swfilter_section_copy_dump` with `len = buf.length`. -/
def dvbDmxSwfilterSectionCopyDump (feed : DvbDemuxFeed nq)
    (buf : Bytes) : DvbDemuxFeed nq × List (SectionDump nq) :=
  if feed.sec.tsfeedp ≥ dmxMaxSecfeedSize then (feed, [])
  else
    let len := if feed.sec.tsfeedp + buf.length > dmxMaxSecfeedSize then
        (dmxMaxSecfeedSize - feed.sec.tsfeedp) % 2 ^ 8 else buf.length
    if len ≤ 0 then (feed, [])
    else
      let feed := { feed with sec := { feed.sec with
        secbufBase := feed.sec.secbufBase.memcpy feed.sec.tsfeedp (buf.take len)
        tsfeedp := (feed.sec.tsfeedp + len) % 2 ^ 16 } }
      let limit := feed.sec.tsfeedp
      if limit > dmxMaxSecfeedSize then (feed, [])
      else
        let feed := { feed with sec := { feed.sec with
          secbuf := feed.sec.secbufp } }
        dumpLoop ops flt limit limit feed

/-- The second half of `dvb_dmx_swfilter_section_packet`: the payload of a
packet, split at the pointer if a section starts in it. -/
def sectionPayload (feed : DvbDemuxFeed nq) (buf : TsPacket) :
    DvbDemuxFeed nq × List (SectionDump nq) :=
  let count := payload buf
  let p := 188 - count
  if pusi buf then
    let beforeLen := (buf.byte p).toNat
    if count > 1 ∧ beforeLen < count then
      let afterLen := count - 1 - beforeLen
      let before := dvbDmxSwfilterSectionCopyDump ops flt feed (buf.slice (p + 1) beforeLen)
      let feed := dvbDmxSwfilterSectionNew { before.1 with pusiSeen := true }
      let after := dvbDmxSwfilterSectionCopyDump ops flt feed
        (buf.slice (p + 1 + beforeLen) afterLen)
      (after.1, before.2 ++ after.2)
    else (feed, [])
  else dvbDmxSwfilterSectionCopyDump ops flt feed (buf.slice p count)

/-- `dvb_dmx_swfilter_section_packet`; `none` is its error return, taken before
anything is written. -/
def dvbDmxSwfilterSectionPacket (feed : DvbDemuxFeed nq)
    (buf : TsPacket) : Option (DvbDemuxFeed nq × List (SectionDump nq)) :=
  if payload buf = 0 then none
  else
    let cc := continuityCounter buf
    let ccok := (feed.cc + 1) % 16 = cc
    let feed := { feed with cc := cc }
    let feed := if ¬ ccok ∨ discontinuityIndicator buf then
        dvbDmxSwfilterSectionNew { feed with pusiSeen := false } else feed
    some (sectionPayload ops flt feed buf)

/-- The `DMX_TYPE_SEC` case of `dvb_dmx_swfilter_packet_type`. -/
def sectionPacketType (feed : DvbDemuxFeed nq) (buf : TsPacket) :
    DvbDemuxFeed nq × List (SectionDump nq) :=
  if !feed.isFiltering then (feed, [])
  else
    match dvbDmxSwfilterSectionPacket ops flt feed buf with
    | some result => result
    | none => ({ feed with sec := { feed.sec with seclen := 0, secbufp := 0 } }, [])

end TbsMedia.DvbCore
