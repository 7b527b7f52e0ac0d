import TbsMedia.DvbCore.SectionDelivery

/-!
The offsets of the section buffer on any stream, with lying lengths and pointers, lost packets
and packets without payload. Beside the model stand the states in which `section_length` is
called; what the model hands on is what it finds in these states, one after the other.
-/

namespace TbsMedia.DvbCore

open Lib List

variable {nf nq : Nat} (ops : SectionOps nq) (flt : Fin nq → DvbDemuxFilter nf)

/-- The states in which `dumpLoop` reads a header. -/
def headerReads (limit : Nat) : Nat → DvbDemuxFeed nq → List (DvbDemuxFeed nq)
  | 0, _ => []
  | rounds + 1, feed =>
    if feed.sec.secbufp + 2 < limit then
      let seclen := sectionLength (fun i => feed.sec.secbufBase (feed.sec.secbuf + i)) % 2 ^ 16
      feed :: if seclen ≤ 0 ∨ seclen > dmxMaxSectionSize ∨ seclen + feed.sec.secbufp > limit then []
        else headerReads limit rounds (dumpSection ops flt feed seclen).1
    else []

/-- Those of `dvb_dmx_swfilter_section_copy_dump`. -/
def copyReads (feed : DvbDemuxFeed nq) (buf : Bytes) : List (DvbDemuxFeed nq) :=
  let len := if feed.sec.tsfeedp + buf.length > dmxMaxSecfeedSize then
      (dmxMaxSecfeedSize - feed.sec.tsfeedp) % 2 ^ 8 else buf.length
  if feed.sec.tsfeedp ≥ dmxMaxSecfeedSize ∨ len ≤ 0 then []
  else
    let limit := (feed.sec.tsfeedp + len) % 2 ^ 16
    headerReads ops flt limit limit { feed with sec := { feed.sec with
      secbufBase := feed.sec.secbufBase.memcpy feed.sec.tsfeedp (buf.take len)
      tsfeedp := limit
      secbuf := feed.sec.secbufp } }

def payloadReads (feed : DvbDemuxFeed nq) (buf : TsPacket) : List (DvbDemuxFeed nq) :=
  let count := payload buf
  let p := 188 - count
  let pointer := (buf.byte p).toNat
  if pusi buf then
    if pointerValid buf then
      let before := buf.slice (p + 1) pointer
      let fed := dvbDmxSwfilterSectionCopyDump ops flt feed before
      copyReads ops flt feed before ++
        copyReads ops flt (dvbDmxSwfilterSectionNew { fed.1 with pusiSeen := true })
          (buf.slice (p + 1 + pointer) (count - 1 - pointer))
    else []
  else copyReads ops flt feed (buf.slice p count)

def packetReads (feed : DvbDemuxFeed nq) (buf : TsPacket) : List (DvbDemuxFeed nq) :=
  if !feed.isFiltering ∨ payload buf = 0 then []
  else
    let counted := { feed with cc := continuityCounter buf }
    payloadReads ops flt (if lost feed.cc buf then
      dvbDmxSwfilterSectionNew { counted with pusiSeen := false } else counted) buf

/-- What is handed on after the header is read in state `feed`. -/
def headerDump (feed : DvbDemuxFeed nq) : List (SectionDump nq) :=
  let seclen := sectionLength (fun i => feed.sec.secbufBase (feed.sec.secbuf + i)) % 2 ^ 16
  if seclen ≤ 0 ∨ seclen > dmxMaxSectionSize ∨ seclen + feed.sec.secbufp > feed.sec.tsfeedp then []
  else (dumpSection ops flt feed seclen).2

def InBuffer (feed : DvbDemuxFeed nq) : Prop :=
  feed.sec.secbufp ≤ feed.sec.tsfeedp ∧ feed.sec.tsfeedp ≤ dmxMaxSecfeedSize

structure Bounded (out : DvbDemuxFeed nq × List (SectionDump nq)) (reads : List (DvbDemuxFeed nq)) :
    Prop where
  buffer : InBuffer out.1
  handed : out.2 = reads.flatMap (headerDump ops flt)
  headers : ∀ r ∈ reads, InBuffer r ∧ r.sec.secbuf = r.sec.secbufp ∧
    r.sec.secbufp + 2 < r.sec.tsfeedp
  dumps : ∀ d ∈ out.2, 3 ≤ d.bytes.length ∧ d.bytes.length ≤ dmxMaxSectionSize ∧
    ∃ r ∈ reads, d.start = r.sec.secbufp ∧ d.start + d.bytes.length ≤ r.sec.tsfeedp

variable {ops flt} {feed : DvbDemuxFeed nq}

theorem Bounded.none (hfeed : InBuffer feed) : Bounded ops flt (feed, []) [] :=
  ⟨hfeed, rfl, nofun, nofun⟩

theorem Bounded.append {first second : DvbDemuxFeed nq × List (SectionDump nq)}
    {reads reads' : List (DvbDemuxFeed nq)} (hfirst : Bounded ops flt first reads)
    (hnext : Bounded ops flt second reads') :
    Bounded ops flt (second.1, first.2 ++ second.2) (reads ++ reads') := by
  refine ⟨hnext.buffer, by rw [flatMap_append, hfirst.handed, hnext.handed],
    forall_mem_append.mpr ⟨hfirst.headers, hnext.headers⟩,
    forall_mem_append.mpr ⟨fun d hd => ?_, fun d hd => ?_⟩⟩
  · obtain ⟨hmin, hmax, r, hr, hin⟩ := hfirst.dumps d hd
    exact ⟨hmin, hmax, r, mem_append_left _ hr, hin⟩
  · obtain ⟨hmin, hmax, r, hr, hin⟩ := hnext.dumps d hd
    exact ⟨hmin, hmax, r, mem_append_right _ hr, hin⟩

theorem bounded_dumpLoop {limit : Nat} (rounds : Nat)
    (htogether : feed.sec.secbuf = feed.sec.secbufp)
    (hlimit : feed.sec.tsfeedp = limit) (hfeed : InBuffer feed) :
    Bounded ops flt (dumpLoop ops flt limit rounds feed)
      (headerReads ops flt limit rounds feed) := by
  induction rounds generalizing feed with
  | zero => exact .none hfeed
  | succ rounds ih =>
    rw [dumpLoop, headerReads]
    dsimp only
    generalize hseclen :
      sectionLength (fun i => feed.sec.secbufBase (feed.sec.secbuf + i)) % 2 ^ 16 = seclen
    have hdump : headerDump ops flt feed = if seclen ≤ 0 ∨ seclen > dmxMaxSectionSize ∨
        seclen + feed.sec.secbufp > limit then [] else (dumpSection ops flt feed seclen).2 := by
      simp only [headerDump, hseclen, hlimit]
    by_cases hroom : feed.sec.secbufp + 2 < limit
    · have hread : ∀ r ∈ [feed], InBuffer r ∧ r.sec.secbuf = r.sec.secbufp ∧
          r.sec.secbufp + 2 < r.sec.tsfeedp := by
        simpa using ⟨hfeed, htogether, hlimit ▸ hroom⟩
      split_ifs with hbad
      · exact ⟨hfeed, by rw [flatMap_singleton, hdump, if_pos hbad], hread, by simp⟩
      obtain ⟨hle, hmax⟩ := hfeed
      have hsize : dmxMaxSecfeedSize = 4284 := rfl
      have hbounds := sectionLength_bounds (fun i => feed.sec.secbufBase (feed.sec.secbuf + i))
      obtain ⟨⟨len, crc, hnext⟩, hdumps⟩ := dumpSection_spec ops flt feed seclen
      rw [Nat.mod_eq_of_lt (by omega)] at hnext
      have hafter : InBuffer (dumpSection ops flt feed seclen).1 := by
        rw [hnext]
        exact ⟨by simp only [withScratch]; omega, hmax⟩
      have hdumped : Bounded ops flt (dumpSection ops flt feed seclen) [feed] := by
        refine ⟨hafter, by rw [flatMap_singleton, hdump, if_neg hbad], hread, fun d hd => ?_⟩
        rw [hdumps] at hd
        split_ifs at hd
        · obtain rfl := mem_singleton.mp hd
          refine ⟨by simp [Reassembly.dump]; omega, by simp [Reassembly.dump]; omega, feed,
            mem_singleton_self _, htogether, ?_⟩
          simp only [Reassembly.dump, Mem.length_read]
          omega
        · simp at hd
      refine hdumped.append (ih ?_ ?_ hafter)
      · simp [hnext, withScratch, htogether]
      · rw [hnext]
        exact hlimit
    · rw [if_neg hroom, if_neg hroom]
      exact .none hfeed

theorem bounded_copyDump (hfeed : InBuffer feed) (buf : Bytes) :
    Bounded ops flt (dvbDmxSwfilterSectionCopyDump ops flt feed buf)
      (copyReads ops flt feed buf) := by
  have hsize : dmxMaxSecfeedSize = 4284 := rfl
  obtain ⟨hle, hmax⟩ := hfeed
  unfold dvbDmxSwfilterSectionCopyDump copyReads
  dsimp only
  generalize hlen : (if feed.sec.tsfeedp + buf.length > dmxMaxSecfeedSize then
    (dmxMaxSecfeedSize - feed.sec.tsfeedp) % 2 ^ 8 else buf.length) = len
  by_cases hnone : feed.sec.tsfeedp ≥ dmxMaxSecfeedSize ∨ len ≤ 0
  · rw [if_pos hnone, ← ite_or, if_pos hnone]
    exact .none ⟨hle, hmax⟩
  have hroom : feed.sec.tsfeedp + len ≤ dmxMaxSecfeedSize := by
    split_ifs at hlen
    all_goals omega
  rw [if_neg hnone, ← ite_or, if_neg hnone, if_neg (by omega)]
  refine bounded_dumpLoop _ rfl rfl ⟨?_, ?_⟩
  all_goals dsimp only; omega

theorem inBuffer_new (feed : DvbDemuxFeed nq) : InBuffer (dvbDmxSwfilterSectionNew feed) :=
  ⟨Nat.le_refl 0, Nat.zero_le _⟩

theorem bounded_payload (hfeed : InBuffer feed) (buf : TsPacket) :
    Bounded ops flt (sectionPayload ops flt feed buf) (payloadReads ops flt feed buf) := by
  unfold sectionPayload payloadReads
  cases pusi buf with
  | true =>
    rw [if_pos rfl, if_pos rfl]
    by_cases hvalid : payload buf > 1 ∧ (buf.byte (188 - payload buf)).toNat < payload buf
    · rw [if_pos hvalid, if_pos (by simpa [pointerValid] using hvalid)]
      exact (bounded_copyDump hfeed _).append (bounded_copyDump (inBuffer_new _) _)
    · rw [if_neg hvalid, if_neg (by simpa [pointerValid] using hvalid)]
      exact .none hfeed
  | false => exact bounded_copyDump hfeed _

theorem bounded_packet (hfeed : InBuffer feed) (buf : TsPacket) :
    Bounded ops flt (sectionPacketType ops flt feed buf) (packetReads ops flt feed buf) := by
  unfold sectionPacketType packetReads dvbDmxSwfilterSectionPacket
  rcases hon : feed.isFiltering with _ | _
  · exact .none hfeed
  by_cases hcount : payload buf = 0
  · rw [hcount]
    exact .none ⟨Nat.zero_le _, hfeed.2⟩
  simp only [hcount, lost, decide_eq_true_eq]
  refine bounded_payload ?_ buf
  split_ifs
  · exact inBuffer_new _
  · exact hfeed

/-- Whatever packets have come, the next one is handled inside the buffer. -/
theorem section_offsets_inside (ops : SectionOps nq) (flt : Fin nq → DvbDemuxFilter nf)
    (feed : DvbDemuxFeed nq) (hfeed : InBuffer feed) (packets : List TsPacket) (buf : TsPacket) :
    Bounded ops flt (sectionPacketType ops flt (final (sectionPacketType ops flt) feed packets) buf)
      (packetReads ops flt (final (sectionPacketType ops flt) feed packets) buf) := by
  induction packets generalizing feed with
  | nil => exact bounded_packet hfeed buf
  | cons first rest ih => exact ih _ (bounded_packet hfeed first).buffer

/-- The second packet completes the long section that the first one begins. -/
theorem section_offsets_inside_two :
    (startedDemux.feed 0).isFiltering ∧ ∃ d ∈ (sectionPacketType default startedDemux.filter
        (final (sectionPacketType default startedDemux.filter) (startedDemux.feed 0)
          (twoSections.take 1)) twoSections[1]).2,
      d.bytes = longSection ∧ ∃ r : DvbDemuxFeed 1, InBuffer r ∧ d.start = r.sec.secbufp ∧
        d.start + d.bytes.length ≤ r.sec.tsfeedp := by
  have hinside := section_offsets_inside default startedDemux.filter (startedDemux.feed 0)
    ⟨by decide, by decide⟩ (twoSections.take 1) twoSections[1]
  obtain ⟨d, hd, hlong⟩ : ∃ d ∈ (sectionPacketType default startedDemux.filter
      (final (sectionPacketType default startedDemux.filter) (startedDemux.feed 0)
        (twoSections.take 1)) twoSections[1]).2, d.bytes = longSection := by
    decide +kernel
  obtain ⟨-, -, r, hr, hin⟩ := hinside.dumps d hd
  exact ⟨rfl, d, hd, hlong, r, (hinside.headers r hr).1, hin⟩

end TbsMedia.DvbCore
