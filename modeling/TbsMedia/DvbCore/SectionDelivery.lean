import TbsMedia.DvbCore.SectionStream
import TbsMedia.DvbCore.Demux

/-!
What a client of a section feed receives, from the start of filtering on: every
section of a well-formed stream once, and what packets without payload and the
leftovers of an earlier use of the feed change about it.
-/

namespace TbsMedia.DvbCore

open Lib List
open Reassembly (step)

variable {nf nq : Nat}

def sectionCallbacks (dumps : List (SectionDump nq)) : List (Fin nq × Bytes) :=
  dumps.flatMap (fun dump => dump.filters.map (fun q => (q, dump.bytes)))

/-- The feed after a successful start: an empty section buffer, and everything
else, `pusi_seen` and `cc` included, as an earlier use left it. -/
theorem sectionStart_feed (a : Answer) (f : Fin nf) (d d' : DvbDemux nf nq)
    (hstart : dmxSectionFeedStartFiltering a f d = (.ok (), d')) :
    d'.feed f = { dvbDmxSwfilterSectionNew (d.feed f) with
      isFiltering := true, state := .go } := by
  unfold dmxSectionFeedStartFiltering at hstart
  split_ifs at hstart
  all_goals obtain ⟨hret, rfl⟩ := Prod.mk.inj hstart
  all_goals simp at hret
  simp [DvbDemux.updFeed, prepareSecfilters_feed]

def startedBuffer (feed : DvbDemuxFeed nq) : Reassembly :=
  { mem := feed.sec.secbufBase, secbufp := 0, tsfeedp := 0,
    pusiSeen := feed.pusiSeen, bound := Nat.zero_le _, parsed := ⟨[], .nil 0⟩ }

section

variable (a : Answer) (f : Fin nf) (d d' : DvbDemux nf nq)
  (hstart : dmxSectionFeedStartFiltering a f d = (.ok (), d'))
include hstart

theorem started_represents : Represents (d'.feed f) (d'.feed f) (startedBuffer (d'.feed f)) := by
  have hfeed := sectionStart_feed a f d d' hstart
  constructor
  · rfl
  · rw [hfeed]
    rfl
  · rw [hfeed]
    rfl
  · rfl
  · exact ⟨rfl, rfl, rfl⟩

theorem started_filtering : (d'.feed f).isFiltering = true := by
  rw [sectionStart_feed a f d d' hstart]

end

/-- The dumps that the packets make a feed of the demux hand out. -/
abbrev dumped (ops : SectionOps nq) (d : DvbDemux nf nq) (f : Fin nf) (packets : List TsPacket) :=
  emitted (sectionPacketType ops d.filter) (d.feed f) packets

/-- The packets of a run are the actions of the reassembly buffer, which starts
empty. -/
theorem started_run (ops : SectionOps nq) (a : Answer) (f : Fin nf) (d d' : DvbDemux nf nq)
    (hstart : dmxSectionFeedStartFiltering a f d = (.ok (), d')) (packets : List TsPacket) :
    dumped ops d' f packets =
      emitted (Reassembly.step (sectionCalls ops d'.filter (d'.feed f)))
        (startedBuffer (d'.feed f)) (streamActions (d'.feed f).cc packets) :=
  section_run_refines ops d'.filter packets (started_represents a f d d' hstart)
    (started_filtering a f d d' hstart)

/-- The feed has the one filter `q`, which takes every section, and does not
check CRCs. -/
structure TakesAll (flt : Fin nq → DvbDemuxFilter nf) (feed : DvbDemuxFeed nq)
    (q : Fin nq) : Prop where
  chain : feed.filter = [q]
  accept : ∀ secbuf, dvbDmxSwfilterSectionfilter (flt q) secbuf = true
  checkCrc : feed.sec.checkCrc = false

theorem TakesAll.sectionCalls_eq (ops : SectionOps nq) {flt : Fin nq → DvbDemuxFilter nf}
    {feed : DvbDemuxFeed nq} {q : Fin nq} (htakes : TakesAll flt feed q)
    (hon : feed.isFiltering = true) (mem : Mem UInt8) (start len : Nat) :
    sectionCalls ops flt feed mem start len = [q] := by
  simp only [sectionCalls, dvbDmxSwfilterSectionFeed, hon, htakes.chain,
    htakes.checkCrc, sectionFilterWalk, htakes.accept]
  simp only [Bool.not_true, Bool.false_eq_true, if_false, isEmpty_cons, Bool.false_and, if_true]
  split_ifs <;> rfl

section

variable (calls : Mem UInt8 → Nat → Nat → List (Fin nq))

/-- What a run hands on are records of the buffer as it was at that time. -/
theorem emitted_inside (r : Reassembly) (actions : List Action) :
    ∀ dump ∈ emitted (Reassembly.step calls) r actions,
      ∃ (mem : Mem UInt8) (len : Nat), dump = Reassembly.dump calls mem (dump.start, len) ∧
        dump.start + len ≤ dmxMaxSecfeedSize := by
  induction actions generalizing r with
  | nil => simp [emitted]
  | cons action rest ih =>
    intro dump hdump
    rcases mem_append.mp hdump with hnow | hlater
    · cases action with
      | append xs =>
        rw [step] at hnow
        split_ifs at hnow
        · simp at hnow
        · obtain ⟨record, hrecord, rfl⟩ := List.mem_map.mp hnow
          have hfit := nextSection_fit _ _ ((r.steps_records xs).1.next_eq record hrecord)
          exact ⟨_, record.2, rfl, hfit.trans (r.length_accepted xs)⟩
        · simp at hnow
      | lose => simp [step] at hnow
      | start => simp [step] at hnow
      | rewind => simp [step] at hnow
    · exact ih _ dump hlater

theorem callbacks_accepting (q : Fin nq) (hcalls : ∀ mem start len, calls mem start len = [q])
    (r : Reassembly) (actions : List Action) :
    sectionCallbacks (emitted (Reassembly.step calls) r actions) =
      ((emitted (Reassembly.step calls) r actions).map SectionDump.bytes).map
        (fun s => (q, s)) := by
  have hflts : ∀ dump ∈ emitted (step calls) r actions,
      dump.filters = [q] := by
    intro dump hdump
    obtain ⟨mem, len, hrecord, -⟩ := emitted_inside calls r actions dump hdump
    rw [hrecord]
    exact hcalls _ _ _
  generalize emitted (step calls) r actions = dumps at hflts
  induction dumps with
  | nil => rfl
  | cons dump rest ih =>
    have htail := ih (fun dump' hdump' => hflts dump' (by simp [hdump']))
    simp only [sectionCallbacks, flatMap_cons, map_cons] at htail ⊢
    rw [htail, hflts dump (by simp)]
    rfl

end

theorem SectionStream.payload_ne_zero {pid : Nat} {missed : Bytes}
    {sections : List Bytes} {packets : List TsPacket}
    (hstream : SectionStream pid missed sections packets) :
    ∀ buf ∈ packets, payload buf ≠ 0 ∧ discontinuityIndicator buf = false := by
  obtain ⟨payloads, -, hcarry⟩ := hstream.carried
  clear hstream
  induction hcarry with
  | nil => simp
  | @cons buf pl packets payloads hcarries _ ih =>
    intro buf' hbuf'
    rcases mem_cons.mp hbuf' with rfl | htail
    · refine ⟨?_, hcarries.no_discontinuity⟩
      rw [hcarries.payload_eq]
      exact (length_pos_of_ne_nil hcarries.nonempty).ne'
    · exact ih buf' htail

/-- A feed that waits for a start, or that takes the first packet for the end
of a gap, has seen no start when the payload of that packet is looked at. -/
private theorem joined_unseen (feed : DvbDemuxFeed nq) (packets : List TsPacket)
    (hjoin : feed.pusiSeen = false ∨
      ∃ buf ∈ packets.head?, (feed.cc + 1) % 16 ≠ continuityCounter buf) :
    joinActions feed.cc packets = [.lose] ∨
      joinActions feed.cc packets = [] ∧ feed.pusiSeen = false := by
  rcases packets with _ | ⟨buf, rest⟩
  · right
    exact ⟨rfl, by simpa using hjoin⟩
  cases hlost : lost feed.cc buf with
  | true => exact .inl (by simp [joinActions, hlost])
  | false =>
    right
    refine ⟨by simp [joinActions, hlost], ?_⟩
    rcases hjoin with hunseen | ⟨_, hbuf, hgap⟩
    · exact hunseen
    · cases hbuf
      simp [lost, hgap] at hlost

/-- Reassembly is lossless: a section feed that was just started, and that
waits for a start of a section, calls its filter once for every section of the
stream, in order and with exactly its bytes, however they were packetised. -/
theorem section_stream_delivered (ops : SectionOps nq) (a : Answer) (f : Fin nf)
    (q : Fin nq) (d d' : DvbDemux nf nq)
    (hstart : dmxSectionFeedStartFiltering a f d = (.ok (), d'))
    (htakes : TakesAll d'.filter (d'.feed f) q)
    (missed : Bytes) (sections : List Bytes) (packets : List TsPacket)
    (hstream : SectionStream (d'.feed f).pid missed sections packets)
    (hjoin : (d'.feed f).pusiSeen = false ∨
      ∃ buf ∈ packets.head?, ((d'.feed f).cc + 1) % 16 ≠ continuityCounter buf) :
    sectionCallbacks (dumped ops d' f packets) =
      sections.map (fun s => (q, s)) := by
  have hon := started_filtering a f d d' hstart
  obtain ⟨payloads, hpacketised, hcarried⟩ := hstream.carried
  have hplain := hstream.payload_ne_zero
  rw [started_run ops a f d d' hstart, callbacks_accepting _ q (htakes.sectionCalls_eq ops hon)]
  congr 1
  rw [streamActions_counting packets (fun buf hbuf => (hplain buf hbuf).1)
    (fun buf hbuf => (hplain buf hbuf).2) hstream.counting]
  rcases joined_unseen (d'.feed f) packets hjoin with hgap | ⟨hnone, hunseen⟩
  · rw [hgap]
    exact emitted_packetised _ hpacketised packets hcarried hstream.wellFormed _ []
      (.unseen missed rfl)
  · rw [hnone]
    exact emitted_packetised _ hpacketised packets hcarried hstream.wellFormed _ []
      (.unseen missed hunseen)

def sectionDemux : DvbDemux 1 1 :=
  let d := dvbDmxInit (readyDemux 1 1)
  let d := (dvbdmxAllocateSectionFeed .ok d).2
  let d := (dmxSectionFeedSet .ok 0 16 false d).2
  (dmxSectionFeedAllocateFilter .ok 0 d).2

def startedDemux : DvbDemux 1 1 := (dmxSectionFeedStartFiltering .ok 0 sectionDemux).2

def shortSection : Bytes := [0x42, 0x00, 0x02, 0xaa, 0xbb]

def longSection : Bytes := [0x42, 0x00, 197] ++ List.replicate 197 0x11

def twoSections : List TsPacket :=
  [{ bytes := [0x47, 0x40, 0x10, 0x10] ++
      (0x00 :: (shortSection ++ longSection.take 178)), size := rfl },
   { bytes := [0x47, 0x00, 0x10, 0x11] ++
      (longSection.drop 178 ++ List.replicate 162 0xff), size := rfl }]

private theorem twoSections_stream :
    SectionStream 16 [] [shortSection, longSection] twoSections := by
  constructor
  · intro s hs
    rcases mem_pair.mp hs with rfl | rfl
    · exact ⟨rfl, by decide +kernel, by decide⟩
    · exact ⟨by decide +kernel, by decide +kernel, by decide⟩
  · decide +kernel
  · decide +kernel
  · have hpacketised : Packetised [] [shortSection, longSection]
        [(true, 0x00 :: (shortSection ++ longSection.take 178)),
          (false, longSection.drop 178 ++ List.replicate 162 0xff)] := by
      have hstart := @Packetised.start [] (longSection.take 178)
        (longSection.drop 178) [shortSection] [] _ 0 0 0 rfl (by decide)
        (fun _ => rfl) (.fill 162 .done)
      rw [take_append_drop] at hstart
      simpa using hstart
    refine ⟨_, hpacketised, ?_⟩
    refine .cons ?_ (.cons ?_ .nil)
    all_goals
      constructor
      · rfl
      · decide +kernel
      · decide +kernel
      · exact .inl ⟨by decide +kernel, rfl⟩
      · simp
      · decide +kernel

/-- A filter whose masks are all zero takes every section. -/
theorem prepareSecfilter_accepts (flt : DvbDemuxFilter nf) (hmask : ∀ i, flt.filterMask i = 0)
    (secbuf : Nat → UInt8) : dvbDmxSwfilterSectionfilter (prepareSecfilter flt) secbuf = true := by
  refine (sectionfilter_iff _ _).mpr ⟨?_, ?_⟩
  · intro i
    simp [prepareSecfilter, hmask]
  intro hdoneq
  obtain ⟨i, hi⟩ := prepareSecfilter_doneq.mp hdoneq
  simp [hmask] at hi

theorem startedDemux_takesAll : TakesAll startedDemux.filter (startedDemux.feed 0) 0 :=
  ⟨rfl, prepareSecfilter_accepts (sectionDemux.filter 0) (fun _ => rfl), rfl⟩

theorem section_stream_delivered_two :
    sectionCallbacks (dumped default startedDemux 0 twoSections) =
      [(0, shortSection), (0, longSection)] :=
  section_stream_delivered default .ok 0 0 sectionDemux startedDemux rfl
    startedDemux_takesAll [] [shortSection, longSection] twoSections
    twoSections_stream (.inl rfl)

end TbsMedia.DvbCore
