import TbsMedia.DvbCore.SectionDelivery

/-!
Packets without payload in the middle of a section stream. The code answers
them by going back to the start of the section buffer, but keeps what is in it,
so the next bytes make it hand on again what it has handed on before. The two
runs, with and without such packets, are compared step by step.
-/

namespace TbsMedia.DvbCore

open Lib List Reassembly

variable {nf nq : Nat} {r r' : Reassembly}

namespace Reassembly

/-- `r'` is `r`, or `r` gone back to its start where that cannot be noticed:
before a start was seen, or with no room for another byte. -/
structure Lags (r r' : Reassembly) : Prop where
  mem : r'.mem = r.mem
  tsfeedp : r'.tsfeedp = r.tsfeedp
  pusiSeen : r'.pusiSeen = r.pusiSeen
  secbufp : r'.secbufp = r.secbufp ∨ r'.secbufp = 0 ∧
    (r.pusiSeen = false ∨ r.tsfeedp = dmxMaxSecfeedSize)

theorem Lags.refl (r : Reassembly) : Lags r r := ⟨rfl, rfl, rfl, .inl rfl⟩

theorem Lags.accepted_eq (hlags : Lags r r') (xs : Bytes) : r'.accepted xs = r.accepted xs := by
  rw [accepted, accepted, hlags.tsfeedp]

/-- Walking the buffer again from its start meets the sections handed on
before and then those that are new. -/
theorem records_rewound (hmem : r'.mem = r.mem) (htsfeedp : r'.tsfeedp = r.tsfeedp)
    (hstart : r'.secbufp = 0) (xs : Bytes) :
    ∃ again, Steps (nextSection (r.filled xs).mem (r.filled xs).tsfeedp) 0 again r.secbufp ∧
      r'.records xs = again ++ r.records xs ∧ r'.recordsEnd xs = r.recordsEnd xs := by
  obtain ⟨again, hagain⟩ := r.parsed_append xs
  obtain ⟨hsteps, hstop⟩ := r.steps_records xs
  obtain ⟨hsteps', hstop'⟩ := r'.steps_records xs
  have hacc : r'.accepted xs = r.accepted xs := by rw [accepted, accepted, htsfeedp]
  rw [hmem, htsfeedp, hacc, hstart] at hsteps'
  rw [hmem, htsfeedp, hacc] at hstop'
  obtain ⟨hrecs, hend⟩ := hsteps'.unique hstop' (hagain.trans hsteps) hstop
  exact ⟨again, hagain, hrecs, hend⟩

/-- Once a byte is taken, a buffer that lagged behind has caught up. -/
theorem Lags.filled (hlags : Lags r r') (xs : Bytes) : Lags (r.filled xs) (r'.filled xs) := by
  have hacc := hlags.accepted_eq xs
  refine ⟨?_, ?_, hlags.pusiSeen, .inl ?_⟩
  · simp [Reassembly.filled, hlags.mem, hlags.tsfeedp, hacc]
  · simp [Reassembly.filled, hlags.tsfeedp, hacc]
  rcases hlags.secbufp with hsame | ⟨hstart, _⟩
  · simp [Reassembly.filled, recordsEnd, hlags.mem, hlags.tsfeedp, hacc, hsame]
  · obtain ⟨_, _, _, hend⟩ := records_rewound hlags.mem hlags.tsfeedp hstart xs
    exact hend

variable (calls : Mem UInt8 → Nat → Nat → List (Fin nq))

theorem Lags.step (r r' : Reassembly) (action : Action) (hlags : Lags r r') :
    Lags (r.step calls action).1 (r'.step calls action).1 ∧
      (r.step calls action).2 = (r'.step calls action).2 := by
  have hacc (xs : Bytes) := hlags.accepted_eq xs
  cases action with
  | lose => exact ⟨⟨hlags.mem, rfl, rfl, .inl rfl⟩, rfl⟩
  | start => exact ⟨⟨hlags.mem, rfl, rfl, .inl rfl⟩, rfl⟩
  | rewind => exact ⟨⟨hlags.mem, hlags.tsfeedp, hlags.pusiSeen, .inl rfl⟩, rfl⟩
  | append xs =>
    by_cases hnone : r.accepted xs = []
    · simp only [Reassembly.step, hacc, if_pos hnone]
      exact ⟨hlags, trivial⟩
    simp only [Reassembly.step, hacc, if_neg hnone]
    refine ⟨hlags.filled xs, ?_⟩
    rw [hlags.pusiSeen, (hlags.filled xs).mem]
    rcases hlags.secbufp with hsame | ⟨_, hunseen | hfull⟩
    · simp [records, hlags.mem, hlags.tsfeedp, hacc, hsame]
    · simp [hunseen]
    · simp [accepted, hfull] at hnone

/-- Going back is not noticed if there is nothing to go back over, or if what
there is will not be handed on. -/
theorem Lags.rewound (hlags : Lags r r') (hharmless : r'.secbufp = 0 ∨ r'.pusiSeen = false ∨
      r'.tsfeedp = dmxMaxSecfeedSize) : Lags r r'.rewound := by
  refine ⟨hlags.mem, hlags.tsfeedp, hlags.pusiSeen, ?_⟩
  rcases hharmless with hstart | hunseen | hfull
  · rcases hlags.secbufp with hsame | ⟨_, hquiet⟩
    · exact .inl (hstart.symm.trans hsame)
    · exact .inr ⟨rfl, hquiet⟩
  · exact .inr ⟨rfl, .inl (hlags.pusiSeen.symm.trans hunseen)⟩
  · exact .inr ⟨rfl, .inr (hlags.tsfeedp.symm.trans hfull)⟩

/-- Where going back can be noticed, the next bytes make it noticed. -/
theorem handed_again (r : Reassembly) (xs : Bytes) (hxs : r.accepted xs ≠ [])
    (hseen : r.pusiSeen = true) (hhanded : r.secbufp ≠ 0) :
    (r.step calls (.append xs)).2.length < (r.rewound.step calls (.append xs)).2.length := by
  obtain ⟨again, hagain, hrecs, -⟩ := @records_rewound r r.rewound rfl rfl rfl xs
  have hsome : again ≠ [] := by
    rintro rfl
    apply hhanded
    generalize r.secbufp = e at hagain
    cases hagain
    rfl
  have hpos := length_pos_of_ne_nil hsome
  have hxs' : r.rewound.accepted xs ≠ [] := hxs
  have hseen' : r.rewound.pusiSeen = true := hseen
  simp only [Reassembly.step, if_neg hxs, if_neg hxs', hseen, hseen', if_true,
    length_map, hrecs, length_append]
  omega

end Reassembly

/-- The feed holds no section that it has handed on already and that it would
hand on again. -/
def InsertionHarmless (feed : DvbDemuxFeed nq) : Prop :=
  feed.sec.secbufp = 0 ∨ feed.pusiSeen = false ∨ feed.sec.tsfeedp = dmxMaxSecfeedSize

abbrev MarkedStream := List (Bool × TsPacket)

namespace MarkedStream

def all (items : MarkedStream) : List TsPacket := items.map Prod.snd

def original (items : MarkedStream) : List TsPacket :=
  (items.filter (fun item => !item.1)).map Prod.snd

end MarkedStream

section Insertion

variable (ops : SectionOps nq) (flt : Fin nq → DvbDemuxFilter nf)

def InsertedHarmlessly (feed : DvbDemuxFeed nq) (items : MarkedStream) : Prop :=
  Along (fun feed item => some (sectionPacketType ops flt feed item.2).1)
    (fun feed item => item.1 = true → InsertionHarmless feed) feed items

private theorem payload_of_flag (buf : TsPacket) (hflag : buf.byte 3 &&& 0x10 = 0) :
    payload buf = 0 := if_pos hflag

variable {origin feed : DvbDemuxFeed nq}

/-- A packet without payload leaves the feed as it was, gone back to the start
of its buffer. -/
theorem payloadless_represents (hrep : Represents origin feed r) (hon : origin.isFiltering = true)
    (buf : TsPacket) (hflag : buf.byte 3 &&& 0x10 = 0) :
    let out := sectionPacketType ops flt feed buf
    Represents origin out.1 r.rewound ∧ out.1.cc = feed.cc ∧ out.2 = [] := by
  have hpay := payload_of_flag buf hflag
  have hout := sectionPacketType_refines ops flt hrep (hrep.sink.isFiltering.trans hon) buf
  simp only [packetActions, nextCc, if_pos hpay] at hout
  exact hout

theorem insertedHarmlessly_emitted (items : MarkedStream)
    (hplain : ∀ item ∈ items, item.1 = true → item.2.byte 3 &&& 0x10 = 0) {feed' : DvbDemuxFeed nq}
    (hon : origin.isFiltering = true) (hrep : Represents origin feed r)
    (hrep' : Represents origin feed' r') (hcc : feed'.cc = feed.cc) (hlags : r.Lags r')
    (hharmless : InsertedHarmlessly ops flt feed' items) :
    emitted (sectionPacketType ops flt) feed' items.all =
      emitted (sectionPacketType ops flt) feed items.original := by
  induction items generalizing feed feed' r r' with
  | nil => rfl
  | cons item rest ih =>
    obtain ⟨hnow, hlater⟩ := hharmless _ rfl
    have htail := fun it hit => hplain it (mem_cons_of_mem item hit)
    obtain ⟨inserted, buf⟩ := item
    cases inserted with
    | true =>
      obtain ⟨hnext', hcc', hdumps'⟩ := payloadless_represents ops flt hrep' hon
        buf (hplain (true, buf) (by simp) rfl)
      have hback : r'.secbufp = 0 ∨ r'.pusiSeen = false ∨ r'.tsfeedp = dmxMaxSecfeedSize := by
        rw [← hrep'.secbufp, ← hrep'.pusiSeen, ← hrep'.tsfeedp]
        exact hnow rfl
      have hrest := ih htail hrep hnext' (hcc'.trans hcc) (hlags.rewound hback) hlater
      simp only [MarkedStream.all, map_cons, emitted, hdumps']
      exact hrest
    | false =>
      obtain ⟨hnext, hcc2, hdumps⟩ := sectionPacketType_refines ops flt hrep
        (hrep.sink.isFiltering.trans hon) buf
      obtain ⟨hnext', hcc', hdumps'⟩ := sectionPacketType_refines ops flt hrep'
        (hrep'.sink.isFiltering.trans hon) buf
      rw [hcc] at hnext' hcc' hdumps'
      obtain ⟨hlags', hsame⟩ := emitted_eq_of_simulation _ _ Reassembly.Lags
        (fun s t action hst => Reassembly.Lags.step (sectionCalls ops flt origin)
          s t action hst) r r' hlags (packetActions feed.cc buf)
      have hrest := ih htail hnext hnext' (hcc'.trans hcc2.symm) hlags' hlater
      simp only [MarkedStream.all, MarkedStream.original, map_cons,
        filter_cons_of_pos, Bool.not_false, emitted, hdumps, hdumps', hsame]
      exact congrArg _ hrest

/-- Two feeds of which one lags behind unnoticed hand on the same sections,
whatever packets come. -/
theorem lags_emitted {feed' : DvbDemuxFeed nq} (hon : origin.isFiltering = true)
    (hrep : Represents origin feed r) (hrep' : Represents origin feed' r')
    (hcc : feed'.cc = feed.cc) (hlags : r.Lags r') (packets : List TsPacket) :
    emitted (sectionPacketType ops flt) feed' packets =
      emitted (sectionPacketType ops flt) feed packets := by
  rw [section_run_refines ops flt packets hrep hon,
    section_run_refines ops flt packets hrep' hon, hcc]
  exact (emitted_eq_of_simulation _ _ Reassembly.Lags
    (Reassembly.Lags.step (sectionCalls ops flt origin)) r r' hlags _).2.symm

/-- With a filter that takes every section, a packet without payload goes
unnoticed in all continuations exactly in the harmless states. -/
theorem unnoticed_iff {q : Fin nq} (hon : origin.isFiltering = true)
    (hrep : Represents origin feed r) (htakes : TakesAll flt origin q) (empty : TsPacket)
    (hempty : empty.byte 3 &&& 0x10 = 0) (pid : Nat) (hpid : pid < 0x2000) :
    (∀ after : List TsPacket, (∀ buf ∈ after, tsPid buf = pid) →
      sectionCallbacks (emitted (sectionPacketType ops flt) feed (empty :: after)) =
        sectionCallbacks (emitted (sectionPacketType ops flt) feed after)) ↔
      InsertionHarmless feed := by
  obtain ⟨hback, hcc, hdumps⟩ := payloadless_represents ops flt hrep hon empty hempty
  constructor
  · intro hsame
    by_contra hharm
    simp only [InsertionHarmless, not_or, Bool.not_eq_false] at hharm
    obtain ⟨hhanded, hseen, hroom⟩ := hharm
    rw [hrep.secbufp] at hhanded
    rw [hrep.pusiSeen] at hseen
    rw [hrep.tsfeedp] at hroom
    let next := followingPacket pid feed.cc (List.replicate 184 0) length_replicate
    have hxs : r.accepted (List.replicate 184 0) ≠ [] := by
      have hbound := r.bound
      simp only [accepted, take_replicate, ne_eq, replicate_eq_nil_iff]
      omega
    have hcalls := htakes.sectionCalls_eq ops hon
    have hmore := handed_again (sectionCalls ops flt origin) r
      (List.replicate 184 0) hxs hseen hhanded
    have hlen (s : DvbDemuxFeed nq) (t : Reassembly) (hst : Represents origin s t)
        (hcount : s.cc = feed.cc) :
        (sectionCallbacks (emitted (sectionPacketType ops flt) s [next])).length =
          (t.step (sectionCalls ops flt origin) (.append (List.replicate 184 0))).2.length := by
      rw [section_run_refines ops flt [next] hst hon, callbacks_accepting _ q hcalls, hcount]
      simp [streamActions, next, followingPacket_actions pid hpid, emitted]
    have hpair := congrArg List.length (hsame [next]
      (by simp [next, tsPid_followingPacket pid hpid]))
    rw [emitted, hdumps, nil_append, hlen _ _ hback hcc, hlen _ _ hrep rfl] at hpair
    omega
  · intro hharmless after _
    have hlags : r.Lags r.rewound := by
      apply (Reassembly.Lags.refl r).rewound
      rw [← hrep.secbufp, ← hrep.pusiSeen, ← hrep.tsfeedp]
      exact hharmless
    rw [emitted, hdumps, nil_append, lags_emitted ops flt hon hrep hback hcc hlags]

end Insertion

/-- Packets without payload are transparent as long as each finds the feed in a
harmless state; and for a client that takes every section these states are the
only ones in which such a packet goes unnoticed whatever follows it. -/
theorem payloadless_packets_transparent (ops : SectionOps nq) (a : Answer) (f : Fin nf)
    (d d' : DvbDemux nf nq) (hstart : dmxSectionFeedStartFiltering a f d = (.ok (), d')) :
    (∀ items : MarkedStream,
      (∀ item ∈ items, item.1 = true → item.2.byte 3 &&& 0x10 = 0) →
      InsertedHarmlessly ops d'.filter (d'.feed f) items →
      sectionCallbacks (dumped ops d' f items.all) =
        sectionCallbacks (dumped ops d' f items.original)) ∧
    (∀ q : Fin nq, TakesAll d'.filter (d'.feed f) q → ∀ pid < 0x2000,
      ∀ (before : List TsPacket) (empty : TsPacket), empty.byte 3 &&& 0x10 = 0 →
      ((∀ after : List TsPacket, (∀ buf ∈ after, tsPid buf = pid) →
        sectionCallbacks (dumped ops d' f (before ++ empty :: after)) =
          sectionCallbacks (dumped ops d' f (before ++ after))) ↔
        InsertionHarmless (final (sectionPacketType ops d'.filter) (d'.feed f) before))) := by
  have hrep := started_represents a f d d' hstart
  have hon := started_filtering a f d d' hstart
  constructor
  · intro items hplain hharmless
    exact congrArg sectionCallbacks (insertedHarmlessly_emitted ops d'.filter items hplain hon
      hrep hrep rfl (Reassembly.Lags.refl _) hharmless)
  intro q htakes pid hpid before empty hempty
  obtain ⟨r, hreached⟩ := section_run_represents ops d'.filter before hrep hon
  rw [← unnoticed_iff ops d'.filter hon hreached htakes empty hempty pid hpid]
  simp [emitted_append, sectionCallbacks]

def payloadlessPacket : TsPacket :=
  { bytes := [0x47, 0x00, 0x10, 0x20, 183] ++ List.replicate 183 0x00, size := rfl }

theorem payloadless_packets_transparent_at_start :
    sectionCallbacks (dumped default startedDemux 0 (payloadlessPacket :: twoSections)) =
    sectionCallbacks (dumped default startedDemux 0 twoSections) :=
  (payloadless_packets_transparent default .ok 0 sectionDemux startedDemux rfl).1
    ((true, payloadlessPacket) :: twoSections.map (fun buf => (false, buf))) (by decide +kernel) (by
      intro _ hnext
      refine ⟨fun _ => .inl rfl, fun _ _ => ⟨by simp, fun _ _ => ⟨by simp, trivial⟩⟩⟩)

/-- The packet between the two packets of the stream makes the first section
come twice. -/
theorem payloadless_packet_redelivers :
    sectionCallbacks (dumped default startedDemux 0
      (twoSections.take 1 ++ payloadlessPacket :: twoSections.drop 1)) =
      [(0, shortSection), (0, shortSection), (0, longSection)] ∧
    sectionCallbacks (dumped default startedDemux 0 (twoSections.take 1 ++ twoSections.drop 1)) =
      [(0, shortSection), (0, longSection)] := by
  decide +kernel

end TbsMedia.DvbCore
