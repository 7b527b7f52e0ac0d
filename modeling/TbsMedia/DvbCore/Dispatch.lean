import TbsMedia.DvbCore.Demux

/-!
`dvb_dmx_swfilter_packet`: one packet is offered to every feed in `feed_list`.
What the demux calls on the way is recorded as events. The speed display and
the counter check of the module parameters only print and are left out.
-/

namespace TbsMedia.DvbCore

open Lib List

variable {nf nq : Nat}

inductive PacketEvent (nf nq : Nat) where
  /-- The callback `cb.ts` of a feed with these bytes. -/
  | ts (f : Fin nf) (bytes : Bytes)
  | writeToDecoder (f : Fin nf)
  | sectionDump (f : Fin nf) (dump : SectionDump nq)
deriving DecidableEq

def PacketEvent.feed : PacketEvent nf nq → Fin nf
  | .ts f _ => f
  | .writeToDecoder f => f
  | .sectionDump f _ => f

def dvbDmxSwfilterPayload (f : Fin nf) (feed : DvbDemuxFeed nq) (buf : TsPacket) :
    DvbDemuxFeed nq × List (PacketEvent nf nq) :=
  let count := payload buf
  if count = 0 then (feed, [])
  else
    let peslen := if pusi buf then 0xfffa else feed.peslen
    ({ feed with peslen := (peslen + count) % 2 ^ 16 },
      [.ts f (buf.slice (188 - count) count)])

/-- `if (feed->ts_type & TS_PACKET) ...` -/
def tsPacketCall (f : Fin nf) (feed : DvbDemuxFeed nq) (buf : TsPacket) :
    DvbDemuxFeed nq × List (PacketEvent nf nq) :=
  if feed.tsType &&& tsPacket ≠ 0 then
    if feed.tsType &&& tsPayloadOnly ≠ 0 then dvbDmxSwfilterPayload f feed buf
    else (feed, [.ts f buf.bytes])
  else (feed, [])

/-- `if (feed->ts_type & TS_DECODER) ...` -/
def tsDecoderCall (writeToDecoder : Bool) (f : Fin nf) (feed : DvbDemuxFeed nq) :
    List (PacketEvent nf nq) :=
  if feed.tsType &&& tsDecoder ≠ 0 ∧ writeToDecoder then [.writeToDecoder f] else []

/-- The `DMX_TYPE_TS` case of `dvb_dmx_swfilter_packet_type`. -/
def tsPacketType (writeToDecoder : Bool) (f : Fin nf) (feed : DvbDemuxFeed nq)
    (buf : TsPacket) : DvbDemuxFeed nq × List (PacketEvent nf nq) :=
  if !feed.isFiltering then (feed, [])
  else
    let called := tsPacketCall f feed buf
    (called.1, called.2 ++ tsDecoderCall writeToDecoder f feed)

variable (ops : SectionOps nq) (d : DvbDemux nf nq)

def dvbDmxSwfilterPacketType (f : Fin nf) (buf : TsPacket) :
    DvbDemuxFeed nq × List (PacketEvent nf nq) :=
  match (d.feed f).type with
  | .ts => tsPacketType d.writeToDecoder f (d.feed f) buf
  | .sec =>
    let out := sectionPacketType ops d.filter (d.feed f) buf
    (out.1, out.2.map (.sectionDump f))
  | .pes => (d.feed f, [])

/-- `DVR_FEED(f)`. -/
def dvrFeed (feed : DvbDemuxFeed nq) : Bool :=
  feed.type = .ts ∧ feed.isFiltering = true ∧
    feed.tsType &&& (tsPacket ||| tsDemux) = tsPacket

def servesPid (feed : DvbDemuxFeed nq) (buf : TsPacket) : Bool :=
  feed.pid = tsPid buf ∨ feed.pid = 0x2000

def serveFeed (f : Fin nf) (buf : TsPacket) : DvbDemuxFeed nq × List (PacketEvent nf nq) :=
  if (d.feed f).pid = tsPid buf then dvbDmxSwfilterPacketType ops d f buf
  else (d.feed f, [.ts f buf.bytes])

/-- The walk over `feed_list`; `dvrDone` is `dvr_done`. -/
def swfilterPacketLoop (buf : TsPacket) : List (Fin nf) → Nat → DvbDemux nf nq →
    DvbDemux nf nq × List (PacketEvent nf nq)
  | [], _, d => (d, [])
  | f :: rest, dvrDone, d =>
    if !servesPid (d.feed f) buf then swfilterPacketLoop buf rest dvrDone d
    else if dvrFeed (d.feed f) ∧ dvrDone ≠ 0 then
      swfilterPacketLoop buf rest (dvrDone + 1) d
    else
      let dvrDone := if dvrFeed (d.feed f) then dvrDone + 1 else dvrDone
      let served := serveFeed ops d f buf
      let out := swfilterPacketLoop buf rest dvrDone (d.updFeed f (fun _ => served.1))
      (out.1, served.2 ++ out.2)

def dvbDmxSwfilterPacket (buf : TsPacket) : DvbDemux nf nq × List (PacketEvent nf nq) :=
  swfilterPacketLoop ops buf d.feedList 0 d

/-! The feeds are served independently, except for the passing over of DVR
feeds. -/

def walkEvents (buf : TsPacket) : List (Fin nf) → Bool → List (PacketEvent nf nq)
  | [], _ => []
  | f :: rest, done =>
    (if servesPid (d.feed f) buf ∧ ¬ (dvrFeed (d.feed f) ∧ done) then
      (serveFeed ops d f buf).2 else []) ++
    walkEvents buf rest (done || servesPid (d.feed f) buf && dvrFeed (d.feed f))

theorem serveFeed_congr (d' : DvbDemux nf nq) (f : Fin nf) (buf : TsPacket)
    (hfeed : d'.feed f = d.feed f) (hflt : d'.filter = d.filter)
    (hdec : d'.writeToDecoder = d.writeToDecoder) :
    serveFeed ops d' f buf = serveFeed ops d f buf := by
  simp only [serveFeed, dvbDmxSwfilterPacketType, hfeed, hflt, hdec]

variable (buf : TsPacket) (fs : List (Fin nf))

/-- A feed that is served changes itself only, so the later ones are found as
they were. -/
theorem swfilterPacketLoop_events (hnodup : fs.Nodup) (dvrDone : Nat) (d d' : DvbDemux nf nq)
    (hfeed : ∀ f ∈ fs, d'.feed f = d.feed f) (hflt : d'.filter = d.filter)
    (hdec : d'.writeToDecoder = d.writeToDecoder) :
    (swfilterPacketLoop ops buf fs dvrDone d').2 = walkEvents ops d buf fs (dvrDone ≠ 0) := by
  induction fs generalizing dvrDone d' with
  | nil => rfl
  | cons f rest ih =>
    obtain ⟨hnotin, hrest⟩ := nodup_cons.mp hnodup
    have hf := hfeed f (by simp)
    have hlater := fun g hg => hfeed g (mem_cons_of_mem f hg)
    rw [swfilterPacketLoop, walkEvents, hf]
    rcases hserve : servesPid (d.feed f) buf with _ | _
    · simpa using ih hrest dvrDone d' hlater hflt hdec
    by_cases hpass : dvrFeed (d.feed f) = true ∧ dvrDone ≠ 0
    · have htail := ih hrest (dvrDone + 1) d' hlater hflt hdec
      simp only [hpass]
      simpa [hpass.2] using htail
    have hoth : ∀ g ∈ rest,
        (d'.updFeed f (fun _ => (serveFeed ops d' f buf).1)).feed g = d.feed g := by
      intro g hg
      have hne : g ≠ f := by
        rintro rfl
        exact hnotin hg
      simp only [DvbDemux.updFeed, Function.update_of_ne hne]
      exact hlater g hg
    have htail := ih hrest (if dvrFeed (d.feed f) then dvrDone + 1 else dvrDone)
      _ hoth hflt hdec
    have hserv := serveFeed_congr ops d d' f buf hf hflt hdec
    have hdone : (decide ((if dvrFeed (d.feed f) then dvrDone + 1 else dvrDone) ≠ 0)) =
        (decide (dvrDone ≠ 0) || dvrFeed (d.feed f)) := by
      cases dvrFeed (d.feed f) with
      | false => simp
      | true => simp
    rw [hdone, hserv] at htail
    simp only [Bool.not_true, Bool.false_eq_true, if_false, if_neg hpass, hserv,
      htail, Bool.true_and, true_and, decide_eq_true_eq]
    rw [if_pos hpass]

variable (f : Fin nf)

theorem serveFeed_feed (buf : TsPacket) (e : PacketEvent nf nq) (he : e ∈ (serveFeed ops d f buf).2)
    : e.feed = f := by
  unfold serveFeed at he
  split_ifs at he with hpid
  · unfold dvbDmxSwfilterPacketType at he
    split at he
    · simp only [tsPacketType, tsPacketCall, tsDecoderCall, dvbDmxSwfilterPayload] at he
      split_ifs at he <;> simp at he
      all_goals first
        | (rfl)
        | (rcases he with rfl | rfl <;> rfl)
    · obtain ⟨dump, -, rfl⟩ := List.mem_map.mp he
      rfl
    · simp at he
  · rw [mem_singleton.mp he]
    rfl

theorem swfilterPacket_events :
    (dvbDmxSwfilterPacket ops d buf).2 = walkEvents ops d buf d.feedList false :=
  swfilterPacketLoop_events ops buf d.feedList d.nodup 0 d d (fun _ _ => rfl) rfl rfl

/-- A feed is only ever served by its own PID's code if it is filtering. -/
theorem packetType_filtering (buf : TsPacket) (hoff : (d.feed f).isFiltering = false) :
    (dvbDmxSwfilterPacketType ops d f buf).2 = [] := by
  unfold dvbDmxSwfilterPacketType
  cases (d.feed f).type with
  | ts => simp [tsPacketType, hoff]
  | sec => simp [sectionPacketType, hoff]
  | pes => rfl

theorem mem_walkEvents (done : Bool) (e : PacketEvent nf nq) (he : e ∈ walkEvents ops d buf fs done)
    : ∃ f ∈ fs, servesPid (d.feed f) buf = true ∧ e ∈ (serveFeed ops d f buf).2 := by
  induction fs generalizing done with
  | nil => simp [walkEvents] at he
  | cons f rest ih =>
    rcases mem_append.mp he with hnow | hlater
    · split_ifs at hnow with hserv
      · exact ⟨f, by simp, hserv.1, hnow⟩
      · simp at hnow
    · obtain ⟨g, hg, hserve, hevent⟩ := ih _ hlater
      exact ⟨g, mem_cons_of_mem f hg, hserve, hevent⟩

theorem serveFeed_subset (done : Bool) (f : Fin nf) (hf : f ∈ fs)
    (hserve : servesPid (d.feed f) buf = true) (hdvr : dvrFeed (d.feed f) = false)
    (e : PacketEvent nf nq) (he : e ∈ (serveFeed ops d f buf).2) :
    e ∈ walkEvents ops d buf fs done := by
  induction fs generalizing done with
  | nil => simp at hf
  | cons g rest ih =>
    rcases mem_cons.mp hf with rfl | hrest
    · apply mem_append_left
      rw [if_pos ⟨hserve, by simp [hdvr]⟩]
      exact he
    · exact mem_append_right _ (ih _ hrest)

/-- For every state and packet, exactly the feeds of the whole-stream PID can be
called while they are not filtering: the silence of such feeds comes down to
there being none in the list. -/
theorem silent_iff_whole_stream_filtering (ops : SectionOps nq) (d : DvbDemux nf nq)
    (buf : TsPacket) :
    (∀ e ∈ (dvbDmxSwfilterPacket ops d buf).2, (d.feed e.feed).isFiltering = true) ↔
      ∀ f ∈ d.feedList, (d.feed f).pid = 0x2000 → (d.feed f).isFiltering = true := by
  have hlt := tsPid_lt buf
  rw [swfilterPacket_events]
  constructor
  · intro hsilent f hf hpid
    cases hon : (d.feed f).isFiltering with
    | true => rfl
    | false =>
      have hcalled : .ts f buf.bytes ∈ (serveFeed ops d f buf).2 := by
        simp [serveFeed, hpid, show ¬ 0x2000 = tsPid buf by omega]
      have hmem := serveFeed_subset ops d buf d.feedList false f hf
        (by simp [servesPid, hpid]) (by simp [dvrFeed, hon]) _ hcalled
      have hfiltering := hsilent _ hmem
      rw [PacketEvent.feed, hon] at hfiltering
      exact hfiltering
  · intro hwhole e he
    obtain ⟨f, hf, hserves, hevent⟩ := mem_walkEvents ops d buf d.feedList false e he
    rw [serveFeed_feed ops d f buf e hevent]
    unfold serveFeed at hevent
    split_ifs at hevent with hpid
    · cases hon : (d.feed f).isFiltering with
      | true => rfl
      | false =>
        rw [packetType_filtering ops d f buf hon] at hevent
        simp at hevent
    · simp only [servesPid, decide_eq_true_eq] at hserves
      exact hwhole f hf (hserves.resolve_left hpid)

def wholeStreamDemux : DvbDemux 1 1 :=
  let d := dvbDmxInit (readyDemux 1 1)
  let d := (dvbdmxAllocateTsFeed .ok none d).2.2
  (dmxTsFeedSet .ok 0 0x2000 tsPacket dmxTsPesOther d).2

def plainPacket : TsPacket :=
  { bytes := [0x47, 0x00, 0x10, 0x10] ++ List.replicate 184 0x00, size := rfl }

theorem stopped_whole_stream_feed_called :
    .ts 0 plainPacket.bytes ∈ (dvbDmxSwfilterPacket default wholeStreamDemux plainPacket).2 ∧
      (wholeStreamDemux.feed 0).isFiltering = false := by
  decide +kernel

/-! Which feeds can keep a packet from another one. -/

/-- The clients that allocate TS feeds: the ULE code of `dvb_net.c` and the
demux device with an output and a PES type. -/
inductive TsClient where
  | net
  | dmxdev (output : DmxOutput) (pesType : Nat)
deriving DecidableEq

namespace TsClient

def tsType : TsClient → Nat
  | .net => tsPacket
  | .dmxdev output pesType => dmxdevTsType output pesType

/-- The callback writes the shared `dvr_buffer`: `dvb_dmxdev_ts_callback` does
unless the output is one of three. -/
def writesDvr : TsClient → Bool
  | .net => false
  | .dmxdev output _ =>
    !(output = .decoder ∨ output = .tap ∨ output = .tsdemuxTap)

def takes (buf : TsPacket) : TsClient → Bool
  | .net => true
  | .dmxdev .tsTap _ => true
  | .dmxdev .tsdemuxTap _ => true
  | .dmxdev .tap _ => payload buf ≠ 0
  | .dmxdev _ _ => false

end TsClient

def PacketEvent.callsTs (f : Fin nf) : PacketEvent nf nq → Bool
  | .ts g _ => g = f
  | _ => false

open PacketEvent (callsTs)

/-- How often the callback of feed `f` was called. -/
def tsCalls (f : Fin nf) (events : List (PacketEvent nf nq)) : Nat :=
  events.countP (PacketEvent.callsTs f)

theorem tsCalls_other (g : Fin nf) (hne : g ≠ f) (events : List (PacketEvent nf nq))
    (hevents : ∀ e ∈ events, e.feed = g) : tsCalls f events = 0 := by
  apply countP_eq_zero.mpr
  intro e he
  have hfeed := hevents e he
  cases e with
  | ts h bytes =>
    obtain rfl : h = g := hfeed
    simpa [callsTs] using hne
  | writeToDecoder => simp [callsTs]
  | sectionDump => simp [callsTs]

/-- A feed in the list is served once, or passed over because it counts as a DVR
feed and one was served before it. -/
theorem tsCalls_walkEvents (hserve : servesPid (d.feed f) buf = true) (fs : List (Fin nf))
    (hnodup : fs.Nodup) (hf : f ∈ fs) (done : Bool) :
    tsCalls f (walkEvents ops d buf fs done) =
      if dvrFeed (d.feed f) = true ∧ (done = true ∨ ∃ g ∈ fs.takeWhile (fun g => g ≠ f),
          servesPid (d.feed g) buf = true ∧ dvrFeed (d.feed g) = true) then 0
      else tsCalls f (serveFeed ops d f buf).2 := by
  induction fs generalizing done with
  | nil => simp at hf
  | cons g rest ih =>
    obtain ⟨hnotin, hrest⟩ := nodup_cons.mp hnodup
    rw [walkEvents]
    simp only [tsCalls, countP_append]
    rcases eq_or_ne g f with rfl | hgf
    · have hlater : tsCalls g (walkEvents ops d buf rest
          (done || servesPid (d.feed g) buf && dvrFeed (d.feed g))) = 0 := by
        apply countP_eq_zero.mpr
        intro e he
        obtain ⟨h, hh, -, hevent⟩ := mem_walkEvents ops d buf rest _ e he
        have hzero := tsCalls_other g h (by rintro rfl; exact hnotin hh)
          (serveFeed ops d h buf).2 (serveFeed_feed ops d h buf)
        exact countP_eq_zero.mp hzero e hevent
      rw [tsCalls] at hlater
      rw [hlater]
      simp only [hserve, true_and, ne_eq, not_true_eq_false, decide_false,
        Bool.false_eq_true, not_false_eq_true, takeWhile_cons_of_neg,
        not_mem_nil, false_and, exists_false, or_false, add_zero]
      split_ifs <;> simp_all
    · have hnow : tsCalls f (if servesPid (d.feed g) buf ∧
          ¬ (dvrFeed (d.feed g) ∧ done) then (serveFeed ops d g buf).2 else []) = 0 := by
        split_ifs
        · exact tsCalls_other f g hgf _ (serveFeed_feed ops d g buf)
        · rfl
      have hin : f ∈ rest := (mem_cons.mp hf).resolve_left (Ne.symm hgf)
      have htail := ih hrest hin (done || servesPid (d.feed g) buf && dvrFeed (d.feed g))
      simp only [tsCalls] at hnow htail ⊢
      rw [hnow, htail, zero_add]
      simp only [Bool.or_eq_true, Bool.and_eq_true, ne_eq, hgf, not_false_eq_true,
        decide_true, takeWhile_cons_of_pos, exists_mem_cons_iff, or_assoc]

private theorem decoder_bit (pesType : Nat) :
    (if pesType < dmxTsPesOther then tsDecoder else 0) = 4 ∨
      (if pesType < dmxTsPesOther then tsDecoder else 0) = 0 := by
  split_ifs
  · exact .inl rfl
  · exact .inr rfl

/-- The bits of `ts_type` say what the client takes. -/
theorem TsClient.takes_iff (c : TsClient) (buf : TsPacket) :
    c.takes buf = true ↔ c.tsType &&& tsPacket ≠ 0 ∧
      (c.tsType &&& tsPayloadOnly ≠ 0 → payload buf ≠ 0) := by
  cases c with
  | net => simp [takes, tsType, tsPacket, tsPayloadOnly]
  | dmxdev output pesType =>
    rcases decoder_bit pesType with hbit | hbit
    all_goals
      cases output <;> simp [takes, tsType, dmxdevTsType, hbit, tsPacket, tsPayloadOnly, tsDemux]

/-- Of the clients that do not write the DVR buffer, one has the bits of those
that do. -/
theorem TsClient.dvr_bits_iff (c : TsClient) (hdvr : c.writesDvr = false) :
    c.tsType &&& (tsPacket ||| tsDemux) = tsPacket ↔ c = .net := by
  cases c with
  | net => simp [tsType, tsPacket, tsDemux]
  | dmxdev output pesType =>
    rcases decoder_bit pesType with hbit | hbit
    all_goals
      cases output <;> simp [writesDvr] at hdvr <;>
        simp [tsType, dmxdevTsType, hbit, tsPacket, tsPayloadOnly, tsDemux]

/-- A TS feed that is filtering and served is called at most once. -/
theorem tsCalls_serveFeed (htype : (d.feed f).type = .ts) (hon : (d.feed f).isFiltering = true) :
    tsCalls f (serveFeed ops d f buf).2 =
      if (d.feed f).pid = tsPid buf → ((d.feed f).tsType &&& tsPacket ≠ 0 ∧
        ((d.feed f).tsType &&& tsPayloadOnly ≠ 0 → payload buf ≠ 0)) then 1 else 0 := by
  have hdec : tsCalls f (tsDecoderCall d.writeToDecoder f (d.feed f)) = 0 := by
    unfold tsDecoderCall
    split_ifs <;> rfl
  have hcall : tsCalls f (tsPacketCall f (d.feed f) buf).2 =
      if (d.feed f).tsType &&& tsPacket ≠ 0 ∧
        ((d.feed f).tsType &&& tsPayloadOnly ≠ 0 → payload buf ≠ 0) then 1 else 0 := by
    unfold tsPacketCall dvbDmxSwfilterPayload
    split_ifs <;> simp_all [tsCalls, callsTs]
  by_cases hpid : (d.feed f).pid = tsPid buf
  · simp only [tsCalls] at hdec hcall ⊢
    simp [serveFeed, dvbDmxSwfilterPacketType, htype, tsPacketType, hon, hpid, hdec, hcall]
  · simp [serveFeed, hpid, tsCalls, callsTs]

/-- A consumer that does not write the DVR buffer is called exactly once for a
packet on its PID if it takes such packets and, should it be the ULE feed, no
feed that the demux counts as a DVR feed stands before it. -/
theorem consumer_called_once_iff (ops : SectionOps nq) (d : DvbDemux nf nq) (buf : TsPacket)
    (f : Fin nf) (c : TsClient) (hlisted : f ∈ d.feedList) (htype : (d.feed f).type = .ts)
    (hon : (d.feed f).isFiltering = true) (hserves : servesPid (d.feed f) buf = true)
    (hclient : (d.feed f).tsType = c.tsType) (hdvr : c.writesDvr = false) :
    tsCalls f (dvbDmxSwfilterPacket ops d buf).2 = 1 ↔
      ((d.feed f).pid = 0x2000 ∨ c.takes buf = true) ∧
      (c = .net → ∀ g ∈ d.feedList.takeWhile (fun g => g ≠ f),
        servesPid (d.feed g) buf = true → dvrFeed (d.feed g) = false) := by
  have hbits : dvrFeed (d.feed f) = true ↔ c = .net := by
    rw [← c.dvr_bits_iff hdvr]
    simp [dvrFeed, htype, hon, hclient]
  have htakes : ((d.feed f).pid = tsPid buf → ((d.feed f).tsType &&& tsPacket ≠ 0 ∧
      ((d.feed f).tsType &&& tsPayloadOnly ≠ 0 → payload buf ≠ 0))) ↔
      ((d.feed f).pid = 0x2000 ∨ c.takes buf = true) := by
    have hlt := tsPid_lt buf
    rw [c.takes_iff buf, hclient]
    simp only [servesPid, decide_eq_true_eq] at hserves
    constructor
    · intro htakes
      rcases hserves with hpid | hwhole
      · exact .inr (htakes hpid)
      · exact .inl hwhole
    · rintro (hwhole | htakes) hpid
      · omega
      · exact htakes
  rw [swfilterPacket_events, tsCalls_walkEvents ops d buf f hserves d.feedList d.nodup
    hlisted false, tsCalls_serveFeed ops d buf f htype hon]
  simp only [hbits, htakes, Bool.false_eq_true, false_or]
  split_ifs with hpassed hasked
  · obtain ⟨hnet, g, hg, hgserves, hgdvr⟩ := hpassed
    simp only [false_iff, not_and, hnet, forall_const]
    intro _ hall
    rw [hall g hg hgserves] at hgdvr
    cases hgdvr
  · simp only [true_iff]
    refine ⟨hasked, fun hnet g hg hgserves => ?_⟩
    rw [← Bool.not_eq_true]
    exact fun hgdvr => hpassed ⟨hnet, g, hg, hgserves, hgdvr⟩
  · simp only [false_iff]
    exact fun h => hasked h.1

def twoConsumers (second : TsClient) : DvbDemux 2 2 :=
  let d := dvbDmxInit (readyDemux 2 2)
  let d := (dvbdmxAllocateTsFeed .ok none d).2.2
  let d := (dmxTsFeedSet .ok 0 16 TsClient.net.tsType dmxTsPesOther d).2
  let d := (dmxTsFeedStartFiltering .ok 0 d).2
  let d := (dvbdmxAllocateTsFeed .ok none d).2.2
  let d := (dmxTsFeedSet .ok 1 16 second.tsType dmxTsPesOther d).2
  (dmxTsFeedStartFiltering .ok 1 d).2

theorem consumer_called_once_tsdemux :
    tsCalls 1 (dvbDmxSwfilterPacket default
      (twoConsumers (.dmxdev .tsdemuxTap dmxTsPesOther)) plainPacket).2 = 1 :=
  (consumer_called_once_iff default (twoConsumers (.dmxdev .tsdemuxTap dmxTsPesOther))
    plainPacket 1 (.dmxdev .tsdemuxTap dmxTsPesOther) (by decide +kernel)
    (by decide +kernel) (by decide +kernel) (by decide +kernel) (by decide +kernel)
    (by decide +kernel)).mpr ⟨.inr (by decide +kernel), by simp⟩

/-- The feed that records the PID to the DVR device takes the packet away from
the ULE feed. -/
theorem dvr_feed_suppresses_ule_feed :
    ((twoConsumers (.dmxdev .tsTap dmxTsPesOther)).feed 0).isFiltering = true ∧
    ((twoConsumers (.dmxdev .tsTap dmxTsPesOther)).feed 0).pid = tsPid plainPacket ∧
    TsClient.net.writesDvr = false ∧
    tsCalls 0 (dvbDmxSwfilterPacket default
      (twoConsumers (.dmxdev .tsTap dmxTsPesOther)) plainPacket).2 = 0 := by
  decide +kernel

end TbsMedia.DvbCore
