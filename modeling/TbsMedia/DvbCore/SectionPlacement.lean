import TbsMedia.DvbCore.SectionDelivery

/-!
Where the sections that a feed hands on come from. Behind the pointer of a
start packet the payload bytes of the PID form one unit; a section that is
handed on should stand in the unit of a start packet of the same run, at the
pointer or directly after another one. The code has this property as long as
the run does not inherit `pusi_seen` from an earlier use of the feed.
-/

namespace TbsMedia.DvbCore

open Lib List Reassembly

variable {nf nq : Nat}

/-- What came since the pointer of the last start packet: the bytes, and the
sections handed on from them. -/
structure Heard (nq : Nat) where
  bytes : Bytes
  handed : List (SectionDump nq)

structure InUnit (heard : Heard nq) (dump : SectionDump nq) : Prop where
  bytes : (heard.bytes.drop dump.start).take dump.bytes.length = dump.bytes
  start : dump.start = 0 ∨ ∃ before ∈ heard.handed, before.start + before.bytes.length = dump.start

/-- `Placed heard actions dumps`: while the actions are carried out, the
sections `dumps` are handed on, each of them in its place in the unit that is
heard at that time. Without a unit there is none. -/
inductive Placed : Option (Heard nq) → List Action → List (SectionDump nq) → Prop
  | done (heard : Option (Heard nq)) : Placed heard [] []
  | lose {heard : Option (Heard nq)} {actions : List Action}
      {dumps : List (SectionDump nq)} (htail : Placed none actions dumps) :
      Placed heard (.lose :: actions) dumps
  | start {heard : Option (Heard nq)} {actions : List Action}
      {dumps : List (SectionDump nq)} (htail : Placed (some ⟨[], []⟩) actions dumps) :
      Placed heard (.start :: actions) dumps
  | rewind {heard : Option (Heard nq)} {actions : List Action}
      {dumps : List (SectionDump nq)} (htail : Placed heard actions dumps) :
      Placed heard (.rewind :: actions) dumps
  | unheard {actions : List Action} {dumps : List (SectionDump nq)}
      (xs : Bytes) (htail : Placed none actions dumps) :
      Placed none (.append xs :: actions) dumps
  | append {bytes : Bytes} {handed : List (SectionDump nq)}
      {actions : List Action} {dumps : List (SectionDump nq)} (xs : Bytes)
      (now : List (SectionDump nq))
      (hnow : ∀ dump ∈ now, InUnit ⟨bytes ++ xs, handed ++ now⟩ dump)
      (htail : Placed (some ⟨bytes ++ xs, handed ++ now⟩) actions dumps) :
      Placed (some ⟨bytes, handed⟩) (.append xs :: actions) (now ++ dumps)

theorem Placed.eq_nil {actions : List Action} {dumps : List (SectionDump nq)}
    (hplaced : Placed none actions dumps) (hstart : .start ∉ actions) : dumps = [] := by
  generalize hheard : (none : Option (Heard nq)) = heard at hplaced
  induction hplaced with
  | done => rfl
  | lose _ ih => exact ih (by simpa using hstart) rfl
  | start => simp at hstart
  | rewind _ ih => exact ih (by simpa using hstart) hheard
  | unheard _ _ ih => exact ih (by simpa using hstart) rfl
  | append => cases hheard

variable (calls : Mem UInt8 → Nat → Nat → List (Fin nq))

namespace Reassembly

/-- The buffer holds the front of the unit, all of it unless it is full, and
`secbufp` is where the last section that was handed on ends. -/
def Holds (r : Reassembly) : Option (Heard nq) → Prop
  | none => r.pusiSeen = false
  | some heard => r.pusiSeen = true ∧
      r.mem.read 0 r.tsfeedp = heard.bytes.take r.tsfeedp ∧
      (r.tsfeedp = heard.bytes.length ∨
        r.tsfeedp = dmxMaxSecfeedSize ∧ r.tsfeedp ≤ heard.bytes.length) ∧
      (r.secbufp = 0 ∨ ∃ last ∈ heard.handed, last.start + last.bytes.length = r.secbufp)

/-- A buffer that takes a byte held the whole unit before and holds the front of
the longer unit afterwards. -/
theorem filled_read (r : Reassembly) (bytes xs : Bytes) (hxs : r.accepted xs ≠ [])
    (hread : r.mem.read 0 r.tsfeedp = bytes.take r.tsfeedp)
    (hlen : r.tsfeedp = bytes.length ∨ r.tsfeedp = dmxMaxSecfeedSize ∧ r.tsfeedp ≤ bytes.length)
    :
    (r.filled xs).mem.read 0 (r.filled xs).tsfeedp =
        (bytes ++ xs).take (r.filled xs).tsfeedp ∧
      ((r.filled xs).tsfeedp = (bytes ++ xs).length ∨ (r.filled xs).tsfeedp = dmxMaxSecfeedSize ∧
          (r.filled xs).tsfeedp ≤ (bytes ++ xs).length) := by
  have hbound := r.bound
  have hacc : (r.accepted xs).length = min (dmxMaxSecfeedSize - r.tsfeedp) xs.length := by
    simp [accepted]
  have hpos := length_pos_of_ne_nil hxs
  have hall : r.tsfeedp = bytes.length := by
    rcases hlen with hall | ⟨hfull, _⟩
    · exact hall
    · omega
  have happend := Mem.read_memcpy_append r.mem (r.accepted xs) 0 r.tsfeedp
  rw [zero_add] at happend
  constructor
  · change (r.mem.memcpy r.tsfeedp (r.accepted xs)).read 0 (r.tsfeedp + (r.accepted xs).length) = _
    rw [happend, hread]
    simp only [filled, hall, take_length, take_append, take_of_length_le,
      Nat.le_add_right, Nat.add_sub_cancel_left]
    congr 1
    rw [accepted, length_take, ← take_eq_take_min]
  · simp only [filled, length_append]
    omega

theorem filled_holds (r : Reassembly) (heard : Heard nq) (xs : Bytes)
    (hxs : r.accepted xs ≠ []) (hholds : r.Holds (some heard)) :
    let now := (r.records xs).map (dump calls (r.filled xs).mem)
    (∀ dump ∈ now, InUnit ⟨heard.bytes ++ xs, heard.handed ++ now⟩ dump) ∧
      (r.filled xs).Holds (some ⟨heard.bytes ++ xs, heard.handed ++ now⟩) := by
  intro now
  obtain ⟨hseen, hread, hlen, hlast⟩ := hholds
  obtain ⟨hread', hlen'⟩ := filled_read r heard.bytes xs hxs hread hlen
  obtain ⟨hsteps, -⟩ := r.steps_records xs
  have hend (record : Nat × Nat) (hrecord : record ∈ r.records xs) :
      ∃ before ∈ heard.handed ++ now, before.start + before.bytes.length = record.1 + record.2 := by
    refine ⟨dump calls (r.filled xs).mem record, ?_, by simp [dump]⟩
    exact mem_append_right _ (List.mem_map_of_mem hrecord)
  have hfrom (position : Nat) (hpos : position = r.secbufp ∨
      ∃ record ∈ r.records xs, record.1 + record.2 = position) :
      position = 0 ∨ ∃ before ∈ heard.handed ++ now,
        before.start + before.bytes.length = position := by
    rcases hpos with rfl | ⟨record, hrecord, rfl⟩
    · rcases hlast with hzero | ⟨last, hmem, hlast⟩
      · exact .inl hzero
      · exact .inr ⟨last, mem_append_left _ hmem, hlast⟩
    · exact .inr (hend record hrecord)
  refine ⟨?_, hseen, hread', hlen', hfrom _ hsteps.end_or_after⟩
  intro out hout
  obtain ⟨record, hrecord, rfl⟩ := List.mem_map.mp hout
  have hfit := nextSection_fit _ _ (hsteps.next_eq record hrecord)
  refine ⟨?_, hfrom _ (hsteps.start_or_after record hrecord)⟩
  have hin := Mem.drop_take_read (r.filled xs).mem 0 (r.filled xs).tsfeedp
    record.1 record.2 hfit
  rw [hread', drop_take, take_take, min_eq_left (by simp only [filled]; omega)] at hin
  simpa [dump] using hin

theorem full_holds (r : Reassembly) (heard : Heard nq) (xs : Bytes) (hxs : r.accepted xs = [])
    (hholds : r.Holds (some heard)) : r.Holds (some ⟨heard.bytes ++ xs, heard.handed⟩) := by
  obtain ⟨hseen, hread, hlen, hlast⟩ := hholds
  have hbound := r.bound
  have hle : r.tsfeedp ≤ heard.bytes.length := by omega
  refine ⟨hseen, ?_, ?_, hlast⟩
  · rw [hread, take_append_of_le_length hle]
  have hroom := congrArg List.length hxs
  simp only [accepted, length_take, length_nil] at hroom
  rw [length_append]
  omega

/-- A buffer that holds the current unit keeps doing so, and everything it
hands on is in its place. -/
theorem placed_emitted (actions : List Action) (r : Reassembly) (heard : Option (Heard nq))
    (hholds : r.Holds heard) : Placed heard actions (emitted (step calls) r actions) := by
  induction actions generalizing r heard with
  | nil => exact .done heard
  | cons action rest ih =>
    cases action with
    | lose => exact .lose (ih (r.empty false) none rfl)
    | start =>
      apply Placed.start
      exact ih (r.empty true) _ ⟨rfl, by simp [empty], .inl rfl, .inl rfl⟩
    | rewind =>
      apply Placed.rewind
      apply ih r.rewound
      cases heard with
      | none => exact hholds
      | some heard => exact ⟨hholds.1, hholds.2.1, hholds.2.2.1, .inl rfl⟩
    | append xs =>
      rcases heard with _ | heard
      · obtain ⟨hstill, hquiet⟩ := step_unseen calls r xs hholds
        simp only [emitted, hquiet, nil_append]
        exact .unheard xs (ih _ none hstill)
      by_cases hxs : r.accepted xs = []
      · have hstep : r.step calls (.append xs) = (r, []) := if_pos hxs
        have htail := ih r _ (full_holds r heard xs hxs hholds)
        simp only [emitted, hstep]
        exact .append xs [] (by simp) (by simpa using htail)
      obtain ⟨hnow, hnext⟩ := filled_holds calls r heard xs hxs hholds
      have hstep : r.step calls (.append xs) = (r.filled xs,
          (r.records xs).map (dump calls (r.filled xs).mem)) := by
        simp [step, if_neg hxs, hholds.1]
      simp only [emitted, hstep]
      exact .append xs _ hnow (ih _ _ hnext)

end Reassembly

/-- The run does not inherit a start: none was seen when filtering began, or the
first packet with payload shows that packets are missing. -/
def JoinsUnseen (feed : DvbDemuxFeed nq) (packets : List TsPacket) : Prop :=
  feed.pusiSeen = false ∨
    ∀ buf ∈ packets.find? (fun buf => payload buf ≠ 0), lost feed.cc buf = true

/-- Whatever the buffer was in, the first packet with payload empties it. -/
theorem placed_lost (cc : Int) (packets : List TsPacket)
    (hlost : ∀ buf ∈ packets.find? (fun buf => payload buf ≠ 0), lost cc buf = true)
    (r : Reassembly) :
    Placed none (streamActions cc packets)
      (emitted (Reassembly.step calls) r (streamActions cc packets)) := by
  induction packets generalizing r with
  | nil => exact .done none
  | cons buf rest ih =>
    by_cases hpay : payload buf = 0
    · have hactions : streamActions cc (buf :: rest) =
          .rewind :: streamActions cc rest := by
        simp [streamActions, packetActions, nextCc, hpay]
      rw [hactions]
      exact .rewind (ih (by simpa [hpay] using hlost) r.rewound)
    have hgap := hlost buf (by simp [hpay])
    have hactions : streamActions cc (buf :: rest) = .lose ::
        (payloadActions buf ++ streamActions (nextCc cc buf) rest) := by
      simp [streamActions, packetActions, hpay, hgap]
    rw [hactions]
    exact .lose (placed_emitted calls _ (r.empty false) none rfl)

theorem start_not_mem_actions (cc : Int) (packets : List TsPacket)
    (hplain : ∀ buf ∈ packets, pusi buf = false) : .start ∉ streamActions cc packets := by
  induction packets generalizing cc with
  | nil => simp [streamActions]
  | cons buf rest ih =>
    have htail := ih (nextCc cc buf) (fun b hb => hplain b (by simp [hb]))
    have hbuf := hplain buf (by simp)
    simp only [streamActions, mem_append, not_or]
    refine ⟨?_, htail⟩
    have hpay : payloadActions buf =
        [.append (buf.slice (188 - payload buf) (payload buf))] := by
      simp [payloadActions, hbuf]
    simp only [packetActions, hpay]
    split_ifs <;> simp

/-- With an inherited start, one packet is enough to have its first bytes taken
for a section. -/
theorem inherited_start_hands_on (ops : SectionOps nq) (a : Answer) (f : Fin nf)
    (d d' : DvbDemux nf nq) {q : Fin nq}
    (hstart : dmxSectionFeedStartFiltering a f d = (.ok (), d'))
    (htakes : TakesAll d'.filter (d'.feed f) q) (pid : Nat) (hpid : pid < 0x2000)
    (hseen : (d'.feed f).pusiSeen = true) :
    ∃ buf, tsPid buf = pid ∧ pusi buf = false ∧
      sectionCallbacks (dumped ops d' f [buf]) ≠ [] := by
  have hbytes : ([0, 0, 0] ++ List.replicate 181 0xff : Bytes).length = 184 := by
    rw [length_append, length_replicate]
    rfl
  refine ⟨followingPacket pid (d'.feed f).cc _ hbytes,
    tsPid_followingPacket pid hpid _ _ hbytes,
    (followingPacket_carries pid hpid _ _ hbytes).pusi_eq, ?_⟩
  have hacc : (startedBuffer (d'.feed f)).accepted
      ([0, 0, 0] ++ List.replicate 181 0xff) = [0, 0, 0] ++ List.replicate 181 0xff := by
    apply take_of_length_le
    rw [hbytes, show (startedBuffer (d'.feed f)).tsfeedp = 0 from rfl]
    decide
  obtain ⟨-, -, -, hdumps⟩ := append_sections
    (sectionCalls ops d'.filter (d'.feed f)) (startedBuffer (d'.feed f))
    ([0, 0, 0] ++ List.replicate 181 0xff) (by rw [hacc]; simp) [[0, 0, 0]]
    (List.replicate 181 0xff) (by rw [hacc]; simp [unread, startedBuffer])
    (by simp only [mem_singleton, forall_eq]; exact ⟨by decide, by decide, by decide⟩)
    (stuck_fill 181)
  rw [started_run ops a f d d' hstart, callbacks_accepting _ q
    (htakes.sectionCalls_eq ops (started_filtering a f d d' hstart))]
  simp only [streamActions, followingPacket_actions pid hpid, append_nil, emitted, hdumps]
  simp [startedBuffer, hseen]

/-- A run that does not inherit a start hands on nothing before its first start
packet, and then only sections that stand at a pointer of the run or directly
after another section. For a client that takes every section, a run that waits
for a start is the only one that is safe whatever packets come. -/
theorem started_sections_placed (ops : SectionOps nq) (a : Answer) (f : Fin nf)
    (d d' : DvbDemux nf nq) (hstart : dmxSectionFeedStartFiltering a f d = (.ok (), d')) :
    (∀ packets : List TsPacket, JoinsUnseen (d'.feed f) packets →
      Placed none (streamActions (d'.feed f).cc packets)
        (dumped ops d' f packets) ∧
      ∀ before after, packets = before ++ after →
        (∀ buf ∈ before, pusi buf = false) →
        dumped ops d' f before = []) ∧
    (∀ q : Fin nq, TakesAll d'.filter (d'.feed f) q → ∀ pid < 0x2000,
      ((∀ packets : List TsPacket,
        (∀ buf ∈ packets, tsPid buf = pid ∧ pusi buf = false) →
        sectionCallbacks (dumped ops d' f packets) = []) ↔
        (d'.feed f).pusiSeen = false)) := by
  have hplaced (packets : List TsPacket) (hjoin : JoinsUnseen (d'.feed f) packets) :
      Placed none (streamActions (d'.feed f).cc packets)
        (dumped ops d' f packets) := by
    rw [started_run ops a f d d' hstart]
    rcases hjoin with hunseen | hlost
    · exact placed_emitted _ _ _ none hunseen
    · exact placed_lost _ _ packets hlost _
  have hquiet (packets : List TsPacket) (hjoin : JoinsUnseen (d'.feed f) packets)
      (hplain : ∀ buf ∈ packets, pusi buf = false) :
      dumped ops d' f packets = [] :=
    (hplaced packets hjoin).eq_nil (start_not_mem_actions _ packets hplain)
  constructor
  · intro packets hjoin
    refine ⟨hplaced packets hjoin, ?_⟩
    rintro before after rfl hplain
    refine hquiet before ?_ hplain
    rcases hjoin with hunseen | hlost
    · exact .inl hunseen
    right
    intro buf hbuf
    apply hlost buf
    rw [List.find?_append, hbuf]
    rfl
  · intro q htakes pid hpid
    constructor
    · intro hsilent
      by_contra hseen
      rw [Bool.not_eq_false] at hseen
      obtain ⟨buf, hpid, hpusi, hhanded⟩ := inherited_start_hands_on ops a f d d' hstart
        htakes pid hpid hseen
      exact hhanded (hsilent [buf] (by simp [hpid, hpusi]))
    · intro hunseen packets hplain
      rw [hquiet packets (.inl hunseen) (fun buf hbuf => (hplain buf hbuf).2)]
      rfl

theorem started_sections_placed_two :
    Placed none (streamActions (startedDemux.feed 0).cc twoSections)
      (dumped default startedDemux 0 twoSections) :=
  ((started_sections_placed default .ok 0 sectionDemux startedDemux rfl).1 twoSections (.inl rfl)).1

def stoppedDemux : DvbDemux 1 1 :=
  (dmxSectionFeedStopFiltering .ok 0 (startedDemux.updFeed 0 (fun feed =>
    final (sectionPacketType default startedDemux.filter) feed (twoSections.take 1)))).2

def restartedDemux : DvbDemux 1 1 := (dmxSectionFeedStartFiltering .ok 0 stoppedDemux).2

/-- No start packet of the new run is among them. -/
def staleBytes : List TsPacket :=
  [{ bytes := [0x47, 0x00, 0x10, 0x11] ++ ([0, 0, 0] ++ List.replicate 181 0xff),
     size := rfl }]

theorem restarted_feed_hands_on_stale_bytes :
    (dmxSectionFeedStartFiltering .ok 0 stoppedDemux).1 = .ok () ∧
    (∀ buf ∈ staleBytes, pusi buf = false) ∧
    sectionCallbacks (dumped default restartedDemux 0 staleBytes) = [(0, [0, 0, 0])] := by
  decide +kernel

end TbsMedia.DvbCore
