import TbsMedia.Uvc.Transfers

/-!
A stream of whole frames, from its start: every buffer that is completed holds one frame, in
order, and a frame with data is missing only if there was no buffer for its first payload. A
bulk payload that ends with an empty URB is an exception: `uvc_video_decode_bulk` returns at
once for it, and takes the next payload for the rest of this one.
-/

namespace TbsMedia.Uvc

open Lib List Option Payload

inductive Arrive (max : Nat) (payloads : List Payload) (events : List Event) : Prop where
  | isoc (hkind : ∀ urb, Event.bulk urb ∉ events)
      (harrive : List.Forall₂ PacketArrival payloads (events.flatMap Event.packets))
  | bulk (arrangement : List (List BulkUrb)) (hkind : ∀ packets, Event.isoc packets ∉ events)
      (hurbs : events.flatMap Event.urbs = arrangement.flatten)
      (harrive : List.Forall₂ (BulkArrival max) payloads arrangement)

/-- Every bulk URB has data, and no bulk payload is too long for `payload_size`. -/
structure EndWithData (payloads : List Payload) (events : List Event) : Prop where
  data : ∀ urb ∈ events.flatMap Event.urbs, urb.data ≠ []
  size : events.flatMap Event.urbs ≠ [] → ∀ p ∈ payloads, p.bytes.length < 2 ^ 32

structure AtStart (s : Stream) : Prop where
  compressed : s.compressed = true
  noFid : s.noFid = false
  lastFid : s.lastFid = 255
  starts : s.starts = []
  completed : s.queue.completed = []
  clean : ∀ b, (s.queue.buffer b).error = false
  nodup : s.queue.irqqueue.Nodup
  waiting : Waiting s.queue s.queue.irqqueue
  between : Between s

/-- `out` tells which frame each completed buffer holds. -/
structure Assembled (s : Stream) (frames : List (List Payload)) (out : List (Nat × Buffer)) :
    Prop where
  completed : out.map Prod.snd = s.queue.completed
  ordered : (out.map Prod.fst).Pairwise (· < ·)
  whole : ∀ e ∈ out, ∃ frame, frames[e.1]? = some frame ∧
    e.2.data = (frame.flatMap Payload.data).take e.2.length
  missing : ∀ k frame, frames[k]? = some frame → frame.flatMap Payload.data ≠ [] →
    k + 1 < frames.length → k ∈ out.map Prod.fst ∨
      s.starts[(frames.take k).flatten.length]? = some none

variable {s : Stream}

theorem AtStart.mirrors (h : AtStart s) : Mirrors .active s .start := by
  refine ⟨h.compressed, h.noFid, h.lastFid, ?_, ?_, h.clean, h.nodup, h.waiting⟩
  · rw [h.starts]
    rfl
  · rw [h.completed]
    rfl

/-- The decoder takes every payload, as an assembler would. -/
theorem Arrive.run (hstart : AtStart s) {payloads : List Payload}
    {events : List Event} (harr : Arrive s.maxPayloadSize.toNat payloads events)
    (hends : EndWithData payloads events) : Decodes s .start payloads events := by
  cases harr with
  | isoc hkind harr => exact Mirrors.isoc_run hkind hstart.mirrors harr
  | bulk arrangement hkind hurbs harr =>
    have hdue := Due.between rfl hstart.mirrors hstart.between harr
    rw [← hurbs] at hdue
    by_cases hnone : events.flatMap Event.urbs = []
    · obtain ⟨rfl, -⟩ := hdue.finished hnone
      exact hdue.bulk_run hkind hends.data nofun
    · exact hdue.bulk_run hkind hends.data (hends.size hnone)

/-- The numbers of the frames go with the buffers as with what the assembler made of them. -/
theorem exists_numbered {β γ : Type*} (f : β → γ) (out : List (Nat × γ)) :
    ∀ (buffers : List β), out.map Prod.snd = buffers.map f →
      ∃ out' : List (Nat × β), out'.map Prod.snd = buffers ∧
        out'.map Prod.fst = out.map Prod.fst ∧ ∀ e ∈ out', (e.1, f e.2) ∈ out := by
  induction out with
  | nil =>
    intro buffers hout
    obtain rfl := map_eq_nil_iff.mp hout.symm
    exact ⟨[], rfl, rfl, nofun⟩
  | cons e out ih =>
    intro buffers hout
    rcases buffers with _ | ⟨b, buffers⟩
    · cases hout
    obtain ⟨hfirst, hrest⟩ := List.cons.inj hout
    obtain ⟨out', hsnd, hfst, hmem⟩ := ih buffers hrest
    refine ⟨(e.1, b) :: out', congrArg (b :: ·) hsnd, congrArg (e.1 :: ·) hfst, ?_⟩
    intro e' he'
    rcases mem_cons.mp he' with rfl | he'
    · rw [← hfirst]
      exact mem_cons_self
    · exact mem_cons_of_mem _ (hmem e' he')

theorem dataOf_fragments (frame : List Payload) :
    dataOf (frame.map Payload.fragment) = frame.flatMap Payload.data := by
  rw [dataOf, flatMap_map]
  rfl

theorem Mirrors.assembled {a : Assembler UInt8} (h : Mirrors .active s a)
    {frames : List (List Payload)} {out : List (Nat × Nat × Data)}
    (hout : Delivers (frames.length - 1) a.done a.served
      (frames.map (·.map Payload.fragment)) out) :
    ∃ out', Assembled s frames out' := by
  obtain ⟨out', hsnd, hfst, hmem⟩ := exists_numbered (fun b : Buffer => (b.length, b.data)) out
    s.queue.completed (hout.done.trans h.queue.done.symm)
  refine ⟨out', hsnd, ?_, ?_, ?_⟩
  · rw [hfst]
    exact hout.sorted
  · intro e he
    obtain ⟨frame, hframe, hdata⟩ := hout.delivered _ (hmem e he)
    rw [List.getElem?_map, map_eq_some_iff] at hframe
    obtain ⟨payloads, hpayloads, rfl⟩ := hframe
    rw [dataOf_fragments] at hdata
    exact ⟨payloads, hpayloads, hdata⟩
  · intro k frame hframe hdata hnext
    have hmapped : (frames.map (·.map fragment))[k]? =
        some (frame.map fragment) := by
      rw [List.getElem?_map, hframe]
      rfl
    rw [← dataOf_fragments] at hdata
    rw [hfst]
    refine (hout.missing k _ (by omega) hmapped hdata).imp_right ?_
    intro hunserved
    rw [← map_take, ← map_flatten, length_map, ← h.starts, List.getElem?_map,
      map_eq_some_iff] at hunserved
    obtain ⟨start, hget, hnone⟩ := hunserved
    rw [hget, not_isSome_iff_eq_none.mp (Bool.eq_false_iff.mp hnone)]

/-- However frames with alternating ids are cut into payloads and transfers, every completed
buffer holds one of them, in order, and only those without a buffer at hand are missing. -/
theorem frames_assembled {s : Stream} (hstart : AtStart s) {frames : List (List Payload)}
    (hframes : Alternate (frames.map (·.map Payload.fragment))) {events : List Event}
    (harrive : Arrive s.maxPayloadSize.toNat frames.flatten events)
    (hends : EndWithData frames.flatten events) :
    ∃ s' out, events.foldlM eventStep s = some s' ∧ Assembled s' frames out := by
  obtain ⟨s', inputs, hrun, hinputs, hmirrors⟩ := harrive.run hstart hends
  have hflatten : inputs.map Prod.fst = (frames.map (·.map fragment)).flatten := by
    rw [hinputs, map_flatten]
  obtain ⟨out, hdelivers⟩ := delivers_run hframes hflatten
  rw [length_map] at hdelivers
  obtain ⟨out', hassembled⟩ := hmirrors.assembled hdelivers
  exact ⟨s', out', hrun, hassembled⟩

def freshStream : Stream where
  queue := ⟨2, fun _ => ⟨.queued, 16, [], 0, false⟩, [0, 1], [0, 1], false, false, []⟩
  lastFid := 255
  sequence := 0
  compressed := true
  noFid := false
  header := []
  headerSize := 0
  skipPayload := false
  payloadSize := 0
  maxPayloadSize := 100
  starts := []

theorem freshStream_atStart : AtStart freshStream where
  compressed := rfl
  noFid := rfl
  lastFid := rfl
  starts := rfl
  completed := rfl
  clean := fun _ => rfl
  nodup := by decide
  waiting := fun _ _ => ⟨rfl, rfl⟩
  between := ⟨rfl, rfl, rfl⟩

def twoFrames (data : Data) : List (List Payload) :=
  [[⟨[2, 2], data, rfl, Nat.le_refl 2, rfl⟩], [⟨[2, 1], [9], rfl, Nat.le_refl 2, rfl⟩]]

theorem twoFrames_alternate (data : Data) :
    Alternate ((twoFrames data).map (·.map Payload.fragment)) := by
  constructor
  · intro frame hframe
    rcases mem_cons.mp hframe with rfl | hframe
    · exact ⟨cons_ne_nil _ _, by simp, nofun⟩
    · obtain rfl := mem_singleton.mp hframe
      exact ⟨cons_ne_nil _ _, by simp, nofun⟩
  intro k frame next hframe hnext
  cases k with
  | zero =>
    cases hframe
    cases hnext
    intro a ha b hb
    obtain rfl := mem_singleton.mp ha
    obtain rfl := mem_singleton.mp hb
    simp only [fragment, getD_cons_succ, getD_cons_zero]
    decide
  | succ k => cases k <;> cases hnext

def fourByteUrbs (datas : List Data) : List BulkUrb :=
  datas.map fun data => ⟨[], 4, data⟩

/-- The first payload arrives in a full and a shorter URB, the second in a short one. -/
theorem twoFrames_arrive (rest : Data) (hrest : rest.length < 4) :
    Arrive freshStream.maxPayloadSize.toNat (twoFrames ([7, 8] ++ rest)).flatten
      ((fourByteUrbs [[2, 2, 7, 8], rest, [2, 1, 9]]).map Event.bulk) := by
  have hlast := @Arrival.last 100 4 ⟨[], 4, rest⟩ (.inl hrest)
  have hfirst := @Arrival.more 100 0 ⟨[], 4, [2, 2, 7, 8]⟩ rest _ rfl (by decide) hlast
  have hnext := @Arrival.last 100 0 ⟨[], 4, [2, 1, 9]⟩ (.inl (by decide))
  refine .bulk [fourByteUrbs [[2, 2, 7, 8], rest], fourByteUrbs [[2, 1, 9]]] ?_ rfl
    (.cons ⟨hfirst, ?_⟩ (.cons ⟨hnext, ?_⟩ .nil))
  · intro packets hmem
    obtain ⟨urb, -, hurb⟩ := List.mem_map.mp hmem
    cases hurb
  · intro urb hurb
    cases hurb
    exact (by decide : 2 ≤ 4)
  · intro urb hurb
    cases hurb
    exact (by decide : 2 ≤ 3)

/-- The first payload arrives in a full and a short URB. -/
theorem frames_assembled_two :
    let events := (fourByteUrbs [[2, 2, 7, 8], [9], [2, 1, 9]]).map Event.bulk
    ((events.foldlM eventStep freshStream).any fun s =>
        s.queue.completed.map Buffer.data == [[7, 8, 9]]) = true ∧
      ∃ s out, events.foldlM eventStep freshStream = some s ∧
        Assembled s (twoFrames [7, 8, 9]) out := by
  intro events
  have hrun : ((events.foldlM eventStep freshStream).any fun s =>
      s.queue.completed.map Buffer.data == [[7, 8, 9]]) = true := by decide +kernel
  have hends : EndWithData (twoFrames [7, 8, 9]).flatten events := by
    constructor
    · decide
    · intro _
      decide
  exact ⟨hrun, frames_assembled freshStream_atStart (twoFrames_alternate _)
    (twoFrames_arrive [9] (by decide)) hends⟩

/-- The first payload fills a URB and ends with an empty one: the second payload is taken for
more of its data, with its header. -/
theorem frames_run_together :
    let frames := twoFrames [7, 8]
    let events := (fourByteUrbs [[2, 2, 7, 8], [], [2, 1, 9]]).map Event.bulk
    AtStart freshStream ∧ Alternate (frames.map (·.map fragment)) ∧
      Arrive freshStream.maxPayloadSize.toNat frames.flatten events ∧
      ((events.foldlM eventStep freshStream).any fun s =>
        s.queue.completed.map Buffer.data == [[7, 8, 2, 1, 9]]) = true ∧
      ¬ ∃ s out, events.foldlM eventStep freshStream = some s ∧ Assembled s frames out := by
  intro frames events
  have hrun : ((events.foldlM eventStep freshStream).any fun s =>
      s.queue.completed.map Buffer.data == [[7, 8, 2, 1, 9]]) = true := by decide +kernel
  refine ⟨freshStream_atStart, twoFrames_alternate _, twoFrames_arrive [] (by decide), hrun, ?_⟩
  rintro ⟨s, out, hevents, hassembled⟩
  rw [hevents, any_some, beq_iff_eq] at hrun
  -- the buffer would have to hold the data of one of the two frames
  obtain ⟨b, hb, hdata⟩ := List.mem_map.mp (hrun ▸ mem_singleton_self [7, 8, 2, 1, 9] :
    [7, 8, 2, 1, 9] ∈ s.queue.completed.map Buffer.data)
  rw [← hassembled.completed] at hb
  obtain ⟨e, he, rfl⟩ := List.mem_map.mp hb
  obtain ⟨frame, hframe, hwhole⟩ := hassembled.whole e he
  have hshort : ∀ frame ∈ frames, (frame.flatMap data).length < 5 := by decide
  have hlength := congrArg List.length (hdata.symm.trans hwhole)
  rw [length_take] at hlength
  have hlt := hshort frame (mem_of_getElem? hframe)
  have hfive : ([7, 8, 2, 1, 9] : Data).length = 5 := rfl
  omega

end TbsMedia.Uvc
