import Mathlib.Data.List.GetD
import TbsMedia.Lib.FrameAssembly
import TbsMedia.Uvc.Video

/-!
Payloads are assembled into frames. The decoder does to its queue what an assembler of
fragments does: a payload is a fragment whose toggle is the FID bit and whose mark is EOF, and
the first buffer of the queue is the buffer in use once it is ACTIVE, and the one supplied as
long as it is only QUEUED.
-/

namespace TbsMedia.Uvc

open Lib List Uvc.Stream VideoQueue Assembler
open Assembler (accept sync finish)

structure Payload where
  header : Data
  data : Data
  size : (header.getD 0 0).toNat = header.length
  two : 2 ≤ header.length
  noError : header.getD 1 0 &&& streamErr = 0

/-- What `last_fid` stands for; it begins as -1. -/
def fidOf : Option Bool → UInt8
  | none => 255
  | some false => 0
  | some true => 1

theorem fidOf_inj {x y : Option Bool} : fidOf x = fidOf y ↔ x = y := by
  cases x with
  | none =>
    cases y with
    | none => simp
    | some y => cases y <;> decide
  | some x =>
    cases x <;> cases y with
    | none => decide
    | some y => cases y <;> decide

theorem and_streamFid (flags : UInt8) :
    flags &&& streamFid = fidOf (some (flags &&& streamFid != 0)) := by
  have hbit : (flags &&& streamFid).toNat = flags.toNat % 2 := by
    exact Nat.and_one_is_mod flags.toNat
  rcases Nat.mod_two_eq_zero_or_one flags.toNat with hzero | hone
  · have heq : flags &&& streamFid = 0 := UInt8.toNat_inj.mp (hbit.trans hzero)
    rw [heq]
    rfl
  · have heq : flags &&& streamFid = 1 := UInt8.toNat_inj.mp (hbit.trans hone)
    rw [heq]
    rfl

variable (s : Stream)

namespace Payload

variable (p : Payload)

def bytes : Data := p.header ++ p.data

def fragment : Fragment UInt8 where
  toggle := p.header.getD 1 0 &&& streamFid != 0
  last := p.header.getD 1 0 &&& streamEof != 0
  data := p.data

theorem eof_iff (more : Data) :
    (p.header ++ more).getD 1 0 &&& streamEof ≠ 0 ↔ p.fragment.last = true := by
  rw [getD_append _ _ _ _ p.two, fragment, bne_iff_ne]

theorem decodeStart (buf : Option Nat) (more : Data) :
    s.decodeStart buf (p.header ++ more) =
      s.decodeFid buf (fidOf (some p.fragment.toggle)) p.fragment.last p.header.length := by
  have hget : ∀ {i}, i < 2 → (p.header ++ more).getD i 0 = p.header.getD i 0 := fun hi =>
    getD_append _ _ _ _ (Nat.lt_of_lt_of_le hi p.two)
  have hsmall : ¬ p.header.getD 0 0 < 2 := by
    rw [UInt8.lt_iff_toNat_lt, p.size]
    exact Nat.not_lt.mpr p.two
  have hvalid : ¬ ((p.header ++ more).length < 2 ∨ p.header.getD 0 0 < 2 ∨
      (p.header ++ more).length < (p.header.getD 0 0).toNat) := by
    have htwo := p.two
    rw [p.size, length_append]
    rintro (hshort | hshort | hshort)
    · omega
    · exact hsmall hshort
    · omega
  rw [Stream.decodeStart]
  simp only [hget Nat.zero_lt_two, hget Nat.one_lt_two]
  rw [if_neg hvalid, if_neg (not_not.mpr p.noError), and_streamFid, p.size]
  rfl

end Payload

def Waiting (q : VideoQueue) (list : List Nat) : Prop :=
  ∀ b ∈ list, (q.buffer b).state = .queued ∧ (q.buffer b).data = []

/-- The queue of a decoder whose buffer in use is `current`, in the given state. -/
def Holds (state : BufState) (q : VideoQueue) : Option (Nat × Data) → Prop
  | none => Waiting q q.irqqueue
  | some (capacity, data) => ∃ b rest, q.irqqueue = b :: rest ∧ (q.buffer b).state = state ∧
      (q.buffer b).length = capacity ∧ (q.buffer b).data = data ∧ data.length ≤ capacity ∧
      Waiting q rest

structure QueueMirrors (state : BufState) (q : VideoQueue) (current : Option (Nat × Data))
    (done : List (Nat × Data)) : Prop where
  done : q.completed.map (fun b => (b.length, b.data)) = done
  clean : ∀ b, (q.buffer b).error = false
  nodup : q.irqqueue.Nodup
  holds : Holds state q current

inductive InUse : BufState → Prop where
  | active : InUse .active
  | ready : InUse .ready

variable {b : Nat}

namespace QueueMirrors

variable {state : BufState} {q : VideoQueue} {current : Option (Nat × Data)}
  {done : List (Nat × Data)}

section

variable (h : QueueMirrors state q current done)
include h

theorem state_of_mem (hb : b ∈ q.irqqueue) :
    (q.buffer b).state = .queued ∨ (q.buffer b).state = state := by
  have hholds := h.holds
  rcases current with _ | pair
  · exact .inl (hholds b hb).1
  obtain ⟨first, rest, hqueue, hstate, -, -, -, hwait⟩ := hholds
  rw [hqueue] at hb
  rcases mem_cons.mp hb with rfl | hb
  · exact .inr hstate
  · exact .inl (hwait b hb).1

theorem of_others {r : VideoQueue} (hqueue : r.irqqueue = q.irqqueue)
    (hcompleted : r.completed = q.completed) (hclean : ∀ b, (r.buffer b).error = (q.buffer b).error)
    (hsame : ∀ b ∈ q.irqqueue, r.buffer b = q.buffer b) : QueueMirrors state r current done := by
  refine ⟨hcompleted ▸ h.done, fun b => (hclean b).trans (h.clean b), hqueue ▸ h.nodup, ?_⟩
  have hholds := h.holds
  rcases current with _ | pair
  · intro b hb
    rw [hqueue] at hb
    rw [hsame b hb]
    exact hholds b hb
  obtain ⟨first, rest, hirq, hstate, hlen, hdata, hfits, hwait⟩ := hholds
  have hfirst := hsame first (by rw [hirq]; exact mem_cons_self)
  refine ⟨first, rest, hqueue.trans hirq, ?_, ?_, ?_, hfits, ?_⟩
  · rw [hfirst]; exact hstate
  · rw [hfirst]; exact hlen
  · rw [hfirst]; exact hdata
  intro b hb
  rw [hsame b (by rw [hirq]; exact mem_cons_of_mem _ hb)]
  exact hwait b hb

theorem dequeueBuffer (huse : InUse state) :
    QueueMirrors state q.dequeueBuffer.2 current done ∧
      q.dequeueBuffer.2.irqqueue = q.irqqueue := by
  rw [VideoQueue.dequeueBuffer]
  split
  · exact ⟨h, rfl⟩
  next b rest hmain =>
  have hback : (q.buffer b).state = .done ∨ (q.buffer b).state = .error →
      QueueMirrors state { q.setBuffer b { q.buffer b with state := .idle } with
        mainqueue := rest } current done := by
    intro hdone
    have hout : b ∉ q.irqqueue := by
      intro hb
      rcases h.state_of_mem hb with hstate | hstate
      · rw [hstate] at hdone
        rcases hdone with hdone | hdone <;> cases hdone
      · rw [hstate] at hdone
        cases huse <;> rcases hdone with hdone | hdone <;> cases hdone
    refine h.of_others rfl rfl ?_ ?_
    · intro b'
      rcases eq_or_ne b' b with rfl | heq
      · simp [VideoQueue.setBuffer]
      · simp [VideoQueue.setBuffer, heq]
    · intro b' hb'
      have hne : b' ≠ b := fun heq => hout (heq ▸ hb')
      simp [VideoQueue.setBuffer, hne]
  cases hstate : (q.buffer b).state with
  | queued | active | ready | idle => exact ⟨h, rfl⟩
  | done => exact ⟨hback (.inl hstate), rfl⟩
  | error => exact ⟨hback (.inr hstate), rfl⟩

end

theorem waiting_setBuffer {list : List Nat} (hwait : Waiting q list) {x : Buffer} (hb : b ∉ list)
    :
    Waiting (q.setBuffer b x) list := by
  intro b' hb'
  have hne : b' ≠ b := fun heq => hb (heq ▸ hb')
  simpa [VideoQueue.setBuffer, hne] using hwait b' hb'

section

variable (h : QueueMirrors state q current done)
include h

theorem queueBuffer (huse : InUse state) (b : Nat) :
    QueueMirrors state (q.queueBuffer b).2 current done ∧
      ∃ more, (q.queueBuffer b).2.irqqueue = q.irqqueue ++ more := by
  rw [VideoQueue.queueBuffer]
  split_ifs with hcount hidle hdisconnected
  · exact ⟨h, [], (append_nil _).symm⟩
  · exact ⟨h, [], (append_nil _).symm⟩
  · exact ⟨h, [], (append_nil _).symm⟩
  rw [not_not] at hidle
  have hout : b ∉ q.irqqueue := by
    intro hb
    rcases h.state_of_mem hb with hstate | hstate
    · rw [hidle] at hstate
      cases hstate
    · rw [hidle] at hstate
      cases huse <;> cases hstate
  have hnew : ∀ {list : List Nat}, b ∉ list → Waiting q list →
      Waiting (q.setBuffer b { q.buffer b with state := .queued, data := [] }) (list ++ [b]) := by
    intro list hlist hwait b' hb'
    rcases mem_append.mp hb' with hb' | hb'
    · exact waiting_setBuffer hwait hlist b' hb'
    · obtain rfl := mem_singleton.mp hb'
      simp [VideoQueue.setBuffer]
  refine ⟨⟨h.done, ?_, ?_, ?_⟩, [b], rfl⟩
  · intro b'
    rcases eq_or_ne b' b with rfl | heq
    · simpa [VideoQueue.setBuffer] using h.clean b'
    · simpa [VideoQueue.setBuffer, heq] using h.clean b'
  · refine nodup_append.mpr ⟨h.nodup, nodup_singleton b, ?_⟩
    intro x hx y hy heq
    obtain rfl := mem_singleton.mp hy
    exact hout (heq ▸ hx)
  have hholds := h.holds
  rcases current with _ | pair
  · exact hnew hout hholds
  obtain ⟨first, rest, hirq, hstate, hlen, hdata, hfits, hwait⟩ := hholds
  rw [hirq] at hout
  have hne : first ≠ b := fun heq => hout (heq ▸ mem_cons_self)
  have hrest : b ∉ rest := fun hb => hout (mem_cons_of_mem _ hb)
  refine ⟨first, rest ++ [b], by simp [hirq], ?_, ?_, ?_, hfits, hnew hrest hwait⟩
  · simpa [VideoQueue.setBuffer, hne] using hstate
  · simpa [VideoQueue.setBuffer, hne] using hlen
  · simpa [VideoQueue.setBuffer, hne] using hdata

theorem rest {rest : List Nat} (hirq : q.irqqueue = b :: rest) : Waiting q rest := by
  have hholds := h.holds
  rcases current with _ | pair
  · exact fun b' hb' => hholds b' (hirq ▸ mem_cons_of_mem _ hb')
  obtain ⟨first, others, hqueue, -, -, -, -, hwait⟩ := hholds
  obtain ⟨-, rfl⟩ := List.cons.inj (hqueue.symm.trans hirq)
  exact hwait

theorem head_not_mem {rest : List Nat} (hirq : q.irqqueue = b :: rest) : b ∉ rest :=
  (nodup_cons.mp (hirq ▸ h.nodup)).1

theorem setHead {rest : List Nat} (hirq : q.irqqueue = b :: rest) (x : Buffer)
    (hclean : x.error = false) (hfits : x.data.length ≤ x.length) :
    QueueMirrors x.state (q.setBuffer b x) (some (x.length, x.data)) done := by
  have hself : (q.setBuffer b x).buffer b = x := Function.update_self ..
  refine ⟨h.done, ?_, h.nodup, b, rest, hirq, ?_, ?_, ?_, hfits,
    waiting_setBuffer (h.rest hirq) (h.head_not_mem hirq)⟩
  · intro b'
    by_cases heq : b' = b
    · rw [heq, hself]
      exact hclean
    · simpa [VideoQueue.setBuffer, heq] using h.clean b'
  all_goals rw [hself]

end

theorem nextBuffer {capacity b : Nat} {rest : List Nat} {data : Data}
    (h : QueueMirrors state q (some (capacity, data)) done) (hirq : q.irqqueue = b :: rest) :
    QueueMirrors .active (q.nextBuffer b).2 none (done ++ [(capacity, data)]) ∧
      (q.nextBuffer b).1 = (q.nextBuffer b).2.irqqueue.head? := by
  have hkept : ¬ (q.dropCorrupted && (q.buffer b).error) = true := by
    rw [h.clean b, Bool.and_false]
    exact Bool.false_ne_true
  have herase : q.irqqueue.erase b = rest := by rw [hirq, erase_cons_head]
  obtain ⟨first, others, hqueue, -, hlen, hdata, -, -⟩ := h.holds
  obtain ⟨rfl, -⟩ := List.cons.inj (hqueue.symm.trans hirq)
  rw [VideoQueue.nextBuffer, if_neg hkept]
  refine ⟨⟨?_, ?_, ?_, ?_⟩, rfl⟩
  · rw [map_append, h.done, map_singleton, hlen, hdata]
  · intro b'
    rcases eq_or_ne b' first with rfl | heq
    · simp [VideoQueue.setBuffer]
    · simpa [VideoQueue.setBuffer, heq] using h.clean b'
  · exact h.nodup.erase first
  · rw [herase]
    exact waiting_setBuffer (h.rest hirq) (h.head_not_mem hirq)

end QueueMirrors

structure Mirrors (state : BufState) (s : Stream) (a : Assembler UInt8) : Prop where
  compressed : s.compressed = true
  noFid : s.noFid = false
  lastFid : s.lastFid = fidOf a.toggle
  starts : s.starts.map Option.isSome = a.served
  queue : QueueMirrors state s.queue a.current a.done

def AtHand (buf : Option Nat) (s : Stream) (a : Assembler UInt8) : Prop :=
  (buf = none ∧ a.current = none) ∨ ∃ b rest, buf = some b ∧ s.queue.irqqueue = b :: rest

inductive SameTransfer (s : Stream) : Stream → Prop where
  | mk (queue : VideoQueue) (lastFid : UInt8) (sequence : BitVec 32)
      (starts : List (Option Nat)) : SameTransfer s { s with
        queue := queue, lastFid := lastFid, sequence := sequence, starts := starts }

theorem SameTransfer.refl : SameTransfer s s := ⟨_, _, _, _⟩

theorem SameTransfer.trans {s t u : Stream} (hst : SameTransfer s t) (htu : SameTransfer t u) :
    SameTransfer s u := by
  cases hst
  cases htu
  exact ⟨_, _, _, _⟩

namespace SameTransfer

variable {s t : Stream} (h : SameTransfer s t)

include h

theorem compressed : t.compressed = s.compressed := by cases h; rfl

theorem header : t.header = s.header := by cases h; rfl

theorem headerSize : t.headerSize = s.headerSize := by cases h; rfl

theorem skipPayload : t.skipPayload = s.skipPayload := by cases h; rfl

theorem payloadSize : t.payloadSize = s.payloadSize := by cases h; rfl

theorem maxPayloadSize : t.maxPayloadSize = s.maxPayloadSize := by cases h; rfl

end SameTransfer

namespace Mirrors

variable {state : BufState} {s : Stream} {a : Assembler UInt8} {buf : Option Nat}

theorem atHand (h : Mirrors state s a) : AtHand s.queue.irqqueue.head? s a := by
  have hholds := h.queue.holds
  cases hirq : s.queue.irqqueue with
  | cons b rest => exact .inr ⟨b, rest, rfl, hirq⟩
  | nil =>
    left
    rcases hcur : a.current with _ | pair
    · exact ⟨rfl, rfl⟩
    rw [hcur] at hholds
    obtain ⟨b, rest, hqueue, -⟩ := hholds
    rw [hirq] at hqueue
    cases hqueue

theorem user (h : Mirrors state s a) (huse : InUse state) (hhand : AtHand buf s a) (op : User) :
    Mirrors state (s.user op) a ∧ SameTransfer s (s.user op) ∧ AtHand buf (s.user op) a := by
  have hgrows : ∀ {q : VideoQueue} {more}, q.irqqueue = s.queue.irqqueue ++ more →
      AtHand buf { s with queue := q } a := by
    intro q more hq
    rcases hhand with hnone | ⟨b, rest, hbuf, hirq⟩
    · exact .inl hnone
    · exact .inr ⟨b, rest ++ more, hbuf, by rw [hq, hirq]; rfl⟩
  cases op with
  | queue b =>
    obtain ⟨hqueue, more, hmore⟩ := h.queue.queueBuffer huse b
    exact ⟨⟨h.compressed, h.noFid, h.lastFid, h.starts, hqueue⟩, ⟨_, _, _, _⟩, hgrows hmore⟩
  | dequeue =>
    obtain ⟨hqueue, hsame⟩ := h.queue.dequeueBuffer huse
    exact ⟨⟨h.compressed, h.noFid, h.lastFid, h.starts, hqueue⟩, ⟨_, _, _, _⟩,
      hgrows (hsame.trans (append_nil _).symm)⟩

theorem users (huse : InUse state) (ops : List User) : ∀ {s : Stream}, Mirrors state s a →
    AtHand buf s a → Mirrors state (ops.foldl Stream.user s) a ∧
      SameTransfer s (ops.foldl Stream.user s) ∧ AtHand buf (ops.foldl Stream.user s) a := by
  induction ops with
  | nil => exact fun h hbuf => ⟨h, .refl _, hbuf⟩
  | cons op rest ih =>
    intro s h hbuf
    obtain ⟨hnext, hsame, hkept⟩ := h.user huse hbuf op
    obtain ⟨hlast, hsame', hbuf'⟩ := ih hnext hkept
    exact ⟨hlast, hsame.trans hsame', hbuf'⟩

end Mirrors

structure Begun (size : Nat) (s : Stream) (ret : Int) (buf : Option Nat) (s' : Stream)
    (a : Assembler UInt8) : Prop where
  mirrors : Mirrors .active s' a
  same : SameTransfer s s'
  hand : AtHand buf s' a
  result : (ret < 0 ∧ a.current = none) ∨ (ret = size ∧ a.current ≠ none)

namespace Mirrors

variable {s : Stream} {a : Assembler UInt8} {buf : Option Nat}

theorem lastFid_eq_iff (h : Mirrors .active s a) (toggle : Bool) :
    fidOf (some toggle) = s.lastFid ↔ a.toggle = some toggle := by
  rw [h.lastFid, fidOf_inj, eq_comm]

end Mirrors

@[simp] theorem Stream.buffer_sequence (b : Nat) (n : BitVec 32) :
    ({ s with sequence := n } : Stream).buffer b = s.buffer b := rfl

@[simp] theorem Stream.buffer_setBuffer (b : Nat) (x : Buffer) :
    (s.setBuffer b x).buffer b = x := Function.update_self ..

section DecodeFid

variable (s : Stream) {b : Nat} {fid : UInt8} (eof : Bool) (size : Nat)

theorem decodeFid_none (fid : UInt8) : ∃ n, s.decodeFid none fid eof size =
    (enodata, { s with sequence := n, lastFid := fid }) := by
  by_cases hfid : s.lastFid = fid
  · exact ⟨s.sequence, by simp [decodeFid, hfid]⟩
  · exact ⟨s.sequence + 1, by simp [decodeFid, hfid]⟩

theorem decodeFid_skip (hstate : (s.buffer b).state ≠ .active) (hfid : fid = s.lastFid)
    (hquirk : s.noFid = false) : s.decodeFid (some b) fid eof size = (enodata, s) := by
  simp [decodeFid, hfid, hstate, hquirk]

theorem decodeFid_first (hstate : (s.buffer b).state ≠ .active) (hfid : fid ≠ s.lastFid)
    (hdata : (s.buffer b).data = []) : ∃ n, s.decodeFid (some b) fid eof size =
      ((size : Int), { s with
        sequence := n
        lastFid := fid
        queue := s.queue.setBuffer b { s.buffer b with sequence := n, state := .active } }) := by
  refine ⟨s.sequence + 1, ?_⟩
  simp only [decodeFid, ne_eq, hfid, hfid.symm, buffer_sequence, hstate, hdata,
    buffer_setBuffer, not_true_eq_false, not_false_eq_true, and_false, if_true, if_false]
  rfl

theorem decodeFid_toggled (hstate : (s.buffer b).state = .active) (hfid : fid ≠ s.lastFid)
    (hdata : (s.buffer b).data ≠ []) : ∃ n, s.decodeFid (some b) fid eof size =
      (eagain, { s with
        sequence := n
        queue := s.queue.setBuffer b { s.buffer b with state := .ready } }) := by
  refine ⟨s.sequence + 1, ?_⟩
  simp [Stream.decodeFid, hfid, hfid.symm, hstate, hdata, Stream.setBuffer]

theorem decodeFid_more (hstate : (s.buffer b).state = .active)
    (hmore : fid = s.lastFid ∨ (s.buffer b).data = []) :
    ∃ n, s.decodeFid (some b) fid eof size =
      ((size : Int), { s with sequence := n, lastFid := fid }) := by
  by_cases hfid : fid = s.lastFid
  · exact ⟨s.sequence, by simp [decodeFid, hfid, hstate]⟩
  have hdata := hmore.resolve_left hfid
  have hne : s.lastFid ≠ fid := fun heq => hfid heq.symm
  exact ⟨s.sequence + 1, by simp [decodeFid, hne, hstate, hdata]⟩

end DecodeFid

theorem Holds.head {state : BufState} {q : VideoQueue} {capacity : Nat} {data : Data}
    (h : Holds state q (some (capacity, data))) {rest : List Nat} (hirq : q.irqqueue = b :: rest) :
    (q.buffer b).state = state ∧ (q.buffer b).length = capacity ∧ (q.buffer b).data = data ∧
      data.length ≤ capacity := by
  obtain ⟨first, others, hqueue, hstate, hlen, hdata, hfits, -⟩ := h
  obtain ⟨rfl, -⟩ := List.cons.inj (hqueue.symm.trans hirq)
  exact ⟨hstate, hlen, hdata, hfits⟩

namespace Mirrors

variable {s : Stream} {a : Assembler UInt8} {buf : Option Nat} (h : Mirrors .active s a)
  (hhand : AtHand buf s a)
include h hhand

/-- The header of a payload that does not end the frame in the buffer. -/
theorem decodeFid_accept (f : Fragment UInt8) (size : Nat) (hkeep : a.sync f = a) :
    ∃ supply ret s', s.decodeFid buf (fidOf (some f.toggle)) f.last size = (ret, s') ∧
      ret ≠ eagain ∧
      Begun size s ret buf { s' with starts := s'.starts ++ [buf] } (a.accept f supply) := by
  have hsize : (size : Int) ≠ eagain := by
    rw [eagain]
    omega
  have hserv : ∀ supply, (a.current.isSome || supply.isSome) = buf.isSome →
      (s.starts ++ [buf]).map Option.isSome = (a.accept f supply).served := by
    intro supply heq
    rw [map_append, h.starts, map_singleton, ← heq]
    rfl
  have hholds := h.queue.holds
  have hqueue := h.queue
  rcases hhand with ⟨rfl, hcur⟩ | ⟨b, rest, rfl, hirq⟩
  · obtain ⟨n, hdec⟩ := decodeFid_none s f.last size (fidOf (some f.toggle))
    have hnone : (a.accept f none).current = none := by simp [accept, hcur]
    refine ⟨none, _, _, hdec, by decide, ⟨h.compressed, h.noFid, rfl, ?_, ?_⟩,
      ⟨_, _, _, _⟩, .inl ⟨rfl, hnone⟩, .inl ⟨by decide, hnone⟩⟩
    · exact hserv none (by rw [hcur]; rfl)
    · rw [hnone]
      rwa [hcur] at hqueue
  cases hcur : a.current with
  | none =>
    rw [hcur] at hholds hqueue
    obtain ⟨hstate, hdata⟩ := hholds b (hirq ▸ mem_cons_self)
    have hwaits : (s.buffer b).state ≠ .active := by
      rw [Stream.buffer, hstate]
      decide
    have hsupply := hserv (some (s.buffer b).length) (by rw [hcur]; rfl)
    by_cases htog : a.toggle = some f.toggle
    · have hfid := (h.lastFid_eq_iff f.toggle).mpr htog
      have hnone : (a.accept f (some (s.buffer b).length)).current = none := by
        simp [accept, hcur, htog]
      refine ⟨some (s.buffer b).length, _, _,
        decodeFid_skip s f.last size hwaits hfid h.noFid, by decide,
        ⟨h.compressed, h.noFid, hfid.symm, hsupply, ?_⟩, ⟨_, _, _, _⟩,
        Or.inr ⟨b, rest, rfl, hirq⟩, .inl ⟨by decide, hnone⟩⟩
      rw [hnone]
      exact hqueue
    · have hfid := mt (h.lastFid_eq_iff f.toggle).mp htog
      obtain ⟨n, hdec⟩ := decodeFid_first s f.last size hwaits hfid hdata
      have hused : (a.accept f (some (s.buffer b).length)).current =
          some ((s.buffer b).length, (s.buffer b).data) := by
        simp [accept, hcur, htog, Stream.buffer, hdata]
      have hfits : (s.buffer b).data.length ≤ (s.buffer b).length := by
        rw [Stream.buffer, hdata]
        exact Nat.zero_le _
      refine ⟨some (s.buffer b).length, _, _, hdec, hsize,
        ⟨h.compressed, h.noFid, rfl, hsupply, ?_⟩, ⟨_, _, _, _⟩,
        Or.inr ⟨b, rest, rfl, hirq⟩, .inr ⟨rfl, by simp [hused]⟩⟩
      rw [hused]
      exact hqueue.setHead hirq { s.buffer b with sequence := n, state := .active }
        (h.queue.clean b) hfits
  | some pair =>
    obtain ⟨capacity, data⟩ := pair
    rw [hcur] at hholds hqueue
    obtain ⟨hstate, -, hdata, -⟩ := hholds.head hirq
    have hmore : fidOf (some f.toggle) = s.lastFid ∨ (s.buffer b).data = [] := by
      rcases data with _ | ⟨x, xs⟩
      · exact .inr hdata
      left
      rw [h.lastFid_eq_iff]
      by_contra htog
      have hnone := congrArg Assembler.current hkeep
      simp [sync, hcur, htog, finish] at hnone
    obtain ⟨n, hdec⟩ := decodeFid_more s f.last size hstate hmore
    have hkept : (a.accept f none).current = some (capacity, data) := by simp [accept, hcur]
    refine ⟨none, _, _, hdec, hsize, ⟨h.compressed, h.noFid, rfl, ?_, ?_⟩,
      ⟨_, _, _, _⟩, .inr ⟨b, rest, rfl, hirq⟩, .inr ⟨rfl, by simp [hkept]⟩⟩
    · exact hserv none (by rw [hcur]; rfl)
    · rw [hkept]
      exact hqueue

/-- The header of a payload that ends the frame in the buffer: the buffer is done, and the
header is decoded again with the next one. -/
theorem decodeFid_finish (f : Fragment UInt8) (size : Nat) (hends : a.sync f ≠ a) :
    ∃ b s', buf = some b ∧
      s.decodeFid buf (fidOf (some f.toggle)) f.last size = (eagain, s') ∧
      SameTransfer s { s' with queue := (s'.queue.nextBuffer b).2 } ∧
      Mirrors .active { s' with queue := (s'.queue.nextBuffer b).2 } (a.sync f) ∧
      AtHand (s'.queue.nextBuffer b).1 { s' with queue := (s'.queue.nextBuffer b).2 } (a.sync f) ∧
      (a.sync f).sync f = a.sync f := by
  cases hcur : a.current with
  | none => exact absurd (by simp [sync, hcur]) hends
  | some pair =>
  obtain ⟨capacity, data⟩ := pair
  cases data with
  | nil => exact absurd (by simp [sync, hcur]) hends
  | cons x xs =>
  have htog : a.toggle ≠ some f.toggle := fun heq => hends (by simp [sync, hcur, heq])
  have hsync : a.sync f = a.finish := by simp [sync, hcur, htog]
  rcases hhand with ⟨-, hnone⟩ | ⟨b, rest, rfl, hirq⟩
  · rw [hcur] at hnone
    cases hnone
  have hqueue := h.queue
  rw [hcur] at hqueue
  obtain ⟨hstate, hlen, hdata, hfits⟩ := hqueue.holds.head hirq
  have hsome : (s.buffer b).data ≠ [] := by
    rw [Stream.buffer, hdata]
    exact cons_ne_nil _ _
  obtain ⟨n, hdec⟩ := decodeFid_toggled s f.last size hstate
    (mt (h.lastFid_eq_iff f.toggle).mp htog) hsome
  have hready : QueueMirrors .ready (s.queue.setBuffer b { s.buffer b with state := .ready })
      (some ((s.buffer b).length, (s.buffer b).data)) a.done :=
    hqueue.setHead hirq { s.buffer b with state := .ready } (h.queue.clean b)
      (by simp only [Stream.buffer, hdata, hlen]; exact hfits)
  obtain ⟨hdone, hnext⟩ := hready.nextBuffer hirq
  have hmir : Mirrors .active { s with
      sequence := n
      queue := ((s.queue.setBuffer b { s.buffer b with state := .ready }).nextBuffer b).2 }
      a.finish := by
    refine ⟨h.compressed, h.noFid, h.lastFid, h.starts, ?_⟩
    simp only [Stream.buffer, hlen, hdata] at hdone ⊢
    simpa [finish, hcur] using hdone
  refine ⟨b, _, rfl, hdec, ⟨_, _, _, _⟩, hsync ▸ hmir, ?_, ?_⟩
  · rw [hsync, hnext]
    exact hmir.atHand
  · rw [hsync]
    simp [sync, finish]

/-- Decoding the header of a payload is what the assembler does before it adds the data. -/
theorem decodeStarts (p : Payload) (more : Data) (fuel : Nat) :
    ∃ supply ret buf' s', s.decodeStarts (fuel + 2) buf (p.header ++ more) =
        some (ret, buf', s') ∧
      Begun p.header.length s ret buf' s' ((a.sync p.fragment).accept p.fragment supply) := by
  have hround : ∀ {t : Stream} {b : Assembler UInt8} {hand : Option Nat} (fuel : Nat),
      Mirrors .active t b → AtHand hand t b → b.sync p.fragment = b →
      ∃ supply ret s', t.decodeStarts (fuel + 1) hand (p.header ++ more) =
          some (ret, hand, s') ∧
        Begun p.header.length t ret hand s' (b.accept p.fragment supply) := by
    intro t b hand fuel ht hhand hkeep
    obtain ⟨supply, ret, s', hdec, hret, hbegun⟩ :=
      ht.decodeFid_accept hhand p.fragment p.header.length hkeep
    refine ⟨supply, ret, _, ?_, hbegun⟩
    rw [Stream.decodeStarts, p.decodeStart, hdec]
    exact if_neg hret
  by_cases hkeep : a.sync p.fragment = a
  · rw [hkeep]
    obtain ⟨supply, ret, s', hrun, hbegun⟩ := hround (fuel + 1) h hhand hkeep
    exact ⟨supply, ret, buf, s', hrun, hbegun⟩
  obtain ⟨b, s', rfl, hdec, hsame, hmir, hnext, hagain⟩ :=
    h.decodeFid_finish hhand p.fragment p.header.length hkeep
  obtain ⟨supply, ret, s'', hrun, hbegun⟩ := hround fuel hmir hnext hagain
  refine ⟨supply, ret, _, s'', ?_, hbegun.mirrors, hsame.trans hbegun.same, hbegun.hand,
    hbegun.result⟩
  rw [Stream.decodeStarts, p.decodeStart, hdec]
  exact hrun

end Mirrors

def filling (capacity : Nat) (data : Data) : BufState :=
  if capacity < data.length then .ready else .active

def Fills (capacity : Nat) (data : Data) (s : Stream) (a : Assembler UInt8) : Prop :=
  Mirrors (filling capacity data) s { a with current := some (capacity, data.take capacity) }

theorem filling_inUse (capacity : Nat) (data : Data) : InUse (filling capacity data) := by
  rw [filling]
  split_ifs
  · exact .ready
  · exact .active

theorem Mirrors.fills {s : Stream} {a : Assembler UInt8} (h : Mirrors .active s a) {capacity : Nat}
    {data : Data} (hcur : a.current = some (capacity, data)) : Fills capacity data s a := by
  have hqueue := h.queue
  rw [hcur] at hqueue
  obtain ⟨-, -, -, -, -, -, hfits, -⟩ := hqueue.holds
  have hstate : filling capacity data = .active := if_neg (Nat.not_lt.mpr hfits)
  refine ⟨h.compressed, h.noFid, h.lastFid, h.starts, ?_⟩
  rw [hstate, take_of_length_le hfits]
  exact hqueue

namespace Fills

variable {capacity : Nat} {data : Data} {s : Stream} {a : Assembler UInt8} {b : Nat}
  {rest : List Nat}

theorem head (h : Fills capacity data s a) : ∃ b rest, s.queue.irqqueue = b :: rest := by
  obtain ⟨b, rest, hirq, -⟩ := h.queue.holds
  exact ⟨b, rest, hirq⟩

theorem filling_append (capacity : Nat) (data more : Data) :
    filling capacity (data ++ more) =
      if capacity - (data.take capacity).length < more.length then .ready
      else filling capacity data := by
  rw [filling, filling, length_append, length_take]
  split_ifs <;> first | rfl | omega

theorem take_append (capacity : Nat) (data more : Data) :
    (data ++ more).take capacity = data.take capacity ++
      more.take (min more.length (capacity - (data.take capacity).length)) := by
  rw [List.take_append]
  congr 1
  rw [List.take_eq_take_iff, List.length_take]
  omega

section

variable (h : Fills capacity data s a) (hirq : s.queue.irqqueue = b :: rest)
include h hirq

theorem setHead (x : Buffer) (hlen : x.length = capacity) {data' : Data}
    (hdata : x.data = data'.take capacity) (hclean : x.error = false) :
    Mirrors x.state (s.setBuffer b x)
      { a with current := some (capacity, data'.take capacity) } := by
  have hqueue := h.queue.setHead hirq x hclean (by rw [hdata, hlen]; exact length_take_le ..)
  rw [hlen, hdata] at hqueue
  exact ⟨h.compressed, h.noFid, h.lastFid, h.starts, hqueue⟩

theorem decodeData (more : Data) :
    Fills capacity (data ++ more) (s.decodeData b more) a ∧
      SameTransfer s (s.decodeData b more) ∧
      (s.decodeData b more).queue.irqqueue = b :: rest := by
  by_cases hmore : more = []
  · rw [Stream.decodeData, hmore, append_nil]
    exact ⟨h, .refl s, hirq⟩
  obtain ⟨hstate, hlen, hdata, -⟩ := h.queue.holds.head hirq
  change (s.buffer b).length = _ at hlen
  change (s.buffer b).data = _ at hdata
  rw [Stream.decodeData, if_neg hmore]
  refine ⟨?_, ⟨_, _, _, _⟩, hirq⟩
  rw [Fills, filling_append]
  simp only [hlen, hdata]
  have htake := (take_append capacity data more).symm
  split_ifs with hfull
  · exact h.setHead hirq ⟨.ready, capacity, _, (s.buffer b).sequence, (s.buffer b).error⟩ rfl
      htake (h.queue.clean b)
  rw [← hstate]
  exact h.setHead hirq ⟨(s.buffer b).state, capacity, _, (s.buffer b).sequence,
    (s.buffer b).error⟩ rfl htake (h.queue.clean b)

end

/-- The end of a payload: its data are given to the buffer, which may be done now. -/
theorem decodeEnd {p : Payload} (h : Fills capacity (data ++ p.data) s a)
    (hirq : s.queue.irqqueue = b :: rest) (hcur : a.current = some (capacity, data))
    (more : Data) :
    SameTransfer s (s.decodeEnd b (p.header ++ more)) ∧
      (s.decodeEnd b (p.header ++ more)).queue.irqqueue = b :: rest ∧
      (if ((s.decodeEnd b (p.header ++ more)).buffer b).state = .ready then
        Mirrors .active { s.decodeEnd b (p.header ++ more) with
          queue := ((s.decodeEnd b (p.header ++ more)).queue.nextBuffer b).2 }
          (a.add p.fragment) ∧
        ((s.decodeEnd b (p.header ++ more)).queue.nextBuffer b).1 =
          ((s.decodeEnd b (p.header ++ more)).queue.nextBuffer b).2.irqqueue.head?
      else Mirrors .active (s.decodeEnd b (p.header ++ more)) (a.add p.fragment)) := by
  obtain ⟨hstate, hlen, hdata, -⟩ := h.queue.holds.head hirq
  change (s.buffer b).state = _ at hstate
  change (s.buffer b).data = _ at hdata
  -- a READY buffer is done, in whichever way it became READY
  have hdone : ∀ {t : Stream}, t.queue.irqqueue = b :: rest →
      (capacity < (data ++ p.data).length ∨
        (p.fragment.last = true ∧ (data ++ p.data).take capacity ≠ [])) →
      Mirrors .ready t { a with current := some (capacity, (data ++ p.data).take capacity) } →
      Mirrors .active { t with queue := (t.queue.nextBuffer b).2 } (a.add p.fragment) ∧
        (t.queue.nextBuffer b).1 = (t.queue.nextBuffer b).2.irqqueue.head? := by
    intro t ht hends hready
    obtain ⟨hqueue, hnext⟩ := hready.queue.nextBuffer ht
    have hadd : a.add p.fragment = { a with
        current := none, done := a.done ++ [(capacity, (data ++ p.data).take capacity)] } := by
      simp only [Assembler.add, hcur]
      exact if_pos hends
    rw [hadd]
    exact ⟨⟨hready.compressed, hready.noFid, hready.lastFid, hready.starts, hqueue⟩, hnext⟩
  by_cases heof : p.fragment.last = true ∧ (data ++ p.data).take capacity ≠ []
  · have hcond : (p.header ++ more).getD 1 0 &&& streamEof ≠ 0 ∧ (s.buffer b).data ≠ [] := by
      rw [p.eof_iff, hdata]
      exact heof
    have hend : s.decodeEnd b (p.header ++ more) =
        s.setBuffer b { s.buffer b with state := .ready } := by
      rw [Stream.decodeEnd, if_pos hcond]
      exact if_neg (by rw [Stream.setBuffer, h.noFid]; exact Bool.false_ne_true)
    rw [hend]
    refine ⟨⟨_, _, _, _⟩, hirq, ?_⟩
    rw [if_pos (by rw [Stream.buffer_setBuffer])]
    exact hdone hirq (.inr heof) (h.setHead hirq { s.buffer b with state := .ready } hlen
      hdata (h.queue.clean b))
  · have hcond : ¬ ((p.header ++ more).getD 1 0 &&& streamEof ≠ 0 ∧ (s.buffer b).data ≠ []) := by
      rw [p.eof_iff, hdata]
      exact heof
    have hend : s.decodeEnd b (p.header ++ more) = s := by rw [Stream.decodeEnd, if_neg hcond]
    rw [hend, hstate]
    refine ⟨.refl s, hirq, ?_⟩
    by_cases hfull : capacity < (data ++ p.data).length
    · have hready : filling capacity (data ++ p.data) = .ready := if_pos hfull
      rw [if_pos hready]
      rw [Fills, hready] at h
      exact hdone hirq (.inl hfull) h
    have hact : filling capacity (data ++ p.data) = .active := if_neg hfull
    have hadd : a.add p.fragment = { a with
        current := some (capacity, (data ++ p.data).take capacity) } := by
      simp only [Assembler.add, hcur]
      exact if_neg (not_or.mpr ⟨hfull, heof⟩)
    rw [if_neg (by rw [hact]; decide), hadd, ← hact]
    exact h

end Fills

end TbsMedia.Uvc
