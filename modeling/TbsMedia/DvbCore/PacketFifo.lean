import Mathlib.Data.List.TakeWhile
import TbsMedia.DvbCore.PacketRing

/-!
Runs of the packet functions of a ring buffer. Beside the ring a run keeps the queue
of packets that it should hold; the ring agrees with it up to the count of
`dvb_ringbuffer_pkt_next`, which goes wrong in a ring whose size does not divide `2 ^ 64`.
-/

namespace TbsMedia.DvbCore

open Lib List Option RingPacket

structure PacketRun where
  rbuf : DvbRingbuffer
  queue : List RingPacket

inductive PacketCall where
  | write (buf : Bytes)
  | dispose (idx : Nat)

def packetStart (data : Mem UInt8) (size : Nat) : PacketRun :=
  { rbuf := dvbRingbufferInit (some data) size, queue := [] }

/-- A packet is written when its callers find room for it, and only a ready packet is
disposed of. -/
def packetStep (c : PacketRun) : PacketCall → Option PacketRun
  | .write buf =>
    if 1 ≤ buf.length ∧ buf.length ≤ 65535 ∧ (buf.length + 3 : Int) ≤ dvbRingbufferFree c.rbuf
    then
      some
        { rbuf := (dvbRingbufferPktWrite c.rbuf buf).2
          queue := c.queue ++ [⟨c.rbuf.pwrite, buf, false⟩] }
    else none
  | .dispose idx =>
    if (c.queue.find? (fun p => p.idx == idx)).any (fun p => !p.disposed) then
      (dvbRingbufferPktDispose c.rbuf idx).map fun rbuf =>
        { rbuf := rbuf, queue := (markDisposed idx c.queue).dropWhile RingPacket.disposed }
    else none

/-- Going on from `idx`, `dvb_ringbuffer_pkt_next` reports these packets and then none. -/
def Iterates (rbuf : DvbRingbuffer) : Option Nat → List (Nat × Nat) → Prop
  | idx, [] => dvbRingbufferPktNext rbuf idx = some none
  | idx, entry :: rest =>
    dvbRingbufferPktNext rbuf idx = some (some entry) ∧ Iterates rbuf (some entry.1) rest

instance (rbuf : DvbRingbuffer) : ∀ idx entries, Decidable (Iterates rbuf idx entries)
  | idx, [] => inferInstanceAs (Decidable (dvbRingbufferPktNext rbuf idx = some none))
  | idx, entry :: rest =>
    have := instDecidableIterates rbuf (some entry.1) rest
    inferInstanceAs (Decidable (dvbRingbufferPktNext rbuf idx = some (some entry) ∧
      Iterates rbuf (some entry.1) rest))

def ready (queue : List RingPacket) : List RingPacket :=
  queue.filter (fun p => !p.disposed)

structure PacketFifo (c : PacketRun) : Prop where
  iterates : Iterates c.rbuf none ((ready c.queue).map RingPacket.entry)
  reads : ∀ p ∈ ready c.queue, ∀ (offset : Int) (len : Nat),
    -2 ^ 31 ≤ offset → offset < 2 ^ 31 → len < 2 ^ 63 →
      dvbRingbufferPktRead c.rbuf p.idx offset len = p.part offset len
  disposes : ∀ p ∈ ready c.queue, (dvbRingbufferPktDispose c.rbuf p.idx).isSome
  avail : dvbRingbufferAvail c.rbuf = packetBytes c.queue
  free : dvbRingbufferFree c.rbuf = c.rbuf.size - 1 - packetBytes c.queue

/-- `CountsBehind` for every ready packet of a queue that starts `d` bytes behind the
read pointer. -/
def CountsFrom (rbuf : DvbRingbuffer) : Nat → List RingPacket → Prop
  | _, [] => True
  | d, p :: rest =>
    (p.disposed = false → CountsBehind rbuf (d + p.span) rest) ∧
      CountsFrom rbuf (d + p.span) rest

def CountsRight (c : PacketRun) : Prop :=
  CountsFrom c.rbuf 0 c.queue

structure PacketInv (size : Nat) (c : PacketRun) : Prop where
  size : c.rbuf.size = size
  contents : ∃ pos, Contents c.rbuf pos c.queue
  front : ∀ p ∈ c.queue.head?, p.disposed = false

variable {rbuf : DvbRingbuffer} {size : Nat} {queue : List RingPacket}

theorem Contents.packetInv {pos : Nat} (hc : Contents rbuf pos queue) (hsize : rbuf.size = size)
    (hfront : ∀ p ∈ queue.head?, p.disposed = false) : PacketInv size ⟨rbuf, queue⟩ :=
  ⟨hsize, ⟨pos, hc⟩, hfront⟩

theorem packetStart_inv (data : Mem UInt8) (hsize : 5 ≤ size) :
    PacketInv size (packetStart data size) := by
  refine ⟨rfl, ⟨0, ?_, ?_, ?_, trivial⟩, ?_⟩
  · exact (Nat.zero_mod size).symm
  · exact (Nat.zero_mod size).symm
  · exact Nat.zero_lt_of_lt hsize
  · intro p hp
    cases hp

theorem head_ready_of_append (hfront : ∀ p ∈ queue.head?, p.disposed = false) {last : RingPacket}
    (hlast : last.disposed = false) : ∀ p ∈ (queue ++ [last]).head?, p.disposed = false := by
  cases queue with
  | nil =>
    intro p hp
    cases hp
    exact hlast
  | cons first rest => exact hfront

theorem packetStep_inv (c : PacketRun) (call : PacketCall) (next : PacketRun)
    (hinv : PacketInv size c) (hstep : packetStep c call = some next) : PacketInv size next := by
  obtain ⟨pos, hc⟩ := hinv.contents
  cases call with
  | write buf =>
    obtain ⟨⟨hlen, hmax, hfree⟩, hnext⟩ := ite_none_right_eq_some.mp hstep
    obtain rfl := Option.some.inj hnext
    obtain ⟨-, hsize, hafter⟩ := pktWrite_spec hc hlen hmax hfree
    exact hafter.packetInv (hsize.trans hinv.size) (head_ready_of_append hinv.front rfl)
  | dispose idx =>
    obtain ⟨hready, hnext⟩ := ite_none_right_eq_some.mp hstep
    obtain ⟨rbuf, hdispose, rfl⟩ := map_eq_some_iff.mp hnext
    obtain ⟨p, hfind, -⟩ := (Option.any_eq_true _ _).mp hready
    obtain ⟨hidx, before, after, hqueue, hoth⟩ := List.find?_eq_some_iff_append.mp hfind
    obtain rfl : p.idx = idx := by simpa using hidx
    rw [hqueue] at hc
    obtain ⟨rbuf', pos', hrun, hsize, hafter⟩ := pktDispose_spec hc
    obtain rfl : rbuf' = rbuf := mem_unique hrun hdispose
    have hmark := markDisposed_append before after p (fun q hq => by simpa using hoth q hq)
    rw [← hmark, ← hqueue] at hafter
    exact hafter.packetInv (hsize.trans hinv.size) (head_ready_of_dropWhile _)

/-- Iteration from a packet, with disposed packets right behind it, is right exactly when
the count is right from there on. -/
theorem iterates_from_iff {pos : Nat} (hint : rbuf.size + 65538 ≤ 2 ^ 31)
    {before holes rest : List RingPacket} {p : RingPacket}
    (hc : Contents rbuf pos (before ++ p :: (holes ++ rest)))
    (hholes : ∀ q ∈ holes, q.disposed = true) :
    Iterates rbuf (some p.idx) ((ready rest).map RingPacket.entry) ↔
      CountsBehind rbuf (packetBytes (before ++ [p])) (holes ++ rest) ∧
        CountsFrom rbuf (packetBytes (before ++ p :: holes)) rest := by
  induction rest generalizing before holes p with
  | nil =>
    have hnone : firstReady (holes ++ []) = none := by
      rw [append_nil, firstReady, dropWhile_eq_nil_iff.mpr hholes]
      rfl
    rw [← pktNext_iff hint hc, hnone]
    simp [ready, Iterates, CountsFrom]
  | cons next rest ih =>
    cases hnext : next.disposed with
    | true =>
      have hmoved : Contents rbuf pos (before ++ p :: ((holes ++ [next]) ++ rest)) := by
        simpa using hc
      have hall : ∀ q ∈ holes ++ [next], q.disposed = true := by
        intro q hq
        rcases mem_append.mp hq with hold | hnew
        · exact hholes q hold
        · rw [mem_singleton.mp hnew]
          exact hnext
      have hskip : ready (next :: rest) = ready rest := by simp [ready, hnext]
      have hbytes : packetBytes (before ++ p :: (holes ++ [next])) =
          packetBytes (before ++ p :: holes) + next.span := by
        simp only [packetBytes_append, packetBytes_cons, packetBytes_nil]
        omega
      rw [hskip, ih hmoved hall, hbytes, CountsFrom, hnext]
      simp
    | false =>
      have hfound : firstReady (holes ++ next :: rest) = some next := by
        rw [firstReady, dropWhile_append_of_pos hholes, dropWhile_cons_of_neg (by simp [hnext])]
        rfl
      have hmoved : Contents rbuf pos ((before ++ p :: holes) ++ next :: ([] ++ rest)) := by
        simpa using hc
      have htake : ready (next :: rest) = next :: ready rest := by simp [ready, hnext]
      have hlater := ih hmoved (fun q hq => absurd hq not_mem_nil)
      have hbytes : packetBytes ((before ++ p :: holes) ++ [next]) =
          packetBytes (before ++ p :: holes) + next.span := by
        simp only [packetBytes_append, packetBytes_cons, packetBytes_nil]
        omega
      rw [hbytes] at hlater
      rw [htake, map_cons, ← pktNext_iff hint hc, hfound, CountsFrom]
      change _ ∧ Iterates rbuf (some next.idx) ((ready rest).map entry) ↔ _
      rw [hlater, hnext]
      simp

variable {c : PacketRun}

theorem iterates_iff (hint : size + 65538 ≤ 2 ^ 31) (hinv : PacketInv size c) :
    Iterates c.rbuf none ((ready c.queue).map RingPacket.entry) ↔ CountsRight c := by
  obtain ⟨pos, hc⟩ := hinv.contents
  have hfirst := pktNext_first hc hinv.front
  rw [← hinv.size] at hint
  rw [CountsRight]
  rcases hqueue : c.queue with _ | ⟨p, rest⟩
  · rw [hqueue] at hfirst
    exact iff_of_true hfirst trivial
  rw [hqueue] at hfirst hc
  have hp : p.disposed = false := hinv.front p (by rw [hqueue]; rfl)
  have hcont : Contents c.rbuf pos ([] ++ p :: ([] ++ rest)) := hc
  have hlater := iterates_from_iff hint hcont (fun q hq => absurd hq not_mem_nil)
  have htake : ready (p :: rest) = p :: ready rest := by simp [ready, hp]
  rw [htake, map_cons, Iterates, CountsFrom]
  have hstart : dvbRingbufferPktNext c.rbuf none = some (some p.entry) := hfirst
  rw [entry] at hstart ⊢
  simp [hstart, hlater, packetBytes_cons, packetBytes_nil, hp]

theorem packetFifo_iff (hint : size + 65538 ≤ 2 ^ 31) (hinv : PacketInv size c) :
    PacketFifo c ↔ CountsRight c := by
  rw [← iterates_iff hint hinv]
  constructor
  · exact PacketFifo.iterates
  intro hiterates
  obtain ⟨pos, hc⟩ := hinv.contents
  refine ⟨hiterates, ?_, ?_, hc.avail, hc.free⟩
  · intro p hp offset len hlow hhigh hlen
    obtain ⟨before, after, hqueue⟩ := append_of_mem (mem_filter.mp hp).1
    rw [hqueue] at hc
    exact pktRead_spec hc hlow hhigh hlen
  intro p hp
  obtain ⟨before, after, hqueue⟩ := append_of_mem (mem_filter.mp hp).1
  rw [hqueue] at hc
  obtain ⟨rbuf', pos', hrun, -⟩ := pktDispose_spec hc
  rw [hrun]
  rfl

/-- The count is right when it is not far too small and what it has too much is less
than every packet. -/
theorem countsBehind_of_close {d : Nat} {rest : List RingPacket} (extra : Nat)
    (hlow : d ≤ countedBytes rbuf d + 3) (hhigh : countedBytes rbuf d ≤ d + extra)
    (hlen : ∀ p ∈ rest, extra < p.data.length) : CountsBehind rbuf d rest := by
  unfold CountsBehind
  split
  · exact .inl hlow
  next next after htail =>
  have hmem : next ∈ rest := by
    apply (dropWhile_suffix disposed).subset
    rw [htail]
    exact mem_cons_self
  have hnext := hlen next hmem
  have hspan : next.span = next.data.length + 3 := rfl
  rw [packetBytes_cons]
  omega

theorem countsFrom_of_close {d : Nat} (extra : Nat) (hcount : ∀ e ≤ d + packetBytes queue,
      e ≤ countedBytes rbuf e + 3 ∧ countedBytes rbuf e ≤ e + extra)
    (hlen : ∀ p ∈ queue, extra < p.data.length) : CountsFrom rbuf d queue := by
  induction queue generalizing d with
  | nil => trivial
  | cons p rest ih =>
    rw [packetBytes_cons] at hcount
    have hlater : ∀ q ∈ rest, extra < q.data.length := fun q hq => hlen q (mem_cons_of_mem p hq)
    refine ⟨?_, ih (fun e he => hcount e (by omega)) hlater⟩
    intro _
    obtain ⟨hlow, hhigh⟩ := hcount (d + p.span) (by omega)
    exact countsBehind_of_close extra hlow hhigh hlater

/-- In a ring whose size divides `2 ^ 64` the count is always right. -/
theorem countsRight_of_dvd (hdvd : sizeT % size = 0) (hinv : PacketInv size c) : CountsRight c := by
  obtain ⟨pos, hc⟩ := hinv.contents
  have hroom := hc.room
  apply countsFrom_of_close 0
  · intro e he
    have hsame : countedBytes c.rbuf e = e := by
      rw [countedBytes, hinv.size, hdvd]
      split_ifs
      · rfl
      apply Nat.mod_eq_of_lt
      rw [← hinv.size]
      omega
    omega
  · intro p hp
    obtain ⟨before, after, hqueue⟩ := append_of_mem hp
    rw [hqueue] at hc
    obtain ⟨-, -, hfits, -⟩ := PacketsAt.append.mp hc.holds
    exact hfits.1

/-- The ring is a queue of packets along a run exactly when the count of
`dvb_ringbuffer_pkt_next` is right in every state of it. -/
theorem packet_fifo_iff_counts_right (data : Mem UInt8) (size : Nat) (hsize : 5 ≤ size)
    (hint : size + 65538 ≤ 2 ^ 31) (calls : List PacketCall) :
    Always packetStep PacketFifo (packetStart data size) calls ↔
      Always packetStep CountsRight (packetStart data size) calls :=
  always_congr (PacketInv size) packetStep_inv (fun _ hinv => packetFifo_iff hint hinv)
    (packetStart_inv data hsize) calls

/-- In a ring of eight bytes the condition holds along the run. -/
theorem packet_fifo_eight_bytes :
    Always packetStep PacketFifo (packetStart (fun _ => 0) 8) [.write [1, 2], .dispose 0] := by
  have hcounts := Always.of_inv (PacketInv 8) packetStep_inv
    (fun _ hinv => countsRight_of_dvd (by decide) hinv)
    (packetStart_inv (fun _ => 0) (by decide)) [.write [1, 2], .dispose 0]
  exact (packet_fifo_iff_counts_right (fun _ => 0) 8 (by decide) (by decide) _).mpr hcounts

/-- In a ring of fifteen bytes the ready packets, of one byte each, are at 11 and at 0. The
four bytes up to the second one are counted as five, so of the eight in the ring only three
seem left, and iteration ends before it. -/
theorem packet_behind_wrap_missed :
    ¬ Always packetStep PacketFifo (packetStart (fun _ => 0) 15)
      [.write [1, 2, 3, 4, 5, 6, 7, 8], .dispose 0, .write [9], .write [10]] := by
  refine not_always_of_run (fun c => ¬ Iterates c.rbuf none ((ready c.queue).map entry))
    (by decide +kernel) ?_
  exact fun last hbad hfifo => hbad hfifo.iterates

end TbsMedia.DvbCore
