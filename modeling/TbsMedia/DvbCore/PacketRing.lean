import TbsMedia.Lib.Run
import TbsMedia.DvbCore.RingBuffer

/-!
The packets of a ring buffer as a queue. Positions in the ring count on without end
(`Lib.Ring`); the contents start at the position of the read pointer and are one
header and one body for each packet, disposed ones included until they reach the
front.
-/

namespace TbsMedia.DvbCore

open Lib List Option Mem DvbRingbuffer Function Nat UInt8

/-- A packet of the ring: the index that it was written at, its bytes, and whether it
was disposed of behind a packet that was not. -/
structure RingPacket where
  idx : Nat
  data : Bytes
  disposed : Bool
deriving DecidableEq

open RingPacket

namespace RingPacket

def status (p : RingPacket) : UInt8 :=
  if p.disposed then pktDisposed else pktReady

def bytes (p : RingPacket) : Bytes :=
  [UInt8.ofNat (p.data.length >>> 8), UInt8.ofNat (p.data.length &&& 0xff), p.status] ++ p.data

def span (p : RingPacket) : Nat :=
  p.data.length + pktHdrSize

def Fits (p : RingPacket) : Prop :=
  1 ≤ p.data.length ∧ p.data.length ≤ 65535

theorem length_bytes (p : RingPacket) : p.bytes.length = p.span := by simp [bytes, span, pktHdrSize]

theorem length_from_header {n : Nat} (hn : n ≤ 65535) :
    (UInt8.ofNat (n >>> 8)).toNat <<< 8 ||| (UInt8.ofNat (n &&& 0xff)).toNat = n := by
  have hlow := and_two_pow_sub_one_eq_mod n 8
  have hhigh := shiftRight_eq_div_pow n 8
  have hfirst : (ofNat (n >>> 8)).toNat = n / 256 := by
    rw [hhigh, toNat_ofNat']
    omega
  have hnext : (ofNat (n &&& 0xff)).toNat = n % 256 := by
    rw [hlow, toNat_ofNat']
    omega
  rw [hfirst, hnext, ← shiftLeft_add_eq_or_of_lt (show n % 256 < 2 ^ 8 by omega), shiftLeft_eq]
  omega

end RingPacket

def packetBytes (queue : List RingPacket) : Nat :=
  (queue.map RingPacket.span).sum

@[simp]
theorem packetBytes_nil : packetBytes [] = 0 := rfl

@[simp]
theorem packetBytes_cons (p : RingPacket) (queue : List RingPacket) :
    packetBytes (p :: queue) = p.span + packetBytes queue := by
  simp [packetBytes]

@[simp]
theorem packetBytes_append (first second : List RingPacket) :
    packetBytes (first ++ second) = packetBytes first + packetBytes second := by
  simp [packetBytes]

/-- The packets stand in the memory one behind the other from position `pos` on. -/
def PacketsAt (m : Mem UInt8) (size : Nat) : Nat → List RingPacket → Prop
  | _, [] => True
  | pos, p :: rest =>
    p.idx = pos % size ∧ p.Fits ∧ m.window size pos p.span = p.bytes ∧
      PacketsAt m size (pos + p.span) rest

open PacketsAt

variable {m : Mem UInt8} {size : Nat}

theorem PacketsAt.append {pos : Nat} {first second : List RingPacket} :
    PacketsAt m size pos (first ++ second) ↔
      PacketsAt m size pos first ∧ PacketsAt m size (pos + packetBytes first) second := by
  induction first generalizing pos with
  | nil => simp [PacketsAt]
  | cons p rest ih => simp only [cons_append, PacketsAt, ih, packetBytes_cons, add_assoc, and_assoc]

theorem PacketsAt.congr {m' : Mem UInt8} {pos : Nat} {queue : List RingPacket}
    (hholds : PacketsAt m size pos queue)
    (hcells : ∀ i < packetBytes queue, m' ((pos + i) % size) = m ((pos + i) % size)) :
    PacketsAt m' size pos queue := by
  induction queue generalizing pos with
  | nil => trivial
  | cons p rest ih =>
    obtain ⟨hidx, hfits, hbytes, hrest⟩ := hholds
    rw [packetBytes_cons] at hcells
    refine ⟨hidx, hfits, ?_, ih hrest ?_⟩
    · rw [← hbytes]
      apply window_congr
      intro i hi
      exact hcells i (by omega)
    · intro i hi
      have hcell := hcells (p.span + i) (by omega)
      rwa [← add_assoc] at hcell

structure Contents (rbuf : DvbRingbuffer) (pos : Nat) (queue : List RingPacket) : Prop where
  pread : rbuf.pread = pos % rbuf.size
  pwrite : rbuf.pwrite = (pos + packetBytes queue) % rbuf.size
  room : packetBytes queue < rbuf.size
  holds : PacketsAt rbuf.mem rbuf.size pos queue

namespace Contents

variable {rbuf : DvbRingbuffer} {pos : Nat} {queue : List RingPacket}

theorem size_pos (hc : Contents rbuf pos queue) : 0 < rbuf.size := by
  have := hc.room
  omega

theorem avail (hc : Contents rbuf pos queue) : dvbRingbufferAvail rbuf = packetBytes queue :=
  avail_of_positions hc.pread hc.pwrite hc.room

theorem free (hc : Contents rbuf pos queue) :
    dvbRingbufferFree rbuf = rbuf.size - 1 - packetBytes queue :=
  free_of_positions hc.pread hc.pwrite hc.room

end Contents

variable {p : RingPacket} {pos fuel : Nat} {rbuf : DvbRingbuffer} {queue : List RingPacket}

/-- A byte of a packet that stands at `pos`. -/
theorem byte_of_window (hbytes : m.window size pos p.span = p.bytes) (k : Nat)
    (hk : k < p.bytes.length) : m ((pos + k) % size) = p.bytes[k] := by
  have hlt : k < (m.window size pos p.span).length := by rwa [hbytes]
  rw [← getElem_window m size pos p.span k hlt]
  simp [hbytes]

theorem pktLen_of_window (hfits : p.Fits)
    (hbytes : rbuf.mem.window rbuf.size pos p.span = p.bytes) :
    pktLen rbuf (pos % rbuf.size) = p.data.length := by
  have hfirst := byte_of_window hbytes 0 (by simp [bytes])
  have hnext := byte_of_window hbytes 1 (by simp [bytes])
  rw [add_zero] at hfirst
  rw [pktLen, mod_add_mod, hfirst, hnext]
  exact length_from_header hfits.2

theorem status_of_window (hbytes : rbuf.mem.window rbuf.size pos p.span = p.bytes) :
    rbuf.mem ((pos % rbuf.size + 2) % rbuf.size) = p.status := by
  rw [mod_add_mod]
  exact byte_of_window hbytes 2 (by simp [bytes])

/-- What writing `src` at position `pos` does to the ring: positions up to a round back
keep their bytes. -/
structure Appends (rbuf rbuf' : DvbRingbuffer) (pos : Nat) (src : Bytes) : Prop where
  size : rbuf'.size = rbuf.size
  pread : rbuf'.pread = rbuf.pread
  pwrite : rbuf'.pwrite = (pos + src.length) % rbuf.size
  written : rbuf'.mem.window rbuf.size pos src.length = src
  kept : ∀ q, q < pos → pos + src.length ≤ q + rbuf.size →
    rbuf'.mem (q % rbuf.size) = rbuf.mem (q % rbuf.size)

variable {rbuf' : DvbRingbuffer}

theorem Appends.trans {rbuf'' : DvbRingbuffer} {first second : Bytes}
    (hfirst : Appends rbuf rbuf' pos first)
    (hnext : Appends rbuf' rbuf'' (pos + first.length) second)
    (hfit : first.length + second.length ≤ rbuf.size) :
    Appends rbuf rbuf'' pos (first ++ second) := by
  have hwritten := hnext.written
  have hkept := hnext.kept
  rw [hfirst.size] at hwritten hkept
  refine ⟨hnext.size.trans hfirst.size, hnext.pread.trans hfirst.pread, ?_, ?_, ?_⟩
  · rw [hnext.pwrite, hfirst.size, length_append, add_assoc]
  · have hold : rbuf''.mem.window rbuf.size pos first.length = first := by
      rw [← hfirst.written]
      rw [length_window]
      apply window_congr
      intro i hi
      exact hkept (pos + i) (by omega) (by omega)
    rw [length_append, window_add, hold, hwritten]
  · intro q hq hround
    rw [length_append] at hround
    rw [hkept q (by omega) (by omega)]
    exact hfirst.kept q hq (by omega)

theorem writeByte_appends (rbuf : DvbRingbuffer) (pos : Nat) (byte : UInt8)
    (hpos : rbuf.pwrite = pos % rbuf.size) :
    Appends rbuf (dvbRingbufferWriteByte rbuf byte) pos [byte] := by
  refine ⟨rfl, rfl, ?_, ?_, ?_⟩
  · simp [dvbRingbufferWriteByte, hpos]
  · simp [dvbRingbufferWriteByte, mem, window, hpos]
  intro q hq hround
  have hne := mod_ne_of_lt rbuf.size hq (show pos < q + rbuf.size from hround)
  simp [dvbRingbufferWriteByte, mem, hpos, hne]

theorem dvbRingbufferWrite_mem (rbuf : DvbRingbuffer) (buf : Bytes) :
    (dvbRingbufferWrite rbuf rbuf.mem buf).mem = rbuf.mem.ringCopy rbuf.size rbuf.pwrite buf := by
  simp only [dvbRingbufferWrite, ringCopy]
  split_ifs <;> rfl

section

variable (rbuf : DvbRingbuffer) (pos : Nat) (buf : Bytes)
  (hpos : rbuf.pwrite = pos % rbuf.size) (hsize : 0 < rbuf.size)
include hpos hsize

theorem dvbRingbufferWrite_pwrite :
    (dvbRingbufferWrite rbuf rbuf.mem buf).pwrite = (pos + buf.length) % rbuf.size := by
  have hcell := mod_lt pos hsize
  rw [← mod_add_mod pos, ← hpos]
  rw [← hpos] at hcell
  unfold dvbRingbufferWrite
  rcases lt_or_ge rbuf.size (rbuf.pwrite + buf.length) with hsplit | hplain
  · rw [if_pos hsplit, if_pos (by omega), mod_eq_sub_mod hsplit.le]
    change (buf.length - (rbuf.size - rbuf.pwrite)) % rbuf.size = _
    congr 1
    omega
  · rw [if_neg hplain.not_gt, if_neg (lt_irrefl 0)]

theorem dvbRingbufferWrite_appends (hfit : buf.length ≤ rbuf.size) :
    Appends rbuf (dvbRingbufferWrite rbuf rbuf.mem buf) pos buf := by
  have hmem := dvbRingbufferWrite_mem rbuf buf
  rw [hpos] at hmem
  refine ⟨?_, ?_, dvbRingbufferWrite_pwrite rbuf pos buf hpos hsize, ?_, ?_⟩
  · rw [dvbRingbufferWrite]
    split_ifs <;> rfl
  · rw [dvbRingbufferWrite]
    split_ifs <;> rfl
  · rw [hmem]
    exact window_ringCopy_at rbuf.mem rbuf.size pos buf hfit
  intro q hq hround
  rw [hmem]
  exact ringCopy_other rbuf.mem rbuf.size pos buf q hq hround

end

theorem Contents.appends (hc : Contents rbuf pos queue) (hfits : p.Fits)
    (hidx : p.idx = rbuf.pwrite) (happ : Appends rbuf rbuf' (pos + packetBytes queue) p.bytes)
    (hroom : packetBytes queue + p.span < rbuf.size) : Contents rbuf' pos (queue ++ [p]) := by
  have hlen := p.length_bytes
  have hwritten := happ.written
  rw [hlen] at hwritten
  constructor
  · rw [happ.pread, happ.size, hc.pread]
  · rw [happ.pwrite, happ.size, hlen]
    simp [add_assoc]
  · rw [happ.size]
    simpa using hroom
  rw [happ.size]
  refine append.mpr ⟨?_, ?_, hfits, hwritten, trivial⟩
  · apply hc.holds.congr
    intro i hi
    exact happ.kept (pos + i) (by omega) (by omega)
  · rw [hidx, hc.pwrite]

theorem pktWrite_spec (hc : Contents rbuf pos queue) {buf : Bytes}
    (hlen : 1 ≤ buf.length) (hmax : buf.length ≤ 65535)
    (hfree : buf.length + 3 ≤ dvbRingbufferFree rbuf) :
    (dvbRingbufferPktWrite rbuf buf).1 = buf.length ∧
      (dvbRingbufferPktWrite rbuf buf).2.size = rbuf.size ∧
      Contents (dvbRingbufferPktWrite rbuf buf).2 pos (queue ++ [⟨rbuf.pwrite, buf, false⟩]) := by
  rw [hc.free] at hfree
  have hstatus : toInt buf.length = buf.length := by
    rw [toInt, Int.bmod_def]
    omega
  have hsize := hc.size_pos
  have h1 := writeByte_appends rbuf (pos + packetBytes queue)
    (ofNat (buf.length >>> 8)) hc.pwrite
  have h2 := writeByte_appends _ _ (ofNat (buf.length &&& 0xff)) h1.pwrite
  have h12 := h1.trans h2 (by simp; omega)
  have h3 := writeByte_appends _ _ pktReady h12.pwrite
  have h123 := h12.trans h3 (by simp; omega)
  have h4 := dvbRingbufferWrite_appends _ _ buf h123.pwrite (by rw [h123.size]; exact hsize)
    (by rw [h123.size]; omega)
  have hall := h123.trans h4 (by simp; omega)
  have hnot : ¬ toInt buf.length < 0 := by
    rw [hstatus]
    omega
  simp only [dvbRingbufferPktWrite, if_neg hnot]
  refine ⟨hstatus, hall.size, ?_⟩
  exact hc.appends ⟨hlen, hmax⟩ rfl hall (by simp only [RingPacket.span, pktHdrSize]; omega)

def RingPacket.part (p : RingPacket) (offset : Int) (len : Nat) : Option Bytes :=
  if 0 ≤ offset ∧ offset ≤ p.data.length then some ((p.data.drop offset.toNat).take len) else none

variable {before after : List RingPacket}

theorem pktRead_spec (hc : Contents rbuf pos (before ++ p :: after)) {offset : Int}
    {len : Nat} (hlow : -2 ^ 31 ≤ offset) (hhigh : offset < 2 ^ 31) (hlen : len < 2 ^ 63) :
    dvbRingbufferPktRead rbuf p.idx offset len = p.part offset len := by
  obtain ⟨-, hidx, hfits, hbytes, -⟩ := append.mp hc.holds
  have hsmall := hfits.2
  have hroom := hc.room
  simp only [packetBytes_append, packetBytes_cons, RingPacket.span, pktHdrSize] at hroom
  simp only [dvbRingbufferPktRead, RingPacket.part, hidx, pktLen_of_window hfits hbytes]
  rcases lt_or_ge offset 0 with hneg | hnat
  · have hbeyond : p.data.length < (offset % sizeT).toNat := by
      rw [sizeT]
      omega
    rw [if_pos hbeyond, if_neg (by omega)]
  obtain ⟨start, rfl⟩ := Int.eq_ofNat_of_zero_le hnat
  have hstart : ((start : Int) % sizeT).toNat = start := by
    rw [sizeT]
    omega
  rw [hstart, Int.toNat_natCast]
  rcases lt_or_ge p.data.length start with hbeyond | hinside
  · rw [if_pos hbeyond, if_neg (by omega)]
  have hin : 0 ≤ (start : Int) ∧ (start : Int) ≤ p.data.length := by omega
  rw [if_neg hinside.not_gt, if_pos hin]
  have hsum : (start + len) % sizeT = start + len := by
    apply mod_eq_of_lt
    rw [sizeT]
    omega
  have hclip : (if p.data.length < start + len then p.data.length - start else len) =
      min len (p.data.length - start) := by
    split_ifs <;> omega
  have hplace : ((pos + packetBytes before) % rbuf.size + pktHdrSize + start) % rbuf.size =
      (pos + packetBytes before + (3 + start)) % rbuf.size := by
    rw [add_assoc, mod_add_mod, pktHdrSize]
  have hpart := drop_take_window rbuf.mem rbuf.size (pos + packetBytes before) p.span
    (3 + start) (min len (p.data.length - start))
    (by simp only [RingPacket.span, pktHdrSize]; omega)
  rw [hbytes] at hpart
  rw [hsum, hclip, hplace, ringRead_eq_window _ _ _ _ (mod_lt _ (by omega)) (by omega),
    window_mod, ← hpart]
  simp only [RingPacket.bytes, add_comm 3 start, cons_append, nil_append, drop_succ_cons]
  rw [← length_drop, ← take_eq_take_min]

theorem Contents.mark (hc : Contents rbuf pos (before ++ p :: after)) :
    Contents
      { rbuf with data := some (update rbuf.mem ((p.idx + 2) % rbuf.size) pktDisposed) }
      pos (before ++ { p with disposed := true } :: after) := by
  obtain ⟨hpre, hidx, hfits, hbytes, hafter⟩ := append.mp hc.holds
  have hroom := hc.room
  simp only [packetBytes_append, packetBytes_cons, RingPacket.span, pktHdrSize] at hroom
  have hlen := hfits.1
  have hcell : (p.idx + 2) % rbuf.size = (pos + packetBytes before + 2) % rbuf.size := by
    rw [hidx, Nat.mod_add_mod]
  refine ⟨hc.pread, ?_, ?_, append.mpr ⟨?_, hidx, hfits, ?_, ?_⟩⟩
  · rw [hc.pwrite]
    simp [RingPacket.span]
  · simpa [RingPacket.span, pktHdrSize] using hroom
  · apply hpre.congr
    intro i hi
    have hne := mod_ne_of_lt rbuf.size
      (show pos + i < pos + packetBytes before + 2 by omega) (by omega)
    simp [mem, hcell, hne]
  · apply ext_getElem
    · simp [RingPacket.bytes, RingPacket.span, pktHdrSize]
    intro i hi hlt
    rw [getElem_window]
    have hspan : i < p.bytes.length := by simpa [RingPacket.bytes] using hlt
    have hold := byte_of_window hbytes i hspan
    have hbound : i < p.data.length + 3 := hspan.trans_eq p.length_bytes
    rcases lt_trichotomy i 2 with hbelow | rfl | habove
    · have hne := mod_ne_of_lt rbuf.size
        (show pos + packetBytes before + i < pos + packetBytes before + 2 by omega) (by omega)
      simp only [mem, getD_some, hcell, update_of_ne hne]
      rw [mem] at hold
      rw [hold]
      interval_cases i <;> rfl
    · simp [mem, hcell, RingPacket.bytes, RingPacket.status]
    · have hne := (mod_ne_of_lt rbuf.size
        (show pos + packetBytes before + 2 < pos + packetBytes before + i by omega)
        (by omega)).symm
      simp only [mem, getD_some, hcell, update_of_ne hne]
      rw [mem] at hold
      rw [hold]
      obtain ⟨k, rfl⟩ := Nat.exists_eq_add_of_le' habove
      rfl
  · apply hafter.congr
    intro i hi
    have hne := (mod_ne_of_lt rbuf.size
      (show pos + packetBytes before + 2 < pos + packetBytes before + p.span + i by
        simp only [RingPacket.span, pktHdrSize]; omega)
      (by simp only [RingPacket.span, pktHdrSize]; omega)).symm
    simp [mem, hcell, RingPacket.span] at hne ⊢
    simp [hne]

theorem length_le_packetBytes (queue : List RingPacket) : queue.length ≤ packetBytes queue := by
  induction queue with
  | nil => exact le_refl 0
  | cons p rest ih =>
    simp only [length_cons, packetBytes_cons, RingPacket.span, pktHdrSize]
    omega

theorem pktDisposeClean_spec (hc : Contents rbuf pos queue) (hfuel : queue.length < fuel) :
    ∃ rbuf' pos', pktDisposeClean fuel rbuf = some rbuf' ∧ rbuf'.size = rbuf.size ∧
      Contents rbuf' pos' (queue.dropWhile RingPacket.disposed) := by
  induction queue generalizing rbuf pos fuel with
  | nil =>
    obtain ⟨fuel, rfl⟩ := exists_eq_succ_of_ne_zero (ne_of_gt hfuel)
    have hnone : ¬ dvbRingbufferAvail rbuf > pktHdrSize := by
      rw [hc.avail]
      simp
    refine ⟨rbuf, pos, ?_, rfl, hc⟩
    rw [pktDisposeClean, if_neg hnone]
  | cons p rest ih =>
    obtain ⟨fuel, rfl⟩ := exists_eq_succ_of_ne_zero (ne_of_gt (zero_lt_of_lt hfuel))
    obtain ⟨-, hfits, hbytes, hrest⟩ := hc.holds
    have hlen := hfits.1
    have hsome : dvbRingbufferAvail rbuf > pktHdrSize := by
      rw [hc.avail, packetBytes_cons, RingPacket.span, pktHdrSize]
      omega
    have hstatus : dvbRingbufferPeek rbuf 2 = p.status := by
      rw [dvbRingbufferPeek, hc.pread]
      exact status_of_window hbytes
    have hpktlen : (dvbRingbufferPeek rbuf 0).toNat <<< 8 |||
        (dvbRingbufferPeek rbuf 1).toNat = p.data.length := by
      rw [← pktLen_of_window hfits hbytes, pktLen, dvbRingbufferPeek, dvbRingbufferPeek,
        hc.pread, add_zero, mod_mod]
    rw [succ_eq_add_one, pktDisposeClean, if_pos hsome, hstatus, hpktlen]
    rcases hdisposed : p.disposed with _ | _
    · have hready : ¬ p.status = pktDisposed := by
        rw [RingPacket.status, hdisposed]
        decide
      refine ⟨rbuf, pos, if_neg hready, rfl, ?_⟩
      rwa [dropWhile_cons_of_neg (by simp [hdisposed])]
    have hgone : p.status = pktDisposed := by
      rw [RingPacket.status, hdisposed]
      rfl
    have hnext : Contents (dvbRingbufferSkip rbuf (p.data.length + pktHdrSize))
        (pos + p.span) rest := by
      refine ⟨?_, ?_, ?_, hrest⟩
      · rw [dvbRingbufferSkip, hc.pread, mod_add_mod]
        rfl
      · have hend := hc.pwrite
        rwa [packetBytes_cons, ← add_assoc] at hend
      have hroom := hc.room
      rw [packetBytes_cons] at hroom
      change packetBytes rest < rbuf.size
      omega
    rw [if_pos hgone, dropWhile_cons_of_pos hdisposed]
    obtain ⟨rbuf', pos', hrun, hsize, hafter⟩ := ih hnext (lt_of_succ_lt_succ hfuel)
    exact ⟨rbuf', pos', hrun, hsize, hafter⟩

theorem pktDisposeClean_data (hrun : pktDisposeClean fuel rbuf = some rbuf') :
    rbuf'.data = rbuf.data := by
  induction fuel generalizing rbuf with
  | zero => cases hrun
  | succ fuel ih =>
    rw [pktDisposeClean] at hrun
    split at hrun
    · split at hrun
      · rw [ih hrun]
        rfl
      · rw [Option.some.inj hrun]
    · rw [Option.some.inj hrun]

def markDisposed (idx : Nat) : List RingPacket → List RingPacket
  | [] => []
  | p :: rest =>
    if p.idx = idx then { p with disposed := true } :: rest else p :: markDisposed idx rest

theorem markDisposed_append (before after : List RingPacket) (p : RingPacket)
    (hoth : ∀ q ∈ before, q.idx ≠ p.idx) :
    markDisposed p.idx (before ++ p :: after) = before ++ { p with disposed := true } :: after := by
  induction before with
  | nil => simp [markDisposed]
  | cons q rest ih =>
    have hq := hoth q mem_cons_self
    have hrest := ih (fun x hx => hoth x (mem_cons_of_mem q hx))
    simp [markDisposed, if_neg hq, hrest]

/-- The packet is marked, and the disposed packets at the front are dropped. -/
theorem pktDispose_spec (hc : Contents rbuf pos (before ++ p :: after)) :
    ∃ rbuf' pos', dvbRingbufferPktDispose rbuf p.idx = some rbuf' ∧ rbuf'.size = rbuf.size ∧
      Contents rbuf' pos'
        ((before ++ { p with disposed := true } :: after).dropWhile RingPacket.disposed) := by
  have hmark := hc.mark
  have hshort := length_le_packetBytes (before ++ { p with disposed := true } :: after)
  have hroom := hmark.room
  exact pktDisposeClean_spec hmark (lt_succ_of_lt (hshort.trans_lt hroom))

/-- What `(idx - pread) % size` in `size_t` gives for an index `d` bytes behind the read
pointer: past the end of the array the difference is negative, and its remainder is
off by that of `2 ^ 64`. -/
def countedBytes (rbuf : DvbRingbuffer) (d : Nat) : Nat :=
  if rbuf.pread + d < rbuf.size then d else (d + sizeT % rbuf.size) % rbuf.size

/-- The `budget` bytes from `idx` on, read as packets, show no ready one. -/
def BehindQuiet (rbuf : DvbRingbuffer) (budget idx : Nat) : Prop :=
  if budget ≤ 3 then True
  else
    rbuf.mem ((idx + 2) % rbuf.size) ≠ pktReady ∧
      BehindQuiet rbuf (budget - (pktLen rbuf idx + 3)) ((idx + pktLen rbuf idx + 3) % rbuf.size)
termination_by budget
decreasing_by omega

/-- Going on from the packet that ends `d` bytes behind the read pointer, with `rest`
behind it: the count leaves room for the next ready packet, or, without one, the bytes
behind the last packet are not taken for one. -/
def CountsBehind (rbuf : DvbRingbuffer) (d : Nat) (rest : List RingPacket) : Prop :=
  match rest.dropWhile RingPacket.disposed with
  | [] =>
    d ≤ countedBytes rbuf d + 3 ∨ BehindQuiet rbuf (d - countedBytes rbuf d) rbuf.pwrite
  | next :: after => countedBytes rbuf d + 3 < d + packetBytes (next :: after)

theorem pktLen_le (rbuf : DvbRingbuffer) (idx : Nat) : pktLen rbuf idx ≤ 65535 := by
  have hfirst : (rbuf.mem idx).toNat <<< 8 < 2 ^ 16 := by
    rw [shiftLeft_eq]
    have := (rbuf.mem idx).toNat_lt
    omega
  have hnext : (rbuf.mem ((idx + 1) % rbuf.size)).toNat < 2 ^ 16 := (toNat_lt _).trans (by decide)
  exact le_of_lt_succ (or_lt_two_pow hfirst hnext)

theorem toInt_of_range {value : Int} (hnonneg : 0 ≤ value) (hlt : value < 2 ^ 31) :
    toInt value = value := by
  rw [toInt, Int.bmod_def]
  omega

theorem countedBytes_eq {d : Nat} (hpread : rbuf.pread < rbuf.size) (hd : d < rbuf.size)
    (hsize : rbuf.size ≤ sizeT) :
    ((rbuf.pread + d) % rbuf.size + sizeT - rbuf.pread) % sizeT % rbuf.size =
      countedBytes rbuf d := by
  rw [add_mod_of_le hpread hd.le, countedBytes]
  split_ifs with hplain
  · rw [show rbuf.pread + d + sizeT - rbuf.pread = d + sizeT by omega, add_mod_right,
      mod_eq_of_lt (show d < sizeT by omega), mod_eq_of_lt hd]
  have hwrapped : rbuf.pread + d - rbuf.size + sizeT - rbuf.pread = sizeT + d - rbuf.size := by
    omega
  rw [hwrapped, mod_eq_of_lt (show sizeT + d - rbuf.size < sizeT by omega),
    ← mod_eq_sub_mod (by omega), add_comm, add_mod_mod]

section Scan

variable {rbuf : DvbRingbuffer} {fuel idx : Nat} {consumed : Int}

theorem pktNextScan_done (hdone : dvbRingbufferAvail rbuf - consumed ≤ 3) :
    pktNextScan rbuf (fuel + 1) idx consumed = some none := by
  have hnot : ¬ dvbRingbufferAvail rbuf - consumed > (pktHdrSize : Nat) := not_lt.mpr hdone
  rw [pktNextScan, if_neg hnot]

theorem pktNextScan_ready (hmore : 3 < dvbRingbufferAvail rbuf - consumed)
    (hready : rbuf.mem ((idx + 2) % rbuf.size) = pktReady) :
    pktNextScan rbuf (fuel + 1) idx consumed = some (some (idx, pktLen rbuf idx)) := by
  have hpos : dvbRingbufferAvail rbuf - consumed > (pktHdrSize : Nat) := hmore
  rw [pktNextScan, if_pos hpos, if_pos hready]

/-- A packet is passed over and counted; the count stays inside an `int`. -/
theorem pktNextScan_skip (hint : rbuf.size + 65538 ≤ 2 ^ 31)
    (havail : dvbRingbufferAvail rbuf < rbuf.size) (hnonneg : 0 ≤ consumed)
    (hmore : 3 < dvbRingbufferAvail rbuf - consumed)
    (hskip : rbuf.mem ((idx + 2) % rbuf.size) ≠ pktReady) :
    pktNextScan rbuf (fuel + 1) idx consumed =
      pktNextScan rbuf fuel ((idx + pktLen rbuf idx + 3) % rbuf.size)
        (consumed + (pktLen rbuf idx + 3 : Nat)) := by
  have hpos : dvbRingbufferAvail rbuf - consumed > (pktHdrSize : Nat) := hmore
  have hlen := pktLen_le rbuf idx
  have hcount : toInt (consumed + (pktLen rbuf idx + 3 : Nat)) =
      consumed + (pktLen rbuf idx + 3 : Nat) := toInt_of_range (by omega) (by omega)
  rw [pktNextScan, if_pos hpos, if_neg hskip, pktHdrSize, hcount]

end Scan

theorem head_ready_of_dropWhile (queue : List RingPacket) :
    ∀ p ∈ (queue.dropWhile RingPacket.disposed).head?, p.disposed = false := by
  intro p hp
  have hhead := List.head?_dropWhile_not disposed queue
  rw [mem_def.mp hp] at hhead
  simpa using hhead

variable {fuel pos : Nat} {consumed : Int} {rbuf : DvbRingbuffer}
  {queue rest holes : List RingPacket} (hint : rbuf.size + 65538 ≤ 2 ^ 31)
include hint

/-- Behind the contents the loop reads on until its count is used up. -/
theorem pktNextScan_quiet {idx : Nat} (havail : dvbRingbufferAvail rbuf < rbuf.size)
    (hnonneg : 0 ≤ consumed) (hfuel : (dvbRingbufferAvail rbuf - consumed).toNat < fuel) :
    pktNextScan rbuf fuel idx consumed = some none ↔
      BehindQuiet rbuf (dvbRingbufferAvail rbuf - consumed).toNat idx := by
  induction fuel generalizing idx consumed with
  | zero => omega
  | succ fuel ih =>
    rw [BehindQuiet]
    rcases lt_or_ge 3 (dvbRingbufferAvail rbuf - consumed) with hmore | hdone
    · have hbudget : (dvbRingbufferAvail rbuf - (consumed + (pktLen rbuf idx + 3 : Nat))).toNat =
          (dvbRingbufferAvail rbuf - consumed).toNat - (pktLen rbuf idx + 3) := by omega
      rw [if_neg (by omega)]
      by_cases hready : rbuf.mem ((idx + 2) % rbuf.size) = pktReady
      · rw [pktNextScan_ready hmore hready]
        simp [hready]
      · rw [pktNextScan_skip hint havail hnonneg hmore hready, ih (by omega) (by omega), hbudget]
        exact ⟨fun hquiet => ⟨hready, hquiet⟩, fun hquiet => hquiet.2⟩
    · rw [pktNextScan_done hdone, if_pos (by omega)]
      simp

omit hint in
theorem Contents.avail_lt (hc : Contents rbuf pos queue) : dvbRingbufferAvail rbuf < rbuf.size := by
  rw [hc.avail]
  exact_mod_cast hc.room

theorem pktNextScan_hole {hole : RingPacket} (hc : Contents rbuf pos (before ++ hole :: rest))
    (hhole : hole.disposed = true) (hnonneg : 0 ≤ consumed)
    (hmore : 3 < dvbRingbufferAvail rbuf - consumed) :
    pktNextScan rbuf (fuel + 1) ((pos + packetBytes before) % rbuf.size) consumed =
      pktNextScan rbuf fuel ((pos + packetBytes (before ++ [hole])) % rbuf.size)
        (consumed + hole.span) := by
  obtain ⟨-, -, hfits, hbytes, -⟩ := append.mp hc.holds
  have hskip : rbuf.mem (((pos + packetBytes before) % rbuf.size + 2) % rbuf.size) ≠ pktReady := by
    rw [status_of_window hbytes, status, hhole]
    decide
  rw [pktNextScan_skip hint hc.avail_lt hnonneg hmore hskip, pktLen_of_window hfits hbytes,
    add_assoc, mod_add_mod, add_assoc pos, packetBytes_append, packetBytes_cons,
    packetBytes_nil, add_zero]
  rfl

/-- The loop at a packet of the contents, with `consumed` for its place: the disposed
ones are passed over and counted up to the first ready one. -/
theorem pktNextScan_live {next : RingPacket}
    (hc : Contents rbuf pos (before ++ (holes ++ next :: after)))
    (hholes : ∀ p ∈ holes, p.disposed = true) (hnext : next.disposed = false)
    (hnonneg : 0 ≤ consumed) (hfuel : holes.length < fuel) :
    pktNextScan rbuf fuel ((pos + packetBytes before) % rbuf.size) consumed =
      if consumed + 3 < packetBytes before + packetBytes (next :: after) then
        some (some (next.idx, next.data.length))
      else some none := by
  induction holes generalizing before consumed fuel with
  | nil =>
    obtain ⟨fuel, rfl⟩ := exists_eq_succ_of_ne_zero (ne_of_gt hfuel)
    obtain ⟨-, hidx, hfits, hbytes, -⟩ := append.mp hc.holds
    have havail := hc.avail
    simp only [nil_append, packetBytes_append] at havail
    have hready := status_of_window hbytes
    rw [status, hnext] at hready
    split_ifs with hroom
    · rw [pktNextScan_ready (by rw [havail]; push_cast; omega) hready,
        pktLen_of_window hfits hbytes, hidx]
    · rw [pktNextScan_done (by rw [havail]; push_cast; omega)]
  | cons hole holes ih =>
    obtain ⟨fuel, rfl⟩ := exists_eq_succ_of_ne_zero (ne_of_gt (zero_lt_of_lt hfuel))
    have havail := hc.avail
    simp only [cons_append, packetBytes_append, packetBytes_cons] at havail
    rcases lt_or_ge 3 (dvbRingbufferAvail rbuf - consumed) with hmore | hdone
    · have hmoved : Contents rbuf pos ((before ++ [hole]) ++ (holes ++ next :: after)) := by
        simpa using hc
      have hstep := ih hmoved (fun p hp => hholes p (mem_cons_of_mem hole hp))
        (show 0 ≤ consumed + (hole.span : Int) by omega) (lt_of_succ_lt_succ hfuel)
      rw [pktNextScan_hole hint hc (hholes hole mem_cons_self) hnonneg hmore, hstep]
      congr 1
      simp only [packetBytes_append, packetBytes_cons, packetBytes_nil]
      push_cast
      apply propext
      constructor <;> intro hroom <;> omega
    · rw [pktNextScan_done hdone, if_neg]
      rw [packetBytes_cons]
      push_cast
      omega

/-- Without a ready packet the loop comes to the end of the contents, with what the count
lacks still to go. -/
theorem pktNextScan_end (hc : Contents rbuf pos (before ++ holes))
    (hholes : ∀ p ∈ holes, p.disposed = true) (hnonneg : 0 ≤ consumed)
    (hfuel : holes.length + (packetBytes before - consumed).toNat < fuel) :
    pktNextScan rbuf fuel ((pos + packetBytes before) % rbuf.size) consumed = some none ↔
      packetBytes before ≤ consumed + 3 ∨
        BehindQuiet rbuf (packetBytes before - consumed).toNat rbuf.pwrite := by
  induction holes generalizing before consumed fuel with
  | nil =>
    have havail := hc.avail
    rw [append_nil] at hc havail
    rw [← hc.pwrite, pktNextScan_quiet hint hc.avail_lt hnonneg (by rw [havail]; omega), havail]
    constructor
    · exact .inr
    rintro (hshort | hquiet)
    · rw [BehindQuiet, if_pos (by omega)]
      trivial
    · exact hquiet
  | cons hole holes ih =>
    obtain ⟨fuel, rfl⟩ := exists_eq_succ_of_ne_zero (ne_of_gt (zero_lt_of_lt hfuel))
    have havail := hc.avail
    simp only [packetBytes_append, packetBytes_cons] at havail
    rcases lt_or_ge 3 (dvbRingbufferAvail rbuf - consumed) with hmore | hdone
    · have hmoved : Contents rbuf pos ((before ++ [hole]) ++ holes) := by simpa using hc
      have hslack : (packetBytes (before ++ [hole]) : Int) - (consumed + hole.span) =
          packetBytes before - consumed := by
        simp only [packetBytes_append, packetBytes_cons, packetBytes_nil]
        push_cast
        omega
      rw [length_cons] at hfuel
      have hstep := ih hmoved (fun p hp => hholes p (mem_cons_of_mem hole hp))
        (show 0 ≤ consumed + (hole.span : Int) by omega)
        (show holes.length + (packetBytes (before ++ [hole]) - (consumed + hole.span)).toNat <
          fuel by rw [hslack]; omega)
      rw [pktNextScan_hole hint hc (hholes hole mem_cons_self) hnonneg hmore, hstep, hslack]
      have hsame : (packetBytes (before ++ [hole]) : Int) ≤ consumed + hole.span + 3 ↔
          (packetBytes before : Int) ≤ consumed + 3 := by
        constructor <;> intro hshort <;> omega
      rw [hsame]
    · rw [pktNextScan_done hdone]
      simp only [true_iff]
      exact .inl (by omega)

/-- What `dvb_ringbuffer_pkt_next` reports of a packet. -/
def RingPacket.entry (p : RingPacket) : Nat × Nat :=
  (p.idx, p.data.length)

def firstReady (queue : List RingPacket) : Option RingPacket :=
  (queue.dropWhile RingPacket.disposed).head?

omit hint in
theorem pktNext_first (hc : Contents rbuf pos queue)
    (hfront : ∀ p ∈ queue.head?, p.disposed = false) :
    dvbRingbufferPktNext rbuf none = some (queue.head?.map RingPacket.entry) := by
  have hzero : toInt (((rbuf.pread + sizeT - rbuf.pread) % sizeT % rbuf.size : Nat) : Int) = 0 := by
    rw [Nat.add_sub_cancel_left, Nat.mod_self, Nat.zero_mod]
    rfl
  simp only [dvbRingbufferPktNext, hzero]
  rcases queue with _ | ⟨p, rest⟩
  · rw [pktNextScan_done (by rw [hc.avail]; simp)]
    rfl
  obtain ⟨hidx, hfits, hbytes, -⟩ := hc.holds
  have hready := status_of_window hbytes
  rw [RingPacket.status, hfront p rfl, ← hc.pread] at hready
  have hlen := hfits.1
  have hmore : 3 < dvbRingbufferAvail rbuf - 0 := by
    rw [hc.avail, packetBytes_cons, RingPacket.span, pktHdrSize]
    push_cast
    omega
  rw [pktNextScan_ready hmore hready, hc.pread, pktLen_of_window hfits hbytes, ← hidx]
  rfl

/-- `dvb_ringbuffer_pkt_next` from a packet finds the next ready one exactly when the
count is right for it. -/
theorem pktNext_iff (hc : Contents rbuf pos (before ++ p :: rest)) :
    dvbRingbufferPktNext rbuf (some p.idx) = some ((firstReady rest).map RingPacket.entry) ↔
      CountsBehind rbuf (packetBytes (before ++ [p])) rest := by
  obtain ⟨-, hidx, hfits, hbytes, -⟩ := append.mp hc.holds
  have hroom := hc.room
  have hcell : rbuf.pread < rbuf.size := by
    rw [hc.pread]
    exact mod_lt pos hc.size_pos
  have hend : packetBytes (before ++ [p]) < rbuf.size := by
    simp only [packetBytes_append, packetBytes_cons, packetBytes_nil] at hroom ⊢
    omega
  have hplace : (p.idx + pktLen rbuf p.idx + pktHdrSize) % rbuf.size =
      (pos + packetBytes (before ++ [p])) % rbuf.size := by
    rw [hidx, pktLen_of_window hfits hbytes, add_assoc, mod_add_mod, packetBytes_append,
      packetBytes_cons, packetBytes_nil, add_zero, add_assoc pos]
    rfl
  have hpread : (pos + packetBytes (before ++ [p])) % rbuf.size =
      (rbuf.pread + packetBytes (before ++ [p])) % rbuf.size := by
    rw [hc.pread, mod_add_mod]
  have hcounted : countedBytes rbuf (packetBytes (before ++ [p])) < rbuf.size := by
    rw [countedBytes]
    split_ifs
    · exact hend
    · exact mod_lt _ hc.size_pos
  have hcount : toInt ((((pos + packetBytes (before ++ [p])) % rbuf.size + sizeT - rbuf.pread) %
      sizeT % rbuf.size : Nat) : Int) = countedBytes rbuf (packetBytes (before ++ [p])) := by
    rw [hpread, countedBytes_eq hcell hend (by simp only [sizeT]; omega)]
    exact toInt_of_range (by omega) (by omega)
  simp only [dvbRingbufferPktNext, hplace, hcount]
  have hsplit := takeWhile_append_dropWhile (p := disposed) (l := rest)
  have hholes : ∀ q ∈ rest.takeWhile disposed, q.disposed = true :=
    List.all_eq_true.mp all_takeWhile
  generalize rest.takeWhile disposed = holes at hsplit hholes
  unfold CountsBehind firstReady
  cases htail : rest.dropWhile disposed with
  | nil =>
    rw [htail, append_nil] at hsplit
    subst hsplit
    have hmoved : Contents rbuf pos ((before ++ [p]) ++ holes) := by simpa using hc
    have hshort := length_le_packetBytes holes
    have htotal := hmoved.room
    rw [packetBytes_append] at htotal
    have hscan := pktNextScan_end hint hmoved hholes
      (Int.natCast_nonneg (countedBytes rbuf (packetBytes (before ++ [p]))))
      (show _ < rbuf.size + 1 by omega)
    dsimp only [List.head?_nil, map_none]
    rw [hscan, show ((packetBytes (before ++ [p]) : Int) -
      countedBytes rbuf (packetBytes (before ++ [p]))).toNat =
      packetBytes (before ++ [p]) - countedBytes rbuf (packetBytes (before ++ [p])) by omega]
    apply or_congr_left
    constructor <;> intro hle <;> omega
  | cons next after =>
    have hready := head_ready_of_dropWhile rest
    rw [htail] at hsplit hready
    have hnext := hready next rfl
    have hmoved : Contents rbuf pos ((before ++ [p]) ++ (holes ++ next :: after)) := by
      rw [hsplit]
      simpa using hc
    have hshort := length_le_packetBytes holes
    have htotal := hmoved.room
    simp only [packetBytes_append] at htotal
    have hscan := pktNextScan_live hint hmoved hholes hnext
      (Int.natCast_nonneg (countedBytes rbuf (packetBytes (before ++ [p]))))
      (show holes.length < rbuf.size + 1 by omega)
    rw [hscan]
    rcases lt_or_ge (countedBytes rbuf (packetBytes (before ++ [p])) + 3)
      (packetBytes (before ++ [p]) + packetBytes (next :: after)) with hin | hpast
    · rw [if_pos (by exact_mod_cast hin)]
      exact ⟨fun _ => hin, fun _ => rfl⟩
    rw [if_neg (not_lt.mpr (by exact_mod_cast hpast))]
    constructor
    · intro hfound
      cases hfound
    · intro hin
      exact absurd hin hpast.not_gt

end TbsMedia.DvbCore
