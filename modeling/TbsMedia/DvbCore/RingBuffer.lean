import TbsMedia.Lib.Ring

/-!
`dvb_ringbuffer.c`: a byte ring with one cell kept free, so that equal pointers
mean an empty buffer. The `pkt` functions keep packets in it, each behind a header
of its length and its status, and hand them around by the index of that header.
-/

namespace TbsMedia.DvbCore

open Lib

/-- `struct dvb_ringbuffer`; `data` is null until the buffer gets its memory, and
`error` is zero or a negative error number. -/
structure DvbRingbuffer where
  data : Option (Mem UInt8)
  size : Nat
  pread : Nat
  pwrite : Nat
  error : Int
deriving Inhabited

def dvbRingbufferInit (data : Option (Mem UInt8)) (len : Nat) : DvbRingbuffer :=
  { data := data, size := len, pread := 0, pwrite := 0, error := 0 }

variable (rbuf : DvbRingbuffer)

def dvbRingbufferEmpty : Bool :=
  rbuf.pread == rbuf.pwrite

def dvbRingbufferFree : Int :=
  let free : Int := rbuf.pread - rbuf.pwrite
  (if free ≤ 0 then free + rbuf.size else free) - 1

def dvbRingbufferAvail : Int :=
  let avail : Int := rbuf.pwrite - rbuf.pread
  if avail < 0 then avail + rbuf.size else avail

variable {n pos : Nat} {rbuf}

section

variable (hpread : rbuf.pread = pos % rbuf.size) (hpwrite : rbuf.pwrite = (pos + n) % rbuf.size)
  (hn : n < rbuf.size)
include hpread hpwrite hn

/-- The pointers as positions: `n` bytes between them are available, and the rest but
one cell is free. -/
theorem avail_of_positions : dvbRingbufferAvail rbuf = n := by
  have hsize := Nat.zero_lt_of_lt hn
  simp only [dvbRingbufferAvail, hpread, hpwrite, Mem.add_mod_step pos hsize hn.le]
  split_ifs <;> omega

theorem free_of_positions : dvbRingbufferFree rbuf = rbuf.size - 1 - n := by
  have hsize := Nat.zero_lt_of_lt hn
  simp only [dvbRingbufferFree, hpread, hpwrite, Mem.add_mod_step pos hsize hn.le]
  split_ifs <;> omega

end

section

variable (rbuf)

def dvbRingbufferFlush : DvbRingbuffer :=
  { rbuf with pread := rbuf.pwrite, error := 0 }

def dvbRingbufferReset : DvbRingbuffer :=
  { rbuf with pread := 0, pwrite := 0, error := 0 }

/-- `data` is the memory behind `rbuf->data`. What does not fit before the end
of the ring goes to its front. -/
def dvbRingbufferWrite (data : Mem UInt8) (buf : Bytes) : DvbRingbuffer :=
  let split := if rbuf.pwrite + buf.length > rbuf.size then rbuf.size - rbuf.pwrite else 0
  if split > 0 then
    { rbuf with
      data := some ((data.memcpy rbuf.pwrite (buf.take split)).memcpy 0 (buf.drop split))
      pwrite := (buf.length - split) % rbuf.size }
  else
    { rbuf with
      data := some (data.memcpy rbuf.pwrite buf)
      pwrite := (rbuf.pwrite + buf.length) % rbuf.size }

/-- The memory behind `rbuf->data`, for the functions whose callers have seen that
there is one. -/
def DvbRingbuffer.mem : Mem UInt8 :=
  rbuf.data.getD (fun _ => 0)

/-- The bytes that go to the caller's buffer, and the ring without them. -/
def dvbRingbufferRead (len : Nat) : Bytes × DvbRingbuffer :=
  let split := if rbuf.pread + len > rbuf.size then rbuf.size - rbuf.pread else 0
  if split > 0 then
    (rbuf.mem.read rbuf.pread split ++ rbuf.mem.read 0 (len - split),
      { rbuf with pread := (len - split) % rbuf.size })
  else
    (rbuf.mem.read rbuf.pread len, { rbuf with pread := (rbuf.pread + len) % rbuf.size })

/-- `DVB_RINGBUFFER_PEEK`. -/
def dvbRingbufferPeek (offs : Nat) : UInt8 :=
  rbuf.mem ((rbuf.pread + offs) % rbuf.size)

/-- `DVB_RINGBUFFER_SKIP`. -/
def dvbRingbufferSkip (num : Nat) : DvbRingbuffer :=
  { rbuf with pread := (rbuf.pread + num) % rbuf.size }

/-- `DVB_RINGBUFFER_WRITE_BYTE`. -/
def dvbRingbufferWriteByte (byte : UInt8) : DvbRingbuffer :=
  { rbuf with
    data := some (Function.update rbuf.mem rbuf.pwrite byte)
    pwrite := (rbuf.pwrite + 1) % rbuf.size }

def pktReady : UInt8 := 0

def pktDisposed : UInt8 := 1

/-- `DVB_RINGBUFFER_PKTHDRSIZE`. -/
def pktHdrSize : Nat := 3

/-- A value stored in an `int`. -/
def toInt (value : Int) : Int :=
  value.bmod (2 ^ 32)

/-- The number of values of `size_t`. -/
def sizeT : Nat := 2 ^ 64

/-- The status that comes back is the length in an `int`. -/
def dvbRingbufferPktWrite (buf : Bytes) : Int × DvbRingbuffer :=
  let rbuf1 := dvbRingbufferWriteByte rbuf (UInt8.ofNat (buf.length >>> 8))
  let rbuf2 := dvbRingbufferWriteByte rbuf1 (UInt8.ofNat (buf.length &&& 0xff))
  let rbuf3 := dvbRingbufferWriteByte rbuf2 pktReady
  let rbuf4 := dvbRingbufferWrite rbuf3 rbuf3.mem buf
  let status := toInt buf.length
  if status < 0 then (status, { rbuf4 with pwrite := rbuf.pwrite }) else (status, rbuf4)

/-- The length in the header at `idx`. -/
def pktLen (idx : Nat) : Nat :=
  (rbuf.mem idx).toNat <<< 8 ||| (rbuf.mem ((idx + 1) % rbuf.size)).toNat

/-- The bytes that are copied, or nothing for `-EINVAL`. A negative offset is a
`size_t` beyond every length. -/
def dvbRingbufferPktRead (idx : Nat) (offset : Int) (len : Nat) : Option Bytes :=
  let pktlen := pktLen rbuf idx
  let offset := (offset % sizeT).toNat
  if offset > pktlen then none
  else
    let len := if (offset + len) % sizeT > pktlen then pktlen - offset else len
    some (rbuf.mem.ringRead rbuf.size ((idx + pktHdrSize + offset) % rbuf.size) len)

end

inductive UserRead where
  | einval
  | efault
  | copied (bytes : Bytes)

/-- As above, into user memory at `dst`; `userOk` says which stretches of it can be
written. What a copy that faults has already written is not kept. -/
def dvbRingbufferPktReadUser (userOk : Nat → Nat → Bool) (rbuf : DvbRingbuffer) (idx : Nat)
    (offset : Int) (dst len : Nat) : UserRead :=
  let pktlen := pktLen rbuf idx
  let offset := (offset % sizeT).toNat
  if offset > pktlen then .einval
  else
    let len := if (offset + len) % sizeT > pktlen then pktlen - offset else len
    let start := (idx + pktHdrSize + offset) % rbuf.size
    let split := if start + len > rbuf.size then rbuf.size - start else 0
    if (if split > 0 then userOk dst split && userOk (dst + split) (len - split)
        else userOk dst len) then
      .copied (rbuf.mem.ringRead rbuf.size start len)
    else .efault

def DvbRingbuffer.waiting (rbuf : DvbRingbuffer) : Bytes :=
  rbuf.mem.window rbuf.size rbuf.pread (dvbRingbufferAvail rbuf).toNat

/-- `userOk` says which stretches of the user's memory can be written. The part up to the
end of the array is taken from the ring before the rest is copied. -/
def dvbRingbufferReadUser (userOk : Nat → Nat → Bool) (rbuf : DvbRingbuffer) (dst len : Nat) :
    UserRead × DvbRingbuffer :=
  let split := if rbuf.pread + len > rbuf.size then rbuf.size - rbuf.pread else 0
  let todo := len - split
  if split > 0 && !userOk dst split then (.efault, rbuf)
  else
    let first := rbuf.mem.read rbuf.pread split
    let rbuf := if split > 0 then { rbuf with pread := 0 } else rbuf
    if !userOk (dst + split) todo then (.efault, rbuf)
    else
      (.copied (first ++ rbuf.mem.read rbuf.pread todo),
        { rbuf with pread := (rbuf.pread + todo) % rbuf.size })

theorem waiting_front_ne (hread : rbuf.pread < rbuf.size) (hwrite : rbuf.pwrite < rbuf.pread) :
    { rbuf with pread := 0 }.waiting ≠ rbuf.waiting := by
  intro heq
  have hlen := congrArg List.length heq
  simp only [DvbRingbuffer.waiting, Mem.length_window, dvbRingbufferAvail] at hlen
  split_ifs at hlen
  all_goals omega

/-- A read that faults leaves the waiting bytes as they were exactly if it does not reach
over the end of the array, or its first part faults. -/
theorem faulting_read_keeps_iff (userOk : Nat → Nat → Bool) (rbuf : DvbRingbuffer)
    (hread : rbuf.pread < rbuf.size) (hwrite : rbuf.pwrite < rbuf.size) (dst len : Nat)
    (hlen : len ≤ dvbRingbufferAvail rbuf)
    (hfault : (dvbRingbufferReadUser userOk rbuf dst len).1 = .efault) :
    (dvbRingbufferReadUser userOk rbuf dst len).2.waiting = rbuf.waiting ↔
      rbuf.pread + len ≤ rbuf.size ∨ userOk dst (rbuf.size - rbuf.pread) = false := by
  unfold dvbRingbufferReadUser at hfault ⊢
  rcases lt_or_ge rbuf.size (rbuf.pread + len) with hover | hplain
  · have hsplit : 0 < rbuf.size - rbuf.pread := by omega
    have hbehind : rbuf.pwrite < rbuf.pread := by
      unfold dvbRingbufferAvail at hlen
      dsimp only at hlen
      split_ifs at hlen
      all_goals omega
    rcases hfirst : userOk dst (rbuf.size - rbuf.pread) with _ | _
    · simp [hover, hsplit, hfirst]
    have hsecond : userOk (dst + (rbuf.size - rbuf.pread)) (len - (rbuf.size - rbuf.pread)) =
        false := by
      by_contra hok
      simp [hover, hsplit, hfirst, hok] at hfault
    simp [hover, hsplit, hfirst, hsecond, waiting_front_ne hread hbehind, hover.not_ge]
  · cases hcopy : userOk dst len with
    | false => simp [hplain.not_gt, hplain, hcopy]
    | true => simp [hplain.not_gt, hcopy] at hfault

def wrappedRing : DvbRingbuffer :=
  { dvbRingbufferInit (some fun i => UInt8.ofNat (i + 1)) 4 with pread := 3, pwrite := 1 }

theorem faulting_read_keeps_first :
    (dvbRingbufferReadUser (fun _ _ => false) wrappedRing 0 2).2.waiting = wrappedRing.waiting ↔
      wrappedRing.pread + 2 ≤ wrappedRing.size ∨ false = false :=
  faulting_read_keeps_iff (fun _ _ => false) wrappedRing (by decide) (by decide) 0 2 (by decide) rfl

/-- Only the first of two bytes can be copied: it is gone. -/
theorem faulting_read_loses_byte :
    (dvbRingbufferReadUser (fun dst _ => dst == 0) wrappedRing 0 2).1 = .efault ∧
      wrappedRing.waiting = [4, 1] ∧
      (dvbRingbufferReadUser (fun dst _ => dst == 0) wrappedRing 0 2).2.waiting = [1] :=
  ⟨rfl, by decide, by decide⟩

/-- The clean-up loop of `dvb_ringbuffer_pkt_dispose`. -/
def pktDisposeClean : Nat → DvbRingbuffer → Option DvbRingbuffer
  | 0, _ => none
  | fuel + 1, rbuf =>
    if dvbRingbufferAvail rbuf > pktHdrSize then
      if dvbRingbufferPeek rbuf 2 = pktDisposed then
        let pktlen :=
          (dvbRingbufferPeek rbuf 0).toNat <<< 8 ||| (dvbRingbufferPeek rbuf 1).toNat
        pktDisposeClean fuel (dvbRingbufferSkip rbuf (pktlen + pktHdrSize))
      else some rbuf
    else some rbuf

/-- `none` stands for a call that never comes back: after more rounds than `pread`
has values the loop goes in a circle. -/
def dvbRingbufferPktDispose (rbuf : DvbRingbuffer) (idx : Nat) : Option DvbRingbuffer :=
  pktDisposeClean (rbuf.size + 1)
    { rbuf with data := some (Function.update rbuf.mem ((idx + 2) % rbuf.size) pktDisposed) }

/-- The loop of `dvb_ringbuffer_pkt_next`. -/
def pktNextScan (rbuf : DvbRingbuffer) : Nat → Nat → Int → Option (Option (Nat × Nat))
  | 0, _, _ => none
  | fuel + 1, idx, consumed =>
    if dvbRingbufferAvail rbuf - consumed > pktHdrSize then
      let curpktlen := pktLen rbuf idx
      if rbuf.mem ((idx + 2) % rbuf.size) = pktReady then some (some (idx, curpktlen))
      else
        pktNextScan rbuf fuel ((idx + curpktlen + pktHdrSize) % rbuf.size)
          (toInt (consumed + (curpktlen + pktHdrSize : Nat)))
    else some none

/-- The index and length of the packet behind the one at `idx`, of the first one
without an index (`-1`). `none` outside stands for a call that is not back after more
rounds than the ring has bytes, which takes an overflow of `consumed`. -/
def dvbRingbufferPktNext (rbuf : DvbRingbuffer) (idx : Option Nat) : Option (Option (Nat × Nat)) :=
  let idx :=
    match idx with
    | none => rbuf.pread
    | some idx => (idx + pktLen rbuf idx + pktHdrSize) % rbuf.size
  let consumed := toInt (((idx + sizeT - rbuf.pread) % sizeT % rbuf.size : Nat) : Int)
  pktNextScan rbuf (rbuf.size + 1) idx consumed

end TbsMedia.DvbCore
