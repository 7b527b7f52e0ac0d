import TbsMedia.DvbCore.Dmxdev
import TbsMedia.DvbCore.PacketRing

/-!
Reads of a section filter. `dvb_dmxdev_read_sec` keeps one counter beside the buffer: what
is missing of a header, as a negative number, or of a body. On an error the buffer is
flushed, and the counter is only set back if the error met a header.
-/

namespace TbsMedia.DvbCore

open Lib List Option Mem Nat

variable {nf nq : Nat}

def ewouldblock : Int := 11
def erestartsys : Int := 512

/-- The loop of `dvb_dmxdev_buffer_read`: what it returns, the bytes it has copied and the
buffer. Where it would wait there is a signal, or it does not come back; a read that is woken
up by a section is one that comes after the section. -/
def bufferReadLoop (nonBlocking signal : Bool) :
    Nat → Nat → Bytes → DvbRingbuffer → Option (Int × Bytes × DvbRingbuffer)
  | 0, _, _, _ => none
  | fuel + 1, todo, copied, src =>
    let stop (ret : Int) (src : DvbRingbuffer) :=
      some (if copied.length ≠ 0 then (copied.length : Int) else ret, copied, src)
    if todo = 0 then stop 0 src
    else if nonBlocking ∧ dvbRingbufferEmpty src then stop (-ewouldblock) src
    else if dvbRingbufferEmpty src ∧ src.error = 0 then
      if signal then stop (-erestartsys) src else none
    else if src.error ≠ 0 then stop src.error (dvbRingbufferFlush src)
    else
      let avail := min (dvbRingbufferAvail src).toNat todo
      let out := dvbRingbufferRead src avail
      bufferReadLoop nonBlocking signal fuel (todo - avail) (copied ++ out.1) out.2

/-- Every round but the last copies something. -/
def dvbDmxdevBufferRead (nonBlocking signal : Bool) (src : DvbRingbuffer) (count : Nat) :
    Option (Int × Bytes × DvbRingbuffer) :=
  if src.data.isNone then some (0, [], src)
  else if src.error ≠ 0 then some (src.error, [], dvbRingbufferFlush src)
  else bufferReadLoop nonBlocking signal (count + 1) count [] src

/-- A filter with its `secheader`. -/
structure SectionReader (nf nq : Nat) where
  dfil : DmxdevFilter nf nq
  secheader : Mem UInt8

structure ReadCall where
  nonBlocking : Bool
  signal : Bool
  count : Nat

def headerLength (header : Mem UInt8) : Nat :=
  ((header 1).toNat <<< 8 ||| (header 2).toNat) &&& 0xfff

/-- The second half of `dvb_dmxdev_read_sec`, after `done` bytes of a header. -/
def readBody (call : ReadCall) (done : Bytes) (s : SectionReader nf nq) :
    Option (Int × Bytes × SectionReader nf nq) :=
  let count := min (call.count - done.length) s.dfil.todo.toNat
  (dvbDmxdevBufferRead call.nonBlocking call.signal s.dfil.buffer count).map
    fun (result, bytes, buffer) =>
      if result < 0 then (result, [], { s with dfil := { s.dfil with buffer := buffer } })
      else (result + done.length, done ++ bytes, { s with dfil := { s.dfil with
        buffer := buffer, todo := s.dfil.todo - result } })

/-- The first half of `dvb_dmxdev_read_sec`: what it returns, or the bytes of the header with
which it goes on to the body. -/
def readHeader (call : ReadCall) (s : SectionReader nf nq) :
    Option ((Int × Bytes × SectionReader nf nq) ⊕ (Bytes × SectionReader nf nq)) :=
  if s.dfil.todo ≤ 0 then
    let hcount := min (3 + s.dfil.todo).toNat call.count
    (dvbDmxdevBufferRead call.nonBlocking call.signal s.dfil.buffer hcount).map
      fun (result, bytes, buffer) =>
        if result < 0 then
          .inl (result, [], { s with dfil := { s.dfil with buffer := buffer, todo := 0 } })
        else
          let secheader := s.secheader.memcpy (-s.dfil.todo).toNat bytes
          let todo := s.dfil.todo - result
          if todo > -3 then
            .inl (result, bytes, ⟨{ s.dfil with buffer := buffer, todo := todo }, secheader⟩)
          else
            let s : SectionReader nf nq := ⟨{ s.dfil with
              buffer := buffer, todo := headerLength secheader }, secheader⟩
            if call.count - bytes.length = 0 then .inl (result, bytes, s) else .inr (bytes, s)
  else some (.inr ([], s))

/-- What comes back, and the bytes that it tells of; user memory can be read and written. -/
def dvbDmxdevReadSec (call : ReadCall) (s : SectionReader nf nq) :
    Option (Int × Bytes × SectionReader nf nq) :=
  (readHeader call s).bind fun
    | .inl out => some out
    | .inr (done, s) => readBody call done s

/-- `dvb_dmxdev_section_callback`, with its test before the lock. -/
def sectionCallback (dfil : DmxdevFilter nf nq) (buffers : Bytes × Bytes) : DmxdevFilter nf nq :=
  if dfil.buffer.error ≠ 0 then dfil
  else dvbDmxdevSectionCallback buffers.1 buffers.2 dfil

/-! The buffer as the bytes it holds. -/

structure BufferHolds (rbuf : DvbRingbuffer) (content : Bytes) : Prop where
  data : rbuf.data.isSome
  error : rbuf.error = 0
  room : content.length < rbuf.size
  ring : ∃ pos, rbuf.pread = pos % rbuf.size ∧ rbuf.pwrite = (pos + content.length) % rbuf.size ∧
    rbuf.mem.window rbuf.size pos content.length = content

structure Overflowed (rbuf : DvbRingbuffer) : Prop where
  data : rbuf.data.isSome
  error : rbuf.error = -eoverflow
  pwrite : rbuf.pwrite < rbuf.size

section Buffer

variable {rbuf : DvbRingbuffer} {content src : Bytes}

section

variable (h : BufferHolds rbuf content)
include h

theorem BufferHolds.empty : dvbRingbufferEmpty rbuf = content.isEmpty := by
  obtain ⟨pos, hread, hwrite, -⟩ := h.ring
  rw [dvbRingbufferEmpty, hread, hwrite]
  have hroom := h.room
  rcases content with _ | ⟨b, rest⟩
  · simp
  rw [length_cons] at hroom ⊢
  have hne := mod_ne_of_lt rbuf.size (p := pos) (q := pos + (rest.length + 1)) (by omega) (by omega)
  simpa using hne

theorem BufferHolds.avail : dvbRingbufferAvail rbuf = content.length := by
  obtain ⟨pos, hread, hwrite, -⟩ := h.ring
  exact avail_of_positions hread hwrite h.room

theorem BufferHolds.read {n : Nat} (hn : n ≤ content.length) :
    (dvbRingbufferRead rbuf n).1 = content.take n ∧
      BufferHolds (dvbRingbufferRead rbuf n).2 (content.drop n) := by
  have hroom := h.room
  obtain ⟨pos, hread, hwrite, hcontent⟩ := h.ring
  have hcell := Nat.mod_lt pos (show 0 < rbuf.size by omega)
  rw [← hread] at hcell
  have hbytes : (dvbRingbufferRead rbuf n).1 = rbuf.mem.ringRead rbuf.size rbuf.pread n := by
    simp only [dvbRingbufferRead, ringRead]
    split_ifs <;> rfl
  have hout : (dvbRingbufferRead rbuf n).2 = { rbuf with pread := (pos + n) % rbuf.size } := by
    rw [← Nat.mod_add_mod, ← hread, dvbRingbufferRead]
    rcases lt_or_ge rbuf.size (rbuf.pread + n) with hsplit | hplain
    · rw [if_pos hsplit, if_pos (by omega), Nat.mod_eq_sub_mod hsplit.le]
      dsimp only
      congr 2
      omega
    · rw [if_neg hplain.not_gt, if_neg (lt_irrefl 0)]
  obtain ⟨rest, hrest⟩ := Nat.exists_eq_add_of_le hn
  rw [hrest, window_add] at hcontent
  have hlen : (content.drop n).length = rest := by
    rw [length_drop]
    omega
  rw [hbytes, hout, ringRead_eq_window _ _ _ _ hcell (by omega), hread, window_mod]
  refine ⟨?_, h.data, h.error, ?_, pos + n, rfl, ?_, ?_⟩
  · rw [← hcontent, take_left' (length_window ..)]
  · rw [hlen]
    change rest < rbuf.size
    omega
  · rw [hlen, add_assoc, ← hrest]
    exact hwrite
  · rw [hlen, ← hcontent, drop_left' (length_window ..)]
    rfl

omit h in
theorem BufferHolds.flush (hdata : rbuf.data.isSome) (hwrite : rbuf.pwrite < rbuf.size) :
    BufferHolds (dvbRingbufferFlush rbuf) [] :=
  ⟨hdata, rfl, zero_lt_of_lt hwrite, rbuf.pwrite, (mod_eq_of_lt hwrite).symm,
    (mod_eq_of_lt hwrite).symm, rfl⟩

theorem BufferHolds.pwrite_lt : rbuf.pwrite < rbuf.size := by
  obtain ⟨pos, -, hwrite, -⟩ := h.ring
  rw [hwrite]
  exact mod_lt _ (zero_lt_of_lt h.room)

theorem BufferHolds.write (hfit : content.length + src.length < rbuf.size) :
    ∃ rbuf', dvbDmxdevBufferWrite rbuf src = ((src.length : Int), rbuf') ∧
      BufferHolds rbuf' (content ++ src) ∧ rbuf'.size = rbuf.size := by
  obtain ⟨pos, hread, hwrite, hcontent⟩ := h.ring
  obtain ⟨data, hdata⟩ := isSome_iff_exists.mp h.data
  obtain rfl : data = rbuf.mem := by simp [DvbRingbuffer.mem, hdata]
  have hfree := free_of_positions hread hwrite h.room
  simp only [dvbDmxdevBufferWrite, hdata]
  split_ifs with hzero hfull
  · rw [length_eq_zero_iff.mp hzero, append_nil]
    exact ⟨rbuf, rfl, h, rfl⟩
  · omega
  have happ := dvbRingbufferWrite_appends rbuf (pos + content.length) src hwrite
    (zero_lt_of_lt hfit) (by omega)
  refine ⟨_, rfl, ⟨?_, ?_, ?_, pos, ?_, ?_, ?_⟩, happ.size⟩
  · rw [dvbRingbufferWrite]
    split_ifs <;> rfl
  · rw [dvbRingbufferWrite]
    split_ifs <;> exact h.error
  · rw [happ.size, length_append]
    exact hfit
  · rw [happ.pread, happ.size, hread]
  · rw [happ.pwrite, happ.size, length_append, add_assoc]
  · rw [happ.size, length_append, window_add, happ.written]
    congr 1
    conv_rhs => rw [← hcontent]
    exact window_congr fun i hi => happ.kept (pos + i) (by omega) (by omega)

theorem BufferHolds.write_full (hfull : rbuf.size ≤ content.length + src.length) :
    dvbDmxdevBufferWrite rbuf src = (-eoverflow, rbuf) := by
  have hroom := h.room
  obtain ⟨pos, hread, hwrite, hcontent⟩ := h.ring
  obtain ⟨data, hdata⟩ := isSome_iff_exists.mp h.data
  have hfree := free_of_positions hread hwrite h.room
  simp only [dvbDmxdevBufferWrite, hdata]
  rw [if_neg (by omega), if_pos (by omega)]

end

variable {n : Nat} (nonBlocking signal : Bool)

theorem BufferHolds.bufferRead (h : BufferHolds rbuf content) (hn : n ≤ content.length) :
    ∃ rbuf', dvbDmxdevBufferRead nonBlocking signal rbuf n =
      some ((n : Int), content.take n, rbuf') ∧ BufferHolds rbuf' (content.drop n) := by
  have hdata := isSome_iff_ne_none.mp h.data
  rw [dvbDmxdevBufferRead, if_neg (by simpa using hdata), if_neg (by simp [h.error])]
  rcases Nat.eq_zero_or_pos n with rfl | hpos
  · exact ⟨rbuf, by simp [bufferReadLoop], by simpa using h⟩
  obtain ⟨hbytes, hholds⟩ := h.read hn
  have hne : content ≠ [] := ne_nil_of_length_pos (by omega)
  obtain ⟨m, rfl⟩ : ∃ m, n = m + 1 := ⟨n - 1, by omega⟩
  refine ⟨_, ?_, hholds⟩
  simp [bufferReadLoop, h.empty, h.error, h.avail, hne, min_eq_right hn, hbytes]
  omega

theorem BufferHolds.bufferRead_empty (h : BufferHolds rbuf []) (hpos : 0 < n) :
    dvbDmxdevBufferRead nonBlocking signal rbuf n =
      if nonBlocking then some (-ewouldblock, [], rbuf)
      else if signal then some (-erestartsys, [], rbuf) else none := by
  have hdata := isSome_iff_ne_none.mp h.data
  rw [dvbDmxdevBufferRead, if_neg (by simpa using hdata)]
  simp [bufferReadLoop, h.empty, h.error, hpos.ne']

theorem Overflowed.bufferRead (h : Overflowed rbuf) (n : Nat) :
    dvbDmxdevBufferRead nonBlocking signal rbuf n =
      some (-eoverflow, [], dvbRingbufferFlush rbuf) := by
  have hdata := isSome_iff_ne_none.mp h.data
  rw [dvbDmxdevBufferRead, if_neg (by simpa using hdata), if_pos (by simp [h.error, eoverflow]),
    h.error]

end Buffer

def IsSection (sec : Bytes) : Prop :=
  3 ≤ sec.length ∧ sec.length = 3 + headerLength (fun i => sec.getD i 0)

instance (sec : Bytes) : Decidable (IsSection sec) :=
  inferInstanceAs (Decidable (_ ∧ _))

structure InSection (sec : Bytes) (k : Nat) (s : SectionReader nf nq) : Prop where
  inside : k ≤ sec.length
  todo : s.dfil.todo = if k < 3 then -(k : Int) else sec.length - k
  header : ∀ i, i < k → i < 3 → s.secheader i = sec.getD i 0

section Reads

variable {s s' : SectionReader nf nq} {sec tail : Bytes} {k : Nat} {call : ReadCall}

theorem readBody_gives (call : ReadCall) (done : Bytes) (hin : InSection sec k s)
    (hk : 3 ≤ k) (h : BufferHolds s.dfil.buffer (sec.drop k ++ tail)) :
    ∃ (n : Nat) (s' : SectionReader nf nq), n = min (call.count - done.length) (sec.length - k) ∧
      readBody call done s = some ((n : Int) + done.length, done ++ (sec.drop k).take n, s') ∧
      InSection sec (k + n) s' ∧ BufferHolds s'.dfil.buffer (sec.drop (k + n) ++ tail) := by
  have hinside := hin.inside
  have hdrop : (sec.drop k).length = sec.length - k := length_drop
  have htodo : s.dfil.todo = sec.length - k := by rw [hin.todo, if_neg (by omega)]
  generalize hn : min (call.count - done.length) (sec.length - k) = n
  obtain ⟨rbuf, hout, hholds⟩ := h.bufferRead (n := n) call.nonBlocking call.signal
    (by rw [length_append]; omega)
  rw [take_append_of_le_length (by omega)] at hout
  rw [drop_append_of_le_length (by omega), drop_drop] at hholds
  have hpos : ¬ (n : Int) < 0 := by omega
  refine ⟨n, { s with dfil := { s.dfil with buffer := rbuf, todo := s.dfil.todo - n } }, rfl, ?_,
    ⟨by omega, ?_, fun i _ hi => hin.header i (by omega) hi⟩, hholds⟩
  · simp [readBody, show min (call.count - done.length) s.dfil.todo.toNat = n by omega, hout, hpos]
  · push_cast
    omega

/-- The header is given as far as it goes; behind it the body comes next. -/
theorem readHeader_gives (call : ReadCall) (hsec : IsSection sec) (hk : k < 3)
    (hin : InSection sec k s) (h : BufferHolds s.dfil.buffer (sec.drop k ++ tail)) :
    ∃ (n : Nat) (s' : SectionReader nf nq), n ≤ call.count ∧ (0 < call.count → 0 < n) ∧
      InSection sec (k + n) s' ∧ BufferHolds s'.dfil.buffer (sec.drop (k + n) ++ tail) ∧
      (readHeader call s = some (.inl ((n : Int), (sec.drop k).take n, s')) ∨
        (readHeader call s = some (.inr ((sec.drop k).take n, s')) ∧ k + n = 3)) := by
  have htodo : s.dfil.todo = -(k : Int) := by rw [hin.todo, if_pos hk]
  obtain ⟨hlong, hlength⟩ := hsec
  have hdrop : (sec.drop k).length = sec.length - k := length_drop
  generalize hn : min (3 - k) call.count = n
  obtain ⟨rbuf, hout, hholds⟩ := h.bufferRead (n := n) call.nonBlocking call.signal
    (by rw [length_append]; omega)
  rw [take_append_of_le_length (by omega)] at hout
  rw [drop_append_of_le_length (by omega), drop_drop] at hholds
  generalize hbytes : (sec.drop k).take n = bytes at hout
  have hlen : bytes.length = n := by
    rw [← hbytes, length_take]
    omega
  have hhdr : ∀ i < k + n, s.secheader.memcpy k bytes i = sec.getD i 0 := by
    intro i hi
    rcases lt_or_ge i k with hbelow | hfrom
    · rw [memcpy_below _ _ _ _ hbelow, hin.header i hbelow (by omega)]
    obtain ⟨j, rfl⟩ := Nat.exists_eq_add_of_le hfrom
    have hj : k + j < sec.length := by omega
    rw [memcpy_inside _ _ _ _ (by omega)]
    simp [← hbytes, hj]
  rw [readHeader, if_pos (by omega), htodo, show (3 + -(k : Int)).toNat = 3 - k by omega, hn]
  dsimp only
  rw [hout, map_some]
  dsimp only
  rw [if_neg (by omega), Int.neg_neg, Int.toNat_natCast]
  split
  · refine ⟨n, ⟨{ s.dfil with buffer := rbuf, todo := -(k : Int) - n }, s.secheader.memcpy k bytes⟩,
      by omega, by omega, ⟨by omega, ?_, fun i hi _ => hhdr i hi⟩, hholds, .inl (by rw [hbytes])⟩
    rw [if_pos (by omega)]
    push_cast
    omega
  have hin1 : InSection sec (k + n) (⟨{ s.dfil with
      buffer := rbuf, todo := headerLength (s.secheader.memcpy k bytes) },
      s.secheader.memcpy k bytes⟩ : SectionReader nf nq) := by
    refine ⟨by omega, ?_, fun i hi _ => hhdr i hi⟩
    rw [if_neg (by omega)]
    simp only [headerLength, hhdr 1 (by omega), hhdr 2 (by omega)] at hlength ⊢
    omega
  refine ⟨n, _, by omega, by omega, hin1, hholds, ?_⟩
  split
  · exact .inl (by rw [hbytes])
  · exact .inr ⟨by rw [hbytes], by omega⟩

theorem readSec_gives (call : ReadCall) (hsec : IsSection sec) (hin : InSection sec k s)
    (hk : k < sec.length) (h : BufferHolds s.dfil.buffer (sec.drop k ++ tail)) :
    ∃ (n : Nat) (s' : SectionReader nf nq),
      dvbDmxdevReadSec call s = some ((n : Int), (sec.drop k).take n, s') ∧ n ≤ call.count ∧
      (0 < call.count → 0 < n) ∧ InSection sec (k + n) s' ∧
      BufferHolds s'.dfil.buffer (sec.drop (k + n) ++ tail) := by
  rcases lt_or_ge k 3 with hshort | hbody
  swap
  · obtain ⟨n, s', hn, hout, hin', hholds⟩ := readBody_gives call [] hin hbody h
    rw [length_nil] at hn hout
    refine ⟨n, s', ?_, by omega, by omega, hin', hholds⟩
    have htodo := hin.todo
    rw [dvbDmxdevReadSec, readHeader, if_neg (by omega), bind_some]
    simpa using hout
  obtain ⟨n, s1, hn, hsome, hin1, hholds, hread | ⟨hread, hend⟩⟩ :=
    readHeader_gives call hsec hshort hin h
  · exact ⟨n, s1, by rw [dvbDmxdevReadSec, hread]; rfl, hn, hsome, hin1, hholds⟩
  have hinside := hin1.inside
  have hlen : ((sec.drop k).take n).length = n := by
    rw [length_take, length_drop]
    omega
  obtain ⟨m, s', hm, hbody, hplace, hholds'⟩ :=
    readBody_gives call ((sec.drop k).take n) hin1 hend.ge hholds
  refine ⟨n + m, s', ?_, by omega, by omega, add_assoc k n m ▸ hplace, add_assoc k n m ▸ hholds'⟩
  rw [dvbDmxdevReadSec, hread]
  change readBody call _ s1 = _
  rw [hbody, hlen, take_add, drop_drop]
  congr 2
  push_cast
  omega

theorem readHeader_end (h : BufferHolds s.dfil.buffer []) (htodo : s.dfil.todo = 0)
    {out : (Int × Bytes × SectionReader nf nq) ⊕ (Bytes × SectionReader nf nq)}
    (hread : readHeader call s = some out) :
    ∃ ret s', out = .inl (ret, [], s') ∧ ret ≤ 0 ∧ ret ≠ -eoverflow ∧
      BufferHolds s'.dfil.buffer [] ∧ s'.dfil.todo = 0 := by
  rw [readHeader, if_pos htodo.le, htodo] at hread
  dsimp only at hread
  rcases Nat.eq_zero_or_pos call.count with hcount | hcount
  · obtain ⟨rbuf, hout, hholds⟩ := h.bufferRead (n := 0) call.nonBlocking call.signal (le_refl 0)
    simp only [hcount, Nat.min_zero, hout, map_some] at hread
    cases hread
    exact ⟨_, _, rfl, le_rfl, by decide, hholds, rfl⟩
  · rw [h.bufferRead_empty _ _ (by omega)] at hread
    split_ifs at hread
    all_goals cases hread
    all_goals exact ⟨_, _, rfl, by simp [ewouldblock, erestartsys],
      by simp [ewouldblock, erestartsys, eoverflow], h, rfl⟩

structure ReadUpTo (sections : List Bytes) (pos : Nat) (s : SectionReader nf nq) :
    Prop where
  whole : ∀ sec ∈ sections, IsSection sec
  holds : BufferHolds s.dfil.buffer (sections.flatten.drop pos)
  place : ∃ before after, sections = before ++ after ∧
    ((pos = before.flatten.length ∧ s.dfil.todo = 0) ∨
      ∃ sec rest k, after = sec :: rest ∧ pos = before.flatten.length + k ∧ k < sec.length ∧
        InSection sec k s)

def InOne (sections : List Bytes) (pos n : Nat) : Prop :=
  ∃ before sec after, sections = before ++ sec :: after ∧ before.flatten.length ≤ pos ∧
    pos + n ≤ before.flatten.length + sec.length

variable {sections : List Bytes} {pos : Nat}

theorem ReadUpTo.le (h : ReadUpTo sections pos s) : pos ≤ sections.flatten.length := by
  obtain ⟨before, after, rfl, ⟨rfl, -⟩ | ⟨sec, rest, k, rfl, rfl, hk, -⟩⟩ := h.place
  all_goals
    simp
    try omega

theorem InSection.readUpTo {before rest : List Bytes}
    (hwhole : ∀ sec' ∈ before ++ sec :: rest, IsSection sec') (hin : InSection sec k s)
    (hholds : BufferHolds s.dfil.buffer (sec.drop k ++ rest.flatten)) :
    ReadUpTo (before ++ sec :: rest) (before.flatten.length + k) s := by
  have hinside := hin.inside
  have hflat : (before ++ sec :: rest).flatten.drop (before.flatten.length + k) =
      sec.drop k ++ rest.flatten := by
    simp [drop_append, hinside]
  refine ⟨hwhole, hflat ▸ hholds, ?_⟩
  rcases hinside.lt_or_eq with hlt | rfl
  · exact ⟨before, _, rfl, .inr ⟨sec, rest, k, rfl, rfl, hlt, hin⟩⟩
  have hlong := (hwhole sec (by simp)).1
  refine ⟨before ++ [sec], rest, by simp, .inl ⟨by simp, ?_⟩⟩
  rw [hin.todo, if_neg (by omega), Int.sub_self]

/-- Before the end there is a section that is being read. -/
theorem ReadUpTo.current (h : ReadUpTo sections pos s) (hpos : pos < sections.flatten.length) :
    ∃ before sec rest k, sections = before ++ sec :: rest ∧ pos = before.flatten.length + k ∧
      k < sec.length ∧ InSection sec k s ∧
      BufferHolds s.dfil.buffer (sec.drop k ++ rest.flatten) ∧
      sections.flatten.drop pos = sec.drop k ++ rest.flatten := by
  obtain ⟨hwhole, hholds, before, after, rfl, hplace⟩ := h
  obtain ⟨sec, rest, k, rfl, rfl, hk, hin⟩ : ∃ sec rest k, after = sec :: rest ∧
      pos = before.flatten.length + k ∧ k < sec.length ∧ InSection sec k s := by
    rcases hplace with ⟨rfl, htodo⟩ | hplace
    · rcases after with _ | ⟨sec, rest⟩
      · simp at hpos
      have hlong := (hwhole sec (by simp)).1
      exact ⟨sec, rest, 0, rfl, rfl, by omega, zero_le _, htodo, by omega⟩
    · exact hplace
  have hflat : (before ++ sec :: rest).flatten.drop (before.flatten.length + k) =
      sec.drop k ++ rest.flatten := by
    simp [drop_append, hk.le]
  exact ⟨before, sec, rest, k, rfl, rfl, hk, hin, hflat ▸ hholds, hflat⟩

theorem ReadUpTo.read (call : ReadCall) (h : ReadUpTo sections pos s)
    (hpos : pos < sections.flatten.length) :
    ∃ (n : Nat) (s' : SectionReader nf nq), dvbDmxdevReadSec call s =
        some ((n : Int), (sections.flatten.drop pos).take n, s') ∧
      n ≤ call.count ∧ (0 < call.count → 0 < n) ∧ InOne sections pos n ∧
      ReadUpTo sections (pos + n) s' := by
  obtain ⟨before, sec, rest, k, rfl, rfl, hk, hin, hholds, hflat⟩ := h.current hpos
  obtain ⟨n, s', hout, hn, hsome, hin', hholds'⟩ :=
    readSec_gives call (h.whole sec (by simp)) hin hk hholds
  have hinside := hin'.inside
  refine ⟨n, s', ?_, hn, hsome, ⟨before, sec, rest, rfl, by omega, by omega⟩, ?_⟩
  · rw [hout, hflat, take_append_of_le_length (by rw [length_drop]; omega)]
  · rw [add_assoc]
    exact hin'.readUpTo h.whole hholds'

section

variable (h : ReadUpTo sections sections.flatten.length s)
include h

theorem ReadUpTo.ended : BufferHolds s.dfil.buffer [] ∧ s.dfil.todo = 0 := by
  refine ⟨drop_length (l := sections.flatten) ▸ h.holds, ?_⟩
  obtain ⟨before, after, rfl, ⟨-, htodo⟩ | ⟨sec, rest, k, rfl, hpos, hk, -⟩⟩ := h.place
  · exact htodo
  · simp at hpos
    omega

theorem ReadUpTo.header_end
    {out : (Int × Bytes × SectionReader nf nq) ⊕ (Bytes × SectionReader nf nq)}
    (hread : readHeader call s = some out) :
    ∃ ret s', out = .inl (ret, [], s') ∧ ret ≤ 0 ∧ ret ≠ -eoverflow ∧
      ReadUpTo sections sections.flatten.length s' := by
  obtain ⟨hholds, htodo⟩ := h.ended
  obtain ⟨ret, s', rfl, hret, herror, hholds', htodo'⟩ := readHeader_end hholds htodo hread
  refine ⟨ret, s', rfl, hret, herror, h.whole, ?_, sections, [], by simp, .inl ⟨rfl, htodo'⟩⟩
  rw [drop_length]
  exact hholds'

theorem ReadUpTo.read_end {ret : Int} {bytes : Bytes}
    (hread : dvbDmxdevReadSec call s = some (ret, bytes, s')) :
    bytes = [] ∧ ret ≤ 0 ∧ ret ≠ -eoverflow ∧ ReadUpTo sections sections.flatten.length s' := by
  obtain ⟨out, hheader, hread⟩ := bind_eq_some_iff.mp hread
  obtain ⟨_, _, rfl, hrest⟩ := h.header_end hheader
  cases hread
  exact ⟨rfl, hrest⟩

end

theorem ReadUpTo.append (h : ReadUpTo sections pos s) {new : List Bytes}
    (hnew : ∀ sec ∈ new, IsSection sec) (htodo : s'.dfil.todo = s.dfil.todo)
    (hhdr : s'.secheader = s.secheader)
    (hholds : BufferHolds s'.dfil.buffer (sections.flatten.drop pos ++ new.flatten)) :
    ReadUpTo (sections ++ new) pos s' := by
  constructor
  · intro sec hsec
    exact (mem_append.mp hsec).elim (h.whole sec) (hnew sec)
  · rw [flatten_append, drop_append_of_le_length h.le]
    exact hholds
  obtain ⟨before, after, rfl, hplace⟩ := h.place
  refine ⟨before, after ++ new, append_assoc .., ?_⟩
  rcases hplace with ⟨hpos, hzero⟩ | ⟨sec, rest, k, rfl, hpos, hk, hin⟩
  · exact .inl ⟨hpos, htodo.trans hzero⟩
  refine .inr ⟨sec, rest ++ new, k, rfl, hpos, hk, hin.inside, htodo.trans hin.todo, ?_⟩
  rw [hhdr]
  exact hin.header

/-- Where a header is complete the second half of a read gives bytes of the body. -/
theorem ReadUpTo.body (h : ReadUpTo sections pos s) (htodo : 0 ≤ s.dfil.todo) (call : ReadCall)
    (done : Bytes) :
    ∃ (n : Nat) (s' : SectionReader nf nq), readBody call done s =
        some ((n : Int) + done.length, done ++ (sections.flatten.drop pos).take n, s') ∧
      ReadUpTo sections (pos + n) s' := by
  rcases htodo.lt_or_eq with hbody | hzero
  · have hpos : pos < sections.flatten.length := by
      refine lt_of_le_of_ne h.le fun hend => ?_
      subst hend
      have := h.ended.2
      omega
    obtain ⟨before, sec, rest, k, rfl, rfl, hk, hin, hholds, hflat⟩ := h.current hpos
    have hthree : 3 ≤ k := by
      have := hin.todo
      split_ifs at this <;> omega
    obtain ⟨n, s', -, hout, hin', hholds'⟩ := readBody_gives call done hin hthree hholds
    have hinside := hin'.inside
    refine ⟨n, s', ?_, ?_⟩
    · rw [hout, hflat, take_append_of_le_length (by rw [length_drop]; omega)]
    · rw [add_assoc]
      exact hin'.readUpTo h.whole hholds'
  · obtain ⟨rbuf, hout, hholds⟩ :=
      h.holds.bufferRead (n := 0) call.nonBlocking call.signal (zero_le _)
    refine ⟨0, { s with dfil := { s.dfil with buffer := rbuf } }, ?_, ?_⟩
    · simp [readBody, ← hzero, hout]
    · rw [← append_nil sections]
      exact h.append nofun rfl rfl (by simpa using hholds)

end Reads

/-- A section that comes in is added, or the filter does not want it, or there is no room. -/
theorem sectionCallback_cases {dfil : DmxdevFilter nf nq} {content : Bytes}
    (h : BufferHolds dfil.buffer content) (buffers : Bytes × Bytes) :
    (sectionCallback dfil buffers).todo = dfil.todo ∧
    ((∃ new : List Bytes, new.Sublist [buffers.1 ++ buffers.2] ∧
        BufferHolds (sectionCallback dfil buffers).buffer (content ++ new.flatten)) ∨
      (dfil.buffer.size ≤ content.length + (buffers.1 ++ buffers.2).length ∧
        Overflowed (sectionCallback dfil buffers).buffer)) := by
  obtain ⟨first, second⟩ := buffers
  rw [sectionCallback, if_neg (by simp [h.error]), dvbDmxdevSectionCallback]
  split
  · exact ⟨rfl, .inl ⟨[], nil_sublist _, by simpa using h⟩⟩
  refine ⟨rfl, ?_⟩
  have hover : ∀ rbuf content, BufferHolds rbuf content →
      Overflowed { dvbRingbufferFlush rbuf with error := -eoverflow } :=
    fun _ _ hrbuf => ⟨hrbuf.data, rfl, hrbuf.pwrite_lt⟩
  rcases lt_or_ge (content.length + first.length) dfil.buffer.size with hfirst | hfirst
  · obtain ⟨rbuf, hout, hholds, hsize⟩ := h.write hfirst
    rcases lt_or_ge ((content ++ first).length + second.length) rbuf.size with hfit | hfull
    · obtain ⟨rbuf', hout', hholds', hsize'⟩ := hholds.write hfit
      have hpos : ¬ (second.length : Int) < 0 := by omega
      left
      refine ⟨[first ++ second], List.Sublist.refl _, ?_⟩
      simpa [hout, hout', hpos] using hholds'
    · right
      refine ⟨by simp at hfull ⊢; omega, ?_⟩
      simpa [hout, hholds.write_full hfull, eoverflow] using hover _ _ hholds
  · right
    refine ⟨by simp at hfirst ⊢; omega, ?_⟩
    have hne : -eoverflow ≠ (first.length : Int) := by
      rw [eoverflow]
      omega
    simpa [h.write_full hfirst, eoverflow] using hover _ _ h

/-- A reader, with the sections that came in and the bytes that it gave since it last told
of an overflow. -/
structure Stream (nf nq : Nat) where
  reader : SectionReader nf nq
  handed : List Bytes
  delivered : Bytes

inductive StreamEvent where
  | callback (buffers : Bytes × Bytes) (whole : IsSection (buffers.1 ++ buffers.2))
  | read (call : ReadCall)

/-- The stream after a read has returned. -/
def Stream.returned (w : Stream nf nq) :
    Int × Bytes × SectionReader nf nq → Stream nf nq
  | (ret, bytes, reader) => if ret = -eoverflow then ⟨reader, [], []⟩
      else { w with reader := reader, delivered := w.delivered ++ bytes }

def streamStep (w : Stream nf nq) : StreamEvent → Option (Stream nf nq)
  | .callback buffers _ => some { w with
      reader := { w.reader with dfil := sectionCallback w.reader.dfil buffers }
      handed := w.handed ++ [buffers.1 ++ buffers.2] }
  | .read call => (dvbDmxdevReadSec call w.reader).map w.returned

/-- What has been read is the beginning of the sections. Every read gives more, of one
section, until all is read. -/
structure Faithful (sections : List Bytes) (w : Stream nf nq) : Prop where
  inOrder : w.delivered <+: sections.flatten
  next : w.delivered ≠ sections.flatten → ∀ call, ∃ bytes reader,
    dvbDmxdevReadSec call w.reader = some ((bytes.length : Int), bytes, reader) ∧
      bytes.length ≤ call.count ∧ (0 < call.count → bytes ≠ []) ∧
      InOne sections w.delivered.length bytes.length
  last : w.delivered = sections.flatten → ∀ call ret bytes reader,
    dvbDmxdevReadSec call w.reader = some (ret, bytes, reader) → ret ≤ 0 ∧ bytes = []

/-- The reader is in the sections behind what it gave and the bytes `done`, which the read that
is under way will give. -/
structure Following (sections : List Bytes) (w : Stream nf nq) (done : Bytes) :
    Prop where
  upTo : ReadUpTo sections (w.delivered.length + done.length) w.reader
  inOrder : w.delivered ++ done <+: sections.flatten

variable {w w' : Stream nf nq} {sections : List Bytes} {done : Bytes}

theorem Following.lt (h : Following sections w []) (hne : w.delivered ≠ sections.flatten) :
    w.delivered.length < sections.flatten.length := by
  have hpre := h.inOrder
  rw [append_nil] at hpre
  exact lt_of_le_of_ne h.upTo.le fun hlen => hne (hpre.eq_of_length hlen)

theorem Following.faithful (h : Following sections w []) : Faithful sections w := by
  refine ⟨append_nil w.delivered ▸ h.inOrder, ?_, ?_⟩
  · intro hne call
    obtain ⟨n, reader, hread, hcount, hsome, hone, hupTo⟩ := h.upTo.read call (h.lt hne)
    have hlen : ((sections.flatten.drop w.delivered.length).take n).length = n := by
      have hle := hupTo.le
      rw [length_take, length_drop]
      omega
    refine ⟨_, reader, by rw [hlen]; exact hread, by omega, ?_, by rw [hlen]; exact hone⟩
    intro hpos
    apply ne_nil_of_length_pos
    rw [hlen]
    exact hsome hpos
  · intro hall call ret bytes reader hread
    have hupTo := h.upTo
    rw [hall, length_nil, add_zero] at hupTo
    obtain ⟨hbytes, hret, -⟩ := hupTo.read_end hread
    exact ⟨hret, hbytes⟩

/-- The bytes of the sections that follow what was given. -/
theorem Following.more {n : Nat} {reader : SectionReader nf nq} (h : Following sections w done)
    (hupTo : ReadUpTo sections (w.delivered.length + done.length + n) reader) :
    ∃ bytes, (sections.flatten.drop (w.delivered.length + done.length)).take n = bytes ∧
      bytes.length = n ∧ w.delivered ++ (done ++ bytes) <+: sections.flatten := by
  have hle := hupTo.le
  obtain ⟨rest, hrest⟩ := h.inOrder
  refine ⟨_, rfl, ?_⟩
  rw [← hrest, ← length_append, drop_left, ← append_assoc]
  rw [← hrest, length_append, length_append] at hle
  refine ⟨?_, (prefix_append_right_inj _).mpr <| take_prefix ..⟩
  rw [length_take]
  omega

theorem Following.returned {n : Nat} {bytes : Bytes} {reader : SectionReader nf nq}
    (hupTo : ReadUpTo sections (w.delivered.length + bytes.length) reader)
    (hpre : w.delivered ++ bytes <+: sections.flatten) :
    Following sections (w.returned ((n : Int), bytes, reader)) [] := by
  rw [Stream.returned, if_neg (by rw [eoverflow]; omega)]
  exact ⟨by simpa using hupTo, by simpa using hpre⟩

/-- After the first half of a read it has returned, or its header is complete. -/
theorem Following.header (h : Following sections w []) {call : ReadCall}
    {out : (Int × Bytes × SectionReader nf nq) ⊕ (Bytes × SectionReader nf nq)}
    (hread : readHeader call w.reader = some out) :
    match out with
    | .inl out => Following sections (w.returned out) [] ∧ (w.returned out).handed = w.handed
    | .inr (done, reader) => 0 ≤ reader.dfil.todo ∧
        Following sections { w with reader := reader } done := by
  rcases lt_or_ge 0 w.reader.dfil.todo with hbody | htodo
  · rw [readHeader, if_neg (by omega)] at hread
    cases hread
    exact ⟨hbody.le, h⟩
  rcases h.upTo.le.lt_or_eq with hpos | hend
  · obtain ⟨before, sec, rest, k, hsections, hplace, hk, hin, hholds, hflat⟩ := h.upTo.current hpos
    have hkshort : k < 3 := by
      have := hin.todo
      split_ifs at this <;> omega
    have hwhole := h.upTo.whole
    obtain ⟨n, s', -, -, hin', hholds', hcases⟩ := readHeader_gives call
      (hwhole sec (by simp [hsections])) hkshort hin hholds
    have hinside := hin'.inside
    have hupTo : ReadUpTo sections (w.delivered.length + ([] : Bytes).length + n) s' := by
      rw [hplace, hsections, add_assoc]
      exact hin'.readUpTo (hsections ▸ hwhole) hholds'
    obtain ⟨bytes, htaken, rfl, hpre⟩ := h.more hupTo
    rw [hflat, take_append_of_le_length (by rw [length_drop]; omega)] at htaken
    rw [htaken] at hcases
    rcases hcases with hread' | ⟨hread', hthree⟩
    · cases hread.symm.trans hread'
      exact ⟨.returned hupTo hpre, by rw [Stream.returned, if_neg (by rw [eoverflow]; omega)]⟩
    · cases hread.symm.trans hread'
      have htodo' := hin'.todo
      rw [if_neg (by omega)] at htodo'
      exact ⟨by omega, hupTo, hpre⟩
  · have hupTo := h.upTo
    rw [hend] at hupTo
    obtain ⟨ret, s', rfl, -, herror, hupTo'⟩ := hupTo.header_end hread
    simp only [Stream.returned, if_neg herror, append_nil]
    exact ⟨⟨hend.symm ▸ hupTo', h.inOrder⟩, trivial⟩

theorem Following.body (h : Following sections w done) (htodo : 0 ≤ w.reader.dfil.todo)
    {call : ReadCall} {out : Int × Bytes × SectionReader nf nq}
    (hread : readBody call done w.reader = some out) :
    Following sections (w.returned out) [] ∧ (w.returned out).handed = w.handed := by
  obtain ⟨n, s', hout, hupTo⟩ := h.upTo.body htodo call done
  obtain ⟨bytes, htaken, rfl, hpre⟩ := h.more hupTo
  rw [htaken, ← Nat.cast_add] at hout
  cases hread.symm.trans hout
  refine ⟨.returned ?_ hpre, by rw [Stream.returned, if_neg (by rw [eoverflow]; omega)]⟩
  rwa [length_append, ← add_assoc]

theorem Following.read (h : Following sections w []) (call : ReadCall)
    (hstep : streamStep w (.read call) = some w') : Following sections w' [] := by
  obtain ⟨out, hread, rfl⟩ := map_eq_some_iff.mp hstep
  obtain ⟨first | ⟨done, reader⟩, hheader, hread⟩ := bind_eq_some_iff.mp hread
  · cases hread
    exact (h.header hheader).1
  · obtain ⟨htodo, hdone⟩ := h.header hheader
    exact (hdone.body htodo hread).1

/-- The bytes that reads of any sizes give are the sections in order, and no read gives
bytes of two sections or more than it was asked for. -/
theorem section_reads_faithful (s : SectionReader nf nq) (sections : List Bytes)
    (hwhole : ∀ sec ∈ sections, IsSection sec) (hholds : BufferHolds s.dfil.buffer sections.flatten)
    (htodo : s.dfil.todo = 0) (calls : List ReadCall) :
    Always (fun w call => streamStep w (.read call)) (Faithful sections) ⟨s, [], []⟩ calls := by
  refine .of_inv (Following sections · []) (fun w call w' h hstep => h.read call hstep)
    (fun w => Following.faithful) ⟨⟨hwhole, hholds, [], sections, rfl, .inl ⟨rfl, htodo⟩⟩, ?_⟩ calls
  exact nil_prefix

def readerHolding (bytes : Bytes) : SectionReader 0 0 :=
  ⟨{ (default : DmxdevFilter 0 0) with
    state := .go, buffer := ⟨some fun i => bytes.getD i 0, 16, 0, bytes.length, 0⟩ }, fun _ => 0⟩

def readOf (count : Nat) : ReadCall := ⟨true, false, count⟩

theorem section_reads_faithful_split_headers :
    Always (fun w call => streamStep w (.read call)) (Faithful [[1, 0, 2, 8, 9], [2, 0, 0]])
      ⟨readerHolding [1, 0, 2, 8, 9, 2, 0, 0], [], []⟩ ([1, 2, 1, 7, 2, 5].map readOf) :=
  section_reads_faithful _ _ (by decide) ⟨rfl, rfl, by decide, 0, rfl, rfl, by decide⟩ rfl _

/-- What has been read since the last overflow was told is read of whole sections from their
beginning. -/
def ReadsSections (w : Stream nf nq) : Prop :=
  ∃ sections : List Bytes, sections.Sublist w.handed ∧ w.delivered <+: sections.flatten

/-- A stream whose reader may be between the two halves of a read, with the bytes of the
header in the user's memory. The callback takes other locks than the reader. -/
structure PausedStream (nf nq : Nat) where
  stream : Stream nf nq
  pending : Option (ReadCall × Bytes)

inductive PausedEvent where
  | callback (buffers : Bytes × Bytes) (whole : IsSection (buffers.1 ++ buffers.2))
  | header (call : ReadCall)
  | body

/-- The halves of a read in turn, with callbacks before, between and behind them. -/
def pausedStep : PausedStream nf nq → PausedEvent → Option (PausedStream nf nq)
  | ⟨w, pending⟩, .callback buffers whole =>
    (streamStep w (.callback buffers whole)).map (⟨·, pending⟩)
  | ⟨w, none⟩, .header call => (readHeader call w.reader).map fun
    | .inl out => ⟨w.returned out, none⟩
    | .inr (done, reader) => ⟨{ w with reader := reader }, some (call, done)⟩
  | ⟨w, some (call, done)⟩, .body =>
    (readBody call done w.reader).map fun out => ⟨w.returned out, none⟩
  | _, _ => none

def RoomInBody (p : PausedStream nf nq) : PausedEvent → Prop
  | .callback buffers _ => 0 < p.stream.reader.dfil.todo →
      ((buffers.1 ++ buffers.2).length : Int) ≤ dvbRingbufferFree p.stream.reader.dfil.buffer
  | _ => True

instance (p : PausedStream nf nq) : (event : PausedEvent) → Decidable (RoomInBody p event)
  | .callback _ _ => inferInstanceAs (Decidable (_ → _))
  | .header _ => isTrue trivial
  | .body => isTrue trivial

/-- The stream is at a place of some sections that came, or an overflow is not told of yet and
will be where no body is expected. -/
structure Aligned (w : Stream nf nq) (pending : Option (ReadCall × Bytes)) : Prop where
  headerRead : pending ≠ none → 0 ≤ w.reader.dfil.todo
  place : (∃ sections : List Bytes, sections.Sublist w.handed ∧
      Following sections w ((pending.map Prod.snd).getD [])) ∨
    (Overflowed w.reader.dfil.buffer ∧ w.reader.dfil.todo ≤ 0 ∧ ReadsSections w)

variable {pending : Option (ReadCall × Bytes)} {p' : PausedStream nf nq}

theorem Aligned.readsSections (h : Aligned w pending) : ReadsSections w := by
  rcases h.place with ⟨sections, hsub, hat⟩ | ⟨-, -, hreads⟩
  · exact ⟨sections, hsub, (prefix_append ..).trans hat.inOrder⟩
  · exact hreads

theorem Aligned.callback (h : Aligned w pending) {buffers : Bytes × Bytes}
    (hwhole : IsSection (buffers.1 ++ buffers.2))
    (hroom : RoomInBody ⟨w, pending⟩ (.callback buffers hwhole))
    (hstep : pausedStep ⟨w, pending⟩ (.callback buffers hwhole) = some p') :
    Aligned p'.stream p'.pending := by
  cases hstep
  obtain ⟨hheader, ⟨sections, hsub, hat⟩ | ⟨hover, htodo, sections, hsub, hpre⟩⟩ := h
  · obtain ⟨htodo, ⟨new, hnew, hholds⟩ | ⟨hfull, hover⟩⟩ :=
      sectionCallback_cases hat.upTo.holds buffers
    · refine ⟨fun hp => (hheader hp).trans_eq htodo.symm, .inl ⟨sections ++ new, ?_⟩⟩
      refine ⟨hsub.append hnew, ?_, ?_⟩
      · refine hat.upTo.append (fun sec hsec => ?_) htodo rfl hholds
        rw [mem_singleton.mp (hnew.mem hsec)]
        exact hwhole
      · rw [flatten_append]
        exact hat.inOrder.trans (prefix_append ..)
    · refine ⟨fun hp => (hheader hp).trans_eq htodo.symm, .inr ⟨hover, ?_, sections,
        hsub.trans (sublist_append_left ..), (prefix_append ..).trans hat.inOrder⟩⟩
      have hholds := hat.upTo.holds
      obtain ⟨pos, hread, hwrite, -⟩ := hholds.ring
      have hfree := free_of_positions hread hwrite hholds.room
      by_contra hbody
      have hfit : ((buffers.1 ++ buffers.2).length : Int) ≤
          dvbRingbufferFree w.reader.dfil.buffer :=
        hroom (by rw [← htodo]; exact not_le.mp hbody)
      omega
  · have hsame : sectionCallback w.reader.dfil buffers = w.reader.dfil := by
      rw [sectionCallback, if_pos (by simp [hover.error, eoverflow])]
    refine ⟨?_, .inr ⟨?_, ?_, sections, hsub.trans (sublist_append_left ..), hpre⟩⟩
    all_goals rw [hsame]
    · exact hheader
    · exact hover
    · exact htodo

theorem Aligned.restart {s : SectionReader nf nq} {handed : List Bytes}
    (hholds : BufferHolds s.dfil.buffer []) (htodo : s.dfil.todo = 0) :
    Aligned ⟨s, handed, []⟩ none :=
  ⟨nofun, .inl ⟨[], nil_sublist _, ⟨nofun, hholds, [], [], rfl, .inl ⟨rfl, htodo⟩⟩, nil_prefix⟩⟩

theorem Aligned.header (h : Aligned w pending) (call : ReadCall)
    (hstep : pausedStep ⟨w, pending⟩ (.header call) = some p') :
    Aligned p'.stream p'.pending := by
  rcases pending with _ | pending
  swap
  · cases hstep
  obtain ⟨out, hread, rfl⟩ := map_eq_some_iff.mp hstep
  obtain ⟨-, ⟨sections, hsub, hat⟩ | ⟨hover, htodo, -⟩⟩ := h
  · have hnext := hat.header hread
    rcases out with out | ⟨done, reader⟩
    · exact ⟨nofun, .inl ⟨sections, hnext.2 ▸ hsub, hnext.1⟩⟩
    · exact ⟨fun _ => hnext.1, .inl ⟨sections, hsub, hnext.2⟩⟩
  · rw [readHeader, if_pos htodo] at hread
    dsimp only at hread
    rw [hover.bufferRead] at hread
    cases hread
    exact .restart (BufferHolds.flush hover.data hover.pwrite) rfl

theorem Aligned.body (h : Aligned w pending) (hstep : pausedStep ⟨w, pending⟩ .body = some p') :
    Aligned p'.stream p'.pending := by
  rcases pending with _ | ⟨call, done⟩
  · cases hstep
  obtain ⟨out, hread, rfl⟩ := map_eq_some_iff.mp hstep
  obtain ⟨hheader, ⟨sections, hsub, hat⟩ | ⟨hover, htodo, -⟩⟩ := h
  · obtain ⟨hnext, hhanded⟩ := hat.body (hheader (by simp)) hread
    exact ⟨nofun, .inl ⟨sections, hhanded ▸ hsub, hnext⟩⟩
  · rw [readBody] at hread
    dsimp only at hread
    rw [hover.bufferRead] at hread
    cases hread
    have hzero : w.reader.dfil.todo = 0 := le_antisymm htodo (hheader (by simp))
    exact .restart (BufferHolds.flush hover.data hover.pwrite) hzero

def sectionOf (sec : Bytes) (hwhole : IsSection (sec ++ []) := by decide) : PausedEvent :=
  .callback (sec, []) hwhole

def bodyOverflow : List PausedEvent :=
  [sectionOf [0, 0, 7, 1, 2, 3, 4, 5, 6, 7], .header (readOf 5), .body,
    sectionOf [0, 0, 9, 1, 2, 3, 4, 5, 6, 7, 8, 9], .header (readOf 5), .body,
    sectionOf [0, 0, 5, 1, 2, 3, 4, 5], .header (readOf 5), .body, .header (readOf 10), .body,
    sectionOf [0, 0, 1, 9], .header (readOf 4), .body]

end TbsMedia.DvbCore
