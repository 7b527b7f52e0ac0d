import TbsMedia.Lib.Parties
import TbsMedia.DvbCore.RingBuffer

/-!
One writer and one reader on a ring buffer without a lock. `dvb_ringbuffer_write` and
`dvb_ringbuffer_read` are programs here, one access for the test before the call, for
each copy and for each assignment of a pointer. Beside the ring the state keeps the bytes
of the calls that passed the writer's test, those that were copied in and out so far, and how
many of these the pointers have passed.
-/

namespace TbsMedia.DvbCore

open Lib Contract List Nat

structure RingParties where
  rbuf : DvbRingbuffer
  passed : Bytes
  written : Bytes
  got : Bytes
  put : Nat
  taken : Nat

def ringParties (data : Mem UInt8) (size : Nat) : RingParties where
  rbuf := dvbRingbufferInit (some data) size
  passed := []
  written := []
  got := []
  put := 0
  taken := 0

namespace RingParties

/-- The writer notes that its test was passed, and goes on to write `buf`. -/
def pass (buf : Bytes) (s : RingParties) : RingParties :=
  { s with passed := s.passed ++ buf }

/-- `memcpy(rbuf->data + rbuf->pwrite, src, ..)`. -/
def copyIn (src : Bytes) (s : RingParties) : RingParties :=
  { s with
    rbuf := { s.rbuf with data := some (s.rbuf.mem.memcpy s.rbuf.pwrite src) }
    written := s.written ++ src }

def setPwrite (pwrite : Nat) (s : RingParties) : RingParties :=
  { s with rbuf := { s.rbuf with pwrite := pwrite }, put := s.written.length }

/-- `memcpy(buf, rbuf->data + rbuf->pread, n)`. -/
def copyOut (n : Nat) (s : RingParties) : RingParties :=
  { s with got := s.got ++ s.rbuf.mem.read s.rbuf.pread n }

def setPread (pread : Nat) (s : RingParties) : RingParties :=
  { s with rbuf := { s.rbuf with pread := pread }, taken := s.got.length }

end RingParties

open RingParties

/-- `dvb_ringbuffer_write`, access by access. -/
def writeSteps (buf : Bytes) : Prog RingParties Unit Unit := do
  let split ← .read fun s =>
    if s.rbuf.pwrite + buf.length > s.rbuf.size then s.rbuf.size - s.rbuf.pwrite else 0
  if split > 0 then
    .modify none (copyIn (buf.take split))
    .modify none (setPwrite 0)
  .modify none (copyIn (buf.drop split))
  .modify none fun s =>
    setPwrite ((s.rbuf.pwrite + (buf.length - split)) % s.rbuf.size) s

/-- `dvb_ringbuffer_read`, access by access. -/
def readSteps (len : Nat) : Prog RingParties Unit Unit := do
  let split ← .read fun s =>
    if s.rbuf.pread + len > s.rbuf.size then s.rbuf.size - s.rbuf.pread else 0
  if split > 0 then
    .modify none (copyOut split)
    .modify none (setPread 0)
  .modify none (copyOut (len - split))
  .modify none fun s =>
    setPread ((s.rbuf.pread + (len - split)) % s.rbuf.size) s

def writerCalls : List Bytes → Prog RingParties Unit Unit
  | [] => pure ()
  | buf :: rest => do
    let free ← .read fun s => dvbRingbufferFree s.rbuf
    if free ≥ buf.length then
      .modify none (pass buf)
      writeSteps buf
    writerCalls rest

def readerCalls : List Nat → Prog RingParties Unit Unit
  | [] => pure ()
  | len :: rest => do
    let avail ← .read fun s => dvbRingbufferAvail s.rbuf
    if avail ≥ len then readSteps len
    readerCalls rest

theorem writeSteps_run (buf : Bytes) (s : RingParties) :
    ((writeSteps buf).run s).map (fun out => out.2.rbuf) =
      some (dvbRingbufferWrite s.rbuf s.rbuf.mem buf) := by
  rcases lt_or_ge s.rbuf.size (s.rbuf.pwrite + buf.length) with hsplit | hplain
  · rcases lt_or_ge 0 (s.rbuf.size - s.rbuf.pwrite) with hroom | hnone
    · simp [writeSteps, dvbRingbufferWrite, copyIn, setPwrite, hsplit, hroom, DvbRingbuffer.mem]
    · simp [writeSteps, dvbRingbufferWrite, copyIn, setPwrite, hsplit, le_zero.mp hnone]
  · simp [writeSteps, dvbRingbufferWrite, copyIn, setPwrite, hplain.not_gt]

theorem readSteps_run (len : Nat) (s : RingParties) :
    ((readSteps len).run s).map (fun out => (out.2.got, out.2.rbuf)) =
      some (s.got ++ (dvbRingbufferRead s.rbuf len).1, (dvbRingbufferRead s.rbuf len).2) := by
  rcases lt_or_ge s.rbuf.size (s.rbuf.pread + len) with hsplit | hplain
  · rcases lt_or_ge 0 (s.rbuf.size - s.rbuf.pread) with hroom | hnone
    · simp [readSteps, dvbRingbufferRead, copyOut, setPread, hsplit, hroom, DvbRingbuffer.mem]
    · simp [readSteps, dvbRingbufferRead, copyOut, setPread, hsplit, le_zero.mp hnone]
  · simp [readSteps, dvbRingbufferRead, copyOut, setPread, hplain.not_gt]

/-- The pointers stand where their parties are, at most one party ahead in its copies, and
the cells between them hold the bytes that were written. -/
structure RingInv (s : RingParties) : Prop where
  size : 0 < s.rbuf.size
  pread : s.rbuf.pread = s.taken % s.rbuf.size
  pwrite : s.rbuf.pwrite = s.put % s.rbuf.size
  taken_le : s.taken ≤ s.got.length
  got_le : s.got.length ≤ s.put
  put_le : s.put ≤ s.written.length
  room : s.written.length < s.taken + s.rbuf.size
  stored : ∀ q, s.taken ≤ q → q < s.written.length →
    s.written[q]? = some (s.rbuf.mem (q % s.rbuf.size))
  got_eq : s.got = s.written.take s.got.length
  written : s.written <+: s.passed

structure WriterMoves (s t : RingParties) : Prop where
  size : t.rbuf.size = s.rbuf.size
  pread : t.rbuf.pread = s.rbuf.pread
  taken : t.taken = s.taken
  got : t.got = s.got
  put : s.put ≤ t.put

structure ReaderMoves (s t : RingParties) : Prop where
  size : t.rbuf.size = s.rbuf.size
  pwrite : t.rbuf.pwrite = s.rbuf.pwrite
  put : t.put = s.put
  passed : t.passed = s.passed
  written : t.written = s.written
  taken : s.taken ≤ t.taken

def writerSide : Contract RingParties Unit where
  inv := RingInv
  env := ReaderMoves
  env_refl := fun _ => ⟨rfl, rfl, rfl, rfl, rfl, le_rfl⟩
  env_trans := fun _ _ _ h h' => ⟨h'.size.trans h.size, h'.pwrite.trans h.pwrite,
    h'.put.trans h.put, h'.passed.trans h.passed, h'.written.trans h.written,
    h.taken.trans h'.taken⟩
  ready := fun _ _ _ => True
  cond := fun _ _ => True
  guar := fun _ => WriterMoves

def readerSide : Contract RingParties Unit where
  inv := RingInv
  env := WriterMoves
  env_refl := fun _ => ⟨rfl, rfl, rfl, rfl, le_rfl⟩
  env_trans := fun _ _ _ h h' => ⟨h'.size.trans h.size, h'.pread.trans h.pread,
    h'.taken.trans h.taken, h'.got.trans h.got, h.put.trans h'.put⟩
  ready := fun _ _ _ => True
  cond := fun _ _ => True
  guar := fun _ => ReaderMoves

/-- The writer at a point of its call: so many bytes copied that `pwrite` has not passed,
what is still to be copied, with room for it, and where `pwrite` is. -/
structure WriterAt (size copied : Nat) (todo : Bytes) (place : Nat) (s : RingParties) :
    Prop where
  size_eq : s.rbuf.size = size
  written : s.written.length = s.put + copied
  passed : s.passed = s.written ++ todo
  room : s.put + copied + todo.length < s.taken + size
  pwrite : s.rbuf.pwrite = place

structure ReaderAt (size copied todo place : Nat) (s : RingParties) : Prop where
  size_eq : s.rbuf.size = size
  got : s.got.length = s.taken + copied
  ahead : s.taken + copied + todo ≤ s.put
  pread : s.rbuf.pread = place

variable {size copied todo place : Nat} {later later' : Bytes}

theorem WriterAt.stable (s t : RingParties) (hmoves : ReaderMoves s t)
    (hat : WriterAt size copied later place s) : WriterAt size copied later place t := by
  have htaken := hmoves.taken
  have hroom := hat.room
  refine ⟨hmoves.size.trans hat.size_eq, ?_, ?_, ?_, hmoves.pwrite.trans hat.pwrite⟩
  · rw [hmoves.written, hmoves.put, hat.written]
  · rw [hmoves.passed, hmoves.written, hat.passed]
  · rw [hmoves.put]
    omega

theorem ReaderAt.stable (s t : RingParties) (hmoves : WriterMoves s t)
    (hat : ReaderAt size copied todo place s) : ReaderAt size copied todo place t := by
  have hput := hmoves.put
  have hahead := hat.ahead
  refine ⟨hmoves.size.trans hat.size_eq, ?_, ?_, hmoves.pread.trans hat.pread⟩
  · rw [hmoves.got, hmoves.taken, hat.got]
  · rw [hmoves.taken]
    omega

variable {s : RingParties} {src : Bytes} {n todo' place' copied' : Nat}
  {f : RingParties → RingParties}

theorem copyIn_keeps (hinv : RingInv s) (hat : WriterAt size 0 (src ++ later) place s)
    (hfit : place + src.length ≤ size) :
    WriterMoves s (copyIn src s) ∧ RingInv (copyIn src s) ∧
      WriterAt size src.length later place (copyIn src s) := by
  have hcopy : s.written.length = s.put := hat.written
  have hroom := hat.room
  rw [length_append] at hroom
  have hpassed : s.passed = (s.written ++ src) ++ later := by
    rw [hat.passed, append_assoc]
  have htaken := hinv.taken_le
  have hgot := hinv.got_le
  have hlen : (copyIn src s).written.length = s.put + src.length := by
    rw [copyIn, length_append, hcopy]
  have hmem : (copyIn src s).rbuf.mem =
      s.rbuf.mem.ringCopy s.rbuf.size (s.put % s.rbuf.size) src := by
    rw [← hinv.pwrite, hat.pwrite, hat.size_eq, Mem.ringCopy_of_le _ hfit, ← hat.pwrite]
    rfl
  refine ⟨⟨rfl, rfl, rfl, rfl, le_rfl⟩, ⟨hinv.size, hinv.pread, hinv.pwrite, htaken, hgot, ?_, ?_,
    ?_, ?_, hpassed ▸ prefix_append _ _⟩, ⟨hat.size_eq, hlen, hpassed, ?_, hat.pwrite⟩⟩
  · rw [hlen]
    exact Nat.le_add_right _ _
  · rw [hlen]
    change s.put + src.length < s.taken + s.rbuf.size
    rw [hat.size_eq]
    omega
  · intro q hfrom hq
    change s.taken ≤ q at hfrom
    change (s.written ++ src)[q]? = some ((copyIn src s).rbuf.mem (q % s.rbuf.size))
    rw [hmem]
    rcases lt_or_ge q s.put with hold | hnew
    · rw [Mem.ringCopy_other _ _ _ _ q hold (by rw [hat.size_eq]; omega),
        List.getElem?_append_left (by omega)]
      exact hinv.stored q hfrom (by omega)
    obtain ⟨k, rfl⟩ := Nat.exists_eq_add_of_le hnew
    rw [Mem.ringCopy_at _ _ _ _ (by rw [hat.size_eq]; omega) k (by omega),
      List.getElem?_append_right (by omega), hcopy, Nat.add_sub_cancel_left,
      List.getElem?_eq_getElem]
  · change s.got = (s.written ++ src).take s.got.length
    rw [take_append_of_le_length (by omega)]
    exact hinv.got_eq
  · change s.put + src.length + later.length < s.taken + size
    omega

theorem setPwrite_keeps {pwrite : Nat} (hinv : RingInv s)
    (hat : WriterAt size copied later place s)
    (hpwrite : pwrite = (place + copied) % size) :
    WriterMoves s (setPwrite pwrite s) ∧ RingInv (setPwrite pwrite s) ∧
      WriterAt size 0 later pwrite (setPwrite pwrite s) := by
  have hput := hinv.put_le
  have hgot := hinv.got_le
  have hroom := hat.room
  have hplace : pwrite = s.written.length % s.rbuf.size := by
    rw [hpwrite, ← hat.pwrite, hinv.pwrite, hat.size_eq, mod_add_mod, hat.written]
  refine ⟨⟨rfl, rfl, rfl, rfl, hput⟩, ⟨hinv.size, hinv.pread, hplace, hinv.taken_le, ?_, le_rfl,
    hinv.room, hinv.stored, hinv.got_eq, hinv.written⟩, ⟨hat.size_eq, rfl, hat.passed, ?_, rfl⟩⟩
  · exact hgot.trans hput
  · change s.written.length + 0 + later.length < s.taken + size
    rw [hat.written]
    omega

/-- A segment between the pointers is copied out: it is what the writer put there. -/
theorem copyOut_keeps (hinv : RingInv s) (hat : ReaderAt size 0 (n + todo) place s)
    (hfit : place + n ≤ size) :
    ReaderMoves s (copyOut n s) ∧ RingInv (copyOut n s) ∧
      ReaderAt size n todo place (copyOut n s) := by
  have hgot : s.got.length = s.taken := hat.got
  have hahead := hat.ahead
  have hput := hinv.put_le
  have hread : s.rbuf.mem.read s.rbuf.pread n = (s.written.drop s.taken).take n := by
    apply ext_getElem?
    intro i
    rcases lt_or_ge i n with hin | hout
    · have hcell : (s.taken + i) % s.rbuf.size = s.rbuf.pread + i := by
        rw [← mod_add_mod, ← hinv.pread, mod_eq_of_lt]
        rw [hat.pread, hat.size_eq]
        omega
      rw [List.getElem?_take_of_lt hin, List.getElem?_drop,
        hinv.stored (s.taken + i) (by omega) (by omega), hcell]
      simp [Mem.read, hin]
    · rw [List.getElem?_eq_none (by simpa using hout),
        List.getElem?_eq_none (by rw [length_take]; omega)]
  have hnew : (copyOut n s).got = s.written.take (s.taken + n) := by
    have hold := hinv.got_eq
    rw [hgot] at hold
    rw [copyOut, hread, hold, take_add]
  have hlen : (copyOut n s).got.length = s.taken + n := by
    rw [hnew, length_take]
    omega
  refine ⟨⟨rfl, rfl, rfl, rfl, rfl, le_rfl⟩, ⟨hinv.size, hinv.pread, hinv.pwrite, ?_, ?_, hput,
    hinv.room, hinv.stored, ?_, hinv.written⟩, ⟨hat.size_eq, hlen, ?_, hat.pread⟩⟩
  · rw [hlen]
    exact le_add_right _ _
  · rw [hlen]
    change s.taken + n ≤ s.put
    omega
  · rw [hlen]
    exact hnew
  · change s.taken + n + todo ≤ s.put
    omega

theorem setPread_keeps {pread : Nat} (hinv : RingInv s) (hat : ReaderAt size copied todo place s)
    (hpread : pread = (place + copied) % size) :
    ReaderMoves s (setPread pread s) ∧ RingInv (setPread pread s) ∧
      ReaderAt size 0 todo pread (setPread pread s) := by
  have htaken := hinv.taken_le
  have hgot := hinv.got_le
  have hroom := hinv.room
  have hahead := hat.ahead
  have hplace : pread = s.got.length % s.rbuf.size := by
    rw [hpread, ← hat.pread, hinv.pread, hat.size_eq, mod_add_mod, hat.got]
  refine ⟨⟨rfl, rfl, rfl, rfl, rfl, htaken⟩, ⟨hinv.size, hplace, hinv.pwrite, le_rfl, hgot,
    hinv.put_le, ?_, ?_, hinv.got_eq, hinv.written⟩, ⟨hat.size_eq, rfl, ?_, rfl⟩⟩
  · change s.written.length < s.got.length + s.rbuf.size
    omega
  · intro q hfrom hq
    exact hinv.stored q (htaken.trans hfrom) hq
  · change s.got.length + 0 + todo ≤ s.put
    rw [hat.got]
    omega

theorem writer_modify (hat : WriterAt size copied later place s)
    (hstep : ∀ t, RingInv t → WriterAt size copied later place t →
      WriterMoves t (f t) ∧ RingInv (f t) ∧ WriterAt size copied' later' place' (f t)) :
    writerSide.Wp (.modify none f) (fun _ => WriterAt size copied' later' place') s :=
  Wp.modify_stable _ _ hat WriterAt.stable WriterAt.stable
    (fun t hinv hpre => ⟨trivial, fun _ => hstep t hinv hpre⟩)

theorem reader_modify (hat : ReaderAt size copied todo place s)
    (hstep : ∀ t, RingInv t → ReaderAt size copied todo place t →
      ReaderMoves t (f t) ∧ RingInv (f t) ∧ ReaderAt size copied' todo' place' (f t)) :
    readerSide.Wp (.modify none f) (fun _ => ReaderAt size copied' todo' place') s :=
  Wp.modify_stable _ _ hat ReaderAt.stable ReaderAt.stable
    (fun t hinv hpre => ⟨trivial, fun _ => hstep t hinv hpre⟩)

theorem writer_last (hat : WriterAt size 0 src place s) (hfit : place + src.length ≤ size) :
    writerSide.Wp
      (do
        .modify none (copyIn src)
        .modify none fun s => setPwrite ((s.rbuf.pwrite + src.length) % s.rbuf.size) s)
      (fun _ => WriterAt size 0 [] ((place + src.length) % size)) s := by
  have hall : WriterAt size 0 (src ++ []) place s := by
    rw [append_nil]
    exact hat
  apply Wp.bind
  refine (writer_modify hall (fun t hinv hpre => copyIn_keeps hinv hpre hfit)).mono ?_
  intro _ t _ hcopy
  apply writer_modify hcopy
  intro u hinv hpre
  rw [hpre.pwrite, hpre.size_eq]
  exact setPwrite_keeps hinv hpre rfl

theorem writeSteps_wp {buf : Bytes} (hat : WriterAt size 0 buf place s) :
    writerSide.Wp (writeSteps buf) (fun _ t => ∃ place', WriterAt size 0 [] place' t) s := by
  apply Wp.bind
  refine (Wp.read_stable (WriterAt size 0 buf place) (fun split t =>
      split = (if place + buf.length > size then size - place else 0) ∧
        WriterAt size 0 buf place t) hat WriterAt.stable ?_ ?_).mono ?_
  · exact fun _ u t hmoves hpre => ⟨hpre.1, hpre.2.stable u t hmoves⟩
  · intro t hinv hpre
    refine ⟨trivial, fun _ => ⟨⟨rfl, rfl, rfl, rfl, le_rfl⟩, ?_, hpre⟩⟩
    rw [hpre.pwrite, hpre.size_eq]
  · rintro _ t hinv ⟨rfl, hpre⟩
    have hcell : place < size := by
      rw [← hpre.pwrite, ← hpre.size_eq, hinv.pwrite]
      exact Nat.mod_lt _ hinv.size
    have hlen : buf.length < size := by
      have hroom := hpre.room
      have htaken := hinv.taken_le
      have hgot := hinv.got_le
      omega
    rcases lt_or_ge size (place + buf.length) with hsplit | hplain
    · rw [if_pos hsplit, if_pos (show size - place > 0 by omega)]
      have htake : (buf.take (size - place)).length = size - place := by
        rw [length_take]
        omega
      have hdrop : (buf.drop (size - place)).length = buf.length - (size - place) := length_drop
      have hfirst : WriterAt size 0 (buf.take (size - place) ++ buf.drop (size - place)) place
          t := by
        rw [take_append_drop]
        exact hpre
      apply Wp.bind
      refine (writer_modify hfirst (fun u hinv hu => copyIn_keeps hinv hu (by omega))).mono ?_
      intro _ u _ hcopy
      have hzero : 0 = (place + (buf.take (size - place)).length) % size := by
        rw [htake, Nat.add_sub_cancel' hcell.le, Nat.mod_self]
      apply Wp.bind
      refine (writer_modify hcopy (fun v hinv hv => setPwrite_keeps hinv hv hzero)).mono ?_
      intro _ v _ hback
      rw [← hdrop]
      refine (writer_last hback (by omega)).mono ?_
      exact fun _ w _ hw => ⟨_, hw⟩
    · rw [if_neg hplain.not_gt]
      refine (writer_last hpre hplain).mono ?_
      exact fun _ w _ hw => ⟨_, hw⟩

structure WriterIdle (s : RingParties) : Prop where
  written : s.written.length = s.put
  passed : s.passed = s.written

theorem WriterIdle.stable (s t : RingParties) (hmoves : ReaderMoves s t) (hidle : WriterIdle s) :
    WriterIdle t := by
  constructor
  · rw [hmoves.written, hmoves.put, hidle.written]
  · rw [hmoves.passed, hmoves.written, hidle.passed]

theorem RingInv.put_lt (hinv : RingInv s) : s.put - s.taken < s.rbuf.size := by
  have hroom := hinv.room
  have hput := hinv.put_le
  have hsize := hinv.size
  omega

theorem RingInv.pwrite_eq (hinv : RingInv s) :
    s.rbuf.pwrite = (s.taken + (s.put - s.taken)) % s.rbuf.size := by
  have htaken := hinv.taken_le
  have hgot := hinv.got_le
  rw [hinv.pwrite, Nat.add_sub_cancel' (htaken.trans hgot)]

theorem writer_test (len : Nat) (hidle : WriterIdle s) :
    writerSide.Wp (.read fun s => dvbRingbufferFree s.rbuf) (fun free t => WriterIdle t ∧
      (free ≥ len → t.put + len < t.taken + t.rbuf.size)) s := by
  apply Wp.read_stable WriterIdle _ hidle WriterIdle.stable
  · rintro free u t hmoves ⟨hu, hroom⟩
    refine ⟨hu.stable u t hmoves, ?_⟩
    intro henough
    have htaken := hmoves.taken
    rw [hmoves.put, hmoves.size]
    omega
  · intro t hinv ht
    refine ⟨trivial, fun _ => ⟨⟨rfl, rfl, rfl, rfl, le_rfl⟩, ht, ?_⟩⟩
    intro henough
    rw [free_of_positions hinv.pread hinv.pwrite_eq hinv.put_lt] at henough
    omega

theorem writer_pass {buf : Bytes} (hidle : WriterIdle s)
    (hroom : s.put + buf.length < s.taken + s.rbuf.size) :
    writerSide.Wp (.modify none (pass buf)) (fun _ => WriterAt s.rbuf.size 0 buf s.rbuf.pwrite)
      s := by
  have hat : WriterAt s.rbuf.size 0 [] s.rbuf.pwrite s ∧
      s.put + buf.length < s.taken + s.rbuf.size :=
    ⟨⟨rfl, hidle.written, by rw [hidle.passed, append_nil], by simpa using by omega, rfl⟩, hroom⟩
  refine Wp.modify_stable (fun t => WriterAt s.rbuf.size 0 [] s.rbuf.pwrite t ∧
    t.put + buf.length < t.taken + s.rbuf.size) _ hat ?_ WriterAt.stable ?_
  · rintro t u hmoves ⟨ht, hfit⟩
    have htaken := hmoves.taken
    refine ⟨ht.stable t u hmoves, ?_⟩
    rw [hmoves.put]
    omega
  · rintro t hinv ⟨ht, hfit⟩
    have hpassed : t.passed = t.written := by rw [ht.passed, append_nil]
    refine ⟨trivial, fun _ => ⟨⟨rfl, rfl, rfl, rfl, le_rfl⟩, ⟨hinv.size, hinv.pread, hinv.pwrite,
      hinv.taken_le, hinv.got_le, hinv.put_le, hinv.room, hinv.stored, hinv.got_eq, ?_⟩,
      ⟨ht.size_eq, ht.written, ?_, hfit, ht.pwrite⟩⟩⟩
    · exact hinv.written.trans (prefix_append _ _)
    · exact congrArg (· ++ buf) hpassed

theorem writerCalls_wp (bufs : List Bytes) (hidle : WriterIdle s) :
    writerSide.Wp (writerCalls bufs) (fun _ _ => True) s := by
  induction bufs generalizing s with
  | nil => exact Wp.pure (fun _ _ _ => trivial)
  | cons buf rest ih =>
    apply Wp.bind
    refine (writer_test buf.length hidle).mono ?_
    rintro free t - ⟨ht, hroom⟩
    split_ifs with henough
    · apply Wp.bind
      refine (writer_pass ht (hroom henough)).mono ?_
      intro _ u _ hat
      apply Wp.bind
      refine (writeSteps_wp hat).mono ?_
      rintro _ v - ⟨place, hv⟩
      exact ih ⟨hv.written, by rw [hv.passed, append_nil]⟩
    · exact ih ht

theorem reader_last (hat : ReaderAt size 0 n place s) (hfit : place + n ≤ size) :
    readerSide.Wp
      (do
        .modify none (copyOut n)
        .modify none fun s => setPread ((s.rbuf.pread + n) % s.rbuf.size) s)
      (fun _ => ReaderAt size 0 0 ((place + n) % size)) s := by
  have hall : ReaderAt size 0 (n + 0) place s := hat
  apply Wp.bind
  refine (reader_modify hall (fun t hinv hpre => copyOut_keeps hinv hpre hfit)).mono ?_
  intro _ t _ hcopy
  apply reader_modify hcopy
  intro u hinv hpre
  rw [hpre.pread, hpre.size_eq]
  exact setPread_keeps hinv hpre rfl

theorem readSteps_wp {len : Nat} (hat : ReaderAt size 0 len place s) :
    readerSide.Wp (readSteps len) (fun _ t => ∃ place', ReaderAt size 0 0 place' t) s := by
  apply Wp.bind
  refine (Wp.read_stable (ReaderAt size 0 len place) (fun split t =>
      split = (if place + len > size then size - place else 0) ∧
        ReaderAt size 0 len place t) hat ReaderAt.stable ?_ ?_).mono ?_
  · exact fun _ u t hmoves hpre => ⟨hpre.1, hpre.2.stable u t hmoves⟩
  · intro t hinv hpre
    refine ⟨trivial, fun _ => ⟨⟨rfl, rfl, rfl, rfl, rfl, le_rfl⟩, ?_, hpre⟩⟩
    rw [hpre.pread, hpre.size_eq]
  · rintro _ t hinv ⟨rfl, hpre⟩
    have hcell : place < size := by
      rw [← hpre.pread, ← hpre.size_eq, hinv.pread]
      exact Nat.mod_lt _ hinv.size
    have hlen : len < size := by
      have hahead := hpre.ahead
      have hlt := hinv.put_lt
      rw [hpre.size_eq] at hlt
      omega
    rcases lt_or_ge size (place + len) with hsplit | hplain
    · rw [if_pos hsplit, if_pos (show size - place > 0 by omega)]
      have hfirst : ReaderAt size 0 ((size - place) + (len - (size - place))) place t := by
        rw [Nat.add_sub_cancel' (show size - place ≤ len by omega)]
        exact hpre
      have hzero : 0 = (place + (size - place)) % size := by
        rw [Nat.add_sub_cancel' hcell.le, Nat.mod_self]
      apply Wp.bind
      refine (reader_modify hfirst
        (fun u hinv hu => copyOut_keeps hinv hu (Nat.add_sub_cancel' hcell.le).le)).mono ?_
      intro _ u _ hcopy
      apply Wp.bind
      refine (reader_modify hcopy (fun v hinv hv => setPread_keeps hinv hv hzero)).mono ?_
      intro _ v _ hback
      refine (reader_last hback (by omega)).mono ?_
      exact fun _ w _ hw => ⟨_, hw⟩
    · rw [if_neg hplain.not_gt]
      refine (reader_last hpre hplain).mono ?_
      exact fun _ w _ hw => ⟨_, hw⟩

def ReaderIdle (s : RingParties) : Prop :=
  s.got.length = s.taken

theorem ReaderIdle.stable (s t : RingParties) (hmoves : WriterMoves s t) (hidle : ReaderIdle s) :
    ReaderIdle t := by
  rw [ReaderIdle, hmoves.got, hmoves.taken]
  exact hidle

theorem reader_test (len : Nat) (hidle : ReaderIdle s) :
    readerSide.Wp (.read fun s => dvbRingbufferAvail s.rbuf) (fun avail t => ReaderIdle t ∧
      (avail ≥ len → t.taken + len ≤ t.put)) s := by
  apply Wp.read_stable ReaderIdle _ hidle ReaderIdle.stable
  · rintro avail u t hmoves ⟨hu, hahead⟩
    refine ⟨hu.stable u t hmoves, ?_⟩
    intro henough
    have hput := hmoves.put
    rw [hmoves.taken]
    omega
  · intro t hinv ht
    refine ⟨trivial, fun _ => ⟨⟨rfl, rfl, rfl, rfl, rfl, le_rfl⟩, ht, ?_⟩⟩
    intro henough
    rw [avail_of_positions hinv.pread hinv.pwrite_eq hinv.put_lt] at henough
    have htaken := hinv.taken_le
    have hgot := hinv.got_le
    omega

theorem readerCalls_wp (lens : List Nat) (hidle : ReaderIdle s) :
    readerSide.Wp (readerCalls lens) (fun _ _ => True) s := by
  induction lens generalizing s with
  | nil => exact Wp.pure (fun _ _ _ => trivial)
  | cons len rest ih =>
    apply Wp.bind
    refine (reader_test len hidle).mono ?_
    rintro avail t - ⟨ht, hahead⟩
    split_ifs with henough
    · have hat : ReaderAt t.rbuf.size 0 len t.rbuf.pread t := ⟨rfl, ht, hahead henough, rfl⟩
      apply Wp.bind
      refine (readSteps_wp hat).mono ?_
      rintro _ u - ⟨place, hu⟩
      exact ih hu.got
    · exact ih ht

/-- What was read is a beginning of what the calls that passed the test were to write. -/
structure BytesInOrder (s : RingParties) : Prop where
  order : s.got <+: s.passed
  pread : s.rbuf.pread < s.rbuf.size
  pwrite : s.rbuf.pwrite < s.rbuf.size

theorem RingInv.bytesInOrder (hinv : RingInv s) : BytesInOrder s := by
  constructor
  · rw [hinv.got_eq]
    refine .trans ?_ hinv.written
    exact take_prefix ..
  · rw [hinv.pread]
    exact mod_lt _ hinv.size
  · rw [hinv.pwrite]
    exact mod_lt _ hinv.size

theorem ringParties_inv (data : Mem UInt8) (hsize : 0 < size) :
    RingInv (ringParties data size) := by
  refine ⟨hsize, (zero_mod size).symm, (zero_mod size).symm, le_rfl, le_rfl, le_rfl, ?_, ?_, rfl,
    prefix_rfl⟩
  · change 0 < 0 + size
    omega
  · intro q _ hq
    exact absurd hq (not_lt_zero q)

/-- One reader and one writer need no lock. For every size, every sequence of guarded calls of
both and every interleaving of their accesses, the bytes read are a beginning of the writer's
buffers that passed the test, one after the other, and both pointers stay in the ring. Run
without interruption, the accesses of a call are `dvb_ringbuffer_write` and
`dvb_ringbuffer_read`. -/
theorem one_reader_one_writer (data : Mem UInt8) (size : Nat) (hsize : 0 < size)
    (bufs : List Bytes) (lens : List Nat) (turns : List Side) :
    Always Pair.turn (fun c => BytesInOrder c.state)
        { state := ringParties data size, left := writerCalls bufs, right := readerCalls lens }
        turns ∧
      (∀ buf s, ((writeSteps buf).run s).map (fun out => out.2.rbuf) =
        some (dvbRingbufferWrite s.rbuf s.rbuf.mem buf)) ∧
      ∀ len s, ((readSteps len).run s).map (fun out => (out.2.got, out.2.rbuf)) =
        some (s.got ++ (dvbRingbufferRead s.rbuf len).1, (dvbRingbufferRead s.rbuf len).2) := by
  refine ⟨?_, writeSteps_run, readSteps_run⟩
  apply Contract.pair_always writerSide readerSide
  · exact fun _ => Iff.rfl
  · exact fun _ _ => trivial
  · exact fun _ _ => trivial
  · exact fun _ _ _ hmoves => hmoves
  · exact fun _ _ _ hmoves => hmoves
  · exact fun _ hinv => hinv.bytesInOrder
  · exact ringParties_inv data hsize
  · exact writerCalls_wp bufs ⟨rfl, rfl⟩
  · exact readerCalls_wp lens rfl

/-- Three cells, so that the second write starts over while the first is being read. -/
theorem three_cells_in_order :
    ∃ c, [Side.left, .left, .left, .left, .left, .right, .right, .right, .right, .left, .left,
        .left, .left, .left].foldlM Pair.turn
        { state := ringParties (fun _ => 0) 3
          left := writerCalls [[1, 2], [3]]
          right := readerCalls [1, 2] } = some c ∧
      c.state.passed = [1, 2, 3] ∧ c.state.got = [1] ∧ BytesInOrder c.state := by
  have hrun := (one_reader_one_writer (fun _ => 0) 3 (by decide) [[1, 2], [3]] [1, 2] [.left, .left,
    .left, .left, .left, .right, .right, .right, .right, .left, .left, .left, .left, .left]).1
  exact ⟨_, rfl, rfl, rfl, hrun.reached rfl⟩

end TbsMedia.DvbCore
