import TbsMedia.DvbCore.Reassembly

/-!
How sections travel in packets, and that the reassembly buffer undoes it. A
section may be cut anywhere, several may share a packet, a start packet names
its first section with a pointer, and `0xff` fills what no section uses.
-/

namespace TbsMedia.DvbCore

open Lib List Reassembly TsPacket Mem

variable {nq : Nat}

structure WellFormedSection (s : Bytes) : Prop where
  size : s.length = sectionLength (fun i => s.getD i 0)
  fits : s.length ≤ dmxMaxSectionSize
  table : s.getD 0 0 ≠ 0xff

/-- `Packetised pending sections payloads`: the payloads carry the rest
`pending` of a section that is under way and then `sections`. The flag of a
payload says whether a section starts in it; only then it has a pointer. -/
inductive Packetised :
    Bytes → List Bytes → List (Bool × Bytes) → Prop
  | done : Packetised [] [] []
  | inside {rest : Bytes} {sections : List Bytes}
      {payloads : List (Bool × Bytes)} (chunk : Bytes)
      (htail : Packetised rest sections payloads) :
      Packetised (chunk ++ rest) sections ((false, chunk) :: payloads)
  | fill {pending : Bytes} {sections : List Bytes}
      {payloads : List (Bool × Bytes)} (n : Nat)
      (htail : Packetised [] sections payloads) :
      Packetised pending sections ((false, pending ++ List.replicate n 0xff) :: payloads)
  | start {pending head rest : Bytes} {whole sections : List Bytes}
      {payloads : List (Bool × Bytes)} (pointer : UInt8) (gap n : Nat)
      (hpointer : pointer.toNat = pending.length + gap) (hhead : head ≠ [])
      (hfill : rest ≠ [] → n = 0)
      (htail : Packetised rest sections payloads) :
      Packetised pending (whole ++ (head ++ rest) :: sections)
        ((true, pointer :: (pending ++ List.replicate gap 0xff ++
          (whole.flatten ++ head ++ List.replicate n 0xff))) :: payloads)

/-- The packet has the header, the adaptation field if any, and the payload,
and nothing else. -/
structure Carries (buf : TsPacket) (start : Bool) (bytes : Bytes) : Prop where
  sync : buf.byte 0 = 0x47
  startFlag : buf.byte 1 &&& 0x40 ≠ 0 ↔ start = true
  payloadFlag : buf.byte 3 &&& 0x10 ≠ 0
  layout : (buf.byte 3 &&& 0x20 = 0 ∧ bytes.length = 184) ∨
    (buf.byte 3 &&& 0x20 ≠ 0 ∧ (buf.byte 4).toNat + 1 + bytes.length = 184 ∧
      (0 < buf.byte 4 → buf.byte 5 &&& 0x80 = 0))
  nonempty : bytes ≠ []
  tail : buf.bytes.drop (188 - bytes.length) = bytes

/-- Packets of one PID that carry the sections, with the continuity counter
counting modulo 16. The stream may be joined inside an earlier section, of
which the bytes `missed` come first; it is empty if it is joined at a start. -/
structure SectionStream (pid : Nat) (missed : Bytes)
    (sections : List Bytes) (packets : List TsPacket) : Prop where
  wellFormed : ∀ s ∈ sections, WellFormedSection s
  pid : ∀ buf ∈ packets, tsPid buf = pid
  counting : packets.IsChain (fun buf buf' =>
    continuityCounter buf' = (continuityCounter buf + 1) % 16)
  carried : ∃ payloads, Packetised missed sections payloads ∧
    List.Forall₂ (fun buf pl => Carries buf pl.1 pl.2) packets payloads

variable {buf : TsPacket} {start : Bool} {bytes : Bytes}

section

variable (hcarries : Carries buf start bytes)
include hcarries

theorem Carries.payload_eq : payload buf = bytes.length := by
  unfold payload
  rw [if_neg hcarries.payloadFlag]
  rcases hcarries.layout with ⟨hplain, hlen⟩ | ⟨hfield, hlen, _⟩
  · rw [if_neg (by simp [hplain]), hlen]
  have hsmall : ¬ buf.byte 4 > 183 := by
    intro hbig
    have := UInt8.lt_iff_toNat_lt.mp hbig
    have h183 : (183 : UInt8).toNat = 183 := rfl
    omega
  rw [if_pos hfield, if_neg hsmall]
  omega

theorem Carries.pusi_eq : pusi buf = start := by
  cases start with
  | false => simpa [pusi] using hcarries.startFlag
  | true => simpa [pusi] using hcarries.startFlag

theorem Carries.no_discontinuity : discontinuityIndicator buf = false := by
  unfold discontinuityIndicator
  rcases hcarries.layout with ⟨hplain, _⟩ | ⟨_, _, hclear⟩
  · simp [hplain]
  simp only [decide_eq_false_iff_not, not_and, not_not]
  intro _ hlong
  exact hclear hlong

/-- The bytes of the payload from `k` on. -/
theorem Carries.slice_eq (k len : Nat) :
    buf.slice (188 - bytes.length + k) len = (bytes.drop k).take len := by
  rw [slice, ← drop_drop, hcarries.tail]

end

theorem Carries.byte_eq {b : UInt8} (hcarries : Carries buf start (b :: bytes)) :
    buf.byte (188 - (b :: bytes).length) = b := by
  have htail := hcarries.tail
  rw [byte, List.getD_eq_getElem?_getD, ← List.head?_drop, htail]
  rfl

theorem Carries.plain_actions (hcarries : Carries buf false bytes) :
    payloadActions buf = [.append bytes] := by
  have hslice := hcarries.slice_eq 0 bytes.length
  simp only [add_zero, drop_zero, take_length] at hslice
  simp [payloadActions, hcarries.pusi_eq, hcarries.payload_eq, hslice]

theorem Carries.start_actions {pointer : UInt8} {before after : Bytes}
    (hcarries : Carries buf true (pointer :: (before ++ after)))
    (hptr : pointer.toNat = before.length) (hafter : after ≠ []) :
    payloadActions buf = [.append before, .start, .append after] := by
  have hpay := hcarries.payload_eq
  have hbyte := hcarries.byte_eq
  have hafterPos := length_pos_of_ne_nil hafter
  have hfirst := hcarries.slice_eq 1 before.length
  have hnext := hcarries.slice_eq (1 + before.length) after.length
  have hlen : (pointer :: (before ++ after)).length = before.length + after.length + 1 := by simp
  have hvalid : pointerValid buf = true := by
    unfold pointerValid
    rw [hpay, hbyte]
    rw [decide_eq_true_eq]
    omega
  have hrest : (pointer :: (before ++ after)).length - 1 - before.length = after.length := by omega
  unfold payloadActions
  simp only [hcarries.pusi_eq, if_true, if_pos hvalid, hpay, hbyte, hptr, hrest]
  rw [hfirst, add_assoc, hnext]
  simp [← drop_drop]

/-! The buffer side: what has been received of the section under way. -/

def Stuck (bytes : Bytes) : Prop :=
  bytes.length < 3 ∨ sectionLength (fun i => bytes.getD i 0) > dmxMaxSectionSize ∨
    sectionLength (fun i => bytes.getD i 0) > bytes.length

private theorem sectionLength_append (front back : Bytes) (hfront : 3 ≤ front.length) :
    sectionLength (fun i => (front ++ back).getD i 0) =
      sectionLength (fun i => front.getD i 0) := by
  apply sectionLength_congr
  · simp [List.getElem?_append_left (show 1 < front.length by omega)]
  · simp [List.getElem?_append_left (show 2 < front.length by omega)]

theorem WellFormedSection.three_le {s : Bytes} (hs : WellFormedSection s) : 3 ≤ s.length := by
  rw [hs.size]
  exact (sectionLength_bounds _).1

theorem WellFormedSection.stuck {sent rest : Bytes}
    (hs : WellFormedSection (sent ++ rest)) (hrest : rest ≠ []) : Stuck sent := by
  have hpos := length_pos_of_ne_nil hrest
  by_cases hshort : sent.length < 3
  · exact .inl hshort
  right
  right
  have hsize := hs.size
  rw [sectionLength_append sent rest (by omega), length_append] at hsize
  omega

/-- Fill bytes read as a header announce 4098 bytes, more than a section has. -/
theorem stuck_fill (n : Nat) : Stuck (List.replicate n 0xff) := by
  by_cases hshort : n < 3
  · exact .inl (by simpa using hshort)
  right
  left
  have hlen : sectionLength (fun i => (List.replicate n (0xff : UInt8)).getD i 0) =
      sectionLength (fun _ => 0xff) := by
    apply sectionLength_congr
    · simp [show 1 < n by omega]
    · simp [show 2 < n by omega]
  rw [hlen]
  decide

variable (mem : Mem UInt8)

/-- Bytes that were read off a memory give its cells back. -/
private theorem sectionLength_read (o len : Nat) (hlen : 3 ≤ len) :
    sectionLength (fun i => (mem.read o len).getD i 0) = sectionLength (fun i => mem (o + i)) := by
  apply sectionLength_congr
  · simp [Mem.read, show 1 < len by omega]
  · simp [Mem.read, show 2 < len by omega]

theorem nextSection_stuck (limit o : Nat) (hstuck : Stuck (mem.read o (limit - o))) :
    nextSection mem limit o = none := by
  rcases hnext : nextSection mem limit o with _ | len
  · rfl
  obtain ⟨hlen, hroom, hmax, hfit⟩ := nextSection_eq_some.mp hnext
  have hsame := sectionLength_read mem o (limit - o) (by omega)
  simp only [Stuck, length_read, hsame, hlen] at hstuck
  omega

theorem steps_sections (limit o : Nat) (sections : List Bytes)
    (hwf : ∀ s ∈ sections, WellFormedSection s) (hfit : o + sections.flatten.length ≤ limit)
    (hread : mem.read o sections.flatten.length = sections.flatten) :
    ∃ records, Steps (nextSection mem limit) o records (o + sections.flatten.length) ∧
      records.map (fun record => mem.read record.1 record.2) = sections := by
  induction sections generalizing o with
  | nil => exact ⟨[], .nil o, rfl⟩
  | cons s rest ih =>
    have hs := hwf s (by simp)
    have hthree := hs.three_le
    simp only [flatten_cons, length_append] at hfit hread ⊢
    rw [read_add] at hread
    obtain ⟨hhead, htail⟩ := append_inj hread (by simp)
    obtain ⟨records, hsteps, hrecs⟩ := ih (o + s.length)
      (fun s' hs' => hwf s' (by simp [hs'])) (by omega) htail
    have hlen : sectionLength (fun i => mem (o + i)) = s.length := by
      rw [← sectionLength_read mem o s.length hthree, hhead]
      exact hs.size.symm
    have hnext : nextSection mem limit o = some s.length :=
      nextSection_eq_some.mpr ⟨hlen, by omega, hs.fits, by omega⟩
    refine ⟨(o, s.length) :: records, ?_, ?_⟩
    · rw [← add_assoc]
      exact .cons hnext hsteps
    · simp [hrecs, hhead]

variable (calls : Mem UInt8 → Nat → Nat → List (Fin nq)) (r : Reassembly)

namespace Reassembly

def unread (r : Reassembly) : Bytes :=
  r.mem.read r.secbufp (r.tsfeedp - r.secbufp)

theorem length_unread : r.secbufp + r.unread.length = r.tsfeedp := by
  have hle := r.secbufp_le
  simp only [unread, length_read]
  omega

/-- Appending bytes that complete `sections` hands these on, in order, and
leaves the bytes behind them. -/
theorem append_sections (calls : Mem UInt8 → Nat → Nat → List (Fin nq)) (r : Reassembly)
    (xs : Bytes) (hxs : r.accepted xs ≠ []) (sections : List Bytes) (tail : Bytes)
    (hdata : r.unread ++ r.accepted xs = sections.flatten ++ tail)
    (hwf : ∀ s ∈ sections, WellFormedSection s) (htail : Stuck tail) :
    let out := r.step calls (.append xs)
    out.1.unread = tail ∧ out.1.secbufp = r.secbufp + sections.flatten.length ∧
      out.1.pusiSeen = r.pusiSeen ∧
      out.2.map SectionDump.bytes = if r.pusiSeen then sections else [] := by
  intro out
  have hout : out = (r.filled xs, if r.pusiSeen then
      (r.records xs).map (dump calls (r.filled xs).mem) else []) := if_neg hxs
  have hlen := r.length_unread
  have hsizes := congrArg List.length hdata
  simp only [length_append] at hsizes
  -- the bytes of the buffer from `secbufp` on, before they are walked
  have hread : (r.filled xs).mem.read r.secbufp
      (sections.flatten.length + tail.length) = sections.flatten ++ tail := by
    rw [← hdata, ← hsizes]
    have happend := read_memcpy_append r.mem (r.accepted xs) r.secbufp r.unread.length
    rw [hlen] at happend
    simpa [filled, unread] using happend
  rw [read_add] at hread
  obtain ⟨hsecs, hrest⟩ := append_inj hread (by simp)
  obtain ⟨records, hsteps, hrecs⟩ := steps_sections (r.filled xs).mem
    (r.tsfeedp + (r.accepted xs).length) r.secbufp sections hwf (by omega) hsecs
  have hrem : r.tsfeedp + (r.accepted xs).length -
      (r.secbufp + sections.flatten.length) = tail.length := by omega
  have hstop : nextSection (r.filled xs).mem (r.tsfeedp + (r.accepted xs).length)
      (r.secbufp + sections.flatten.length) = none := by
    apply nextSection_stuck
    rw [hrem, hrest]
    exact htail
  obtain ⟨hwalk, hwalkStop⟩ := r.steps_records xs
  obtain ⟨hsame, hend⟩ := hwalk.unique hwalkStop hsteps hstop
  rw [hout]
  refine ⟨?_, hend, rfl, ?_⟩
  · have hunread : (r.filled xs).unread = (r.filled xs).mem.read (r.recordsEnd xs)
        (r.tsfeedp + (r.accepted xs).length - r.recordsEnd xs) := rfl
    rw [hunread, hend, hrem, hrest]
  rw [← hrecs, ← hsame]
  split_ifs
  · simp [dump]
  · rfl

/-- The buffer between two packets: nothing counts before a start was seen;
then there is only fill, or the first bytes of a section. The second list holds
the section that is due once its last bytes arrive. -/
inductive Waiting (r : Reassembly) : Bytes → List Bytes → Prop
  | unseen (pending : Bytes) (hseen : r.pusiSeen = false) :
      Waiting r pending []
  | idle (n : Nat) (hseen : r.pusiSeen = true)
      (hunread : r.unread = List.replicate n 0xff) : Waiting r [] []
  | inside (sent pending : Bytes) (hpending : pending ≠ [])
      (hseen : r.pusiSeen = true) (hunread : r.unread = sent)
      (hwf : WellFormedSection (sent ++ pending))
      (hroom : r.secbufp + (sent ++ pending).length ≤ dmxMaxSecfeedSize) :
      Waiting r pending [sent ++ pending]

theorem step_unseen (xs : Bytes) (hseen : r.pusiSeen = false) :
    (r.step calls (.append xs)).1.pusiSeen = false ∧ (r.step calls (.append xs)).2 = [] := by
  rw [step]
  split_ifs with hnone hflag
  · exact ⟨hseen, rfl⟩
  · simp [hseen] at hflag
  · exact ⟨hseen, rfl⟩

private theorem accepted_append (first second : Bytes)
    (hroom : r.tsfeedp + first.length ≤ dmxMaxSecfeedSize) :
    r.accepted (first ++ second) = first ++
      second.take (dmxMaxSecfeedSize - r.tsfeedp - first.length) := by
  rw [accepted, take_append, take_of_length_le (by omega)]

private theorem accepted_all (xs : Bytes) (hroom : r.tsfeedp + xs.length ≤ dmxMaxSecfeedSize) :
    r.accepted xs = xs := by
  rw [accepted, take_of_length_le (by omega)]

variable (calls : Mem UInt8 → Nat → Nat → List (Fin nq)) (r : Reassembly)

/-- The rest of a section, with fill behind it, completes what was due. -/
theorem waiting_fill (pending : Bytes) (due : List Bytes)
    (hwait : Waiting r pending due) (n : Nat) :
    let out := r.step calls (.append (pending ++ List.replicate n 0xff))
    Waiting out.1 [] [] ∧ out.2.map SectionDump.bytes = due := by
  intro out
  cases hwait with
  | unseen _ hseen =>
    obtain ⟨hstill, hnone⟩ := step_unseen calls r _ hseen
    exact ⟨.unseen [] hstill, by rw [hnone]; rfl⟩
  | idle m hseen hunread =>
    by_cases hxs : r.accepted ([] ++ List.replicate n 0xff) = []
    · have hout : out = (r, []) := if_pos hxs
      rw [hout]
      exact ⟨.idle m hseen hunread, rfl⟩
    obtain ⟨k, hk⟩ : ∃ k, r.accepted ([] ++ List.replicate n 0xff) =
        List.replicate k 0xff := by
      refine ⟨min (dmxMaxSecfeedSize - r.tsfeedp) n, ?_⟩
      simp [accepted]
    obtain ⟨htail, _, hkeep, hdumps⟩ := append_sections calls r _ hxs []
      (List.replicate (m + k) 0xff)
      (by rw [hunread, hk]; simp)
      (by simp) (stuck_fill _)
    refine ⟨.idle (m + k) (hkeep.trans hseen) htail, ?_⟩
    rw [hseen] at hdumps
    exact hdumps
  | inside sent _ hpend hseen hunread hwf hroom =>
    have hlen := r.length_unread
    rw [hunread] at hlen
    have hpos := length_pos_of_ne_nil hpend
    rw [length_append] at hroom
    have hacc := accepted_append r pending (List.replicate n 0xff) (by omega)
    rw [take_replicate] at hacc
    obtain ⟨htail, _, hkeep, hdumps⟩ := append_sections calls r
      (pending ++ List.replicate n 0xff) (by rw [hacc]; simp [hpend])
      [sent ++ pending]
      (List.replicate (min (dmxMaxSecfeedSize - r.tsfeedp - pending.length) n) 0xff)
      (by rw [hunread, hacc]; simp) (by simpa using hwf) (stuck_fill _)
    refine ⟨.idle _ (hkeep.trans hseen) htail, ?_⟩
    rw [hseen] at hdumps
    exact hdumps

theorem waiting_chunk (chunk rest : Bytes) (due : List Bytes)
    (hwait : Waiting r (chunk ++ rest) due) (hchunk : chunk ≠ []) :
    let out := r.step calls (.append chunk)
    ∃ due', Waiting out.1 rest due' ∧ out.2.map SectionDump.bytes ++ due' = due := by
  intro out
  by_cases hrest : rest = []
  · subst rest
    have hfill := waiting_fill calls r chunk due (by simpa using hwait) 0
    simp only [replicate_zero, append_nil] at hfill
    exact ⟨[], hfill.1, by simpa using hfill.2⟩
  generalize hwhole : chunk ++ rest = whole at hwait
  cases hwait with
  | unseen _ hseen =>
    obtain ⟨hstill, hnone⟩ := step_unseen calls r chunk hseen
    exact ⟨[], .unseen rest hstill, by simp [out, hnone]⟩
  | idle m hseen hunread => simp [hchunk] at hwhole
  | inside sent _ hpend hseen hunread hwf hroom =>
    subst hwhole
    rw [← append_assoc] at hwf hroom ⊢
    have hlen := r.length_unread
    rw [hunread] at hlen
    simp only [length_append] at hroom
    have hacc := accepted_all r chunk (by omega)
    obtain ⟨htail, hpos, hkeep, hdumps⟩ := append_sections calls r chunk
      (by rw [hacc]; exact hchunk) [] (sent ++ chunk)
      (by rw [hunread, hacc]; simp) (by simp) (hwf.stuck hrest)
    refine ⟨[sent ++ chunk ++ rest],
      .inside (sent ++ chunk) rest hrest (hkeep.trans hseen) htail hwf ?_, ?_⟩
    · rw [hpos]
      simp only [flatten_nil, length_nil, length_append]
      omega
    · rw [hdumps]
      simp

/-- A start packet: it ends the section that is due, hands on every section
that is whole in it, and leaves the one it does not finish. -/
theorem waiting_start (whole : List Bytes) (head rest : Bytes) (n : Nat)
    (hhead : head ≠ []) (hfill : rest ≠ [] → n = 0)
    (hwf : ∀ s ∈ whole ++ [head ++ rest], WellFormedSection s)
    (hsize : (whole.flatten ++ head ++ List.replicate n 0xff).length ≤ 183) :
    let out := (r.empty true).step calls (.append (whole.flatten ++ head ++ List.replicate n 0xff))
    ∃ due, Waiting out.1 rest due ∧
      out.2.map SectionDump.bytes ++ due = whole ++ [head ++ rest] := by
  intro out
  have hmax : dmxMaxSecfeedSize = 4284 := rfl
  have hunread : (r.empty true).unread = [] := by simp [unread, empty]
  have hacc := accepted_all (r.empty true)
    (whole.flatten ++ head ++ List.replicate n 0xff) (by simp only [empty]; omega)
  have hsome : (r.empty true).accepted (whole.flatten ++ head ++ List.replicate n 0xff) ≠ [] := by
    rw [hacc]
    simp [hhead]
  by_cases hrest : rest = []
  · subst rest
    obtain ⟨htail, _, hkeep, hdumps⟩ := append_sections calls (r.empty true) _ hsome
      (whole ++ [head]) (List.replicate n 0xff) (by rw [hunread, hacc]; simp)
      (by simpa using hwf) (stuck_fill n)
    refine ⟨[], .idle n (hkeep.trans rfl) htail, ?_⟩
    rw [append_nil, hdumps]
    simp [empty]
  · have hlast := hwf (head ++ rest) (by simp)
    obtain rfl := hfill hrest
    obtain ⟨htail, hpos, hkeep, hdumps⟩ := append_sections calls (r.empty true) _ hsome
      whole head (by rw [hunread, hacc]; simp)
      (fun s hs => hwf s (by simp [hs])) (hlast.stuck hrest)
    refine ⟨[head ++ rest], .inside head rest hrest (hkeep.trans rfl) htail hlast ?_, ?_⟩
    · have hfits := hlast.fits
      have hsec : dmxMaxSectionSize = 4096 := rfl
      have hempty : (r.empty true).secbufp = 0 := rfl
      rw [hpos, hempty]
      simp only [length_append] at hsize hfits ⊢
      omega
    · rw [hdumps]
      simp [empty]

end Reassembly

theorem Reassembly.emitted_start_packet (before after : Bytes) :
    emitted (step calls) r [.append before, .start, .append after] =
      (r.step calls (.append before)).2 ++
        (((r.step calls (.append before)).1.empty true).step calls (.append after)).2 := by
  simp only [emitted, append_nil]
  rfl

def joinActions (cc : Int) : List TsPacket → List Action
  | [] => []
  | buf :: _ => if lost cc buf then [.lose] else []

/-- Only the first packet of a stream can look like the end of a gap. -/
theorem streamActions_counting (packets : List TsPacket)
    (hpay : ∀ buf ∈ packets, payload buf ≠ 0)
    (hclear : ∀ buf ∈ packets, discontinuityIndicator buf = false)
    (hcounting : packets.IsChain (fun buf buf' =>
      continuityCounter buf' = (continuityCounter buf + 1) % 16)) (cc : Int) :
    streamActions cc packets = joinActions cc packets ++ packets.flatMap payloadActions := by
  induction packets generalizing cc with
  | nil => rfl
  | cons buf rest ih =>
    have hsome := hpay buf (by simp)
    have htail := ih (fun b hb => hpay b (by simp [hb]))
      (fun b hb => hclear b (by simp [hb])) hcounting.of_cons (continuityCounter buf)
    have hjoined : streamActions (continuityCounter buf) rest =
        rest.flatMap payloadActions := by
      rw [htail]
      rcases rest with _ | ⟨next, more⟩
      · rfl
      have hstep : continuityCounter next = (continuityCounter buf + 1) % 16 := by
        simpa using (isChain_cons_cons.mp hcounting).1
      have hkept : lost (continuityCounter buf) next = false := by
        simp [lost, hstep, hclear next (by simp)]
      simp [joinActions, hkept]
    simp [streamActions, packetActions, nextCc, joinActions, if_neg hsome, hjoined]

/-- Any packetisation that continues what the buffer waits for hands on the
section that is due and then exactly the sections it carries. -/
theorem emitted_packetised {pending : Bytes} {sections : List Bytes}
    {payloads : List (Bool × Bytes)} (hpacketised : Packetised pending sections payloads)
    (packets : List TsPacket)
    (hcarry : List.Forall₂ (fun buf pl => Carries buf pl.1 pl.2) packets payloads)
    (hwf : ∀ s ∈ sections, WellFormedSection s) (r : Reassembly) (due : List Bytes)
    (hwait : Reassembly.Waiting r pending due) :
    (emitted (Reassembly.step calls) r (packets.flatMap payloadActions)).map
      SectionDump.bytes = due ++ sections := by
  induction hpacketised generalizing packets r due with
  | done =>
    cases hcarry
    cases hwait with
    | unseen => rfl
    | idle => rfl
    | inside _ _ hpend => exact absurd rfl hpend
  | inside chunk _ ih =>
    obtain ⟨buf, rest, hbuf, hrest, rfl⟩ := forall₂_cons_right_iff.mp hcarry
    obtain ⟨due', hnext, hdumps⟩ := waiting_chunk calls r chunk _ due hwait hbuf.nonempty
    rw [flatMap_cons, hbuf.plain_actions, emitted_append, map_append,
      final, final, ih rest hrest hwf _ due' hnext, ← hdumps]
    simp [emitted]
  | fill n _ ih =>
    obtain ⟨buf, rest, hbuf, hrest, rfl⟩ := forall₂_cons_right_iff.mp hcarry
    obtain ⟨hnext, hdumps⟩ := waiting_fill calls r _ due hwait n
    rw [flatMap_cons, hbuf.plain_actions, emitted_append, map_append,
      final, final, ih rest hrest hwf _ [] hnext, ← hdumps]
    simp [emitted]
  | @start pending head tail whole sections payloads pointer gap n hptr hhead
      hfill _ ih =>
      obtain ⟨buf, rest, hbuf, hrest, rfl⟩ := forall₂_cons_right_iff.mp hcarry
      have hactions := hbuf.start_actions (by simpa using hptr) (by simp [hhead])
      have hsize := hbuf.payload_eq
      have hlimit := payload_le buf
      simp only [length_cons, length_append] at hsize
      obtain ⟨-, hpre⟩ := waiting_fill calls r pending due hwait gap
      obtain ⟨due', hnext, hafter⟩ := waiting_start calls
        (r.step calls (.append (pending ++ List.replicate gap 0xff))).1 whole head tail
        n hhead hfill
        (fun s hs => hwf s (by
          simp only [mem_append, mem_singleton] at hs
          rcases hs with hs | hs
          · simp [hs]
          · simp [hs]))
        (by simp only [length_append]; omega)
      rw [flatMap_cons, hactions, emitted_append, map_append]
      have htail := ih rest hrest (fun s hs => hwf s (by simp [hs])) _ due' hnext
      have hfinal : final (Reassembly.step calls) r [.append (pending ++
          List.replicate gap 0xff), .start, .append (whole.flatten ++ head ++
          List.replicate n 0xff)] = (((r.step calls (.append (pending ++
          List.replicate gap 0xff))).1.empty true).step calls (.append
          (whole.flatten ++ head ++ List.replicate n 0xff))).1 := rfl
      rw [hfinal, htail, emitted_start_packet, map_append, hpre,
        append_assoc, ← append_assoc _ due', hafter]
      simp

/-- The packet that continues a PID behind counter `cc` with 184 plain payload
bytes. -/
def followingPacket (pid : Nat) (cc : Int) (bytes : Bytes)
    (hbytes : bytes.length = 184) : TsPacket :=
  { bytes := [0x47, UInt8.ofNat (pid / 256), UInt8.ofNat pid,
      UInt8.ofNat (16 + ((cc + 1) % 16).toNat)] ++ bytes
    size := by simp [hbytes] }

theorem tsPid_followingPacket (pid : Nat) (hpid : pid < 0x2000) (cc : Int) (bytes : Bytes)
    (hbytes : bytes.length = 184) : tsPid (followingPacket pid cc bytes hbytes) = pid := by
  have hmask : pid / 256 % 256 &&& 31 = pid / 256 := by
    have hmod := Nat.and_two_pow_sub_one_eq_mod (pid / 256 % 256) 5
    norm_num at hmod
    omega
  simp only [tsPid, followingPacket, byte, cons_append, nil_append,
    getD_cons_succ, getD_cons_zero, UInt8.toNat_and, UInt8.toNat_ofNat', Nat.shiftLeft_eq]
  rw [show (0x1f : UInt8).toNat = 31 from rfl, hmask]
  omega

private theorem counterByte (k : Fin 16) :
    (UInt8.ofNat (16 + k.val) &&& 0x10 ≠ 0 ∧ UInt8.ofNat (16 + k.val) &&& 0x20 = 0) ∧
      (UInt8.ofNat (16 + k.val) &&& 0x0f).toNat = k.val := by
  revert k
  decide

private theorem pidByte (k : Fin 32) : UInt8.ofNat k.val &&& 0x40 = 0 := by
  revert k
  decide

variable (pid : Nat) (hpid : pid < 0x2000) (cc : Int) (bytes : Bytes)
  (hbytes : bytes.length = 184)
include hpid hbytes

theorem followingPacket_carries : Carries (followingPacket pid cc bytes hbytes) false bytes := by
  obtain ⟨⟨hpay, hfield⟩, -⟩ := counterByte ⟨((cc + 1) % 16).toNat, by omega⟩
  have hstart := pidByte ⟨pid / 256, by omega⟩
  constructor
  · rfl
  · simpa [followingPacket, byte] using hstart
  · exact hpay
  · exact .inl ⟨hfield, hbytes⟩
  · exact ne_nil_of_length_pos (by omega)
  · simp [followingPacket, hbytes]

theorem followingPacket_actions :
    packetActions cc (followingPacket pid cc bytes hbytes) = [.append bytes] := by
  obtain ⟨-, hcount⟩ := counterByte ⟨((cc + 1) % 16).toNat, by omega⟩
  have hcarries := followingPacket_carries pid hpid cc bytes hbytes
  have hcc : continuityCounter (followingPacket pid cc bytes hbytes) = (cc + 1) % 16 := by
    have hbyte : (followingPacket pid cc bytes hbytes).byte 3 =
      UInt8.ofNat (16 + ((cc + 1) % 16).toNat) := rfl
    rw [continuityCounter, hbyte]
    simp only at hcount
    omega
  have hkept : lost cc (followingPacket pid cc bytes hbytes) = false := by
    simp [lost, hcc, hcarries.no_discontinuity]
  unfold packetActions
  rw [hkept, hcarries.plain_actions, if_neg (by rw [hcarries.payload_eq]; omega)]
  rfl

end TbsMedia.DvbCore
