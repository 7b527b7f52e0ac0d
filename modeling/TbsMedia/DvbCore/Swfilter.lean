import TbsMedia.Lib.Frames
import TbsMedia.Lib.Memory
import TbsMedia.DvbCore.TsPacket

/-!
The raw stream entry points `dvb_dmx_swfilter` and `dvb_dmx_swfilter_204`. A
driver hands over buffers that are cut anywhere; the demux looks for packets in
them and carries the front of an unfinished one over to the next call in
`tsbuf`. The packets passed to `dvb_dmx_swfilter_packet` are recorded.
-/

namespace TbsMedia.DvbCore

open Lib Function List Option Mem

/-- The fields of `struct dvb_demux` that carry an unfinished packet. -/
structure TsCarry where
  tsbuf : Mem UInt8
  tsbufp : Nat
deriving Inhabited

def packetAt (q : Mem UInt8) : TsPacket :=
  { bytes := q.read 0 188, size := Mem.length_read q 0 188 }

def isSync (pktsize : Nat) (b : UInt8) : Bool :=
  b = 0x47 ∨ pktsize = 204 ∧ b = 0xb8

/-- The `while` of `find_next_packet`: the first sync byte from `pos` on. -/
def nextSync (buf : Bytes) (pos pktsize : Nat) : Nat :=
  pos + ((buf.drop pos).takeWhile (fun b => !isSync pktsize b)).length

def findNextPacket (buf : Bytes) (start pktsize : Nat) : Nat :=
  let pos := nextSync buf start pktsize
  let lost := pos - start
  -- garbage that is the end of a packet: go back to its sync byte
  if lost ≠ 0 ∧ pktsize ≤ pos ∧ isSync pktsize (buf.getD (pos - pktsize) 0) then
    pos - pktsize
  else pos

/-- The packet at `q` as it is passed on, and `tsbuf` afterwards. -/
def takePacket (q : Mem UInt8) (pktsize : Nat) (tsbuf : Mem UInt8) : TsPacket × Mem UInt8 :=
  if pktsize = 204 ∧ q 0 = 0xb8 then
    let tsbuf := update (tsbuf.memcpy 0 (q.read 0 188)) 0 0x47
    (packetAt tsbuf, tsbuf)
  else (packetAt q, tsbuf)

/-- The `while (1)`: where it ends, `tsbuf`, and the packets passed on. -/
def swfilterLoop (buf : Bytes) (pktsize : Nat) :
    Nat → Nat → Mem UInt8 → Option (Nat × Mem UInt8 × List TsPacket)
  | 0, _, _ => none
  | rounds + 1, p, tsbuf =>
    let p := findNextPacket buf p pktsize
    if p ≥ buf.length then some (p, tsbuf, [])
    else if buf.length - p < pktsize then some (p, tsbuf, [])
    else
      let taken := takePacket (fun i => buf.getD (p + i) 0) pktsize tsbuf
      match swfilterLoop buf pktsize rounds (p + pktsize) taken.2 with
      | none => none
      | some (e, tsbuf, packets) => some (e, tsbuf, taken.1 :: packets)

/-- `if (pktsize == 204 && tsbuf[0] == 0xB8) tsbuf[0] = 0x47;` -/
def restoreSync (pktsize : Nat) (tsbuf : Mem UInt8) : Mem UInt8 :=
  if pktsize = 204 ∧ tsbuf 0 = 0xb8 then update tsbuf 0 0x47 else tsbuf

/-- What follows the loop: the bytes from `p` on are kept. -/
def carryTail (buf : Bytes) (pktsize p : Nat) (tsbuf : Mem UInt8) : TsCarry :=
  let i := buf.length - p
  if i ≠ 0 then
    { tsbuf := restoreSync pktsize (tsbuf.memcpy 0 (buf.drop p)), tsbufp := i }
  else { tsbuf := tsbuf, tsbufp := 0 }

/-- The part of `_dvb_dmx_swfilter` behind the carried packet, from `p` on. -/
def swfilterFrom (buf : Bytes) (pktsize p : Nat) (tsbuf : Mem UInt8) :
    Option (TsCarry × List TsPacket) :=
  match swfilterLoop buf pktsize (buf.length + 1) p tsbuf with
  | none => none
  | some (e, tsbuf, packets) => some (carryTail buf pktsize e tsbuf, packets)

def carriedPacket (tsbuf : Mem UInt8) : List TsPacket :=
  if tsbuf 0 = 0x47 then [packetAt tsbuf] else []

/-- `_dvb_dmx_swfilter`. The comparison `count < j` is unsigned, so a negative
`j` counts as a large number. -/
def dvbDmxSwfilterPktsize (pktsize : Nat) (s : TsCarry) (buf : Bytes) :
    Option (TsCarry × List TsPacket) :=
  if s.tsbufp ≠ 0 then
    let j := pktsize - s.tsbufp
    if pktsize < s.tsbufp ∨ buf.length < j then
      some ({ tsbuf := s.tsbuf.memcpy s.tsbufp buf,
              tsbufp := s.tsbufp + buf.length }, [])
    else
      let tsbuf := s.tsbuf.memcpy s.tsbufp (buf.take j)
      match swfilterFrom buf pktsize j tsbuf with
      | none => none
      | some (s, packets) => some (s, carriedPacket tsbuf ++ packets)
  else swfilterFrom buf pktsize 0 s.tsbuf

def dvbDmxSwfilter : TsCarry → Bytes → Option (TsCarry × List TsPacket) :=
  dvbDmxSwfilterPktsize 188

def dvbDmxSwfilter204 : TsCarry → Bytes → Option (TsCarry × List TsPacket) :=
  dvbDmxSwfilterPktsize 204

def swfilterCalls (pktsize : Nat) : TsCarry → List Bytes →
    Option (TsCarry × List TsPacket)
  | s, [] => some (s, [])
  | s, buf :: rest => do
    let (s, packets) ← dvbDmxSwfilterPktsize pktsize s buf
    let (s, more) ← swfilterCalls pktsize s rest
    pure (s, packets ++ more)

variable (buf : Bytes)

/-! Every round of the loop moves forward, also one that goes back over garbage. -/

variable (pktsize : Nat)

theorem swfilterLoop_isSome (hsize : 0 < pktsize) (rounds p : Nat) (tsbuf : Mem UInt8)
    (hrounds : buf.length ≤ p + rounds) :
    (swfilterLoop buf pktsize (rounds + 1) p tsbuf).isSome := by
  induction rounds generalizing p tsbuf with
  | zero =>
    rw [add_zero] at hrounds
    have hstay : findNextPacket buf p pktsize = p := by
      simp [findNextPacket, nextSync, drop_of_length_le hrounds]
    rw [swfilterLoop, hstay, if_pos hrounds]
    rfl
  | succ rounds ih =>
    have hmoves : p < findNextPacket buf p pktsize + pktsize := by
      have hle : p ≤ nextSync buf p pktsize := Nat.le_add_right _ _
      rw [findNextPacket]
      split_ifs <;> omega
    rw [swfilterLoop]
    dsimp only
    split_ifs
    · rfl
    · rfl
    split
    next hnone => exact absurd hnone (isSome_iff_ne_none.mp (ih _ _ (by omega)))
    next => rfl

theorem swfilterPktsize_isSome (hsize : 0 < pktsize) (s : TsCarry) (buf : Bytes) :
    (dvbDmxSwfilterPktsize pktsize s buf).isSome := by
  have hfrom (p : Nat) (tsbuf : Mem UInt8) : swfilterFrom buf pktsize p tsbuf ≠ none := by
    have hsome := swfilterLoop_isSome buf pktsize hsize buf.length p tsbuf (by omega)
    rw [swfilterFrom]
    split
    next hnone => simp [hnone] at hsome
    next => exact some_ne_none _
  simp only [dvbDmxSwfilterPktsize]
  split_ifs
  · rfl
  · split
    next hnone => exact absurd hnone (hfrom _ _)
    next => rfl
  · exact isSome_iff_ne_none.mpr (hfrom 0 s.tsbuf)

/-! Packets that follow one another without a gap. -/

/-- The bytes of a packet as the demux passes them on: a sync byte `0xb8` of a
204-byte packet becomes `0x47`. -/
def restore (pktsize : Nat) : Bytes → Bytes
  | [] => []
  | b :: rest => (if pktsize = 204 ∧ b = 0xb8 then 0x47 else b) :: rest

theorem restore_append (front back : Bytes) (hfront : front ≠ []) :
    restore pktsize (front ++ back) = restore pktsize front ++ back := by
  cases front with
  | nil => exact absurd rfl hfront
  | cons b rest => rfl

theorem restore_head (bytes : Bytes) (hsome : bytes ≠ [])
    (hsync : ∀ b ∈ bytes.head?, isSync pktsize b = true) :
    (restore pktsize bytes).getD 0 0 = 0x47 := by
  rcases bytes with _ | ⟨b, rest⟩
  · exact absurd rfl hsome
  have hb := hsync b rfl
  simp only [isSync, decide_eq_true_eq] at hb
  simp only [restore, getD_cons_zero]
  split_ifs with hoth
  · rfl
  · exact hb.resolve_right hoth

theorem read_restored (q : Mem UInt8) (n : Nat) :
    (restoreSync pktsize q).read 0 n = restore pktsize (q.read 0 n) := by
  rcases n with _ | n
  · rfl
  have hsplit (m : Mem UInt8) : m.read 0 (n + 1) = m 0 :: m.read 1 n := by
    rw [add_comm n 1, read_add]
    rfl
  rw [hsplit q, hsplit, restoreSync]
  split_ifs with hoth
  · simp only [restore, update_self, if_pos hoth]
    congr 1
    apply read_congr
    intro i _
    exact update_of_ne (by omega) _ _
  · simp [restore, if_neg hoth]

theorem read_list (p n : Nat) (hfit : p + n ≤ buf.length) :
    Mem.read (fun i => buf.getD (p + i) 0) 0 n = (buf.drop p).take n := by
  apply ext_getElem
  · simp only [length_read, length_take, length_drop]
    omega
  · intro i hi hi'
    rw [length_read] at hi
    simp [Mem.read, show p + i < buf.length by omega]

theorem takePacket_bytes (q : Mem UInt8) (pktsize : Nat) (tsbuf : Mem UInt8) :
    (takePacket q pktsize tsbuf).1.bytes = restore pktsize (q.read 0 188) := by
  rw [← read_restored, restoreSync]
  rw [takePacket]
  split_ifs with hoth
  · apply read_congr
    intro i hi
    rcases Nat.eq_zero_or_pos i with rfl | hpos
    · simp
    rw [update_of_ne (by omega), update_of_ne (by omega)]
    have hcell := memcpy_inside tsbuf 0 (q.read 0 188) i (by simpa using hi)
    rw [hcell]
    simp [Mem.read]
  · rfl

section Stream

variable {pktsize : Nat} {frames : List Bytes} {tail : Bytes}

def passedOn (pktsize : Nat) (frames : List Bytes) : List Bytes :=
  frames.map (fun frame => (restore pktsize frame).take 188)

/-- The demux carries `tail` over to the next call. -/
def TsCarry.Keeps (s : TsCarry) (pktsize : Nat) (tail : Bytes) : Prop :=
  s.tsbufp = tail.length ∧ s.tsbuf.read 0 tail.length = restore pktsize tail

/-- Garbage in front of a sync byte is skipped, and there is nothing in it to go
back to. -/
theorem findNextPacket_garbage (garbage rest : Bytes)
    (hgarbage : ∀ b ∈ garbage, isSync pktsize b = false)
    (hsync : ∀ b ∈ rest.head?, isSync pktsize b = true) (hsize : 0 < pktsize) :
    findNextPacket (garbage ++ rest) 0 pktsize = garbage.length := by
  have hnext : nextSync (garbage ++ rest) 0 pktsize = garbage.length := by
    have hstop : rest.takeWhile (fun b => !isSync pktsize b) = [] := by
      cases rest with
      | nil => rfl
      | cons b rest => simp [hsync b rfl]
    rw [nextSync, drop_zero, takeWhile_append_of_pos (by intro b hb; simp [hgarbage b hb]), hstop]
    simp
  simp only [findNextPacket, hnext]
  split_ifs with hback
  · obtain ⟨hlost, hroom, hfound⟩ := hback
    have hin : garbage.length - pktsize < garbage.length := by omega
    rw [List.getD_eq_getElem?_getD, List.getElem?_append_left hin,
      List.getElem?_eq_getElem hin, getD_some, hgarbage _ (getElem_mem hin)] at hfound
    cases hfound
  · rfl

theorem findNextPacket_aligned (p : Nat) (hsync : ∀ b ∈ (buf.drop p).head?, isSync pktsize b = true)
    : findNextPacket buf p pktsize = p := by
  have hnext : nextSync buf p pktsize = p := by
    have hstop : (buf.drop p).takeWhile (fun b => !isSync pktsize b) = [] := by
      generalize buf.drop p = rest at hsync
      cases rest with
      | nil => rfl
      | cons b rest => simp [hsync b rfl]
    simp [nextSync, hstop]
  simp [findNextPacket, hnext]

theorem carryTail_keeps (e : Nat) (tsbuf : Mem UInt8) (hend : buf.drop e = tail) :
    (carryTail buf pktsize e tsbuf).Keeps pktsize tail := by
  have hlen := congrArg List.length hend
  rw [length_drop] at hlen
  rw [carryTail]
  split_ifs with hsome
  · refine ⟨hlen, ?_⟩
    have hread := read_memcpy_self tsbuf 0 (buf.drop e)
    rw [read_restored, hend] at *
    rw [hread]
  · obtain rfl : tail = [] := eq_nil_of_length_eq_zero (by omega)
    exact ⟨rfl, rfl⟩

/-- The packets `frames` are passed on, and `tail` is carried over. -/
def PassesOn (pktsize : Nat) (frames : List Bytes) (tail : Bytes)
    (out : Option (TsCarry × List TsPacket)) : Prop :=
  ∃ s packets, out = some (s, packets) ∧
    packets.map TsPacket.bytes = passedOn pktsize frames ∧ s.Keeps pktsize tail

variable (hsize : 188 ≤ pktsize)
include hsize

theorem carriedPacket_bytes (tsbuf : Mem UInt8) (frame : Bytes)
    (hframe : frame.length = pktsize) (hread : tsbuf.read 0 pktsize = restore pktsize frame)
    (hsync : ∀ b ∈ frame.head?, isSync pktsize b = true) :
    (carriedPacket tsbuf).map TsPacket.bytes = [(restore pktsize frame).take 188] := by
  have hhead := restore_head pktsize frame (ne_nil_of_length_pos (by omega)) hsync
  rw [← hread] at hhead
  have hfirst : tsbuf 0 = 0x47 := by
    rw [← hhead]
    simp [Mem.read, show 0 < pktsize by omega]
  have htake := drop_take_read tsbuf 0 pktsize 0 188 (by omega)
  rw [drop_zero, hread] at htake
  simp [carriedPacket, if_pos hfirst, packetAt, htake]

variable (hframed : Framed pktsize (fun b => isSync pktsize b = true) frames tail)
include hframed

/-- At a packet boundary the loop passes on the packets one by one and stops at
the tail. -/
theorem swfilterLoop_frames (buf : Bytes) (p rounds : Nat) (tsbuf : Mem UInt8)
    (hp : buf.drop p = frames.flatten ++ tail) (hle : p ≤ buf.length)
    (hrounds : buf.length ≤ p + rounds) :
    ∃ e tsbuf' packets,
      swfilterLoop buf pktsize (rounds + 1) p tsbuf = some (e, tsbuf', packets) ∧
      packets.map TsPacket.bytes = passedOn pktsize frames ∧ buf.drop e = tail := by
  have hhead := hframed.head (by omega)
  have hfind := findNextPacket_aligned buf p (by rw [hp]; exact hhead)
  have hlen := congrArg List.length hp
  simp only [length_drop, length_append] at hlen
  induction frames generalizing p rounds tsbuf with
  | nil =>
    have htail := hframed.tailLength
    refine ⟨p, tsbuf, [], ?_, rfl, by simpa using hp⟩
    simp only [flatten_nil, length_nil, zero_add] at hlen
    simp only [swfilterLoop, hfind]
    rw [if_pos (show buf.length - p < pktsize by omega)]
    split_ifs <;> rfl
  | cons frame frames ih =>
    obtain ⟨hframe, -, hrest⟩ := hframed.uncons
    simp only [flatten_cons, length_append] at hlen
    have hp' : buf.drop (p + pktsize) = frames.flatten ++ tail := by
      rw [← drop_drop, hp, flatten_cons, append_assoc, drop_left' hframe]
    obtain ⟨rounds, rfl⟩ : ∃ n, rounds = n + 1 := ⟨rounds - 1, by omega⟩
    have hhead' := hrest.head (by omega)
    obtain ⟨e, tsbuf', packets, hloop, hpkts, hend⟩ := ih hrest (p + pktsize) rounds
      (takePacket (fun i => buf.getD (p + i) 0) pktsize tsbuf).2 hp' (by omega)
      (by omega) hhead' (findNextPacket_aligned buf _ (by rw [hp']; exact hhead'))
      (by omega)
    refine ⟨e, tsbuf', (takePacket (fun i => buf.getD (p + i) 0) pktsize tsbuf).1 ::
      packets, ?_, ?_, hend⟩
    · rw [swfilterLoop]
      simp only [hfind, hloop]
      rw [if_neg (by omega), if_neg (by omega)]
    · have hbytes : (buf.drop p).take 188 = frame.take 188 := by
        rw [hp, flatten_cons, append_assoc, take_append_of_le_length (by omega)]
      have htake : restore pktsize (frame.take 188) = (restore pktsize frame).take 188 := by
        cases frame with
        | nil => rfl
        | cons b rest => rfl
      simp only [map_cons, takePacket_bytes, hpkts, passedOn]
      rw [read_list buf p 188 (by omega), hbytes, htake]

theorem swfilterFrom_frames (buf : Bytes) (p : Nat) (tsbuf : Mem UInt8)
    (hp : buf.drop p = frames.flatten ++ tail) (hle : p ≤ buf.length) :
    PassesOn pktsize frames tail (swfilterFrom buf pktsize p tsbuf) := by
  obtain ⟨e, tsbuf', packets, hloop, hpkts, hend⟩ :=
    swfilterLoop_frames hsize hframed buf p buf.length tsbuf hp hle (by omega)
  refine ⟨carryTail buf pktsize e tsbuf', packets, ?_, hpkts, carryTail_keeps buf e _ hend⟩
  simp [swfilterFrom, hloop]

/-- A call with nothing carried over, whose buffer may start with garbage. -/
theorem swfilter_garbage (s : TsCarry) (hs : s.tsbufp = 0)
    (garbage : Bytes) (hgarbage : ∀ b ∈ garbage, isSync pktsize b = false) :
    PassesOn pktsize frames tail
      (dvbDmxSwfilterPktsize pktsize s (garbage ++ (frames.flatten ++ tail))) := by
  have hhead := hframed.head (by omega)
  have hfrom := swfilterFrom_frames hsize hframed (garbage ++ (frames.flatten ++ tail))
    garbage.length s.tsbuf drop_left (by simp)
  rw [dvbDmxSwfilterPktsize, if_neg (by simp [hs])]
  -- the first round of the loop sees the same position from both starts
  simp only [swfilterFrom, swfilterLoop, findNextPacket_garbage garbage _ hgarbage hhead (by omega),
    findNextPacket_aligned (garbage ++ (frames.flatten ++ tail)) garbage.length
      (by rw [drop_left]; exact hhead)] at hfrom ⊢
  exact hfrom

section

variable (s : TsCarry) (carried buf : Bytes) (hkeeps : s.Keeps pktsize carried)
include hkeeps

theorem swfilter_carried (hcarry : carried ≠ []) (hshort : carried.length < pktsize)
    (hdata : carried ++ buf = frames.flatten ++ tail) :
    PassesOn pktsize frames tail (dvbDmxSwfilterPktsize pktsize s buf) := by
  obtain ⟨hlen, hread⟩ := hkeeps
  have hpos := length_pos_of_ne_nil hcarry
  have htail := hframed.tailLength
  have hsizes := congrArg List.length hdata
  simp only [length_append] at hsizes
  have happend (more : Bytes) :
      (s.tsbuf.memcpy s.tsbufp more).read 0 (carried.length + more.length) =
        restore pktsize (carried ++ more) := by
    have hcopy := read_memcpy_append s.tsbuf more 0 carried.length
    rw [zero_add] at hcopy
    rw [hlen, hcopy, hread, restore_append pktsize carried more hcarry]
  simp only [dvbDmxSwfilterPktsize]
  rw [if_pos (by omega)]
  by_cases hmore : buf.length < pktsize - s.tsbufp
  · rw [if_pos (.inr hmore)]
    obtain rfl : frames = [] := hframed.eq_nil (by
      rw [length_append]
      omega)
    simp only [flatten_nil, nil_append] at hdata
    refine ⟨_, [], rfl, rfl, ?_, ?_⟩
    · rw [← hdata, length_append, hlen]
    · rw [← hdata, length_append, happend]
  · rw [if_neg (by omega)]
    rcases frames with _ | ⟨frame, frames⟩
    · simp only [flatten_nil, length_nil] at hsizes; omega
    obtain ⟨hframe, -, hrest⟩ := hframed.uncons
    rw [flatten_cons, append_assoc, ← take_append_drop
      (pktsize - s.tsbufp) buf, ← append_assoc] at hdata
    obtain ⟨hfirst, hlater⟩ := append_inj hdata (by
      simp only [length_append, length_take]
      omega)
    obtain ⟨s', packets, hfrom, hpkts, hkept⟩ := swfilterFrom_frames hsize hrest buf
      (pktsize - s.tsbufp) (s.tsbuf.memcpy s.tsbufp (buf.take (pktsize - s.tsbufp))) hlater
      (by omega)
    have hwhole := happend (buf.take (pktsize - s.tsbufp))
    rw [hfirst, length_take, min_eq_left (by omega),
      show carried.length + (pktsize - s.tsbufp) = pktsize by omega] at hwhole
    refine ⟨s', carriedPacket _ ++ packets, by rw [hfrom], ?_, hkept⟩
    rw [map_append, hpkts, carriedPacket_bytes hsize _ frame hframe hwhole (hframed.uncons.2.1)]
    rfl

theorem swfilter_call (hshort : carried.length < pktsize)
    (hdata : carried ++ buf = frames.flatten ++ tail) :
    PassesOn pktsize frames tail (dvbDmxSwfilterPktsize pktsize s buf) := by
  rcases eq_or_ne carried [] with rfl | hcarry
  · rw [nil_append] at hdata
    rw [hdata]
    exact swfilter_garbage hsize hframed s hkeeps.1 [] (by simp)
  · exact swfilter_carried hsize hframed s carried buf hkeeps hcarry hshort hdata

end

omit hsize hframed in
theorem PassesOn.cons {s s1 : TsCarry} {buf : Bytes} {rest : List Bytes}
    {packets : List TsPacket} {later : List Bytes}
    (hcall : dvbDmxSwfilterPktsize pktsize s buf = some (s1, packets))
    (hpkts : packets.map TsPacket.bytes = passedOn pktsize frames)
    (hlater : PassesOn pktsize later tail (swfilterCalls pktsize s1 rest)) :
    PassesOn pktsize (frames ++ later) tail (swfilterCalls pktsize s (buf :: rest)) := by
  obtain ⟨s2, more, hcalls, hmore, hkeeps⟩ := hlater
  refine ⟨s2, packets ++ more, ?_, ?_, hkeeps⟩
  · simp [swfilterCalls, hcall, hcalls]
  · simp [passedOn, hpkts, hmore]

theorem swfilterCalls_frames (chunks : List Bytes) (s : TsCarry) (carried : Bytes)
    (hkeeps : s.Keeps pktsize carried) (hshort : carried.length < pktsize)
    (hdata : carried ++ chunks.flatten = frames.flatten ++ tail) :
    PassesOn pktsize frames tail (swfilterCalls pktsize s chunks) := by
  induction chunks generalizing s carried frames with
  | nil =>
    simp only [flatten_nil, append_nil] at hdata
    obtain rfl : frames = [] := hframed.eq_nil (by rw [← hdata]; exact hshort)
    obtain rfl : carried = tail := by simpa using hdata
    exact ⟨s, [], rfl, rfl, hkeeps⟩
  | cons buf rest ih =>
    rw [flatten_cons, ← append_assoc] at hdata
    obtain ⟨now, later, tail', rfl, hnow, hlater, hframedNow⟩ :=
      hframed.split (carried ++ buf) rest.flatten hdata
    obtain ⟨s1, packets, hcall, hpkts, hkeeps1⟩ := swfilter_call hsize hframedNow s carried buf
      hkeeps hshort hnow
    exact .cons hcall hpkts (ih hframed.right s1 tail' hkeeps1 hframedNow.tailLength hlater)

theorem swfilterCalls_garbage (chunks : List Bytes) (s : TsCarry) (hs : s.tsbufp = 0)
    (garbage : Bytes) (hgarbage : ∀ b ∈ garbage, isSync pktsize b = false)
    (hdata : chunks.flatten = garbage ++ (frames.flatten ++ tail)) :
    PassesOn pktsize frames tail (swfilterCalls pktsize s chunks) := by
  induction chunks generalizing s garbage with
  | nil =>
    have hsizes := congrArg List.length hdata
    simp only [flatten_nil, length_nil, length_append] at hsizes
    obtain rfl : frames = [] := hframed.eq_nil (by rw [length_append]; omega)
    obtain rfl : tail = [] := eq_nil_of_length_eq_zero (by omega)
    exact ⟨s, [], rfl, rfl, hs, rfl⟩
  | cons buf rest ih =>
    rcases append_eq_append_iff.mp hdata with ⟨more, rfl, hrest⟩ | ⟨front, rfl, hrest⟩
    · obtain ⟨s1, packets, hcall, hpkts, hkeeps⟩ := swfilter_garbage hsize
        (.nil (show 0 < pktsize by omega)) s hs buf
        (fun b hb => hgarbage b (mem_append_left _ hb))
      simp only [flatten_nil, append_nil] at hcall
      exact .cons hcall hpkts
        (ih s1 hkeeps.1 more (fun b hb => hgarbage b (mem_append_right _ hb)) hrest)
    · obtain ⟨now, later, tail', rfl, rfl, hlater, hframedNow⟩ :=
        hframed.split front rest.flatten hrest.symm
      obtain ⟨s1, packets, hcall, hpkts, hkeeps⟩ := swfilter_garbage hsize hframedNow s hs
        garbage hgarbage
      exact .cons hcall hpkts (swfilterCalls_frames hsize hframed.right rest s1
        tail' hkeeps hframedNow.tailLength hlater)

end Stream

/-- However a stream is cut into buffers, the demux passes on its packets, each
once, in order and with its first 188 bytes, and keeps the front of the last,
unfinished one. In both places a sync byte `0xb8` has become `0x47`. -/
theorem swfilter_chunking_invariant (pktsize : Nat) (hsize : pktsize = 188 ∨ pktsize = 204)
    (s : TsCarry) (hs : s.tsbufp = 0) (garbage : Bytes)
    (hgarbage : ∀ b ∈ garbage, isSync pktsize b = false) (frames : List Bytes)
    (tail : Bytes) (hframed : Framed pktsize (fun b => isSync pktsize b = true) frames tail)
    (chunks : List Bytes) (hchunks : chunks.flatten = garbage ++ (frames.flatten ++ tail)) :
    ∃ s' packets, swfilterCalls pktsize s chunks = some (s', packets) ∧
      packets.map TsPacket.bytes = frames.map (fun frame => (restore pktsize frame).take 188) ∧
      s'.tsbuf.read 0 s'.tsbufp = restore pktsize tail := by
  obtain ⟨s', packets, hcalls, hpackets, hlength, hread⟩ := swfilterCalls_garbage
    (by omega) hframed chunks s hs garbage hgarbage hchunks
  exact ⟨s', packets, hcalls, hpackets, by rw [hlength, hread]⟩

theorem swfilter_chunking_invariant_two_buffers :
    ∃ s' packets, swfilterCalls 204 default
        [0x00 :: 0xb8 :: List.replicate 100 0x11, List.replicate 103 0x11 ++ [0x47, 0x22]] =
        some (s', packets) ∧
      packets.map TsPacket.bytes =
        [0xb8 :: List.replicate 203 0x11].map (fun frame => (restore 204 frame).take 188) ∧
      s'.tsbuf.read 0 s'.tsbufp = restore 204 [0x47, 0x22] := by
  have hgarbage : ∀ b ∈ [(0x00 : UInt8)], isSync 204 b = false := by
    intro b hb
    obtain rfl := mem_singleton.mp hb
    decide
  have htail : ∀ b ∈ [(0x47 : UInt8), 0x22].head?, isSync 204 b = true := by
    intro b hb
    obtain rfl := mem_some_iff.mp hb
    decide
  exact swfilter_chunking_invariant 204 (.inr rfl) default rfl [0x00] hgarbage
    [0xb8 :: List.replicate 203 0x11] [0x47, 0x22]
    ⟨by decide +kernel, by decide +kernel, by decide, htail⟩ _ (by decide +kernel)

/-- The unfinished packet is not kept as it came if it starts with `0xb8`. -/
theorem swfilter_tail_restored :
    ∃ s', swfilterCalls 204 default [[0xb8]] = some (s', []) ∧ s'.tsbuf.read 0 s'.tsbufp ≠ [0xb8] :=
  ⟨_, rfl, by decide⟩

/-! Any bytes at all. -/

/-- What is carried over is shorter than a packet and starts like one. -/
def TsCarry.Starts (s : TsCarry) (pktsize : Nat) : Prop :=
  s.tsbufp < pktsize ∧ (0 < s.tsbufp → s.tsbuf 0 = 0x47)

/-- A packet that starts with a sync byte, and is the front of `pktsize` bytes of the buffer or
of those carried over, completed from the buffer. -/
def Whole (pktsize : Nat) (s : TsCarry) (buf : Bytes) (packet : TsPacket) : Prop :=
  packet.bytes.getD 0 0 = 0x47 ∧
    ((∃ p, p + pktsize ≤ buf.length ∧ packet.bytes = restore pktsize ((buf.drop p).take 188)) ∨
      0 < s.tsbufp ∧ ∃ j ≤ buf.length, s.tsbufp + j = pktsize ∧
        packet = packetAt (s.tsbuf.memcpy s.tsbufp (buf.take j)))

section

variable {pktsize : Nat} (buf : Bytes)

theorem findNextPacket_sync (hsize : 0 < pktsize) (p : Nat) (hp : p ≤ buf.length) :
    findNextPacket buf p pktsize ≤ buf.length ∧
      ∀ b ∈ (buf.drop (findNextPacket buf p pktsize)).head?, isSync pktsize b = true := by
  have hsplit := takeWhile_append_dropWhile (p := fun b => !isSync pktsize b) (l := buf.drop p)
  have hdrop : buf.drop (nextSync buf p pktsize) =
      (buf.drop p).dropWhile (fun b => !isSync pktsize b) := by
    rw [nextSync, ← drop_drop]
    exact (congrArg (drop _) hsplit).symm.trans drop_left
  have hlen := congrArg List.length hsplit
  rw [length_append, length_drop] at hlen
  have hend : nextSync buf p pktsize ≤ buf.length := by
    unfold nextSync
    omega
  unfold findNextPacket
  dsimp only
  split_ifs with hback
  · refine ⟨by omega, fun b hb => ?_⟩
    rw [head?_drop] at hb
    have hfound := hback.2.2
    rwa [List.getD_eq_getElem?_getD, mem_def.mp hb] at hfound
  · refine ⟨hend, fun b hb => ?_⟩
    rw [hdrop] at hb
    have hnot := head?_dropWhile_not (fun b => !isSync pktsize b) (buf.drop p)
    rw [mem_def.mp hb] at hnot
    simpa using hnot

variable (hsize : 188 ≤ pktsize) (s : TsCarry)
include hsize

theorem swfilterLoop_whole {rounds p e : Nat} {tsbuf tsbuf' : Mem UInt8} {packets : List TsPacket}
    (hp : p ≤ buf.length)
    (hloop : swfilterLoop buf pktsize rounds p tsbuf = some (e, tsbuf', packets)) :
    (buf.drop e).length < pktsize ∧ (∀ b ∈ (buf.drop e).head?, isSync pktsize b = true) ∧
      ∀ packet ∈ packets, Whole pktsize s buf packet := by
  induction rounds generalizing p tsbuf packets with
  | zero => cases hloop
  | succ rounds ih =>
    obtain ⟨hend, hsync⟩ := findNextPacket_sync buf (show 0 < pktsize by omega) p hp
    rw [swfilterLoop] at hloop
    dsimp only at hloop
    generalize findNextPacket buf p pktsize = q at *
    split_ifs at hloop with hover hshort
    · cases hloop
      exact ⟨by rw [length_drop]; omega, hsync, nofun⟩
    · cases hloop
      exact ⟨by rwa [length_drop], hsync, nofun⟩
    split at hloop
    · cases hloop
    rename_i heq
    cases hloop
    obtain ⟨hrest, hnext, hwhole⟩ := ih (by omega) heq
    refine ⟨hrest, hnext, forall_mem_cons.mpr ⟨?_, hwhole⟩⟩
    have hbytes := takePacket_bytes (fun i => buf.getD (q + i) 0) pktsize tsbuf
    rw [read_list buf q 188 (by omega)] at hbytes
    refine ⟨?_, .inl ⟨q, by omega, hbytes⟩⟩
    rw [hbytes]
    apply restore_head
    · exact ne_nil_of_length_pos (by rw [length_take, length_drop]; omega)
    · rwa [head?_take, if_neg (by decide)]

theorem swfilterFrom_whole {p : Nat} {tsbuf : Mem UInt8} {s' : TsCarry} {packets : List TsPacket}
    (hp : p ≤ buf.length) (hfrom : swfilterFrom buf pktsize p tsbuf = some (s', packets)) :
    s'.Starts pktsize ∧ ∀ packet ∈ packets, Whole pktsize s buf packet := by
  rw [swfilterFrom] at hfrom
  split at hfrom
  · cases hfrom
  rename_i e tsbuf' packets' heq
  cases hfrom
  obtain ⟨hshort, hsync, hwhole⟩ := swfilterLoop_whole buf hsize s hp heq
  obtain ⟨hlen, hread⟩ : (carryTail buf pktsize e tsbuf').Keeps pktsize _ :=
    carryTail_keeps buf e tsbuf' rfl
  refine ⟨⟨by omega, fun hpos => ?_⟩, hwhole⟩
  have hhead := restore_head pktsize _ (ne_nil_of_length_pos (by omega)) hsync
  rwa [← hread, getD_read _ 0 (by omega)] at hhead

theorem swfilter_whole (hstarts : s.Starts pktsize) {s' : TsCarry} {packets : List TsPacket}
    (hcall : dvbDmxSwfilterPktsize pktsize s buf = some (s', packets)) :
    s'.Starts pktsize ∧ ∀ packet ∈ packets, Whole pktsize s buf packet := by
  obtain ⟨hless, hsync⟩ := hstarts
  rw [dvbDmxSwfilterPktsize] at hcall
  dsimp only at hcall
  split_ifs at hcall with hcarry hmore
  · cases hcall
    refine ⟨⟨by dsimp only; omega, fun _ => ?_⟩, nofun⟩
    rw [← hsync (by omega)]
    exact memcpy_below _ _ _ _ (by omega)
  · split at hcall
    · cases hcall
    rename_i heq
    cases hcall
    obtain ⟨hnext, hwhole⟩ := swfilterFrom_whole buf hsize s (by omega) heq
    refine ⟨hnext, fun packet hmem => (mem_append.mp hmem).elim (fun hfirst => ?_) (hwhole packet)⟩
    unfold carriedPacket at hfirst
    split_ifs at hfirst with hstart
    · obtain rfl := mem_singleton.mp hfirst
      exact ⟨hstart, .inr ⟨by omega, _, by omega, by omega, rfl⟩⟩
    · cases hfirst
  · exact swfilterFrom_whole buf hsize s (Nat.zero_le _) hcall

end

/-- On any bytes every call ends, takes whole packets only and leaves the front of one. -/
theorem swfilter_stays_inside (pktsize : Nat) (hsize : pktsize = 188 ∨ pktsize = 204)
    (s : TsCarry) (hs : s.tsbufp = 0) (bufs : List Bytes) (buf : Bytes) :
    ∃ s1 before s2 packets, swfilterCalls pktsize s bufs = some (s1, before) ∧
      dvbDmxSwfilterPktsize pktsize s1 buf = some (s2, packets) ∧
      (∀ packet ∈ packets, Whole pktsize s1 buf packet) ∧ s2.Starts pktsize ∧ pktsize ≤ 204 := by
  have hstart : s.Starts pktsize := ⟨by omega, by omega⟩
  clear hs
  induction bufs generalizing s with
  | nil =>
    obtain ⟨⟨s2, packets⟩, hcall⟩ := isSome_iff_exists.mp
      (swfilterPktsize_isSome pktsize (by omega) s buf)
    obtain ⟨hnext, hwhole⟩ := swfilter_whole buf (by omega) s hstart hcall
    exact ⟨s, [], s2, packets, rfl, hcall, hwhole, hnext, by omega⟩
  | cons first rest ih =>
    obtain ⟨⟨s1, packets⟩, hcall⟩ := isSome_iff_exists.mp
      (swfilterPktsize_isSome pktsize (by omega) s first)
    obtain ⟨hnext, -⟩ := swfilter_whole first (by omega) s hstart hcall
    obtain ⟨s2, before, s3, last, hcalls, hlast⟩ := ih s1 hnext
    refine ⟨s2, packets ++ before, s3, last, ?_, hlast⟩
    simp [swfilterCalls, hcall, hcalls]

/-- A packet and a byte of garbage, from which the search goes back into the packet. -/
def steppedBack : Bytes := 0x47 :: 0x47 :: replicate 186 0x11 ++ [0x00, 0x47]

theorem swfilter_stays_inside_garbage : ∃ s1 before s2 packets,
    swfilterCalls 188 default [[0x00]] = some (s1, before) ∧
      dvbDmxSwfilterPktsize 188 s1 steppedBack = some (s2, packets) ∧ packets.length = 2 ∧
      (∀ packet ∈ packets, Whole 188 s1 steppedBack packet) ∧ s2.Starts 188 ∧ 188 ≤ 204 := by
  obtain ⟨s1, before, s2, packets, hcalls, hlast, hrest⟩ :=
    swfilter_stays_inside 188 (.inl rfl) default rfl [[0x00]] steppedBack
  have htwo : ∀ out ∈ swfilterCalls 188 default [[0x00]],
      ∀ last ∈ dvbDmxSwfilterPktsize 188 out.1 steppedBack, last.2.length = 2 := by
    decide +kernel
  exact ⟨s1, before, s2, packets, hcalls, hlast, htwo _ hcalls _ hlast, hrest⟩

end TbsMedia.DvbCore
