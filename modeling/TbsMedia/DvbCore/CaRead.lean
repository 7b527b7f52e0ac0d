import TbsMedia.DvbCore.CaInterface
import TbsMedia.DvbCore.PacketFifo

/-!
Messages of a CA slot. The receive buffer is a queue of fragments, those of several
connections mixed; `read()` takes the fragments of the first one's connection up to the
last one and leaves the others where they are.
-/

namespace TbsMedia.DvbCore

open Lib List Option RingPacket

namespace RingPacket

def connection (p : RingPacket) : UInt8 :=
  p.data.getD 0 0

def lastFragment (p : RingPacket) : Bool :=
  p.data.getD 1 0 &&& 0x80 = 0

def payload (p : RingPacket) : Bytes :=
  p.data.drop 2

end RingPacket

/-- The fragments of a connection up to the first one without the flag for more. -/
def message (c : UInt8) : List RingPacket → List RingPacket
  | [] => []
  | p :: rest =>
    if p.connection = c then if p.lastFragment then [p] else p :: message c rest
    else message c rest

def leftover (c : UInt8) : List RingPacket → List RingPacket
  | [] => []
  | p :: rest =>
    if p.connection = c then if p.lastFragment then rest else leftover c rest
    else p :: leftover c rest

def complete (c : UInt8) (queue : List RingPacket) : Bool :=
  queue.any (fun p => decide (p.connection = c) && p.lastFragment)

def messageData (c : UInt8) (queue : List RingPacket) : Bytes :=
  ((message c queue).map RingPacket.payload).flatten

/-- A receive buffer with these packets in it. It is not exactly full, where
`dvb_ringbuffer_pkt_next` may run on behind the last packet, and as the link layer leaves
it, every packet has its two bytes of header. -/
structure RxHolds (rbuf : DvbRingbuffer) (pos : Nat) (queue : List RingPacket) : Prop where
  data : rbuf.data.isSome
  contents : Contents rbuf pos queue
  size : rbuf.size = rxBufferSize
  notFull : packetBytes queue + 1 < rxBufferSize
  fragments : ∀ p ∈ queue, 2 ≤ p.data.length

theorem ready_append (first second : List RingPacket) :
    ready (first ++ second) = ready first ++ ready second :=
  filter_append first second

theorem ready_holes {holes : List RingPacket} (hholes : ∀ p ∈ holes, p.disposed = true) :
    ready holes = [] := by
  apply filter_eq_nil_iff.mpr
  intro p hp
  simp [hholes p hp]

variable {rbuf : DvbRingbuffer} {queue : List RingPacket} {p : RingPacket}
    {before rest : List RingPacket}

theorem ready_cons_of_ready (hp : p.disposed = false) (rest : List RingPacket) :
    ready (p :: rest) = p :: ready rest := by
  simp [ready, hp]

theorem ready_dropWhile (queue : List RingPacket) :
    ready (queue.dropWhile RingPacket.disposed) = ready queue := by
  induction queue with
  | nil => rfl
  | cons p rest ih =>
    cases hp : p.disposed with
    | true =>
      rw [dropWhile_cons_of_pos hp, ih]
      simp [ready, hp]
    | false => rw [dropWhile_cons_of_neg (by simp [hp])]

theorem firstReady_cases (rest : List RingPacket) :
    (firstReady rest = none ∧ ready rest = []) ∨
      ∃ holes next after, rest = holes ++ next :: after ∧ ready holes = [] ∧
        next.disposed = false ∧ firstReady rest = some next ∧
        ready rest = next :: ready after := by
  have hsplit := takeWhile_append_dropWhile (p := disposed) (l := rest)
  have hholes : ∀ q ∈ rest.takeWhile disposed, q.disposed = true :=
    List.all_eq_true.mp all_takeWhile
  unfold firstReady
  rcases htail : rest.dropWhile disposed with _ | ⟨next, after⟩
  · rw [htail, append_nil] at hsplit
    rw [hsplit] at hholes
    exact .inl ⟨rfl, ready_holes hholes⟩
  have hnext := head_ready_of_dropWhile rest
  rw [htail] at hsplit hnext
  refine .inr ⟨_, next, after, hsplit.symm, ready_holes hholes, hnext next rfl, rfl, ?_⟩
  rw [← hsplit, ready_append, ready_holes hholes, ready_cons_of_ready (hnext next rfl)]
  rfl

namespace RxHolds

variable {rbuf : DvbRingbuffer} {pos : Nat} {before rest : List RingPacket} {p : RingPacket}
  (hrx : RxHolds rbuf pos (before ++ p :: rest))
include hrx

/-- In a ring of 65535 bytes the count is one too much behind the end of the array, which
is less than a packet. -/
theorem next :
    dvbRingbufferPktNext rbuf (some p.idx) = some ((firstReady rest).map RingPacket.entry) := by
  have hfull := hrx.notFull
  have hsize := hrx.size
  have hend : packetBytes (before ++ [p]) + 1 < rxBufferSize := by
    simp only [packetBytes_append, packetBytes_cons, packetBytes_nil] at hfull ⊢
    omega
  have hcount : countedBytes rbuf (packetBytes (before ++ [p])) = packetBytes (before ++ [p]) ∨
      countedBytes rbuf (packetBytes (before ++ [p])) = packetBytes (before ++ [p]) + 1 := by
    have hrem : sizeT % rbuf.size = 1 := by
      rw [hsize]
      decide
    rw [countedBytes, hrem]
    split_ifs
    · exact .inl rfl
    · exact .inr (Nat.mod_eq_of_lt (by rw [hsize]; exact hend))
  have hlen : ∀ q ∈ rest, 1 < q.data.length := by
    intro q hq
    exact hrx.fragments q (mem_append_right before (mem_cons_of_mem p hq))
  refine (pktNext_iff ?_ hrx.contents).mpr (countsBehind_of_close 1 ?_ ?_ hlen)
  · rw [hsize]
    decide
  · omega
  · omega

theorem dispose :
    ∃ rbuf' pos', dvbRingbufferPktDispose rbuf p.idx = some rbuf' ∧
      RxHolds rbuf' pos'
        ((before ++ { p with disposed := true } :: rest).dropWhile RingPacket.disposed) := by
  obtain ⟨rbuf', pos', hrun, hsize, hafter⟩ := pktDispose_spec hrx.contents
  have hsuffix := dropWhile_suffix (l := before ++ { p with disposed := true } :: rest) disposed
  refine ⟨rbuf', pos', hrun, ?_, hafter, hsize.trans hrx.size, ?_, ?_⟩
  · rw [pktDisposeClean_data hrun]
    rfl
  · have hfull := hrx.notFull
    obtain ⟨gone, hgone⟩ := hsuffix
    have hbytes := congrArg packetBytes hgone
    simp only [packetBytes_append, packetBytes_cons] at hbytes hfull
    have hspan : ({ p with disposed := true } : RingPacket).span = p.span := rfl
    omega
  · intro q hq
    rcases mem_append.mp (hsuffix.subset hq) with hpre | hafter
    · exact hrx.fragments q (mem_append_left _ hpre)
    rcases mem_cons.mp hafter with rfl | hrest
    · exact hrx.fragments p (mem_append_right _ mem_cons_self)
    · exact hrx.fragments q (mem_append_right _ (mem_cons_of_mem p hrest))

theorem header (hdr : Mem UInt8) :
    readHdr rbuf p.idx hdr 0 = p.connection ∧
      (readHdr rbuf p.idx hdr 1 &&& 0x80 = 0 ↔ p.lastFragment = true) := by
  have hlen := hrx.fragments p (mem_append_right before mem_cons_self)
  have hread : dvbRingbufferPktRead rbuf p.idx 0 2 = some (p.data.take 2) := by
    rw [pktRead_spec hrx.contents (by decide) (by decide) (by decide), part]
    rfl
  rw [readHdr, hread]
  obtain ⟨c, flags, data, hdata⟩ : ∃ c flags data, p.data = c :: flags :: data := by
    rcases hp : p.data with _ | ⟨c, _ | ⟨flags, data⟩⟩
    · simp [hp] at hlen
    · simp [hp] at hlen
    · exact ⟨c, flags, data, rfl⟩
  simp [connection, lastFragment, hdata, Mem.memcpy]

end RxHolds

variable {fuel : Nat}

/-- The scan of one slot says whether it has a last fragment of the connection, which is
the first packet's unless an earlier slot has set it. -/
theorem readConditionScan_spec {pos : Nat} (connectionId : Option UInt8) (hdr : Mem UInt8)
    (hrx : RxHolds rbuf pos (before ++ p :: rest)) (hfuel : rest.length + 1 < fuel) :
    ∃ hdr', readConditionScan rbuf fuel (some p.idx) connectionId hdr =
      some (complete (connectionId.getD p.connection) (p :: ready rest),
        some (connectionId.getD p.connection), hdr') := by
  induction fuel generalizing before p rest connectionId hdr with
  | zero => omega
  | succ fuel ih =>
    obtain ⟨hconn, hlast⟩ := hrx.header hdr
    simp only [readConditionScan, hconn, hlast]
    generalize connectionId.getD p.connection = c
    by_cases hfound : p.connection = c ∧ p.lastFragment = true
    · rw [if_pos hfound]
      refine ⟨readHdr rbuf p.idx hdr, ?_⟩
      simp [complete, hfound]
    rw [if_neg hfound, hrx.next]
    have hskip : complete c (p :: ready rest) = complete c (ready rest) := by
      have hnot : (decide (p.connection = c) && p.lastFragment) = false := by simpa using hfound
      simp [complete, hnot]
    obtain ⟨fuel, rfl⟩ := Nat.exists_eq_succ_of_ne_zero (show fuel ≠ 0 by omega)
    rcases firstReady_cases rest with
      ⟨hnone, hready⟩ | ⟨holes, next, after, rfl, -, -, hnext, hready⟩
    · rw [hskip, hnone, hready]
      exact ⟨_, rfl⟩
    have hmoved : RxHolds rbuf pos ((before ++ p :: holes) ++ next :: after) := by simpa using hrx
    rw [hskip, hnext, hready]
    apply ih (some c) (readHdr rbuf p.idx hdr) hmoved
    simp only [length_append, length_cons] at hfuel
    omega

variable (userOk : Nat → Nat → Bool)

theorem pktReadUser_cases (rbuf : DvbRingbuffer) (idx dst len : Nat) (offset : Int)
    {bytes : Bytes} (hread : dvbRingbufferPktRead rbuf idx offset len = some bytes) :
    dvbRingbufferPktReadUser userOk rbuf idx offset dst len = .copied bytes ∨
      dvbRingbufferPktReadUser userOk rbuf idx offset dst len = .efault ∧
        ∃ start n, userOk start n = false := by
  unfold dvbRingbufferPktRead at hread
  unfold dvbRingbufferPktReadUser
  dsimp only at hread ⊢
  rcases lt_or_ge (pktLen rbuf idx) (offset % sizeT).toNat with hbeyond | hin
  · rw [if_pos hbeyond] at hread
    cases hread
  rw [if_neg hin.not_gt] at hread ⊢
  cases hread
  generalize (if ((offset % sizeT).toNat + len) % sizeT > pktLen rbuf idx then
    pktLen rbuf idx - (offset % sizeT).toNat else len) = len'
  generalize (idx + pktHdrSize + (offset % sizeT).toNat) % rbuf.size = start
  generalize (if start + len' > rbuf.size then rbuf.size - start else 0) = split
  by_cases hok : (if split > 0 then userOk dst split && userOk (dst + split) (len' - split)
      else userOk dst len') = true
  · exact .inl (if_pos hok)
  · refine .inr ⟨if_neg hok, ?_⟩
    by_contra hall
    push Not at hall
    simp [hall] at hok

variable {count pktlen : Nat}

/-- A fragment's data is copied as far as the user has room, or a copy faults. -/
theorem ioReadCopy_cases {pos : Nat} (hrx : RxHolds rbuf pos (before ++ p :: rest))
    (hpktlen : 2 ≤ pktlen) (hroom : pktlen ≤ count) (user : Mem UInt8) :
    ioReadCopy userOk count rbuf p.idx p.data.length pktlen user =
        .ok (pktlen + (p.payload.take (count - pktlen)).length,
          user.memcpy pktlen (p.payload.take (count - pktlen))) ∨
      ioReadCopy userOk count rbuf p.idx p.data.length pktlen user = .error .efault ∧
        ∃ start n, userOk start n = false := by
  have hlen := hrx.fragments p (mem_append_right before mem_cons_self)
  obtain ⟨-, -, hfits, -⟩ := PacketsAt.append.mp hrx.contents.holds
  have hmax := hfits.2
  have hpay : p.payload.length = p.data.length - 2 := length_drop
  rcases lt_or_ge pktlen count with hmore | hfull
  · have hn : (if pktlen + p.data.length - 2 > count then count - pktlen
        else (p.data.length + sizeT - 2) % sizeT) = min (count - pktlen) p.payload.length := by
      rw [sizeT]
      split_ifs <;> omega
    have hread : dvbRingbufferPktRead rbuf p.idx 2 (min (count - pktlen) p.payload.length) =
        some (p.payload.take (count - pktlen)) := by
      rw [pktRead_spec hrx.contents (by decide) (by decide) (by omega),
        part, if_pos (by omega), take_eq_take_min (i := count - pktlen)]
      rfl
    simp only [ioReadCopy, if_pos hmore, hn]
    rcases pktReadUser_cases userOk rbuf p.idx pktlen _ 2 hread with
      hcopy | ⟨hfault, hbad⟩
    · rw [hcopy, length_take]
      exact .inl rfl
    · rw [hfault]
      exact .inr ⟨rfl, hbad⟩
  · have hnone : count - pktlen = 0 := by omega
    simp [ioReadCopy, hfull.not_gt, hnone]

/-- The loop has read the message of a connection out of these packets, behind others that
it has passed over. -/
structure ReadMessage (c : UInt8) (count pktlen : Nat) (user : Mem UInt8)
    (passed packets : List RingPacket) (out : CaReadEnd) : Prop where
  result : out.result = .ok (c, pktlen + ((messageData c packets).take (count - pktlen)).length)
  user : out.user = user.memcpy pktlen ((messageData c packets).take (count - pktlen))
  left : ∃ pos queue, RxHolds out.rbuf pos queue ∧
    (∀ p ∈ queue.head?, p.disposed = false) ∧ ready queue = passed ++ leftover c packets

variable {user : Mem UInt8} {passed : List RingPacket} {out : CaReadEnd}

section Message

variable {c : UInt8} {p : RingPacket} {rest : List RingPacket}

theorem complete_other (hoth : p.connection ≠ c) : complete c (p :: rest) = complete c rest := by
  simp [complete, hoth]

theorem complete_more (hmore : p.lastFragment = false) :
    complete c (p :: rest) = complete c rest := by
  simp [complete, hmore]

variable (hown : p.connection = c)
include hown

theorem complete_last (hlast : p.lastFragment = true) : complete c (p :: rest) = true := by
  simp [complete, hown, hlast]

omit hown in
theorem messageData_other (hoth : p.connection ≠ c) :
    messageData c (p :: rest) = messageData c rest := by
  simp [messageData, message, hoth]

theorem messageData_more (hmore : p.lastFragment = false) :
    messageData c (p :: rest) = p.payload ++ messageData c rest := by
  simp [messageData, message, hown, hmore]

theorem messageData_last (hlast : p.lastFragment = true) :
    messageData c (p :: rest) = p.payload := by
  simp [messageData, message, hown, hlast]

omit hown in
theorem leftover_other (hoth : p.connection ≠ c) :
    leftover c (p :: rest) = p :: leftover c rest := by
  simp [leftover, hoth]

theorem leftover_more (hmore : p.lastFragment = false) :
    leftover c (p :: rest) = leftover c rest := by
  simp [leftover, hown, hmore]

theorem leftover_last (hlast : p.lastFragment = true) : leftover c (p :: rest) = rest := by
  simp [leftover, hown, hlast]

theorem ReadMessage.more (hmore : p.lastFragment = false)
    (hread : ReadMessage c count (pktlen + (p.payload.take (count - pktlen)).length)
      (user.memcpy pktlen (p.payload.take (count - pktlen))) passed rest out) :
    ReadMessage c count pktlen user passed (p :: rest) out := by
  have hsplit : (messageData c (p :: rest)).take (count - pktlen) =
      p.payload.take (count - pktlen) ++ (messageData c rest).take
        (count - (pktlen + (p.payload.take (count - pktlen)).length)) := by
    rw [messageData_more hown hmore, take_append, length_take]
    congr 2
    omega
  constructor
  · rw [hread.result, hsplit, length_append, add_assoc]
  · rw [hread.user, hsplit, Mem.memcpy_append]
  · rw [leftover_more hown hmore]
    exact hread.left

end Message

theorem dropWhile_append_ready (first after : List RingPacket) {next : RingPacket}
    (hnext : next.disposed = false) :
    (first ++ next :: after).dropWhile RingPacket.disposed =
      first.dropWhile RingPacket.disposed ++ next :: after := by
  induction first with
  | nil => exact dropWhile_cons_of_neg (by simp [hnext])
  | cons p rest ih =>
    cases hp : p.disposed with
    | true => rw [cons_append, dropWhile_cons_of_pos hp, ih, dropWhile_cons_of_pos hp]
    | false =>
      have hnot : ¬ p.disposed = true := by simp [hp]
      rw [cons_append, dropWhile_cons_of_neg hnot, dropWhile_cons_of_neg hnot]
      rfl

theorem ready_marked (before rest : List RingPacket) (p : RingPacket) :
    ready (before ++ { p with disposed := true } :: rest) = ready before ++ ready rest := by
  simp [ready]

def LoopEnds (userOk : Nat → Nat → Bool) (c : UInt8) (count pktlen : Nat) (user : Mem UInt8)
    (passed packets : List RingPacket) (out : CaReadEnd) : Prop :=
  (out.result = .error .efault ∧ ∃ start n, userOk start n = false) ∨
    (complete c packets = false ∧ out.result = .error .eio) ∨
    (complete c packets = true ∧ ReadMessage c count pktlen user passed packets out)

section

variable {userOk : Nat → Nat → Bool} {c : UInt8} {packets : List RingPacket}

theorem LoopEnds.other (hoth : p.connection ≠ c)
    (hends : LoopEnds userOk c count pktlen user (passed ++ [p]) packets out) :
    LoopEnds userOk c count pktlen user passed (p :: packets) out := by
  rcases hends with hfault | ⟨hnone, hres⟩ | ⟨hsome, hread⟩
  · exact .inl hfault
  · exact .inr (.inl ⟨(complete_other hoth).trans hnone, hres⟩)
  refine .inr (.inr ⟨(complete_other hoth).trans hsome, ?_, ?_, ?_⟩)
  · rw [messageData_other hoth]
    exact hread.result
  · rw [messageData_other hoth]
    exact hread.user
  · rw [leftover_other hoth]
    simpa using hread.left

theorem LoopEnds.more (hown : p.connection = c) (hmore : p.lastFragment = false)
    (hends : LoopEnds userOk c count (pktlen + (p.payload.take (count - pktlen)).length)
      (user.memcpy pktlen (p.payload.take (count - pktlen))) passed packets out) :
    LoopEnds userOk c count pktlen user passed (p :: packets) out := by
  rcases hends with hfault | ⟨hnone, hres⟩ | ⟨hsome, hread⟩
  · exact .inl hfault
  · exact .inr (.inl ⟨(complete_more hmore).trans hnone, hres⟩)
  · exact .inr (.inr ⟨(complete_more hmore).trans hsome, hread.more hown hmore⟩)

end

/-- Without a packet the loop ends in an error; no last fragment was there. -/
theorem ioReadLoop_end (c : UInt8) (count pktlen fuel : Nat) (rbuf : DvbRingbuffer)
    (hdr user : Mem UInt8) (passed : List RingPacket) (hfuel : 0 < fuel) :
    ∃ out, ioReadLoop userOk count fuel rbuf none (some c) pktlen hdr user = some out ∧
      LoopEnds userOk c count pktlen user passed [] out := by
  obtain ⟨fuel, rfl⟩ := Nat.exists_eq_succ_of_ne_zero (ne_of_gt hfuel)
  exact ⟨_, rfl, .inr (.inl ⟨rfl, rfl⟩)⟩

theorem ioReadLoop_spec {c : UInt8} {pos : Nat} (hdr user : Mem UInt8)
    (hrx : RxHolds rbuf pos (before ++ p :: rest)) (hp : p.disposed = false) (hpktlen : 2 ≤ pktlen)
    (hroom : pktlen ≤ count) (hfuel : rest.length + 1 < fuel) :
    ∃ out, ioReadLoop userOk count fuel rbuf (some p.entry) (some c) pktlen hdr user = some out ∧
      LoopEnds userOk c count pktlen user (ready before) (p :: ready rest) out := by
  induction fuel generalizing rbuf pos before rest p pktlen hdr user with
  | zero => omega
  | succ fuel ih =>
    obtain ⟨hconn, hlast⟩ := hrx.header hdr
    simp only [entry, ioReadLoop, hconn, hlast, getD_some]
    have hnextcases := firstReady_cases rest
    split
    · rename_i hown
      rcases ioReadCopy_cases userOk hrx hpktlen hroom user with hcopy | ⟨hfault, hbad⟩
      · obtain ⟨rbuf', pos', hdispose, hrx'⟩ := hrx.dispose
        rw [hcopy]
        simp only [hrx.next, hdispose, bind_eq_bind, bind_some]
        cases hflag : p.lastFragment with
        | true =>
          refine ⟨_, rfl, .inr (.inr ⟨complete_last hown hflag, ?_, ?_, ?_⟩)⟩
          · rw [messageData_last hown hflag]
          · rw [messageData_last hown hflag]
          · refine ⟨pos', _, hrx', head_ready_of_dropWhile _, ?_⟩
            rw [ready_dropWhile, ready_marked, leftover_last hown hflag]
        | false =>
          have hpktlen' : pktlen + (p.payload.take (count - pktlen)).length ≤ count := by
            rw [length_take]
            omega
          rcases hnextcases with
            ⟨hnone, hready⟩ | ⟨holes, next, after, rfl, hholes, hn, hnext, hready⟩
          · rw [hnone, hready]
            obtain ⟨out, hrun, hends⟩ := ioReadLoop_end userOk c count _ fuel rbuf'
              (readHdr rbuf p.idx hdr) _ (ready before) (by omega)
            exact ⟨out, hrun, hends.more hown hflag⟩
          · rw [hnext, hready]
            have hsplit : before ++ { p with disposed := true } :: (holes ++ next :: after) =
                (before ++ { p with disposed := true } :: holes) ++ next :: after := by simp
            rw [hsplit, dropWhile_append_ready _ _ hn] at hrx'
            simp only [length_append, length_cons] at hfuel
            obtain ⟨out, hrun, hends⟩ := @ih rbuf' next _ after _ pos'
              (readHdr rbuf p.idx hdr) (user.memcpy pktlen (p.payload.take (count - pktlen)))
              hrx' hn (by omega) hpktlen' (by omega)
            have hpass : ready ((before ++ { p with disposed := true } :: holes).dropWhile
                disposed) = ready before := by
              rw [ready_dropWhile, ready_marked, hholes, append_nil]
            rw [hpass] at hends
            exact ⟨out, hrun, hends.more hown hflag⟩
      · rw [hfault]
        exact ⟨_, rfl, .inl ⟨rfl, hbad⟩⟩
    · rename_i hown
      simp only [hrx.next, bind_eq_bind, bind_some]
      rcases hnextcases with
        ⟨hnone, hready⟩ | ⟨holes, next, after, rfl, hholes, hn, hnext, hready⟩
      · rw [hnone, hready]
        obtain ⟨out, hrun, hends⟩ := ioReadLoop_end userOk c count pktlen fuel rbuf
          (readHdr rbuf p.idx hdr) user (ready before ++ [p]) (by omega)
        exact ⟨out, hrun, hends.other hown⟩
      · rw [hnext, hready]
        have hmoved : RxHolds rbuf pos ((before ++ p :: holes) ++ next :: after) := by
          simpa using hrx
        simp only [length_append, length_cons] at hfuel
        obtain ⟨out, hrun, hends⟩ := @ih rbuf next _ after pktlen pos
          (readHdr rbuf p.idx hdr) user hmoved hn hpktlen hroom (by omega)
        have hpass : ready (before ++ p :: holes) = ready before ++ [p] := by
          rw [ready_append, ready_cons_of_ready hp, hholes]
        rw [hpass] at hends
        exact ⟨out, hrun, hends.other hown⟩

def carried (connectionId : Option UInt8) (packets : List RingPacket) : Option UInt8 :=
  connectionId.or (packets.head?.map RingPacket.connection)

def finds (connectionId : Option UInt8) (packets : List RingPacket) : Bool :=
  (carried connectionId packets).any (fun c => complete c packets)

structure RxInUse (rbuf : DvbRingbuffer) (queue : List RingPacket) : Prop where
  holds : ∃ pos, RxHolds rbuf pos queue
  front : ∀ p ∈ queue.head?, p.disposed = false

section

variable (huse : RxInUse rbuf queue)
include huse

theorem RxInUse.data : rbuf.data.isNone = false := by
  obtain ⟨pos, hrx⟩ := huse.holds
  simpa using hrx.data

theorem RxInUse.first :
    dvbRingbufferPktNext rbuf none = some (queue.head?.map RingPacket.entry) := by
  obtain ⟨pos, hrx⟩ := huse.holds
  exact pktNext_first hrx.contents huse.front

theorem RxInUse.length_le : queue.length < rbuf.size + 1 := by
  obtain ⟨pos, hrx⟩ := huse.holds
  have hshort := length_le_packetBytes queue
  have hroom := hrx.contents.room
  omega

theorem RxInUse.scan (connectionId : Option UInt8) (hdr : Mem UInt8) :
    ∃ hdr', readConditionScan rbuf (rbuf.size + 1)
      ((queue.head?.map RingPacket.entry).map Prod.fst) connectionId hdr =
        some (finds connectionId (ready queue), carried connectionId (ready queue), hdr') := by
  obtain ⟨pos, hrx⟩ := huse.holds
  have hlen := huse.length_le
  rcases queue with _ | ⟨p, rest⟩
  · refine ⟨hdr, ?_⟩
    cases connectionId with
    | none => rfl
    | some c => rfl
  have hcont : RxHolds rbuf pos ([] ++ p :: rest) := hrx
  obtain ⟨hdr', hscan⟩ := readConditionScan_spec connectionId hdr hcont
    (show rest.length + 1 < rbuf.size + 1 from hlen)
  refine ⟨hdr', ?_⟩
  rw [ready_cons_of_ready (huse.front p rfl)]
  cases connectionId with
  | none => exact hscan
  | some c => exact hscan

end

theorem ioReadLoop_first {pos : Nat} (hrx : RxHolds rbuf pos (before ++ p :: rest))
    (hdr user : Mem UInt8) :
    ioReadLoop userOk count (fuel + 1) rbuf (some p.entry) none pktlen hdr user =
      ioReadLoop userOk count (fuel + 1) rbuf (some p.entry) (some p.connection) pktlen hdr
        user := by
  obtain ⟨hconn, -⟩ := hrx.header hdr
  simp [entry, ioReadLoop, hconn]

theorem ioReadSlot_spec (hcount : 2 ≤ count) {ca : DvbCaPrivate} {slot : Nat}
    {rest : List RingPacket} (huse : RxInUse (ca.slotInfo slot).rxBuffer (p :: rest))
    (hdr user : Mem UInt8) :
    ∃ out, ioReadSlot userOk count ca slot hdr user = some (ioReadFinish userOk ca slot out) ∧
      LoopEnds userOk p.connection count 2 user [] (p :: ready rest) out := by
  obtain ⟨pos, hrx⟩ := huse.holds
  have hcont : RxHolds (ca.slotInfo slot).rxBuffer pos ([] ++ p :: rest) := hrx
  obtain ⟨out, hrun, hends⟩ := ioReadLoop_spec userOk hdr user hcont
    (huse.front p rfl) le_rfl hcount
    (show rest.length + 1 < (ca.slotInfo slot).rxBuffer.size + 1 from huse.length_le)
  refine ⟨out, ?_, hends⟩
  rw [← ioReadLoop_first userOk hcont] at hrun
  simp only [ioReadSlot, huse.first, List.head?_cons, map_some, bind_eq_bind, bind_some, hrun]
  rfl

/-- What the user gets: header and data one behind the other. -/
theorem read_message_bytes (user : Mem UInt8) (header data : Bytes)
    (hhdr : header.length = 2) :
    ((user.memcpy 2 data).memcpy 0 header).read 0 (2 + data.length) = header ++ data := by
  have hself := Mem.read_memcpy_self (user.memcpy 2 data) 0 header
  rw [hhdr] at hself
  rw [Mem.read_add, hself, Mem.read_memcpy_above _ 0 header 2 data.length (by omega),
    Mem.read_memcpy_self]

section OneSlot

variable {ca : DvbCaPrivate} {queue : List RingPacket} {hdr : Mem UInt8}

theorem readCondition_one_slot (hone : ca.slotCount = 1) (hnext : ca.nextReadSlot = 0)
    (huse : RxInUse (ca.slotInfo 0).rxBuffer queue) :
    dvbCaEn50221IoReadCondition ca hdr =
      some (if (ca.slotInfo 0).slotState = .running ∧ finds none (ready queue) = true then some 0
        else none, { ca with nextReadSlot := 0 }) := by
  obtain ⟨hdr', hscan⟩ := huse.scan none hdr
  rw [dvbCaEn50221IoReadCondition, hone, hnext, readConditionSlots, hone]
  by_cases hruns : (ca.slotInfo 0).slotState = .running
  · simp only [hruns, ne_eq, not_true_eq_false, if_false, huse.data, Bool.false_eq_true, huse.first,
      hscan]
    cases finds none (ready queue) with
    | true => simp
    | false => simp [readConditionSlots, hone]
  · simp [hruns, readConditionSlots, hone]

end OneSlot

/-- The link layer adds a packet for which there is room, and does not fill the buffer. -/
theorem RxInUse.write (huse : RxInUse rbuf queue) (buf : Bytes) (hlen : 2 ≤ buf.length)
    (hmax : buf.length ≤ 65535) (hfree : buf.length + 3 < dvbRingbufferFree rbuf) :
    RxInUse (dvbRingbufferPktWrite rbuf buf).2 (queue ++ [⟨rbuf.pwrite, buf, false⟩]) := by
  obtain ⟨pos, hrx⟩ := huse.holds
  obtain ⟨-, hsize, hafter⟩ := pktWrite_spec hrx.contents (by omega) hmax (by omega)
  rw [hrx.contents.free, hrx.size] at hfree
  refine ⟨⟨pos, ?_, hafter, ?_, ?_, ?_⟩, head_ready_of_append huse.front rfl⟩
  · simp only [dvbRingbufferPktWrite, dvbRingbufferWrite]
    split_ifs <;> rfl
  · rw [hsize]
    exact hrx.size
  · have hspan : (⟨rbuf.pwrite, buf, false⟩ : RingPacket).span = buf.length + 3 := rfl
    rw [packetBytes_append, packetBytes_cons, packetBytes_nil]
    omega
  · intro p hp
    rcases mem_append.mp hp with hold | hnew
    · exact hrx.fragments p hold
    · rw [mem_singleton.mp hnew]
      exact hlen

theorem rxInUse_init (data : Mem UInt8) :
    RxInUse (dvbRingbufferInit (some data) rxBufferSize) [] := by
  have hsize : 0 < rxBufferSize := by decide
  refine ⟨⟨0, rfl, ⟨rfl, rfl, hsize, trivial⟩, rfl, by decide, ?_⟩, ?_⟩
  all_goals
    intro p hp
    cases hp

def rxBufferWith (packets : List Bytes) : DvbRingbuffer :=
  packets.foldl (fun rbuf buf => (dvbRingbufferPktWrite rbuf buf).2)
    (dvbRingbufferInit (some fun _ => 0) rxBufferSize)

def runningSlot (packets : List Bytes) : DvbCaSlot :=
  { slotState := .running, linkBufSize := 16, rxBuffer := rxBufferWith packets }

/-- `read()` takes one message and leaves the rest: slot, connection of the first packet,
and the data of its fragments up to the last one, as far as the user has room. -/
theorem read_takes_one_message {ca : DvbCaPrivate} (hone : ca.slotCount = 1)
    (hnext : ca.nextReadSlot = 0) {queue : List RingPacket}
    (huse : RxInUse (ca.slotInfo 0).rxBuffer queue) (hdr : Mem UInt8) {slot : Nat}
    {ca' : DvbCaPrivate} (hfound : dvbCaEn50221IoReadCondition ca hdr = some (some slot, ca'))
    (userOk : Nat → Nat → Bool) (huser : ∀ start n, userOk start n = true) (nonblock : Bool)
    (wake : Option DvbCaPrivate) {count : Nat} (hcount : 2 ≤ count) (user : Mem UInt8) :
    ∃ p rest, ready queue = p :: rest ∧
      ∃ user' rbuf' queue',
        dvbCaEn50221IoRead userOk nonblock wake count ca hdr user =
          some (.ok (2 + ((messageData p.connection (ready queue)).take (count - 2)).length),
            user', { ca with
              nextReadSlot := 0
              slotInfo := Function.update ca.slotInfo 0
                { ca.slotInfo 0 with rxBuffer := rbuf' } }) ∧
        user'.read 0 (2 + ((messageData p.connection (ready queue)).take (count - 2)).length) =
          [UInt8.ofNat slot, p.connection] ++
            (messageData p.connection (ready queue)).take (count - 2) ∧
        RxInUse rbuf' queue' ∧ ready queue' = leftover p.connection (ready queue) := by
  rw [readCondition_one_slot hone hnext huse] at hfound
  obtain ⟨hslot, rfl⟩ := Prod.mk.inj (Option.some.inj hfound)
  obtain ⟨hcond, hzero⟩ := ite_none_right_eq_some.mp hslot
  cases hzero
  rcases queue with _ | ⟨p, rest⟩
  · cases hcond.2
  have hready := ready_cons_of_ready (huse.front p rfl) rest
  have hcomplete : complete p.connection (p :: ready rest) = true := by
    have hfinds := hcond.2
    rw [hready] at hfinds
    exact hfinds
  refine ⟨p, ready rest, hready, ?_⟩
  rw [hready]
  have huse' : RxInUse (({ ca with nextReadSlot := 0 } : DvbCaPrivate).slotInfo 0).rxBuffer
    (p :: rest) := huse
  obtain ⟨out, hrun, hends⟩ := ioReadSlot_spec userOk hcount huse' hdr user
  rcases hends with ⟨-, start, n, hbad⟩ | ⟨hnone, -⟩ | ⟨-, hread⟩
  · rw [huser] at hbad
    cases hbad
  · rw [hcomplete] at hnone
    cases hnone
  obtain ⟨pos, queue, hrx, hfront, hleft⟩ := hread.left
  refine ⟨out.user.memcpy 0 [UInt8.ofNat 0, p.connection], out.rbuf, queue, ?_, ?_,
    ⟨⟨pos, hrx⟩, hfront⟩, hleft⟩
  · rw [dvbCaEn50221IoRead, if_neg (by omega), readCondition_one_slot hone hnext huse, if_pos hcond]
    simp [hrun, ioReadFinish, hread.result, huser]
  · rw [hread.user]
    exact read_message_bytes user _ _ rfl

def mixedFragments : DvbCaPrivate :=
  { slotCount := 1
    slotInfo := fun _ => runningSlot [[1, 0x80, 10, 11], [2, 0, 20], [1, 0, 12]]
    nextReadSlot := 0 }

theorem mixedFragments_inUse :
    RxInUse (mixedFragments.slotInfo 0).rxBuffer
      [⟨0, [1, 0x80, 10, 11], false⟩, ⟨7, [2, 0, 20], false⟩, ⟨13, [1, 0, 12], false⟩] := by
  have hfirst := (rxInUse_init (fun _ => 0)).write [1, 0x80, 10, 11] (by decide) (by decide)
    (by decide +kernel)
  have hnext := hfirst.write [2, 0, 20] (by decide) (by decide) (by decide +kernel)
  exact hnext.write [1, 0, 12] (by decide) (by decide) (by decide +kernel)

/-- With room for two bytes of data, the first two of the message's three come out, and the
packet of the other connection stays. -/
theorem mixed_fragments_read :
    ∃ user' ca' rbuf' queue',
      dvbCaEn50221IoRead (fun _ _ => true) true none 4 mixedFragments (fun _ => 0) (fun _ => 0) =
        some (.ok 4, user', ca') ∧
      user'.read 0 4 = [0, 1, 10, 11] ∧
      RxInUse rbuf' queue' ∧ ready queue' = [⟨7, [2, 0, 20], false⟩] := by
  have hfound : (dvbCaEn50221IoReadCondition mixedFragments (fun _ => 0)).any
      (fun out => out.1 = some 0) = true := by
    decide +kernel
  obtain ⟨⟨_, ca'⟩, hcond, hslot⟩ := (Option.any_eq_true _ _).mp hfound
  obtain rfl := of_decide_eq_true hslot
  obtain ⟨p, rest, hready, user', rbuf', queue', hrun, hbytes, huse, hleft⟩ :=
    read_takes_one_message rfl rfl mixedFragments_inUse (fun _ => 0) hcond (fun _ _ => true)
      (fun _ _ => rfl) true none (show 2 ≤ 4 by decide) (fun _ => 0)
  obtain rfl := (List.cons.inj hready).1
  exact ⟨user', _, rbuf', queue', hrun, hbytes, huse, hleft⟩

end TbsMedia.DvbCore
