import Mathlib.Data.Nat.Bitwise
import TbsMedia.DvbNet.Encapsulation

/-!
How the decoder takes SNDUs from a cell. Between two cells its private data say how far the SNDU
in progress has been received, with a form of its own for a header that was cut after two or
three bytes. From the header on a cell is followed from point to point, by induction on what
fills it.
-/

namespace TbsMedia.DvbNet

open Lib StateTransition Relation List Option Mem UleLoop SkBuff Sndu Nat

namespace Sndu

variable (s : Sndu)

theorem length_lt : s.length < 0x8000 := by
  have hle := s.length_le
  rw [length]
  omega

theorem five_le_length : 5 ≤ s.length := s.length_ge

theorem length_field (dbit : Bool) :
    ((s.length ||| if dbit then 0x8000 else 0) &&& 0x8000 ≠ 0 ↔ dbit = true) ∧
      (s.length ||| if dbit then 0x8000 else 0) &&& 0x7fff = s.length ∧
      (s.length ||| if dbit then 0x8000 else 0) < 2 ^ 16 := by
  have hlt : s.length < 2 ^ 15 := s.length_lt
  have htop : ∀ n, n &&& 0x8000 = (n.testBit 15).toNat * 2 ^ 15 := fun n => Nat.and_two_pow n 15
  have hlow : ∀ n, n &&& 0x7fff = n % 2 ^ 15 := fun n => Nat.and_two_pow_sub_one_eq_mod n 15
  have hfield : (s.length ||| if dbit then 0x8000 else 0) =
      s.length + if dbit then 0x8000 else 0 := by
    rcases dbit with _ | _
    · simp
    have hor := Nat.two_pow_add_eq_or_of_lt hlt 1
    rw [Nat.or_comm, add_comm]
    exact hor.symm
  rw [hfield, htop, hlow, Nat.testBit_eq_decide_div_mod_eq]
  rcases dbit with _ | _
  · simp only [Bool.false_eq_true, if_false, add_zero, Nat.div_eq_of_lt hlt]
    exact ⟨by simp, Nat.mod_eq_of_lt hlt, by omega⟩
  have hdiv : (s.length + 0x8000) / 2 ^ 15 = 1 := by omega
  simp only [if_true, hdiv]
  exact ⟨by simp, by omega, by omega⟩

end Sndu

/-- The memory at `fromWhere` has the SNDU from its `n`-th byte on, as far as the room goes. -/
def Shows (buf : Mem UInt8) (fromWhere room : Nat) (s : Sndu) (n : Nat) : Prop :=
  ∀ i < room, n + i < s.bytes.length → s.bytes[n + i]? = some (buf (fromWhere + i))

variable {fromWhere n room : Nat} {buf : Mem UInt8} {s : Sndu}

theorem Shows.later (hshows : Shows buf fromWhere room s n) (k : Nat) :
    Shows buf (fromWhere + k) (room - k) s (n + k) := by
  intro i hi hlen
  have hbyte := hshows (k + i) (by omega) (by omega)
  rwa [← add_assoc, ← add_assoc] at hbyte

theorem Shows.read (hshows : Shows buf fromWhere room s n) {k : Nat} (hk : k ≤ room)
    (hlen : n + k ≤ s.bytes.length) : buf.read fromWhere k = (s.bytes.drop n).take k := by
  apply ext_getElem?
  intro i
  rcases lt_or_ge i k with hi | hi
  · have hbyte := hshows i (by omega) (by omega)
    rw [List.getElem?_take_of_lt hi, List.getElem?_drop, hbyte]
    simp [Mem.read, hi]
  · rw [List.getElem?_eq_none (by simpa using hi), List.getElem?_eq_none (by simp; omega)]

theorem shows_of_read (rest : Bytes)
    (hread : buf.read fromWhere room = (s.bytes.drop n ++ rest).take room) :
    Shows buf fromWhere room s n := by
  intro i hi hlen
  have hbyte := congrArg (fun l => l[i]?) hread
  simp only [List.getElem?_take_of_lt hi] at hbyte
  rw [List.getElem?_append_left (by simp; omega), List.getElem?_drop] at hbyte
  rw [← hbyte]
  simp [Mem.read, hi]

theorem Fills.shows {todo todo' : List Sndu} {bytes : Bytes} {cur' : Sending}
    (hfills : Fills room (some (s, n)) todo bytes cur' todo')
    (hread : buf.read fromWhere room = bytes) : Shows buf fromWhere room s n := by
  have hlen := hfills.length_bytes
  cases hfills with
  | ends hfits hrest =>
    apply shows_of_read _
    rw [take_of_length_le hlen.le]
    exact hread
  | goesOn _ hlong =>
    apply shows_of_read []
    rw [append_nil]
    exact hread

structure Closed (needPusi : Bool) (p : DvbNetPriv) : Prop where
  needPusi_eq : p.needPusi = needPusi
  skb : p.uleSkb = none
  len : p.uleSnduLen = 0
  type1 : p.uleSnduType1 = false
  bridged : p.uleBridged = false
  remain : p.uleSnduRemain = 0

structure Knows (s : Sndu) (p : DvbNetPriv) : Prop where
  synced : p.needPusi = false
  len : p.uleSnduLen = s.length
  dbit : p.uleDbit = s.dbit
  bridged : p.uleBridged = false

structure Heading (s : Sndu) (n : Nat) (p : DvbNetPriv) : Prop extends Knows s p where
  skb : p.uleSkb = none
  split : (n = 2 ∧ p.uleSnduType1 = false) ∨
    (n = 3 ∧ p.uleSnduType1 = true ∧ p.uleSnduType = s.type / 256 * 256)

/-- The header and `n - 4` bytes behind it have been received. -/
structure Loading (s : Sndu) (n : Nat) (p : DvbNetPriv) : Prop extends Knows s p where
  four_le : 4 ≤ n
  type1 : p.uleSnduType1 = false
  type : p.uleSnduType = s.type
  remain : p.uleSnduRemain = s.bytes.length - n
  skb : ∃ skb, p.uleSkb = some skb ∧ skb.data = 20 ∧ skb.len = n - 4 ∧
    skb.bytes = (s.bytes.drop 4).take (n - 4)

/-- The first `n` bytes of the SNDU have been received, and there are more. -/
inductive Received (s : Sndu) (n : Nat) (p : DvbNetPriv) : Prop where
  | heading (hheading : Heading s n p) (hremain : p.uleSnduRemain = s.bytes.length - n)
  | loading (hloading : Loading s n p) (hshort : n < s.bytes.length)

def Between : Sending → DvbNetPriv → Prop
  | none, p => Closed true p
  | some (s, n), p => Received s n p

structure Follows (dev : NetDevice) (call : UleCall) (st next : UleLoop) : Prop where
  reach : Reaches (uleStep dev call) st next
  ts : next.ts = st.ts
  tscc : next.priv.tscc = st.priv.tscc
  frames : next.frames = st.frames

def LeavesCell (dev : NetDevice) (call : UleCall) (st : UleLoop) (cur : Sending)
    (frames : List NetFrame) : Prop :=
  ∃ next, Reaches (uleStep dev call) st next ∧ next.point = .cell ∧ next.newTs = true ∧
    next.ts = st.ts + 188 ∧ Between cur next.priv ∧ next.priv.tscc = st.priv.tscc ∧
    next.frames = st.frames ++ frames

structure CursorAt (call : UleCall) (fromWhere room : Nat) (st : UleLoop) : Prop where
  fromWhere_eq : st.fromWhere = fromWhere
  room_eq : st.tsRemain = room
  small : room ≤ 184
  inside : st.ts < call.bufLen

variable {dev : NetDevice} {call : UleCall} {st next last : UleLoop} {s : Sndu}
  {fromWhere room n : Nat} {cur : Sending} {frames : List NetFrame}

theorem Follows.trans (hfirst : Follows dev call st next) (hnext : Follows dev call next last) :
    Follows dev call st last :=
  ⟨hfirst.reach.trans hnext.reach, hnext.ts.trans hfirst.ts, hnext.tscc.trans hfirst.tscc,
    hnext.frames.trans hfirst.frames⟩

theorem LeavesCell.of_follows (hfoll : Follows dev call st next)
    (hleave : LeavesCell dev call next cur frames) : LeavesCell dev call st cur frames := by
  obtain ⟨last, hreach, hpoint, hnew, hts, hbetween, htscc, hframes⟩ := hleave
  exact ⟨last, hfoll.reach.trans hreach, hpoint, hnew, hfoll.ts ▸ hts, hbetween,
    htscc.trans hfoll.tscc, hfoll.frames ▸ hframes⟩

theorem follows_of_step (hstep : uleStep dev call st = some next) (hts : next.ts = st.ts)
    (htscc : next.priv.tscc = st.priv.tscc) (hframes : next.frames = st.frames) :
    Follows dev call st next :=
  ⟨.single hstep, hts, htscc, hframes⟩

theorem leavesCell_of_step (hstep : uleStep dev call st = some next.nextCell)
    (hts : next.ts = st.ts) (hnew : next.newTs = true) (hbetween : Between cur next.priv)
    (htscc : next.priv.tscc = st.priv.tscc) (hframes : next.frames = st.frames) :
    LeavesCell dev call st cur [] := by
  refine ⟨next.nextCell, .single hstep, rfl, hnew, ?_, hbetween, htscc, ?_⟩
  · exact congrArg (· + 188) hts
  · exact hframes.trans (append_nil _).symm

variable {k a : Nat} {p : DvbNetPriv} {skb : SkBuff} {m : Mem UInt8}

theorem CursorAt.consume (hcursor : CursorAt call fromWhere room st) (hk : k ≤ room)
    (p : DvbNetPriv) (point : UlePoint) :
    CursorAt call (fromWhere + k) (room - k) (({ st with priv := p }.consume k).goto point) := by
  obtain ⟨rfl, rfl, hsmall, hin⟩ := hcursor
  have hlt : st.tsRemain < 256 := by omega
  exact ⟨rfl, u8Sub_of_le hk hlt, by omega, hin⟩

variable (dev) in
theorem header_fresh (hpoint : st.point = .header) (hclose : Closed false st.priv)
    (hcursor : CursorAt call fromWhere room st) (hroom : 2 ≤ room)
    (hshows : Shows call.buf fromWhere room s 0) :
    ∃ next, Follows dev call st next ∧ next.point = .type ∧ Heading s 2 next.priv ∧
      CursorAt call (fromWhere + 2) (room - 2) next := by
  have hlen := s.length_bytes
  have hread := hshows.read hroom (by omega)
  have hfield : call.buf.be16 st.fromWhere = s.length ||| if s.dbit then 0x8000 else 0 := by
    rw [hcursor.fromWhere_eq]
    exact be16_of_read (s.length_field s.dbit).2.2 hread
  obtain ⟨htop, hlow, -⟩ := s.length_field s.dbit
  have hstep : uleStep dev call st = some (({ st with
      priv := { st.priv with uleSnduLen := s.length, uleDbit := s.dbit } }.consume 2).goto
        .type) := by
    have hfive := s.five_le_length.not_gt
    simp only [uleStep, hpoint, uleHeader, hclose.skb, isNone_none, if_true, hclose.len,
      hcursor.room_eq, if_neg hroom.not_gt, hfield, htop, hlow, Bool.decide_eq_true]
    cases hdbit : s.dbit with
    | true => simp [hfive]
    | false => simp [hfive]
  refine ⟨_, follows_of_step hstep rfl rfl rfl, rfl, ?_, hcursor.consume hroom _ _⟩
  exact ⟨⟨hclose.needPusi_eq, rfl, rfl, hclose.bridged⟩, hclose.skb, .inl ⟨rfl, hclose.type1⟩⟩

variable (dev) in
theorem header_heading (hpoint : st.point = .header) (hhead : Heading s n st.priv)
    (hcursor : CursorAt call fromWhere room st) (hroom : 2 ≤ room) :
    Follows dev call st (st.goto .type) := by
  have hlen : st.priv.uleSnduLen ≠ 0 := by
    have hfive := s.five_le_length
    rw [hhead.len]
    omega
  have hstep : uleStep dev call st = some (st.goto .type) := by
    simp only [uleStep, hpoint, uleHeader, hhead.skb, isNone_none, if_true,
      hcursor.room_eq, if_neg hroom.not_gt, if_neg hlen]
  exact follows_of_step hstep rfl rfl rfl

variable (dev call) in
theorem header_loading (hpoint : st.point = .header) (hload : Loading s n st.priv) :
    Follows dev call st (st.goto .copy) := by
  obtain ⟨skb, hskb, -⟩ := hload.skb
  have hstep : uleStep dev call st = some (st.goto .copy) := by
    simp [uleStep, hpoint, uleHeader, hskb]
  exact follows_of_step hstep rfl rfl rfl

theorem Sndu.type_div_lt (s : Sndu) : s.type / 256 < 256 := by
  have hlt := s.type_lt
  omega

theorem Sndu.type_bytes (s : Sndu) :
    s.bytes[2]? = some (UInt8.ofNat (s.type / 256)) ∧
      s.bytes[3]? = some (UInt8.ofNat (s.type % 256)) := by
  have hmask := and_two_pow_sub_one_eq_mod s.type 8
  have hshift := shiftRight_eq_div_pow s.type 8
  rw [← hmask, ← hshift]
  exact ⟨rfl, rfl⟩

variable (dev st) in
theorem alloc_some (hpoint : st.point = .alloc) (hknows : Knows s st.priv)
    (htype : st.priv.uleSnduType = s.type) (htype1 : st.priv.uleSnduType1 = false)
    (hcursor : CursorAt call fromWhere room st) (halloc : ∀ k, (call.alloc k).isSome) :
    ∃ next, Follows dev call st next ∧ next.point = .copy ∧ Loading s 4 next.priv ∧
      CursorAt call fromWhere room next := by
  obtain ⟨mem, hmem⟩ := isSome_iff_exists.mp (halloc st.allocs)
  have hstep : uleStep dev call st = some { st with
      priv := { st.priv with
        uleSkb := some { mem := mem, data := ethHlen + ethAlen, len := 0 }
        uleSnduRemain := st.priv.uleSnduLen }
      allocs := st.allocs + 1
      point := .copy } := by
    simp [uleStep, hpoint, uleAlloc, hmem]
  have hlen := s.length_bytes
  refine ⟨_, follows_of_step hstep rfl rfl rfl, rfl, ?_, hcursor.fromWhere_eq, hcursor.room_eq,
    hcursor.small, hcursor.inside⟩
  refine ⟨{ hknows with }, le_refl 4, htype1, htype, ?_, _, rfl, rfl, rfl, rfl⟩
  simp only [hknows.len]
  omega

variable (dev) in
theorem type_whole (hpoint : st.point = .type) (hhead : Heading s n st.priv)
    (hcursor : CursorAt call fromWhere room st) (hroom : 2 ≤ room)
    (hshows : Shows call.buf fromWhere room s n) (halloc : ∀ k, (call.alloc k).isSome) :
    ∃ next, Follows dev call st next ∧ next.point = .copy ∧ Loading s 4 next.priv ∧
      CursorAt call (fromWhere + (4 - n)) (room - (4 - n)) next := by
  have hlen := s.length_bytes
  have hdiv := s.type_div_lt
  obtain ⟨rest, hrest⟩ := Nat.exists_eq_add_of_le' hroom
  have hrem := hcursor.room_eq.trans hrest
  rcases hhead.split with ⟨rfl, htype1⟩ | ⟨rfl, htype1, hhigh⟩
  · have hfield : call.buf.be16 st.fromWhere = s.type := by
      have hread := hshows.read hroom (by omega)
      rw [hcursor.fromWhere_eq]
      exact be16_of_read s.type_lt hread
    let typed : UleLoop := ({ st with
      priv := { st.priv with
        uleSnduRemain := st.priv.uleSnduLen + 2
        uleSnduType := call.buf.be16 st.fromWhere } }.consume 2).goto .alloc
    have hstep : uleStep dev call st = some typed := by
      simp [typed, uleStep, hpoint, uleType, hrem, htype1]
    obtain ⟨next, hfoll, hnext⟩ := alloc_some dev typed rfl { hhead with } hfield htype1
      (hcursor.consume hroom _ _) halloc
    exact ⟨next, (follows_of_step hstep rfl rfl rfl).trans hfoll, hnext⟩
  · have hbyte : call.buf st.fromWhere = UInt8.ofNat (s.type % 256) := by
      have hshow := hshows 0 (by omega) (by omega)
      rw [hcursor.fromWhere_eq]
      exact mem_unique hshow s.type_bytes.2
    have hfield : st.priv.uleSnduType ||| (call.buf st.fromWhere).toNat = s.type := by
      rw [hhigh, hbyte, ← Nat.shiftLeft_eq (s.type / 256) 8, shiftLeft_or_byte]
      rw [UInt8.toNat_ofNat']
      omega
    let typed : UleLoop := ({ st with
      priv := { st.priv with
        uleSnduRemain := st.priv.uleSnduLen + 2
        uleSnduType1 := false
        uleSnduType := st.priv.uleSnduType ||| (call.buf st.fromWhere).toNat } }.consume 1).goto
      .alloc
    have hstep : uleStep dev call st = some typed := by
      simp [typed, uleStep, hpoint, uleType, hrem, htype1]
    obtain ⟨next, hfoll, hnext⟩ := alloc_some dev typed rfl { hhead with } hfield rfl
      (hcursor.consume (k := 1) (by omega) _ _) halloc
    exact ⟨next, (follows_of_step hstep rfl rfl rfl).trans hfoll, hnext⟩

variable (dev) in
theorem type_cut (hpoint : st.point = .type) (hhead : Heading s 2 st.priv)
    (hcursor : CursorAt call fromWhere room st) (hroom : room < 2)
    (hshows : Shows call.buf fromWhere room s 2) :
    LeavesCell dev call st (some (s, 2 + room)) [] := by
  have hlen := s.length_bytes
  have hrem := hcursor.room_eq
  have hone : room = 0 ∨ room = 1 := by omega
  have htype1 : st.priv.uleSnduType1 = false := by
    rcases hhead.split with h | h
    · exact h.2
    · cases h.1
  rcases hone with rfl | rfl
  · have hstep : uleStep dev call st = some { st with
        priv := { st.priv with uleSnduRemain := st.priv.uleSnduLen + 2 }
        newTs := true }.nextCell := by
      simp [uleStep, hpoint, uleType, hrem]
    refine leavesCell_of_step hstep rfl rfl ?_ rfl rfl
    refine .heading ⟨{ hhead with }, hhead.skb, .inl ⟨rfl, htype1⟩⟩ ?_
    simp only [hhead.len]
    omega
  · have hbyte : call.buf st.fromWhere = UInt8.ofNat (s.type / 256) := by
      have hshow := hshows 0 (by omega) (by omega)
      rw [hcursor.fromWhere_eq]
      exact mem_unique hshow s.type_bytes.1
    have hstep : uleStep dev call st = some ({ st with
        priv := { st.priv with
          uleSnduRemain := st.priv.uleSnduLen + 2 - 1
          uleSnduType := (call.buf st.fromWhere).toNat <<< 8
          uleSnduType1 := true }
        newTs := true }.consume 1).nextCell := by
      simp [uleStep, hpoint, uleType, hrem]
    refine leavesCell_of_step hstep rfl rfl ?_ rfl rfl
    refine .heading ⟨{ hhead with }, hhead.skb, .inr ⟨rfl, rfl, ?_⟩⟩ ?_
    · have hlt := s.type_div_lt
      simp only [consume, hbyte, UInt8.toNat_ofNat', shiftLeft_eq]
      omega
    · simp only [consume, hhead.len]
      omega

theorem Loading.put (hload : Loading s n p) (hskb : p.uleSkb = some skb)
    (hk : n + k ≤ s.bytes.length) :
    Loading s (n + k) { p with
      uleSkb := some (skb.put ((s.bytes.drop n).take k))
      uleSnduRemain := p.uleSnduRemain - k } := by
  obtain ⟨skb', hskb', hdata, hlen, hbytes⟩ := hload.skb
  obtain rfl := mem_unique hskb hskb'
  have hfour := hload.four_le
  have hk' : ((s.bytes.drop n).take k).length = k := by
    simp only [length_take, length_drop]
    omega
  refine ⟨{ hload with }, by omega, hload.type1, hload.type, ?_, _, rfl, hdata, ?_, ?_⟩
  · simp only [hload.remain]
    omega
  · simp only [SkBuff.put, hlen, hk']
    omega
  have hmore : n + k - 4 = (n - 4) + k := by omega
  have hfrom : 4 + (n - 4) = n := by omega
  rw [hmore, take_add, drop_drop, hfrom, ← hbytes]
  exact Mem.read_memcpy_append _ _ _ _

variable (dev) in
theorem copy_rest (hpoint : st.point = .copy) (hload : Loading s n st.priv)
    (hcursor : CursorAt call fromWhere room st) (hshort : n ≤ s.bytes.length)
    (hfits : s.bytes.length - n ≤ room) (hshows : Shows call.buf fromWhere room s n) :
    ∃ next, Follows dev call st next ∧ next.point = .complete ∧
      Loading s s.bytes.length next.priv ∧
      CursorAt call (fromWhere + (s.bytes.length - n)) (room - (s.bytes.length - n)) next := by
  obtain ⟨skb, hskb, -⟩ := hload.skb
  have hread := hshows.read hfits (by omega)
  have hmin : min st.priv.uleSnduRemain st.tsRemain = s.bytes.length - n := by
    rw [hload.remain, hcursor.room_eq]
    omega
  have hput := hload.put hskb (k := s.bytes.length - n) (by omega)
  rw [Nat.add_sub_cancel' hshort] at hput
  have hstep : uleStep dev call st = some (({ st with
      priv := { st.priv with
        uleSkb := some (skb.put ((s.bytes.drop n).take (s.bytes.length - n)))
        uleSnduRemain := st.priv.uleSnduRemain - (s.bytes.length - n) } }.consume
      (s.bytes.length - n)).goto .complete) := by
    have hzero := hput.remain
    rw [Nat.sub_self] at hzero
    simp [uleStep, hpoint, uleCopy, hskb, hmin, hcursor.fromWhere_eq, hread, consume, goto, hzero]
  exact ⟨_, follows_of_step hstep rfl rfl rfl, rfl, hput, hcursor.consume hfits _ _⟩

theorem copy_part (hpoint : st.point = .copy) (hload : Loading s n st.priv)
    (hcursor : CursorAt call fromWhere room st) (hlong : room < s.bytes.length - n)
    (hshows : Shows call.buf fromWhere room s n) :
    LeavesCell dev call st (some (s, n + room)) [] := by
  obtain ⟨skb, hskb, -⟩ := hload.skb
  have hread := hshows.read le_rfl (by omega)
  have hmin : min st.priv.uleSnduRemain st.tsRemain = room := by
    rw [hload.remain, hcursor.room_eq]
    omega
  have hput := hload.put hskb (k := room) (by omega)
  let full : UleLoop := ({ st with
    priv := { st.priv with
      uleSkb := some (skb.put ((s.bytes.drop n).take room))
      uleSnduRemain := st.priv.uleSnduRemain - room } }.consume room).goto .more
  have hstep : uleStep dev call st = some full := by
    have hrem := hput.remain
    simp only at hrem
    have hmore : ¬ st.priv.uleSnduRemain - room = 0 := by omega
    simp [full, uleStep, hpoint, uleCopy, hskb, hmin, hcursor.fromWhere_eq, hread, consume, goto,
      if_neg hmore]
  have hroom : full.tsRemain = 0 := by
    have := hcursor.small
    simp only [full, consume, goto, hcursor.room_eq]
    rw [u8Sub_of_le le_rfl (by omega), Nat.sub_self]
  have hmore : uleStep dev call full = some { full with newTs := true }.nextCell := by
    have hpoint' : full.point = .more := rfl
    have hsome : full.priv.uleSkb = some (skb.put ((s.bytes.drop n).take room)) := rfl
    simp [uleStep, hpoint', uleMore, hroom, hsome]
  have hleave : LeavesCell dev call full (some (s, n + room)) [] :=
    leavesCell_of_step hmore rfl rfl (.loading hput (by omega)) rfl rfl
  exact hleave.of_follows (follows_of_step hstep rfl rfl rfl)

theorem addressDropped_eq {dest : EthAddr} (hread : skb.mem.read skb.data ethAlen = dest.toList) :
    addressDropped dev skb = !accepts dev dest := by
  have hfirst := first_of_read dest hread
  simp only [addressDropped, accepts, hread, hfirst, ne_eq, Vector.toList_inj]
  by_cases hpromisc : dev.rxMode = .promisc
  · simp [hpromisc]
  by_cases hgroup : dest[0] &&& 1 = 0
  · have hone : dest ≠ bcAddr := by
      rintro rfl
      exact absurd hgroup (by decide)
    simp [hpromisc, hgroup, hone]
  by_cases hbroadcast : dest = bcAddr
  · rw [hbroadcast] at hgroup
    simp [hpromisc, hbroadcast, hgroup]
  have hlist : (dev.multiMacs.all fun mac => !decide (dest = mac)) =
      !decide (dest ∈ dev.multiMacs) := by
    rw [Bool.eq_iff_iff]
    simp only [List.all_eq_true, Bool.not_eq_true', decide_eq_false_iff_not]
    exact ⟨fun hnone hmem => hnone dest hmem rfl, fun hnot mac hmem heq => hnot (heq ▸ hmem)⟩
  cases hmode : dev.rxMode <;> simp_all

section

variable (s : Sndu) (dev : NetDevice)

theorem Sndu.length_mac : (s.frame dev).mac.length = 14 := by
  cases hdest : s.dest <;> simp [frame, hdest, be16Bytes]

theorem Sndu.mac_take :
    (s.frame dev).mac.take 6 = s.dest.elim (List.replicate 6 0) Vector.toList := by
  rw [frame, append_assoc]
  apply take_left'
  cases s.dest <;> simp

theorem Sndu.mac_drop : (s.frame dev).mac.drop 12 = be16Bytes s.type := by
  apply drop_left'
  cases s.dest <;> simp

end

/-- `dvb_net_eth_type_trans` on a frame with the SNDU's header in front. -/
theorem ethTypeTrans_push (hdata : 14 ≤ skb.data) :
    dvbNetEthTypeTrans dev (skb.push (s.frame dev).mac) =
      (s.type, (s.frame dev).pktType,
        { mem := (skb.push (s.frame dev).mac).mem, data := skb.data, len := skb.len }) := by
  have hlen := s.length_mac dev
  have hmac : (skb.push (s.frame dev).mac).mem.read (skb.data - 14) 14 = (s.frame dev).mac := by
    rw [push]
    simpa [hlen] using read_memcpy_self skb.mem (skb.data - 14) (s.frame dev).mac
  have hpull : (skb.push (s.frame dev).mac).pull ethHlen =
      { mem := (skb.push (s.frame dev).mac).mem, data := skb.data, len := skb.len } := by
    simp only [pull, push, hlen, ethHlen]
    rw [if_pos (by omega)]
    simp [Nat.sub_add_cancel hdata]
  have hproto : (skb.push (s.frame dev).mac).mem.be16 (skb.data - 14 + 12) = s.type := by
    apply be16_of_read s.type_lt
    rw [← drop_take_read _ (skb.data - 14) 14 12 2 (by omega), hmac, s.mac_drop]
    rfl
  have haddr : (skb.push (s.frame dev).mac).mem.read (skb.data - 14) 6 =
      s.dest.elim (List.replicate 6 0) Vector.toList := by
    have htake := drop_take_read (skb.push (s.frame dev).mac).mem (skb.data - 14) 14 0 6 (by omega)
    rw [hmac] at htake
    exact htake.symm.trans (s.mac_take dev)
  have hpkt : (if (skb.push (s.frame dev).mac).mem (skb.data - 14) &&& 1 ≠ 0 then
      if (skb.push (s.frame dev).mac).mem.read (skb.data - 14) 6 = dev.broadcast.toList then
        PktType.broadcast else PktType.multicast
      else PktType.host) = (s.frame dev).pktType := by
    rw [haddr]
    cases hdest : s.dest with
    | none =>
      rw [hdest] at haddr
      have hzero := first_of_read (.replicate 6 0) haddr
      rw [hzero]
      simp [frame, hdest]
    | some dest =>
      rw [hdest] at haddr
      have hfirst := first_of_read dest haddr
      rw [hfirst]
      simp [frame, hdest, Vector.toList_inj]
  have hstart : (skb.push (s.frame dev).mac).data = skb.data - 14 := by simp [push, hlen]
  simp only [dvbNetEthTypeTrans, hpull, hstart, hproto, if_pos s.type_ge, ethAlen]
  rw [hpkt]

/-- The frame is put together from the destination and the payload and is handed up. -/
theorem deliver_frame {destAddr : Bytes} (hpoint : st.point = .deliver destAddr)
    (hknows : Knows s st.priv) (htype : st.priv.uleSnduType = s.type)
    (hskb : st.priv.uleSkb = some skb) (hdata : 14 ≤ skb.data) (hpay : skb.bytes = s.payload)
    (hdest : ∀ dest, s.dest = some dest → destAddr = dest.toList) :
    uleStep dev call st = some { st.snduDone with frames := st.frames ++ [s.frame dev] } := by
  have hlen := s.length_mac dev
  have hhdr : (if st.priv.uleDbit then List.replicate ethAlen 0 else destAddr) ++
      List.replicate ethAlen 0 ++ be16Bytes st.priv.uleSnduType = (s.frame dev).mac := by
    rw [hknows.dbit, htype]
    cases hcase : s.dest with
    | none => simp [Sndu.dbit, Sndu.frame, hcase, ethAlen]
    | some dest => simp [Sndu.dbit, Sndu.frame, hcase, ethAlen, hdest dest hcase]
  have hmac : (skb.push (s.frame dev).mac).mem.read (skb.push (s.frame dev).mac).data ethHlen =
      (s.frame dev).mac := by
    have hself := Mem.read_memcpy_self skb.mem (skb.data - 14) (s.frame dev).mac
    simp only [SkBuff.push, ethHlen, hlen] at hself ⊢
    exact hself
  have hrest : (skb.push (s.frame dev).mac).mem.read skb.data skb.len = s.payload := by
    rw [← hpay]
    apply Mem.read_memcpy_above
    omega
  simp only [uleStep, hpoint, uleDeliver, hskb, hknows.bridged, Bool.false_eq_true, if_false,
    hhdr, ethTypeTrans_push hdata, SkBuff.bytes, hmac, hrest]
  rfl

theorem Loading.complete (hload : Loading s s.bytes.length p) :
    ∃ skb, p.uleSkb = some skb ∧ skb.data = 20 ∧ skb.len = s.body.length + 4 ∧
      skb.mem.read 20 s.body.length = s.body ∧
      skb.mem.be32 (20 + s.body.length) = s.crc := by
  obtain ⟨skb, hskb, hdata, hlen, hbytes⟩ := hload.skb
  have hlength := s.length_bytes
  have hbody := s.length_body
  have hrest : s.bytes.drop 4 = s.body ++ be32Bytes s.crc := drop_left' s.length_header
  have hall : skb.mem.read 20 (s.body.length + 4) = s.body ++ be32Bytes s.crc := by
    have hskbLen : skb.len = s.body.length + 4 := by omega
    rw [← hdata, ← hskbLen, ← SkBuff.bytes, hbytes, hrest]
    apply take_of_length_le
    simp only [length_append, be32Bytes, length_cons, length_nil]
    omega
  rw [Mem.read_add] at hall
  obtain ⟨hbody', hcrc⟩ := append_inj hall (Mem.length_read _ _ _)
  exact ⟨skb, hskb, hdata, by omega, hbody', Mem.be32_of_read hcrc⟩

/-- The address in front of the payload, if there is one, and the payload. -/
theorem read_body (hread : m.read a s.body.length = s.body) :
    m.read a (destBytes s.dest).length = destBytes s.dest ∧
      m.read (a + (destBytes s.dest).length) s.payload.length = s.payload := by
  rw [body, length_append, read_add] at hread
  exact append_inj hread (length_read _ _ _)

variable (dev call) in
/-- A complete SNDU passes the check of its CRC-32. It is dropped for its address, or its
payload is passed on. -/
theorem complete_cases (hpoint : st.point = .complete)
    (hload : Loading s s.bytes.length st.priv) :
    (s.accepted dev = false ∧ uleStep dev call st = some st.snduDone) ∨
    (s.accepted dev = true ∧ ∃ skb destAddr, uleStep dev call st =
        some ({ st with priv := { st.priv with uleSkb := some skb } }.goto (.deliver destAddr)) ∧
      14 ≤ skb.data ∧ skb.bytes = s.payload ∧
      ∀ dest, s.dest = some dest → destAddr = dest.toList) := by
  obtain ⟨skb, hskb, hdata, hlen, hbody, hcrc⟩ := hload.complete
  obtain ⟨haddr, hpay⟩ := read_body hbody
  have htype := s.type_ge.not_gt
  have hsum : crc32Be (crc32Be (crc32Be 0xffffffff
      (be16Bytes (s.length ||| if s.dbit then 0x8000 else 0))) (be16Bytes s.type)) s.body =
      s.crc := by
    rw [crc32Be_append, crc32Be_append]
    rfl
  have hend : 20 + (s.body.length + 4) - 4 = 20 + s.body.length := by omega
  have hsplit : s.body.length = (destBytes s.dest).length + s.payload.length := by
    rw [Sndu.body, length_append]
  cases hdest : s.dest with
  | none =>
    have hdbit : s.dbit = true := by simp [Sndu.dbit, hdest]
    have hzero : (destBytes s.dest).length = 0 := by simp [destBytes, hdest]
    right
    refine ⟨by simp [Sndu.accepted, hdest], skb.trim 4, skb.mem.read 20 ethAlen, ?_,
      by simp [SkBuff.trim, hdata], ?_, ?_⟩
    · rw [hdbit] at hsum
      simp [uleStep, hpoint, uleComplete, hskb, hdata, hlen, hend, hload.len, hload.dbit,
        hload.type, hdbit, hbody, hcrc, htype, SkBuff.trim] at hsum ⊢
      simp [hsum]
    · simp only [SkBuff.bytes, SkBuff.trim, hdata, hlen]
      rw [hzero] at hpay hsplit
      rwa [hsplit, zero_add]
    · intro dest hsome
      cases hsome
  | some dest =>
    have hdbit : s.dbit = false := by simp [Sndu.dbit, hdest]
    have hsix : (destBytes s.dest).length = 6 := by simp [destBytes, hdest]
    have hread : skb.mem.read 20 6 = dest.toList := by
      rw [hsix] at haddr
      rw [haddr, hdest]
      rfl
    have hdropped : addressDropped dev (skb.trim 4) = !accepts dev dest :=
      addressDropped_eq (by simpa [SkBuff.trim, hdata, ethAlen] using hread)
    rw [hdbit] at hsum
    rcases htakes : accepts dev dest with _ | _
    · left
      refine ⟨by simp [Sndu.accepted, hdest, htakes], ?_⟩
      simp [uleStep, hpoint, uleComplete, hskb, hdata, hlen, hend, hload.len, hload.dbit,
        hload.type, hdbit, hbody, hcrc, hdropped, htakes] at hsum ⊢
    have hpull : (skb.trim 4).pull ethAlen =
        { mem := skb.mem, data := 26, len := s.payload.length } := by
      simp only [SkBuff.pull, SkBuff.trim, hdata, hlen, ethAlen]
      rw [if_pos (by omega)]
      simp only [SkBuff.mk.injEq, true_and]
      omega
    right
    refine ⟨by simp [Sndu.accepted, hdest, htakes], (skb.trim 4).pull ethAlen, dest.toList,
      ?_, ?_, ?_, ?_⟩
    · simp [uleStep, hpoint, uleComplete, hskb, hdata, hlen, hend, hload.len, hload.dbit,
        hload.type, hdbit, hbody, hcrc, htype, hdropped, htakes] at hsum ⊢
      simp [hsum, hread, SkBuff.trim, ethAlen, hdata]
    · simp [hpull]
    · rw [hpull, SkBuff.bytes]
      rwa [hsix] at hpay
    · intro dest' hsome
      rw [Option.some.inj hsome]

/-- The loop has come to what follows an SNDU in the cell, and has handed up its frame if it is
meant for the device. -/
structure Delivered (dev : NetDevice) (call : UleCall) (s : Sndu) (fromWhere room : Nat)
    (st next : UleLoop) : Prop where
  reach : Reaches (uleStep dev call) st next
  point : next.point = .more
  closed : Closed false next.priv
  cursor : CursorAt call fromWhere room next
  ts : next.ts = st.ts
  tscc : next.priv.tscc = st.priv.tscc
  frames : next.frames = st.frames ++ received dev [s]

theorem Delivered.of_follows (hfoll : Follows dev call st next)
    (hdeliv : Delivered dev call s fromWhere room next last) :
    Delivered dev call s fromWhere room st last :=
  ⟨hfoll.reach.trans hdeliv.reach, hdeliv.point, hdeliv.closed, hdeliv.cursor,
    hdeliv.ts.trans hfoll.ts, hdeliv.tscc.trans hfoll.tscc,
    hfoll.frames ▸ hdeliv.frames⟩

theorem LeavesCell.of_delivered {sent : List Sndu}
    (hdeliv : Delivered dev call s fromWhere room st next)
    (hleave : LeavesCell dev call next cur (received dev sent)) :
    LeavesCell dev call st cur (received dev (s :: sent)) := by
  obtain ⟨last, hreach, hpoint, hnew, hts, hbetween, htscc, hframes⟩ := hleave
  refine ⟨last, hdeliv.reach.trans hreach, hpoint, hnew, hdeliv.ts ▸ hts, hbetween,
    htscc.trans hdeliv.tscc, ?_⟩
  rw [hframes, hdeliv.frames, append_assoc, ← received_append, singleton_append]

/-- A complete SNDU becomes a frame, if it is meant for the device. -/
theorem complete_frame (hpoint : st.point = .complete) (hload : Loading s s.bytes.length st.priv)
    (hcursor : CursorAt call fromWhere room st) :
    ∃ next, Delivered dev call s fromWhere room st next := by
  have hcur' : CursorAt call fromWhere room st.snduDone := { hcursor with }
  have hclose : Closed false st.snduDone.priv := ⟨hload.synced, rfl, rfl, rfl, rfl, rfl⟩
  rcases complete_cases dev call hpoint hload with
    ⟨hoth, hstep⟩ | ⟨hown, skb, destAddr, hpasses, hdata, hpay, hdest⟩
  · refine ⟨st.snduDone, .single hstep, rfl, hclose, hcur', rfl, rfl, ?_⟩
    simp [received, hoth, snduDone]
  let passed : UleLoop :=
    { st with priv := { st.priv with uleSkb := some skb } }.goto (.deliver destAddr)
  have hstep : uleStep dev call passed =
      some { passed.snduDone with frames := passed.frames ++ [s.frame dev] } :=
    deliver_frame rfl { hload with } hload.type rfl hdata hpay hdest
  have hreach : Reaches (uleStep dev call) st passed := .single hpasses
  refine ⟨_, hreach.tail hstep, rfl, ⟨hload.synced, rfl, rfl, rfl, rfl, rfl⟩,
    { hcursor with }, rfl, rfl, ?_⟩
  simp [received, hown, passed, goto]

def AtHeader (s : Sndu) (n : Nat) (p : DvbNetPriv) : Prop :=
  (n = 0 ∧ Closed false p) ∨ Received s n p

/-- What the cell has of the SNDU is received: all that it lacks, or as much as fits. -/
structure Arrives (dev : NetDevice) (call : UleCall) (s : Sndu) (n fromWhere room : Nat)
    (st : UleLoop) : Prop where
  fits : s.bytes.length - n ≤ room → ∃ next, Delivered dev call s
    (fromWhere + (s.bytes.length - n)) (room - (s.bytes.length - n)) st next
  long : room < s.bytes.length - n → LeavesCell dev call st (some (s, n + room)) []

/-- `k` bytes further. -/
theorem Arrives.of_follows (hfoll : Follows dev call st next) (k : Nat)
    (hk : n + k ≤ s.bytes.length) (hroom : k ≤ room)
    (harrives : Arrives dev call s (n + k) (fromWhere + k) (room - k) next) :
    Arrives dev call s n fromWhere room st := by
  constructor
  · intro hfits
    obtain ⟨last, hdeliv⟩ := harrives.fits (by omega)
    have hfrom : fromWhere + k + (s.bytes.length - (n + k)) =
        fromWhere + (s.bytes.length - n) := by omega
    have hleft : room - k - (s.bytes.length - (n + k)) = room - (s.bytes.length - n) := by omega
    rw [hfrom, hleft] at hdeliv
    exact ⟨last, hdeliv.of_follows hfoll⟩
  · intro hlong
    have hsent : n + k + (room - k) = n + room := by omega
    have hleave := harrives.long (by omega)
    rw [hsent] at hleave
    exact hleave.of_follows hfoll

theorem copy_run (hpoint : st.point = .copy) (hload : Loading s n st.priv)
    (hcursor : CursorAt call fromWhere room st) (hshort : n ≤ s.bytes.length)
    (hshows : Shows call.buf fromWhere room s n) : Arrives dev call s n fromWhere room st := by
  constructor
  · intro hfits
    obtain ⟨next, hfoll, hcomp, hloaded, hcur'⟩ :=
      copy_rest dev hpoint hload hcursor hshort hfits hshows
    obtain ⟨last, hdeliv⟩ := complete_frame hcomp hloaded hcur'
    exact ⟨last, hdeliv.of_follows hfoll⟩
  · intro hlong
    exact copy_part hpoint hload hcursor hlong hshows

section

variable (hcursor : CursorAt call fromWhere room st) (hroom : 2 ≤ room)
  (hshows : Shows call.buf fromWhere room s n) (halloc : ∀ k, (call.alloc k).isSome)

include hcursor hroom hshows halloc

theorem type_run (hpoint : st.point = .type) (hhead : Heading s n st.priv) :
    Arrives dev call s n fromWhere room st := by
  have hlen := s.length_bytes
  have hn : n ≤ 4 ∧ 4 - n ≤ 2 := by rcases hhead.split with h | h <;> omega
  have hfour := Nat.add_sub_cancel' hn.1
  obtain ⟨next, hfoll, hcopy, hload, hcur'⟩ :=
    type_whole dev hpoint hhead hcursor hroom hshows halloc
  have hshows' := hshows.later (4 - n)
  refine .of_follows hfoll (4 - n) (by omega) (by omega) ?_
  rw [hfour] at hshows' ⊢
  exact copy_run hcopy hload hcur' (by omega) hshows'

theorem sndu_run (hpoint : st.point = .header) (hat : AtHeader s n st.priv) :
    Arrives dev call s n fromWhere room st := by
  have hlen := s.length_bytes
  rcases hat with ⟨rfl, hclose⟩ | hhead | ⟨hload, hshort⟩
  · obtain ⟨next, hfoll, htype, hhead, hcur'⟩ :=
      header_fresh dev hpoint hclose hcursor hroom hshows
    have hshows' := hshows.later 2
    rw [zero_add] at hshows'
    refine .of_follows hfoll 2 (by omega) hroom ?_
    rw [zero_add]
    rcases lt_or_ge (room - 2) 2 with hcut | hmore
    · -- the cell ends in the header
      exact ⟨fun hfits => by omega, fun _ => type_cut dev htype hhead hcur' hcut hshows'⟩
    · exact type_run hcur' hmore hshows' halloc htype hhead
  · have hfoll := header_heading dev hpoint hhead hcursor hroom
    have hn : n ≤ s.bytes.length := by rcases hhead.split with h | h <;> omega
    refine .of_follows hfoll 0 hn (zero_le _) ?_
    exact type_run { hcursor with } hroom hshows halloc rfl hhead
  · have hfoll := header_loading dev call hpoint hload
    refine .of_follows hfoll 0 hshort.le (zero_le _) ?_
    exact copy_run rfl hload { hcursor with } hshort.le hshows

end

theorem more_stuffing (hpoint : st.point = .more) (hclose : Closed false st.priv)
    (hcursor : CursorAt call fromWhere room st)
    (hread : call.buf.read fromWhere room = List.replicate room 0xff) :
    LeavesCell dev call st none [] := by
  have hbyte : ∀ i < room, call.buf (fromWhere + i) = 0xff := by
    intro i hi
    have hcell := congrArg (fun l => l[i]?) hread
    simpa [Mem.read, hi] using hcell
  have hend : ¬ (st.tsRemain ≥ 2 ∧
      ¬ (call.buf st.fromWhere = 0xff ∧ call.buf (st.fromWhere + 1) = 0xff)) := by
    rintro ⟨hroom, hmore⟩
    rw [hcursor.room_eq] at hroom
    rw [hcursor.fromWhere_eq] at hmore
    exact hmore ⟨hbyte 0 (by omega), hbyte 1 (by omega)⟩
  have hstep : uleStep dev call st = some { st with
      priv := { st.priv with needPusi := true, uleSnduType1 := false, uleSnduLen := 0 }
      newTs := true }.nextCell := by
    simp only [uleStep, hpoint, uleMore, if_neg hend, hclose.skb, isNone_none, if_true]
  exact leavesCell_of_step hstep rfl rfl
    ⟨rfl, hclose.skb, rfl, rfl, hclose.bridged, hclose.remain⟩ rfl rfl

variable (dev) in
theorem more_starts (hpoint : st.point = .more) (hclose : Closed false st.priv)
    (hcursor : CursorAt call fromWhere room st) (hroom : 2 ≤ room)
    (hshows : Shows call.buf fromWhere room s 0) :
    ∃ next, Follows dev call st next ∧ next.point = .header ∧ Closed false next.priv ∧
      CursorAt call fromWhere room next := by
  have hlen := s.length_bytes
  have hmore : st.tsRemain ≥ 2 ∧
      ¬ (call.buf st.fromWhere = 0xff ∧ call.buf (st.fromWhere + 1) = 0xff) := by
    refine ⟨hcursor.room_eq ▸ hroom, ?_⟩
    rintro ⟨hhigh, hlow⟩
    obtain ⟨-, hfield, hlt⟩ := s.length_field s.dbit
    have hbe16 := be16_of_read hlt (hshows.read hroom (by omega))
    rw [hcursor.fromWhere_eq] at hhigh hlow
    rw [be16_eq, hhigh, hlow] at hbe16
    rw [← hbe16] at hfield
    have hle : s.length ≤ 0x7ffe := s.length_le
    rw [← hfield] at hle
    exact absurd hle (by decide)
  let again : UleLoop := { st with
    priv := { st.priv with uleSkb := none, uleSnduType1 := false, uleSnduLen := 0 }
    newTs := false
    point := .cell }
  have hagain : uleStep dev call st = some again := by
    simp only [again, uleStep, hpoint, uleMore, if_pos hmore]
  have hsync : uleStep dev call again = some (again.goto .sync) := by
    simp [again, uleStep, uleCell, hcursor.inside]
  have hcontinuity :
      uleStep dev call (again.goto .sync) = some ((again.goto .sync).goto .continuity) := by
    simp [again, uleStep, goto, uleSync, hclose.needPusi_eq]
  have hhdr : uleStep dev call ((again.goto .sync).goto .continuity) =
      some (((again.goto .sync).goto .continuity).goto .header) := by
    simp [uleStep, goto, uleContinuity]
  refine ⟨_, (((follows_of_step hagain rfl rfl rfl).trans
    (follows_of_step hsync rfl rfl rfl)).trans (follows_of_step hcontinuity rfl rfl rfl)).trans
    (follows_of_step hhdr rfl rfl rfl), rfl, ?_, ?_⟩
  · exact ⟨hclose.needPusi_eq, rfl, rfl, rfl, hclose.bridged, hclose.remain⟩
  · exact { hcursor with }

def Standing (cur : Sending) (room : Nat) (st : UleLoop) : Prop :=
  match cur with
  | none => st.point = .more ∧ Closed false st.priv
  | some (s, n) => st.point = .header ∧ AtHeader s n st.priv ∧ 2 ≤ room

theorem fill_run {cur cur' : Sending} {todo todo' : List Sndu} {bytes : Bytes}
    (hfills : Fills room cur todo bytes cur' todo') (halloc : ∀ k, (call.alloc k).isSome)
    (hstanding : Standing cur room st) (hcursor : CursorAt call fromWhere room st)
    (hread : call.buf.read fromWhere room = bytes) :
    ∃ sent, pending cur todo = sent ++ pending cur' todo' ∧
      LeavesCell dev call st cur' (received dev sent) := by
  induction hfills generalizing st fromWhere with
  | stuffing room todo => exact ⟨[], rfl, more_stuffing hstanding.1 hstanding.2 hcursor hread⟩
  | @starts room s todo todo' bytes cur' hroom hrest ih =>
    obtain ⟨next, hfoll, hpoint, hclose, hcur'⟩ :=
      more_starts dev hstanding.1 hstanding.2 hcursor hroom (hrest.shows hread)
    obtain ⟨sent, hsent, hleave⟩ := ih ⟨hpoint, .inl ⟨rfl, hclose⟩, hroom⟩ hcur' hread
    exact ⟨sent, hsent, hleave.of_follows hfoll⟩
  | @ends room n s todo todo' bytes cur' hfits hrest ih =>
    obtain ⟨hpoint, hat, hroom⟩ := hstanding
    have hshows := (Fills.ends hfits hrest).shows hread
    obtain ⟨next, hdeliv⟩ := (sndu_run hcursor hroom hshows halloc hpoint hat).fits hfits
    have hlater : call.buf.read (fromWhere + (s.bytes.length - n))
        (room - (s.bytes.length - n)) = bytes := by
      rw [← Nat.add_sub_cancel' hfits, read_add] at hread
      exact (append_inj hread (by simp)).2
    obtain ⟨sent, hsent, hleave⟩ :=
      ih ⟨hdeliv.point, hdeliv.closed⟩ hdeliv.cursor hlater
    refine ⟨s :: sent, ?_, hleave.of_delivered hdeliv⟩
    exact congrArg (s :: ·) hsent
  | @goesOn room n s todo hlong =>
    obtain ⟨hpoint, hat, hroom⟩ := hstanding
    have hshows := (Fills.goesOn todo hlong).shows hread
    exact ⟨[], rfl, (sndu_run hcursor hroom hshows halloc hpoint hat).long hlong⟩

end TbsMedia.DvbNet
