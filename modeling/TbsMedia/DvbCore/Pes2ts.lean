import TbsMedia.Lib.Memory
import TbsMedia.DvbCore.TsPacket

/-!
The packetiser of `dvb_filter.c`. It cuts a PES string into the payloads of transport
packets, and fills the last packet up with an adaptation field.
-/

namespace TbsMedia.DvbCore

open Lib Function List Mem

/-- `struct dvb_filter_pes2ts`. The packet being built always has its sync byte. -/
structure Pes2ts where
  buf : Mem UInt8
  cc : UInt8
  sync : buf 0 = 0x47

def dvbFilterPes2tsInit (buf : Mem UInt8) (pid : UInt16) : Pes2ts where
  buf := update (update (update buf 0 0x47) 1 (pid >>> 8).toUInt8) 2
    (pid &&& 0xff).toUInt8
  cc := 0
  sync := by simp

namespace Pes2ts

/-- `buf[i] = b`, behind the sync byte. -/
def set (p2ts : Pes2ts) (i : Nat) (b : UInt8) (hi : 0 < i) : Pes2ts where
  buf := update p2ts.buf i b
  cc := p2ts.cc
  sync := by simp [Nat.ne_of_lt hi, p2ts.sync]

def copy (p2ts : Pes2ts) (dst : Nat) (src : Bytes) (hdst : 0 < dst) : Pes2ts where
  buf := p2ts.buf.memcpy dst src
  cc := p2ts.cc
  sync := by rw [Mem.memcpy_below _ _ _ _ hdst, p2ts.sync]

/-- `p2ts->cc++`. -/
def counted (p2ts : Pes2ts) : Pes2ts := { p2ts with cc := p2ts.cc + 1 }

/-- What `cb` is called with. -/
def packet (p2ts : Pes2ts) : TsPacket := ⟨p2ts.buf.read 0 188, by simp⟩

end Pes2ts

def fullPacket (p2ts : Pes2ts) (pes : Bytes) : Pes2ts :=
  (p2ts.set 3 (0x10 ||| p2ts.cc &&& 0x0f) (by decide)).counted.copy 4 (pes.take 184) (by decide)

def lastPacket (p2ts : Pes2ts) (pes : Bytes) : Pes2ts :=
  let rest := 183 - pes.length
  let p2ts := (p2ts.set 3 (0x30 ||| p2ts.cc &&& 0x0f) (by decide)).counted
  let p2ts := if rest ≠ 0 then
      (p2ts.set 5 0 (by decide)).copy 6 (List.replicate (rest - 1) 0xff) (Nat.succ_pos _)
    else p2ts
  (p2ts.set 4 (UInt8.ofNat rest) (by decide)).copy (5 + rest) pes (by omega)

/-- `buf[1] &= ~0x40`. -/
def clearPusi (p2ts : Pes2ts) : Pes2ts := p2ts.set 1 (p2ts.buf 1 &&& ~~~0x40) (by decide)

/-- The loop and what comes behind it, with the packets that are handed to `cb`; `n` of them
have been handed over before. -/
def pes2tsLoop (cb : Nat → TsPacket → Int) : Nat → Nat → Pes2ts → Bytes →
    Int × Pes2ts × List TsPacket
  | 0, _, p2ts, _ => (0, p2ts, [])
  | rounds + 1, n, p2ts, pes =>
    if 184 ≤ pes.length then
      let p2ts := fullPacket p2ts pes
      let ret := cb n p2ts.packet
      if ret ≠ 0 then (ret, p2ts, [p2ts.packet])
      else
        let (ret, next, packets) := pes2tsLoop cb rounds (n + 1) (clearPusi p2ts) (pes.drop 184)
        (ret, next, p2ts.packet :: packets)
    else if pes.length = 0 then (0, p2ts, [])
    else
      let p2ts := lastPacket p2ts pes
      (cb n p2ts.packet, p2ts, [p2ts.packet])

/-- The loop takes 184 bytes a round, so that these rounds are enough. -/
def dvbFilterPes2ts (cb : Nat → TsPacket → Int) (p2ts : Pes2ts) (pes : Bytes)
    (payloadStart : Bool) : Int × Pes2ts × List TsPacket :=
  let p2ts :=
    if payloadStart then p2ts.set 1 (p2ts.buf 1 ||| 0x40) (by decide) else clearPusi p2ts
  pes2tsLoop cb (pes.length + 1) 0 p2ts pes

/-- The last `payload(p)` bytes of a packet. -/
def payloadBytes (p : TsPacket) : Bytes := p.slice (188 - payload p) (payload p)

variable {p2ts : Pes2ts} {pes : Bytes}

theorem Pes2ts.packet_byte (p2ts : Pes2ts) {i : Nat} (hi : i < 188) :
    p2ts.packet.byte i = p2ts.buf i := by
  rw [packet, TsPacket.byte, getD_read _ _ hi, zero_add]

theorem Pes2ts.packet_slice (p2ts : Pes2ts) {start len : Nat} (hend : start + len ≤ 188) :
    p2ts.packet.slice start len = p2ts.buf.read start len := by
  have hread := drop_take_read p2ts.buf 0 188 start len hend
  rwa [zero_add] at hread

theorem header_fields (cc : UInt8) :
    ((0x10 ||| cc &&& 0x0f) &&& 0x10 ≠ 0 ∧ (0x10 ||| cc &&& 0x0f) &&& 0x20 = 0 ∧
      ((0x10 ||| cc &&& 0x0f) &&& 0x0f).toNat = cc.toNat % 16) ∧
    (0x30 ||| cc &&& 0x0f) &&& 0x10 ≠ 0 ∧ (0x30 ||| cc &&& 0x0f) &&& 0x20 ≠ 0 ∧
      ((0x30 ||| cc &&& 0x0f) &&& 0x0f).toNat = cc.toNat % 16 := by
  obtain ⟨⟨cc⟩⟩ := cc
  revert cc
  decide +kernel

structure PacketOf (p2ts : Pes2ts) (pes : Bytes) (p : TsPacket) : Prop where
  sync : p.byte 0 = 0x47
  cc : (p.byte 3 &&& 0x0f).toNat = p2ts.cc.toNat % 16
  start : p.byte 1 = p2ts.buf 1
  payload : payloadBytes p = pes

theorem fullPacket_carries (hlen : 184 ≤ pes.length) :
    PacketOf p2ts (pes.take 184) (fullPacket p2ts pes).packet := by
  have hlow : ∀ i < 4, (fullPacket p2ts pes).packet.byte i =
      update p2ts.buf 3 (0x10 ||| p2ts.cc &&& 0x0f) i := by
    intro i hi
    rw [Pes2ts.packet_byte _ (by omega)]
    exact memcpy_below _ _ _ _ hi
  obtain ⟨⟨hpay, hno, hcc⟩, -⟩ := header_fields p2ts.cc
  have hthree : (fullPacket p2ts pes).packet.byte 3 = 0x10 ||| p2ts.cc &&& 0x0f := by simp [hlow]
  refine ⟨by simp [hlow, p2ts.sync], by rw [hthree, hcc], by simp [hlow], ?_⟩
  have hsize : payload (fullPacket p2ts pes).packet = 184 := by
    unfold payload
    rw [hthree, if_neg hpay, if_neg (not_not.mpr hno)]
  have htake : (pes.take 184).length = 184 := by simpa using hlen
  rw [payloadBytes, hsize, Pes2ts.packet_slice _ (by decide)]
  have hread := read_memcpy_self (update p2ts.buf 3 (0x10 ||| p2ts.cc &&& 0x0f)) 4 (pes.take 184)
  rwa [htake] at hread

theorem lastPacket_carries (hlen : pes.length < 184) :
    PacketOf p2ts pes (lastPacket p2ts pes).packet := by
  have hlow : ∀ i < 5, (lastPacket p2ts pes).packet.byte i = update
      (update p2ts.buf 3 (0x30 ||| p2ts.cc &&& 0x0f)) 4
      (UInt8.ofNat (183 - pes.length)) i := by
    intro i hi
    rw [Pes2ts.packet_byte _ (by omega), lastPacket]
    dsimp only [Pes2ts.copy]
    rw [memcpy_below _ _ _ _ (by omega)]
    split_ifs with hrest
    · rcases eq_or_ne i 4 with rfl | hne
      · simp [Pes2ts.set]
      · simp only [Pes2ts.set, update_of_ne hne, Pes2ts.counted]
        rw [memcpy_below _ _ _ _ (by omega), update_of_ne (by omega)]
    · rfl
  obtain ⟨-, hpay, hfield, hcc⟩ := header_fields p2ts.cc
  have hthree : (lastPacket p2ts pes).packet.byte 3 = 0x30 ||| p2ts.cc &&& 0x0f := by simp [hlow]
  have hfour : ((lastPacket p2ts pes).packet.byte 4).toNat = 183 - pes.length := by
    rw [hlow 4 (by decide), update_self, UInt8.toNat_ofNat']
    omega
  refine ⟨by simp [hlow, p2ts.sync], by rw [hthree, hcc], by simp [hlow], ?_⟩
  have hsize : payload (lastPacket p2ts pes).packet = pes.length := by
    unfold payload
    rw [hthree, if_neg hpay, if_pos hfield, if_neg]
    · omega
    · rw [gt_iff_lt, UInt8.lt_iff_toNat_lt, hfour]
      exact Nat.not_lt.mpr (Nat.sub_le _ _)
  rw [payloadBytes, hsize, Pes2ts.packet_slice _ (by omega),
    show 188 - pes.length = 5 + (183 - pes.length) by omega]
  exact read_memcpy_self _ _ _

structure PacketsOf (p2ts : Pes2ts) (pes : Bytes) (packets : List TsPacket) : Prop where
  sync : ∀ p ∈ packets, p.byte 0 = 0x47
  cc : packets.map (fun p => (p.byte 3 &&& 0x0f).toNat) =
    (List.range packets.length).map fun i => (p2ts.cc.toNat + i) % 16
  start : packets.map pusi =
    (List.range packets.length).map fun i => decide (i = 0 ∧ p2ts.buf 1 &&& 0x40 ≠ 0)
  payload : packets.flatMap payloadBytes = pes

theorem PacketsOf.cons {p : TsPacket} {first : Bytes} {packets : List TsPacket} {next : Pes2ts}
    (hp : PacketOf p2ts first p) (hrest : PacketsOf next pes packets) (hcc : next.cc = p2ts.cc + 1)
    (hpusi : next.buf 1 &&& 0x40 = 0) : PacketsOf p2ts (first ++ pes) (p :: packets) := by
  refine ⟨forall_mem_cons.mpr ⟨hp.sync, hrest.sync⟩, ?_, ?_, ?_⟩
  · rw [length_cons, range_succ_eq_map, map_cons, map_cons, List.map_map,
      hp.cc, hrest.cc, hcc, UInt8.toNat_add]
    congr 1
    refine map_congr_left fun i _ => ?_
    simp only [comp_apply, UInt8.reduceToNat]
    omega
  · rw [length_cons, range_succ_eq_map, map_cons, map_cons, List.map_map, hrest.start]
    congr 1
    · simp [pusi, hp.start]
    · refine map_congr_left fun i _ => ?_
      simp [hpusi]
  · rw [flatMap_cons, hp.payload, hrest.payload]

theorem pusi_bits (b : UInt8) : (b ||| 0x40) &&& 0x40 ≠ 0 ∧ (b &&& ~~~0x40) &&& 0x40 = 0 := by
  obtain ⟨⟨b⟩⟩ := b
  revert b
  decide +kernel

theorem clearPusi_cleared (p2ts : Pes2ts) : (clearPusi p2ts).buf 1 &&& 0x40 = 0 := by
  exact (pusi_bits _).2

theorem pes2tsLoop_carries {cb : Nat → TsPacket → Int} (hcb : ∀ n p, cb n p = 0) (rounds n : Nat)
    (p2ts : Pes2ts) (pes : Bytes) (hrounds : pes.length < rounds) :
    (pes2tsLoop cb rounds n p2ts pes).1 = 0 ∧
      PacketsOf p2ts pes (pes2tsLoop cb rounds n p2ts pes).2.2 := by
  induction rounds generalizing n p2ts pes with
  | zero => omega
  | succ rounds ih =>
    rw [pes2tsLoop]
    have hcleared := clearPusi_cleared (fullPacket p2ts pes)
    split_ifs with hfull hempty
    · obtain ⟨hret, hrest⟩ := ih (n + 1) (clearPusi (fullPacket p2ts pes)) (pes.drop 184)
        (by rw [length_drop]; omega)
      have hfirst : PacketOf p2ts (pes.take 184) _ := fullPacket_carries hfull
      have hall := hrest.cons hfirst rfl hcleared
      rw [take_append_drop] at hall
      simp only [hcb, ne_eq, not_true, if_false]
      exact ⟨hret, hall⟩
    · obtain rfl := length_eq_zero_iff.mp hempty
      exact ⟨rfl, nofun, rfl, rfl, rfl⟩
    · have hnone : PacketsOf (clearPusi (fullPacket p2ts pes)) [] [] := ⟨nofun, rfl, rfl, rfl⟩
      have hlast : PacketOf p2ts pes _ := lastPacket_carries (not_le.mp hfull)
      have hall := hnone.cons hlast rfl hcleared
      rw [append_nil] at hall
      exact ⟨hcb _ _, hall⟩

/-- The demux gets back from the packets what was put into them. -/
theorem pes2ts_roundtrip (cb : Nat → TsPacket → Int) (hcb : ∀ n p, cb n p = 0) (p2ts : Pes2ts)
    (pes : Bytes) (payloadStart : Bool) : let out := dvbFilterPes2ts cb p2ts pes payloadStart
    let packets := out.2.2
    out.1 = 0 ∧ (∀ p ∈ packets, p.byte 0 = 0x47) ∧
      packets.map (fun p => (p.byte 3 &&& 0x0f).toNat) =
        (List.range packets.length).map (fun i => (p2ts.cc.toNat + i) % 16) ∧
      packets.map pusi = (List.range packets.length).map (fun i => decide (i = 0) && payloadStart) ∧
      packets.flatMap payloadBytes = pes ∧ (pes = [] → packets = []) := by
  dsimp only [dvbFilterPes2ts]
  obtain ⟨hret, hsync, hcc, hstart, hpayload⟩ := pes2tsLoop_carries hcb (pes.length + 1) 0
    (if payloadStart then p2ts.set 1 (p2ts.buf 1 ||| 0x40) (by decide) else clearPusi p2ts) pes
    (Nat.lt_succ_self _)
  refine ⟨hret, hsync, ?_, ?_, hpayload, ?_⟩
  · rw [hcc]
    cases payloadStart <;> rfl
  · rw [hstart]
    refine map_congr_left fun i _ => ?_
    cases payloadStart with
    | false => simp [clearPusi_cleared]
    | true => simp [Pes2ts.set, (pusi_bits _).1]
  · rintro rfl
    rfl

/-- Two packets of 185 bytes, the second with an adaptation field of 183 bytes in all. -/
theorem pes2ts_roundtrip_two :
    ((dvbFilterPes2ts (fun _ _ => 0) (dvbFilterPes2tsInit (fun _ => 0) 0x100)
      (List.replicate 185 0xab) true).2.2.flatMap payloadBytes) = List.replicate 185 0xab :=
  (pes2ts_roundtrip (fun _ _ => 0) (fun _ _ => rfl) (dvbFilterPes2tsInit (fun _ => 0) 0x100)
    (List.replicate 185 0xab) true).2.2.2.2.1

end TbsMedia.DvbCore
