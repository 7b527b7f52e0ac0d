import Mathlib.Tactic

/-!
Transport packets and the header fields that `dvb_demux.c` reads from them.
Every caller of the software filters hands over a pointer to 188 readable
bytes, so a packet carries its size.
-/

namespace TbsMedia.DvbCore

structure TsPacket where
  bytes : List UInt8
  size : bytes.length = 188
deriving DecidableEq

namespace TsPacket

/-- `buf[i]`. -/
def byte (buf : TsPacket) (i : Nat) : UInt8 := buf.bytes.getD i 0

/-- The `len` bytes at `&buf[start]`. -/
def slice (buf : TsPacket) (start len : Nat) : List UInt8 :=
  (buf.bytes.drop start).take len

end TsPacket

/-- `3 + ((buf[1] & 0x0f) << 8) + buf[2]`, the size of the section whose first
byte is `buf[0]`. -/
def sectionLength (buf : Nat → UInt8) : Nat :=
  3 + ((buf 1 &&& 0x0f).toNat <<< 8) + (buf 2).toNat

def tsPid (buf : TsPacket) : Nat :=
  ((buf.byte 1 &&& 0x1f).toNat <<< 8) + (buf.byte 2).toNat

/-- The number of payload bytes, zero if the packet has none or if its
adaptation field would not fit. -/
def payload (tsp : TsPacket) : Nat :=
  if tsp.byte 3 &&& 0x10 = 0 then 0
  else if tsp.byte 3 &&& 0x20 ≠ 0 then
    if tsp.byte 4 > 183 then 0 else 184 - 1 - (tsp.byte 4).toNat
  else 184

/-- `buf[1] & 0x40`, the payload unit start indicator. -/
def pusi (buf : TsPacket) : Bool := buf.byte 1 &&& 0x40 ≠ 0

/-- `buf[3] & 0x0f`, the continuity counter. -/
def continuityCounter (buf : TsPacket) : Int := ((buf.byte 3 &&& 0x0f).toNat : Int)

/-- The `dc_i` of `dvb_dmx_swfilter_section_packet`: an adaptation field of at
least one byte whose discontinuity indicator is set. -/
def discontinuityIndicator (buf : TsPacket) : Bool :=
  buf.byte 3 &&& 0x20 ≠ 0 ∧ buf.byte 4 > 0 ∧ buf.byte 5 &&& 0x80 ≠ 0

theorem payload_le (tsp : TsPacket) : payload tsp ≤ 184 := by
  unfold payload
  split_ifs <;> omega

private theorem and_0f_le (b : UInt8) : (b &&& 0x0f).toNat ≤ 15 := by exact Nat.and_le_right

theorem sectionLength_bounds (buf : Nat → UInt8) :
    3 ≤ sectionLength buf ∧ sectionLength buf ≤ 4098 := by
  have hhigh := and_0f_le (buf 1)
  have hlow := (buf 2).toNat_lt
  unfold sectionLength
  omega

/-- Only the second and third byte of a section decide its size. -/
theorem sectionLength_congr (buf buf' : Nat → UInt8) (hone : buf 1 = buf' 1)
    (htwo : buf 2 = buf' 2) : sectionLength buf = sectionLength buf' := by
  unfold sectionLength
  rw [hone, htwo]

/-- The thirteen bit field of the header never names the whole-stream PID
`0x2000`. -/
theorem tsPid_lt (buf : TsPacket) : tsPid buf < 0x2000 := by
  have hhigh : (buf.byte 1 &&& 0x1f).toNat ≤ 31 := by exact Nat.and_le_right
  have hlow := (buf.byte 2).toNat_lt
  unfold tsPid
  omega

end TbsMedia.DvbCore
