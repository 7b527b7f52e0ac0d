import TbsMedia.Lib.Memory

/-!
Numbers in network byte order, and the CRC-32 that is computed from the most
significant bit on.
-/

namespace TbsMedia.Lib

/-- The two bytes at `a`. -/
def Mem.be16 (m : Mem UInt8) (a : Nat) : Nat :=
  (m a).toNat <<< 8 ||| (m (a + 1)).toNat

def be16Bytes (n : Nat) : Bytes :=
  [UInt8.ofNat (n >>> 8), UInt8.ofNat (n &&& 0xff)]

def be32Bytes (n : UInt32) : Bytes :=
  [(n >>> 24).toUInt8, (n >>> 16).toUInt8, (n >>> 8).toUInt8, n.toUInt8]

/-- The four bytes at `a`. -/
def Mem.be32 (m : Mem UInt8) (a : Nat) : UInt32 :=
  (m a).toUInt32 <<< 24 ||| (m (a + 1)).toUInt32 <<< 16 ||| (m (a + 2)).toUInt32 <<< 8 |||
    (m (a + 3)).toUInt32

theorem shiftLeft_or_byte (high : Nat) (low : UInt8) :
    high <<< 8 ||| low.toNat = high * 256 + low.toNat := by
  rw [← Nat.shiftLeft_add_eq_or_of_lt low.toNat_lt, Nat.shiftLeft_eq]

theorem Mem.be16_eq (m : Mem UInt8) (a : Nat) : m.be16 a = (m a).toNat * 256 + (m (a + 1)).toNat :=
  shiftLeft_or_byte _ _

theorem Mem.be16_of_read {m : Mem UInt8} {a n : Nat} (hn : n < 2 ^ 16)
    (hread : m.read a 2 = be16Bytes n) : m.be16 a = n := by
  have hbytes : [m a, m (a + 1)] = be16Bytes n := hread
  simp only [be16Bytes, List.cons.injEq, and_true] at hbytes
  have hmask : n &&& 0xff = n % 256 := Nat.and_two_pow_sub_one_eq_mod n 8
  rw [be16_eq, hbytes.1, hbytes.2]
  simp only [UInt8.toNat_ofNat']
  omega

theorem be32_join (n : UInt32) :
    (n >>> 24).toUInt8.toUInt32 <<< 24 ||| (n >>> 16).toUInt8.toUInt32 <<< 16 |||
      (n >>> 8).toUInt8.toUInt32 <<< 8 ||| n.toUInt8.toUInt32 = n := by
  apply UInt32.toBitVec_inj.mp
  apply BitVec.eq_of_getLsbD_eq
  intro i hi
  simp only [UInt32.toBitVec_or, UInt32.toBitVec_shiftLeft, UInt8.toBitVec_toUInt32,
    UInt32.toBitVec_toUInt8, UInt32.toBitVec_shiftRight, BitVec.getLsbD_or]
  interval_cases i <;> simp

theorem Mem.be32_of_read {m : Mem UInt8} {a : Nat} {n : UInt32}
    (hread : m.read a 4 = be32Bytes n) : m.be32 a = n := by
  have hbytes : [m a, m (a + 1), m (a + 2), m (a + 3)] = be32Bytes n := hread
  simp only [be32Bytes, List.cons.injEq, and_true] at hbytes
  obtain ⟨h0, h1, h2, h3⟩ := hbytes
  rw [be32, h0, h1, h2, h3]
  exact be32_join n

def crc32Bit (crc : UInt32) : UInt32 :=
  if crc &&& 0x80000000 ≠ 0 then (crc <<< 1) ^^^ 0x04c11db7 else crc <<< 1

def crc32Byte (crc : UInt32) (byte : UInt8) : UInt32 :=
  crc32Bit^[8] (crc ^^^ (byte.toUInt32 <<< 24))

def crc32Be (crc : UInt32) (bytes : Bytes) : UInt32 :=
  bytes.foldl crc32Byte crc

theorem crc32Be_append (crc : UInt32) (first second : Bytes) :
    crc32Be (crc32Be crc first) second = crc32Be crc (first ++ second) :=
  List.foldl_append.symm

/-- The check value of the polynomial. -/
example : crc32Be 0xffffffff [0x31, 0x32, 0x33, 0x34, 0x35, 0x36, 0x37, 0x38, 0x39] =
    0x0376e6e7 := by
  decide +kernel

end TbsMedia.Lib
