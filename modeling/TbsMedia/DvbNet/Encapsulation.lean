import TbsMedia.DvbNet.Ule

/-!
The encapsulation that the decoder has to undo (RFC 4326). An SNDU is a length field with the
D-bit, a type field, the destination address unless the D-bit is set, the payload and a CRC-32
over all of it. The SNDUs go one after the other into the 184 payload bytes of TS cells; a cell
in which an SNDU starts has PUSI set and begins with the pointer field, the number of bytes
before that SNDU. What is left of a cell when no SNDU starts any more is stuffing.
-/

namespace TbsMedia.DvbNet

open Lib List

def destBytes (dest : Option EthAddr) : Bytes :=
  dest.elim [] Vector.toList

/-- The length of an SNDU, which counts what stands behind the type field. -/
def snduLength (dest : Option EthAddr) (payload : Bytes) : Nat :=
  (destBytes dest).length + payload.length + 4

structure Sndu where
  dest : Option EthAddr
  type : Nat
  payload : Bytes
  type_ge : 1536 ≤ type
  type_lt : type < 2 ^ 16
  length_ge : 5 ≤ snduLength dest payload
  length_ge_dest : dest.isSome → 11 ≤ snduLength dest payload
  length_le : snduLength dest payload ≤ 0x7ffe

/-- The addresses that a device takes: all of them in promiscuous mode, the broadcast address,
its own one among those of single stations, and of the groups those that its mode says. -/
def accepts (dev : NetDevice) (dest : EthAddr) : Bool :=
  dev.rxMode = .promisc || dest = bcAddr ||
    if dest[0] &&& 1 = 0 then dest = dev.devAddr
    else dev.rxMode = .allMulti || (dev.rxMode = .multi && dest ∈ dev.multiMacs)

theorem first_of_read {m : Mem UInt8} {a : Nat} (dest : EthAddr)
    (hread : m.read a 6 = dest.toList) : m a = dest[0] := by
  have hfirst := congrArg (fun l => l[0]?) hread
  simpa [Mem.read] using hfirst

namespace Sndu

def length (s : Sndu) : Nat := snduLength s.dest s.payload

def dbit (s : Sndu) : Bool := s.dest.isNone

def header (s : Sndu) : Bytes :=
  be16Bytes (s.length ||| if s.dbit then 0x8000 else 0) ++ be16Bytes s.type

def body (s : Sndu) : Bytes := destBytes s.dest ++ s.payload

def crc (s : Sndu) : UInt32 := crc32Be 0xffffffff (s.header ++ s.body)

def bytes (s : Sndu) : Bytes := s.header ++ (s.body ++ be32Bytes s.crc)

/-- The frame that the SNDU stands for: the destination, or zeros, zeros for the source, the
type, and the payload. -/
def frame (dev : NetDevice) (s : Sndu) : NetFrame :=
  { mac := s.dest.elim (List.replicate 6 0) Vector.toList ++ List.replicate 6 0 ++ be16Bytes s.type
    data := s.payload
    protocol := s.type
    pktType :=
      match s.dest with
      | none => .host
      | some dest =>
        if dest[0] &&& 1 = 0 then .host
        else if dest = dev.broadcast then .broadcast else .multicast }

def accepted (dev : NetDevice) (s : Sndu) : Bool := s.dest.all (accepts dev)

end Sndu

def received (dev : NetDevice) (sndus : List Sndu) : List NetFrame :=
  (sndus.filter (Sndu.accepted dev)).map (Sndu.frame dev)

theorem received_append (dev : NetDevice) (first second : List Sndu) :
    received dev (first ++ second) = received dev first ++ received dev second := by
  simp [received]

abbrev Sending := Option (Sndu × Nat)

def pending (cur : Sending) (todo : List Sndu) : List Sndu :=
  (cur.map Prod.fst).toList ++ todo

/-- `Fills room cur todo bytes cur' todo'`: the bytes fill the room that a cell has, with the
SNDU that is being sent and those that start behind it. Only an SNDU starts of which two bytes
fit, and stuffing goes on to the end of the cell. -/
inductive Fills : Nat → Sending → List Sndu → Bytes → Sending → List Sndu → Prop where
  | stuffing (room : Nat) (todo : List Sndu) :
      Fills room none todo (List.replicate room 0xff) none todo
  | starts {room : Nat} {s : Sndu} {todo todo' : List Sndu} {bytes : Bytes} {cur' : Sending}
      (hroom : 2 ≤ room) (hrest : Fills room (some (s, 0)) todo bytes cur' todo') :
      Fills room none (s :: todo) bytes cur' todo'
  | ends {room n : Nat} {s : Sndu} {todo todo' : List Sndu} {bytes : Bytes} {cur' : Sending}
      (hfits : s.bytes.length - n ≤ room)
      (hrest : Fills (room - (s.bytes.length - n)) none todo bytes cur' todo') :
      Fills room (some (s, n)) todo (s.bytes.drop n ++ bytes) cur' todo'
  | goesOn {room n : Nat} {s : Sndu} (todo : List Sndu) (hlong : room < s.bytes.length - n) :
      Fills room (some (s, n)) todo ((s.bytes.drop n).take room) (some (s, n + room)) todo

/-- A TS cell, without what its header has from the stream it belongs to. -/
structure UleCell where
  pusi : Bool
  priority : Bool
  payload : Bytes

def toSend (cur : Sending) : Nat :=
  cur.elim 0 (fun sending => sending.1.bytes.length - sending.2)

/-- The cells carry the SNDUs: PUSI and the pointer field stand where an SNDU starts. -/
inductive Packs : Sending → List Sndu → List UleCell → Prop where
  | done : Packs none [] []
  | plain {cur cur' : Sending} {todo : List Sndu} {bytes : Bytes} {cells : List UleCell}
      (priority : Bool) (hfills : Fills 184 cur todo bytes cur' todo)
      (hrest : Packs cur' todo cells) :
      Packs cur todo (⟨false, priority, bytes⟩ :: cells)
  | pusi {cur cur' : Sending} {todo todo' : List Sndu} {bytes : Bytes}
      {cells : List UleCell} (priority : Bool) (hfills : Fills 183 cur todo bytes cur' todo')
      (hstarts : todo' ≠ todo) (hrest : Packs cur' todo' cells) :
      Packs cur todo (⟨true, priority, UInt8.ofNat (toSend cur) :: bytes⟩ :: cells)

/-- The 188 bytes of a cell with the continuity counter `cc`. -/
def cellBytes (pid : Fin 8192) (cc : Nat) (cell : UleCell) : Bytes :=
  [0x47, UInt8.ofNat ((if cell.pusi then 0x40 else 0) + (if cell.priority then 0x20 else 0) +
      pid.val / 256), UInt8.ofNat (pid.val % 256), UInt8.ofNat (0x10 + cc % 16)] ++ cell.payload

/-- The call's buffer has the cells, with counters from `cc` on, and there is memory. -/
structure CarriesCells (pid : Fin 8192) (cc : Nat) (cells : List UleCell) (call : UleCall) :
    Prop where
  len : call.bufLen = 188 * cells.length
  buf : ∀ i cell, cells[i]? = some cell →
    call.buf.read (188 * i) 188 = cellBytes pid (cc + i) cell
  alloc : ∀ n, (call.alloc n).isSome

def Grouped (pid : Fin 8192) : Nat → List UleCell → List UleCall → Prop
  | _, cells, [] => cells = []
  | cc, cells, call :: rest => ∃ now later, cells = now ++ later ∧
      CarriesCells pid cc now call ∧ Grouped pid (cc + now.length) later rest

variable {room : Nat} {cur cur' : Sending} {todo todo' : List Sndu} {bytes : Bytes}

section

variable (hfills : Fills room cur todo bytes cur' todo')
include hfills

theorem Fills.length_le : todo'.length ≤ todo.length := by
  induction hfills with
  | stuffing | goesOn => exact le_rfl
  | starts _ _ ih => exact Nat.le_succ_of_le ih
  | ends _ _ ih => exact ih

theorem Fills.length_bytes : bytes.length = room := by
  induction hfills with
  | stuffing => simp
  | starts _ _ ih => exact ih
  | ends hfits _ ih =>
    simp only [length_append, length_drop, ih]
    omega
  | goesOn _ hlong =>
    simp only [length_take, length_drop]
    omega

/-- Where an SNDU starts, the one before it has ended, with two bytes to spare. -/
theorem Fills.toSend_le (hstart : todo' ≠ todo) : toSend cur + 2 ≤ room := by
  cases hfills with
  | stuffing | goesOn => exact absurd rfl hstart
  | starts hroom hrest => simpa [toSend] using hroom
  | ends hfits hrest =>
    cases hrest with
    | stuffing => exact absurd rfl hstart
    | starts hroom hrest =>
      simp only [toSend, Option.elim_some]
      omega

end

namespace Sndu

variable (s : Sndu)

theorem length_header : s.header.length = 4 := rfl

theorem length_body : s.body.length + 4 = s.length := by simp [body, length, snduLength]

theorem length_bytes : s.bytes.length = 4 + s.length := by
  rw [bytes, length_append, length_append, ← length_body]
  rfl

end Sndu

end TbsMedia.DvbNet
