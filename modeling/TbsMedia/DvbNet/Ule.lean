import TbsMedia.Lib.ByteOrder
import TbsMedia.Lib.Machine

/-!
The ULE decoder of `dvb_net.c`. `dvb_net_ule` walks over the TS cells of a buffer with a
cursor, `from_where` and the 8-bit `ts_remain`, and keeps what it knows of the SNDU in
progress in the private data of the network device. Its loop is given as a machine: the
points are the places of the loop body between two moves of the cursor, and a step runs the
code from one point to the next. A byte of the buffer is read at its offset from `buf`; behind
the buffer and behind the data of an `sk_buff` there is whatever the machine has there.
Statistics, `ts_count` and the messages are left out.
-/

namespace TbsMedia.DvbNet

open Lib

def tsSz : Nat := 188

def tsSync : UInt8 := 0x47

def tsTei : UInt8 := 0x80

def tsSc : UInt8 := 0xc0

def tsPusi : UInt8 := 0x40

def ethAlen : Nat := 6

def ethHlen : Nat := 14

abbrev EthAddr := Vector UInt8 6

def bcAddr : EthAddr := Vector.replicate 6 0xff

inductive RxMode where
  | uni
  | multi
  | allMulti
  | promisc
deriving DecidableEq

/-- What decides about addresses, in `struct net_device` and in `struct dvb_net_priv`. -/
structure NetDevice where
  devAddr : EthAddr
  broadcast : EthAddr
  rxMode : RxMode
  multiMacs : List EthAddr

/-- An `sk_buff`: the memory from its head on, with the offset of `data`. -/
structure SkBuff where
  mem : Mem UInt8
  data : Nat
  len : Nat

namespace SkBuff

/-- `memcpy(skb_put(skb, n), bytes, n)`. -/
def put (skb : SkBuff) (bytes : Bytes) : SkBuff :=
  { skb with
    mem := skb.mem.memcpy (skb.data + skb.len) bytes
    len := skb.len + bytes.length }

/-- `skb_pull`, which leaves a buffer alone that is too short. -/
def pull (skb : SkBuff) (n : Nat) : SkBuff :=
  if n ≤ skb.len then { skb with data := skb.data + n, len := skb.len - n } else skb

/-- `skb_push` with the bytes that are then written at the new start. -/
def push (skb : SkBuff) (bytes : Bytes) : SkBuff :=
  { mem := skb.mem.memcpy (skb.data - bytes.length) bytes
    data := skb.data - bytes.length
    len := skb.len + bytes.length }

/-- The last `n` bytes taken off. -/
def trim (skb : SkBuff) (n : Nat) : SkBuff :=
  { skb with len := skb.len - n }

def bytes (skb : SkBuff) : Bytes :=
  skb.mem.read skb.data skb.len

end SkBuff

inductive PktType where
  | host
  | broadcast
  | multicast
deriving DecidableEq

/-- What `netif_rx` gets: the bytes at the MAC header, the data behind, and what
`dvb_net_eth_type_trans` has found out. -/
structure NetFrame where
  mac : Bytes
  data : Bytes
  protocol : Nat
  pktType : PktType
deriving DecidableEq

/-- The fields of `struct dvb_net_priv` in which the decoder keeps its state. -/
structure DvbNetPriv where
  needPusi : Bool
  tscc : UInt8
  uleSkb : Option SkBuff
  uleSnduLen : Nat
  uleSnduType : Nat
  uleSnduType1 : Bool
  uleDbit : Bool
  uleBridged : Bool
  uleSnduRemain : Nat

def resetUle (p : DvbNetPriv) : DvbNetPriv :=
  { p with
    uleSkb := none, uleSnduLen := 0, uleSnduType := 0, uleSnduType1 := false
    uleSnduRemain := 0, uleDbit := true, uleBridged := false }

/-- The state in which `dvb_net_add_if` leaves the decoder, whatever was there before. -/
def dvbNetAddIf (p : DvbNetPriv) : DvbNetPriv :=
  resetUle { p with needPusi := true, tscc := 0 }

/-- Where the chain of extension headers has come: `ule_next_hdr`, the type field that says
what stands there, and the length so far. -/
structure UleExtension where
  nextHdr : Nat
  snduType : Nat
  bridged : Bool
  totalExtLen : Nat
deriving DecidableEq

inductive ExtensionResult where
  | discard
  | next (ext : UleExtension)
  | oops
deriving DecidableEq

/-- `ule_bridged_sndu`: whether the header is taken. -/
def uleBridgedSndu (skb : SkBuff) (snduLen : Nat) (ext : UleExtension) : Bool :=
  let hProto := skb.mem.be16 (ext.nextHdr + 12)
  let framelen : Int := snduLen - ((ext.nextHdr + ethHlen : Int) - skb.data)
  decide (hProto ≥ 1536) || decide (framelen = hProto)

/-- The tables of handlers have 255 entries, and what a call through an entry behind them
does is not known. -/
def handleOneUleExtension (skb : SkBuff) (snduLen : Nat) (dbit : Bool) (ext : UleExtension) :
    ExtensionResult :=
  let hlen := (ext.snduType &&& 0x0700) >>> 8
  let htype := ext.snduType &&& 0x00ff
  if htype = 255 then .oops
  else if hlen = 0 then
    if htype = 1 then
      if uleBridgedSndu skb snduLen ext then
        .next { ext with
          bridged := true
          snduType := skb.mem.be16 (ext.nextHdr + (if dbit then 2 else 3) * ethAlen) }
      else .discard
    else .discard
  else
    let extLen := hlen <<< 1
    .next { ext with
      nextHdr := ext.nextHdr + extLen
      snduType := skb.mem.be16 (ext.nextHdr + extLen - 2)
      totalExtLen := ext.totalExtLen + extLen }

inductive UlePoint where
  | cell
  | sync
  | continuity
  | pusi
  | flush
  | header
  | type
  | alloc
  | copy
  | complete
  | extension (destAddr : Bytes) (ext : UleExtension)
  | deliver (destAddr : Bytes)
  | more
  | returned
  | oops

/-- The local variables of the loop, the point it has come to, the number of buffers it has
asked for and the frames it has handed to `netif_rx`. -/
structure UleLoop where
  priv : DvbNetPriv
  ts : Nat
  fromWhere : Nat
  tsRemain : Nat
  newTs : Bool
  point : UlePoint
  allocs : Nat
  frames : List NetFrame

/-- A call: the buffer, its length, and the memory that each `dev_alloc_skb` returns. -/
structure UleCall where
  buf : Mem UInt8
  bufLen : Nat
  alloc : Nat → Option (Mem UInt8)

def u8Sub (a b : Nat) : Nat :=
  (a + 256 - b) % 256

theorem u8Sub_of_le {a b : Nat} (hle : b ≤ a) (ha : a < 256) : u8Sub a b = a - b := by
  rw [u8Sub]
  omega

namespace UleLoop

def goto (st : UleLoop) (point : UlePoint) : UleLoop :=
  { st with point := point }

/-- `from_where += n; ts_remain -= n`. -/
def consume (st : UleLoop) (n : Nat) : UleLoop :=
  { st with fromWhere := st.fromWhere + n, tsRemain := u8Sub st.tsRemain n }

/-- `ts += TS_SZ; continue`. -/
def nextCell (st : UleLoop) : UleLoop :=
  { st with ts := st.ts + tsSz, point := .cell }

def resync (st : UleLoop) : UleLoop :=
  { st with priv := { resetUle st.priv with needPusi := true } }

end UleLoop

def isPusi (buf : Mem UInt8) (ts : Nat) : Bool :=
  buf (ts + 1) &&& tsPusi ≠ 0

def isInvalid (buf : Mem UInt8) (ts : Nat) : Bool :=
  buf ts ≠ tsSync || buf (ts + 1) &&& tsTei ≠ 0 || buf (ts + 3) &&& tsSc ≠ 0

section

variable (call : UleCall) (st : UleLoop)

def uleCell : Option UleLoop :=
  if st.ts < call.bufLen then
    if st.newTs then
      if isInvalid call.buf st.ts then some st.resync.nextCell
      else some { st with tsRemain := 184, fromWhere := st.ts + 4, point := .sync }
    else some (st.goto .sync)
  else none

def uleSync : UleLoop :=
  if st.priv.needPusi then
    if isPusi call.buf st.ts then
      let st := { st with priv := { st.priv with tscc := call.buf (st.ts + 3) &&& 0x0f } }
      let pointer := (call.buf (st.ts + 4)).toNat
      if pointer > st.tsRemain then st.nextCell
      else
        { st with
          fromWhere := st.ts + 5 + pointer
          tsRemain := u8Sub st.tsRemain (1 + pointer)
          point := .continuity }
    else st.nextCell
  else st.goto .continuity

def uleContinuity : UleLoop :=
  if st.newTs then
    if call.buf (st.ts + 3) &&& 0x0f = st.priv.tscc then
      { st with priv := { st.priv with tscc := (st.priv.tscc + 1) &&& 0x0f }, point := .pusi }
    else st.resync.goto .cell
  else st.goto .header

def ulePusi : UleLoop :=
  if isPusi call.buf st.ts then
    if ¬ st.priv.needPusi then
      let pointer := (call.buf st.fromWhere).toNat
      if ¬ (pointer : Int) < st.tsRemain - 1 ∨ pointer ≠ st.priv.uleSnduRemain then
        st.resync.goto .cell
      else (st.consume 1).goto .flush
    else { st with priv := { st.priv with needPusi := false }, point := .flush }
  else st.goto .header

def uleFlush : UleLoop :=
  if st.priv.uleSnduRemain > 183 then
    ({ st with priv := resetUle st.priv }.consume (call.buf (st.ts + 4)).toNat).goto .header
  else st.goto .header

def uleHeader : UleLoop :=
  if st.priv.uleSkb.isNone then
    if st.tsRemain < 2 then
      { st with priv := { st.priv with uleSnduLen := 0, needPusi := true } }.nextCell
    else if st.priv.uleSnduLen = 0 then
      let field := call.buf.be16 st.fromWhere
      let len := if field &&& 0x8000 ≠ 0 then field &&& 0x7fff else field
      let dbit : Bool := field &&& 0x8000 ≠ 0
      if len < 5 then
        { st with
          priv := { st.priv with uleSnduLen := 0, uleDbit := dbit, needPusi := true }
          newTs := true }.nextCell
      else
        ({ st with priv := { st.priv with uleSnduLen := len, uleDbit := dbit } }.consume 2).goto
          .type
    else st.goto .type
  else st.goto .copy

def uleType : UleLoop :=
  let remain := st.priv.uleSnduLen + 2
  match st.tsRemain with
  | 0 => { st with priv := { st.priv with uleSnduRemain := remain }, newTs := true }.nextCell
  | 1 =>
    ({ st with
      priv := { st.priv with
        uleSnduRemain := remain - 1
        uleSnduType := (call.buf st.fromWhere).toNat <<< 8
        uleSnduType1 := true }
      newTs := true }.consume 1).nextCell
  | _ =>
    if st.priv.uleSnduType1 then
      ({ st with
        priv := { st.priv with
          uleSnduRemain := remain
          uleSnduType1 := false
          uleSnduType := st.priv.uleSnduType ||| (call.buf st.fromWhere).toNat } }.consume
        1).goto .alloc
    else
      ({ st with
        priv := { st.priv with
          uleSnduRemain := remain
          uleSnduType := call.buf.be16 st.fromWhere } }.consume 2).goto .alloc

/-- `dev_alloc_skb`; without memory the function returns. -/
def uleAlloc : UleLoop :=
  match call.alloc st.allocs with
  | none => st.goto .returned
  | some mem =>
    { st with
      priv := { st.priv with
        uleSkb := some { mem := mem, data := ethHlen + ethAlen, len := 0 }
        uleSnduRemain := st.priv.uleSnduLen }
      allocs := st.allocs + 1
      point := .copy }

def uleCopy : UleLoop :=
  match st.priv.uleSkb with
  | none => st.goto .oops
  | some skb =>
    let howMuch := min st.priv.uleSnduRemain st.tsRemain
    let st := ({ st with
      priv := { st.priv with
        uleSkb := some (skb.put (call.buf.read st.fromWhere howMuch))
        uleSnduRemain := st.priv.uleSnduRemain - howMuch } }.consume howMuch)
    if st.priv.uleSnduRemain = 0 then st.goto .complete else st.goto .more

end

section

variable (dev : NetDevice)

def addressDropped (skb : SkBuff) : Bool :=
  let dest := skb.mem.read skb.data ethAlen
  if dev.rxMode ≠ .promisc then
    if skb.mem skb.data &&& 0x01 ≠ 0 then
      if dest ≠ bcAddr.toList then
        if dev.rxMode = .multi then dev.multiMacs.all (fun mac => dest ≠ mac.toList)
        else dev.rxMode ≠ .allMulti
      else false
    else dest ≠ dev.devAddr.toList
  else false

def UleLoop.snduDone (st : UleLoop) : UleLoop :=
  { st with priv := resetUle st.priv, point := .more }

def uleComplete (st : UleLoop) : UleLoop :=
  match st.priv.uleSkb with
  | none => st.goto .oops
  | some skb =>
    let ulen := st.priv.uleSnduLen ||| (if st.priv.uleDbit then 0x8000 else 0)
    let crc := crc32Be (crc32Be (crc32Be 0xffffffff (be16Bytes ulen))
      (be16Bytes st.priv.uleSnduType)) (skb.mem.read skb.data (skb.len - 4))
    if crc ≠ skb.mem.be32 (skb.data + skb.len - 4) then st.snduDone
    else
      let skb := skb.trim 4
      if ¬ st.priv.uleDbit ∧ addressDropped dev skb then st.snduDone
      else
        let destAddr := skb.mem.read skb.data ethAlen
        let skb := if st.priv.uleDbit then skb else skb.pull ethAlen
        let st := { st with priv := { st.priv with uleSkb := some skb } }
        if st.priv.uleSnduType < 1536 then
          st.goto (.extension destAddr
            { nextHdr := skb.data, snduType := st.priv.uleSnduType
              bridged := st.priv.uleBridged, totalExtLen := 0 })
        else st.goto (.deliver destAddr)

/-- A round of `handle_ule_extensions`. -/
def uleExtension (destAddr : Bytes) (ext : UleExtension) (st : UleLoop) : UleLoop :=
  match st.priv.uleSkb with
  | none => st.goto .oops
  | some skb =>
    match handleOneUleExtension skb st.priv.uleSnduLen st.priv.uleDbit ext with
    | .oops => st.goto .oops
    | .discard => st.snduDone
    | .next ext =>
      if ext.snduType < 1536 then st.goto (.extension destAddr ext)
      else
        { st with
          priv := { st.priv with
            uleSkb := some (skb.pull ext.totalExtLen)
            uleSnduType := ext.snduType
            uleBridged := ext.bridged }
          point := .deliver destAddr }

/-- `dvb_net_eth_type_trans`: the protocol, the packet type and the buffer without its header,
which stays where it is. -/
def dvbNetEthTypeTrans (skb : SkBuff) : Nat × PktType × SkBuff :=
  let mac := skb.data
  let skb := skb.pull ethHlen
  let pktType : PktType :=
    if skb.mem mac &&& 1 ≠ 0 then
      if skb.mem.read mac ethAlen = dev.broadcast.toList then .broadcast else .multicast
    else .host
  let hProto := skb.mem.be16 (mac + 12)
  if hProto ≥ 1536 then (hProto, pktType, skb)
  else if skb.mem.be16 skb.data = 0xffff then (0x0001, pktType, skb)
  else (0x0004, pktType, skb)

def uleDeliver (destAddr : Bytes) (st : UleLoop) : UleLoop :=
  match st.priv.uleSkb with
  | none => st.goto .oops
  | some skb =>
    let skb :=
      if st.priv.uleBridged then skb
      else
        let dest := if st.priv.uleDbit then List.replicate ethAlen 0 else destAddr
        skb.push (dest ++ List.replicate ethAlen 0 ++ be16Bytes st.priv.uleSnduType)
    let (protocol, pktType, rx) := dvbNetEthTypeTrans dev skb
    { st.snduDone with
      frames := st.frames ++
        [{ mac := rx.mem.read skb.data ethHlen, data := rx.bytes
           protocol := protocol, pktType := pktType }] }

def uleMore (call : UleCall) (st : UleLoop) : UleLoop :=
  if st.tsRemain ≥ 2 ∧
      ¬ (call.buf st.fromWhere = 0xff ∧ call.buf (st.fromWhere + 1) = 0xff) then
    { st with
      priv := { st.priv with uleSkb := none, uleSnduType1 := false, uleSnduLen := 0 }
      newTs := false
      point := .cell }
  else if st.priv.uleSkb.isNone then
    { st with
      priv := { st.priv with needPusi := true, uleSnduType1 := false, uleSnduLen := 0 }
      newTs := true }.nextCell
  else { st with newTs := true }.nextCell

def uleStep (call : UleCall) (st : UleLoop) : Option UleLoop :=
  match st.point with
  | .cell => uleCell call st
  | .sync => some (uleSync call st)
  | .continuity => some (uleContinuity call st)
  | .pusi => some (ulePusi call st)
  | .flush => some (uleFlush call st)
  | .header => some (uleHeader call st)
  | .type => some (uleType call st)
  | .alloc => some (uleAlloc call st)
  | .copy => some (uleCopy call st)
  | .complete => some (uleComplete dev st)
  | .extension destAddr ext => some (uleExtension destAddr ext st)
  | .deliver destAddr => some (uleDeliver dev destAddr st)
  | .more => some (uleMore call st)
  | .returned => none
  | .oops => none

/-- `dvb_net_ule` is called. -/
def uleStart (priv : DvbNetPriv) : UleLoop :=
  { priv := priv, ts := 0, fromWhere := 0, tsRemain := 0, newTs := true, point := .cell
    allocs := 0, frames := [] }

/-- The state that the call leaves and the frames it hands up, if it is back within `fuel`
steps. -/
def dvbNetUle (fuel : Nat) (call : UleCall) (priv : DvbNetPriv) :
    Option (DvbNetPriv × List NetFrame) :=
  (runMachine (uleStep dev call) fuel (uleStart priv)).map (fun st => (st.priv, st.frames))

end

def dvbNetUleCalls (dev : NetDevice) (fuel : Nat) :
    List UleCall → DvbNetPriv → Option (List NetFrame)
  | [], _ => some []
  | call :: rest, priv => do
    let (priv, frames) ← dvbNetUle dev fuel call priv
    let later ← dvbNetUleCalls dev fuel rest priv
    some (frames ++ later)

def sampleDevice : NetDevice :=
  { devAddr := #v[0x02, 0, 0, 0, 0, 0x01], broadcast := bcAddr, rxMode := .uni, multiMacs := [] }

def samplePriv : DvbNetPriv :=
  dvbNetAddIf
    { needPusi := false, tscc := 0, uleSkb := none, uleSnduLen := 0, uleSnduType := 0
      uleSnduType1 := false, uleDbit := false, uleBridged := false, uleSnduRemain := 0 }

def sampleCall (bytes : Bytes) : UleCall :=
  { buf := Mem.memcpy (fun _ => 0xff) 0 ([0x47, 0x40, 0x00, 0x10] ++ bytes)
    bufLen := 188
    alloc := fun _ => some (fun _ => 0) }

def withCrc (bytes : Bytes) : Bytes :=
  bytes ++ be32Bytes (crc32Be 0xffffffff bytes)

end TbsMedia.DvbNet
