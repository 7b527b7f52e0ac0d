import TbsMedia.DvbCore.RingBuffer

/-!
`dvb_ca_en50221.c`: what `read()` of a CA device does with the packets that the link
layer has put into the slots' receive buffers. A packet is a fragment of a message: the
connection, a byte whose top bit says that more fragments follow, and data.
-/

namespace TbsMedia.DvbCore

open Lib

/-- `DVB_CA_SLOTSTATE_*`. -/
inductive CaSlotState where
  | none
  | uninitialised
  | running
  | invalid
  | waitready
  | validate
  | waitfr
  | linkinit
deriving DecidableEq

/-- `struct dvb_ca_slot`, as far as transfers look at it. -/
structure DvbCaSlot where
  slotState : CaSlotState
  linkBufSize : Int
  rxBuffer : DvbRingbuffer

/-- `struct dvb_ca_private`. -/
structure DvbCaPrivate where
  slotCount : Nat
  slotInfo : Nat → DvbCaSlot
  nextReadSlot : Nat

def rxBufferSize : Nat := 65535

inductive CaErrno where
  | einval
  | efault
  | eio
  | eagain
  | ewouldblock
  | erestartsys
deriving DecidableEq

/-- `dvb_ringbuffer_pkt_read(rbuf, idx, 0, hdr, 2)`, whose result nobody looks at. -/
def readHdr (rbuf : DvbRingbuffer) (idx : Nat) (hdr : Mem UInt8) : Mem UInt8 :=
  match dvbRingbufferPktRead rbuf idx 0 2 with
  | some bytes => hdr.memcpy 0 bytes
  | none => hdr

/-- The loop over the packets of one slot in `dvb_ca_en50221_io_read_condition`. No
connection stands for `-1`; `none` for a loop that goes on for more rounds than there
are indices. -/
def readConditionScan (rbuf : DvbRingbuffer) :
    Nat → Option Nat → Option UInt8 → Mem UInt8 → Option (Bool × Option UInt8 × Mem UInt8)
  | 0, _, _, _ => none
  | _ + 1, none, connectionId, hdr => some (false, connectionId, hdr)
  | fuel + 1, some idx, connectionId, hdr =>
    let hdr := readHdr rbuf idx hdr
    let connectionId := connectionId.getD (hdr 0)
    if hdr 0 = connectionId ∧ hdr 1 &&& 0x80 = 0 then some (true, some connectionId, hdr)
    else
      match dvbRingbufferPktNext rbuf (some idx) with
      | none => none
      | some next => readConditionScan rbuf fuel (next.map Prod.fst) (some connectionId) hdr

def readConditionSlots (ca : DvbCaPrivate) :
    Nat → Nat → Option UInt8 → Mem UInt8 → Option (Option Nat × DvbCaPrivate)
  | 0, slot, _, _ => some (none, { ca with nextReadSlot := slot })
  | left + 1, slot, connectionId, hdr =>
    let next := (slot + 1) % ca.slotCount
    let rxBuffer := (ca.slotInfo slot).rxBuffer
    if (ca.slotInfo slot).slotState ≠ .running then
      readConditionSlots ca left next connectionId hdr
    else if rxBuffer.data.isNone then some (none, ca)
    else
      match dvbRingbufferPktNext rxBuffer none with
      | none => none
      | some first =>
        match readConditionScan rxBuffer (rxBuffer.size + 1) (first.map Prod.fst) connectionId
          hdr with
        | none => none
        | some (true, _, _) => some (some slot, { ca with nextReadSlot := next })
        | some (false, connectionId, hdr) => readConditionSlots ca left next connectionId hdr

/-- The slot that is found, if any. `hdr` is what the uninitialised local holds. -/
def dvbCaEn50221IoReadCondition (ca : DvbCaPrivate) (hdr : Mem UInt8) :
    Option (Option Nat × DvbCaPrivate) :=
  readConditionSlots ca ca.slotCount ca.nextReadSlot none hdr

/-- The data of a fragment goes to the user as far as there is room: the new `pktlen` and
the user's memory. The subtraction in `size_t` wraps for a packet without a header. -/
def ioReadCopy (userOk : Nat → Nat → Bool) (count : Nat) (rbuf : DvbRingbuffer)
    (idx fraglen pktlen : Nat) (user : Mem UInt8) : Except CaErrno (Nat × Mem UInt8) :=
  if pktlen < count then
    let fraglen :=
      if pktlen + fraglen - 2 > count then count - pktlen else (fraglen + sizeT - 2) % sizeT
    match dvbRingbufferPktReadUser userOk rbuf idx 2 pktlen fraglen with
    | .einval => .error .einval
    | .efault => .error .efault
    | .copied bytes => .ok (pktlen + fraglen, user.memcpy pktlen bytes)
  else .ok (pktlen, user)

/-- How the loop of `dvb_ca_en50221_io_read` ends: the connection and `pktlen` or an error,
the user's memory and the receive buffer. -/
structure CaReadEnd where
  result : Except CaErrno (UInt8 × Nat)
  user : Mem UInt8
  rbuf : DvbRingbuffer

/-- The loop over the packets of the slot that was found. `none` stands for a loop that is
not through after more rounds than the buffer has bytes. -/
def ioReadLoop (userOk : Nat → Nat → Bool) (count : Nat) :
    Nat → DvbRingbuffer → Option (Nat × Nat) → Option UInt8 → Nat → Mem UInt8 → Mem UInt8 →
      Option CaReadEnd
  | 0, _, _, _, _, _, _ => none
  | _ + 1, rbuf, none, _, _, _, user => some ⟨.error .eio, user, rbuf⟩
  | fuel + 1, rbuf, some (idx, fraglen), connectionId, pktlen, hdr, user =>
    let hdr := readHdr rbuf idx hdr
    let connectionId := connectionId.getD (hdr 0)
    if hdr 0 = connectionId then
      match ioReadCopy userOk count rbuf idx fraglen pktlen user with
      | .error code => some ⟨.error code, user, rbuf⟩
      | .ok (pktlen, user) => do
        -- the next index is taken before the packet is disposed of
        let idx2 ← dvbRingbufferPktNext rbuf (some idx)
        let rbuf ← dvbRingbufferPktDispose rbuf idx
        if hdr 1 &&& 0x80 = 0 then return ⟨.ok (connectionId, pktlen), user, rbuf⟩
        else ioReadLoop userOk count fuel rbuf idx2 (some connectionId) pktlen hdr user
    else do
      let idx2 ← dvbRingbufferPktNext rbuf (some idx)
      ioReadLoop userOk count fuel rbuf idx2 (some connectionId) pktlen hdr user

/-- What a call of `read()` leaves: the result, the user's memory and the interface. -/
abbrev CaReadResult := Except CaErrno Nat × Mem UInt8 × DvbCaPrivate

/-- What follows the loop: the header for the user, unless the loop ended in an error. -/
def ioReadFinish (userOk : Nat → Nat → Bool) (ca : DvbCaPrivate) (slot : Nat) (out : CaReadEnd) :
    CaReadResult :=
  let ca :=
    { ca with
      slotInfo := Function.update ca.slotInfo slot { ca.slotInfo slot with rxBuffer := out.rbuf } }
  match out.result with
  | .error code => (.error code, out.user, ca)
  | .ok (connectionId, pktlen) =>
    if userOk 0 2 then
      (.ok pktlen, out.user.memcpy 0 [UInt8.ofNat slot, connectionId], ca)
    else (.error .efault, out.user, ca)

/-- `dvb_ca_en50221_io_read` from where it has found a slot. -/
def ioReadSlot (userOk : Nat → Nat → Bool) (count : Nat) (ca : DvbCaPrivate) (slot : Nat)
    (hdr user : Mem UInt8) : Option CaReadResult := do
  let rxBuffer := (ca.slotInfo slot).rxBuffer
  let idx ← dvbRingbufferPktNext rxBuffer none
  let out ← ioReadLoop userOk count (rxBuffer.size + 1) rxBuffer idx none 2 hdr user
  return ioReadFinish userOk ca slot out

/-- `wake` is the interface when a wait has come to an end with the condition true, or
nothing if a signal ended it. -/
def dvbCaEn50221IoRead (userOk : Nat → Nat → Bool) (nonblock : Bool) (wake : Option DvbCaPrivate)
    (count : Nat) (ca : DvbCaPrivate) (hdr user : Mem UInt8) : Option CaReadResult :=
  if count < 2 then some (.error .einval, user, ca)
  else do
    let (found, ca) ← dvbCaEn50221IoReadCondition ca hdr
    match found with
    | some slot => ioReadSlot userOk count ca slot hdr user
    | none =>
      if nonblock then return (.error .ewouldblock, user, ca)
      else
        match wake with
        | none => return (.error .erestartsys, user, ca)
        | some ca => do
          let (found, ca) ← dvbCaEn50221IoReadCondition ca hdr
          match found with
          | some slot => ioReadSlot userOk count ca slot hdr user
          | none => none

end TbsMedia.DvbCore
