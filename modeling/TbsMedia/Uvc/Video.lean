import Mathlib.Tactic
import TbsMedia.Uvc.Controls

/-!
The video queue of a UVC stream (`uvc_queue.c`) and the decoder of its payloads
(`uvc_video.c`), for capture. Buffers are known by their index; `bytesused` is the length of
the data in a buffer. A completion handler reads the first buffer of the queue when it begins;
the user may queue and dequeue buffers at any time after that, and what they do then is given
with each completion.
-/

namespace TbsMedia.Uvc

def eagain : Int := -11

def enodev : Int := -19

def enodata : Int := -61

inductive BufState where
  | idle | queued | active | ready | done | error
  deriving DecidableEq, Repr

/-- `struct uvc_buffer`. -/
structure Buffer where
  state : BufState
  length : Nat
  data : Data
  sequence : BitVec 32
  error : Bool
  deriving DecidableEq

/-- `struct uvc_video_queue`; `completed` records the buffers as they were when they were
marked as done. -/
structure VideoQueue where
  count : Nat
  buffer : Nat → Buffer
  mainqueue : List Nat
  irqqueue : List Nat
  disconnected : Bool
  dropCorrupted : Bool
  completed : List Buffer

namespace VideoQueue

def setBuffer (q : VideoQueue) (b : Nat) (buffer : Buffer) : VideoQueue :=
  { q with buffer := Function.update q.buffer b buffer }

/-- `uvc_queue_buffer` for a buffer to capture to. -/
def queueBuffer (q : VideoQueue) (b : Nat) : Int × VideoQueue :=
  if q.count ≤ b then (einval, q)
  else if (q.buffer b).state ≠ .idle then (einval, q)
  else if q.disconnected then (enodev, q)
  else
    (0, { q.setBuffer b { q.buffer b with state := .queued, data := [] } with
      mainqueue := q.mainqueue ++ [b]
      irqqueue := q.irqqueue ++ [b] })

/-- `uvc_dequeue_buffer`. A call that sleeps is modelled from the moment it wakes up. -/
def dequeueBuffer (q : VideoQueue) : Int × VideoQueue :=
  match q.mainqueue with
  | [] => (einval, q)
  | b :: rest =>
    match (q.buffer b).state with
    | .queued | .active | .ready => (eagain, q)
    | .idle => (einval, q)
    | .done =>
      (0, { q.setBuffer b { q.buffer b with state := .idle } with mainqueue := rest })
    | .error =>
      (eio, { q.setBuffer b { q.buffer b with state := .idle } with mainqueue := rest })

/-- `uvc_queue_next_buffer`. -/
def nextBuffer (q : VideoQueue) (b : Nat) : Option Nat × VideoQueue :=
  if q.dropCorrupted && (q.buffer b).error then
    (some b, q.setBuffer b { q.buffer b with error := false, state := .queued, data := [] })
  else
    let irqqueue := q.irqqueue.erase b
    (irqqueue.head?,
      { q.setBuffer b { q.buffer b with error := false, state := .done } with
        irqqueue := irqqueue
        completed := q.completed ++ [q.buffer b] })

end VideoQueue

/-- `struct uvc_streaming`. `starts` records for each payload the buffer with which its header
was decoded. -/
structure Stream where
  queue : VideoQueue
  lastFid : UInt8
  sequence : BitVec 32
  compressed : Bool
  noFid : Bool
  header : Data
  headerSize : Nat
  skipPayload : Bool
  payloadSize : BitVec 32
  maxPayloadSize : BitVec 32
  starts : List (Option Nat)

def streamFid : UInt8 := 1

def streamEof : UInt8 := 2

def streamErr : UInt8 := 64

namespace Stream

def buffer (s : Stream) (b : Nat) : Buffer := s.queue.buffer b

def setBuffer (s : Stream) (b : Nat) (buffer : Buffer) : Stream :=
  { s with queue := s.queue.setBuffer b buffer }

/-- The part of `uvc_video_decode_start` after its checks of the header. -/
def decodeFid (s : Stream) (buf : Option Nat) (fid : UInt8) (eof : Bool) (size : Nat) :
    Int × Stream :=
  let s := if s.lastFid ≠ fid then { s with sequence := s.sequence + 1 } else s
  match buf with
  | none => (enodata, { s with lastFid := fid })
  | some b =>
    if (s.buffer b).state ≠ .active ∧ fid = s.lastFid then
      (enodata, if s.noFid && eof then { s with lastFid := s.lastFid ^^^ streamFid } else s)
    else
      let s := if (s.buffer b).state ≠ .active then
        s.setBuffer b { s.buffer b with sequence := s.sequence, state := .active } else s
      if fid ≠ s.lastFid ∧ (s.buffer b).data ≠ [] then
        (eagain, s.setBuffer b { s.buffer b with state := .ready })
      else (size, { s with lastFid := fid })

/-- `uvc_video_decode_start`. -/
def decodeStart (s : Stream) (buf : Option Nat) (data : Data) : Int × Stream :=
  let size := data.getD 0 0
  let flags := data.getD 1 0
  if data.length < 2 ∨ size < 2 ∨ data.length < size.toNat then (einval, s)
  else if flags &&& streamErr ≠ 0 then (enodata, s)
  else s.decodeFid buf (flags &&& streamFid) (flags &&& streamEof != 0) size.toNat

/-- The header of a payload is decoded again, with the next buffer, as long as
`uvc_video_decode_start` says so. -/
def decodeStarts : Nat → Stream → Option Nat → Data → Option (Int × Option Nat × Stream)
  | 0, _, _, _ => none
  | fuel + 1, s, buf, data =>
    let (ret, s) := s.decodeStart buf data
    if ret = eagain then
      match buf with
      | none => none
      | some b =>
        let (next, queue) := s.queue.nextBuffer b
        decodeStarts fuel { s with queue := queue } next data
    else some (ret, buf, { s with starts := s.starts ++ [buf] })

/-- More than enough rounds: each one takes a buffer off the queue or empties it. -/
def rounds (s : Stream) : Nat := 2 * s.queue.irqqueue.length + 2

/-- `uvc_video_decode_data`. -/
def decodeData (s : Stream) (b : Nat) (data : Data) : Stream :=
  if data = [] then s
  else
    let buffer := s.buffer b
    let maxlen := buffer.length - buffer.data.length
    let nbytes := min data.length maxlen
    let buffer := { buffer with data := buffer.data ++ data.take nbytes }
    s.setBuffer b (if maxlen < data.length then { buffer with state := .ready } else buffer)

/-- `uvc_video_decode_end`. -/
def decodeEnd (s : Stream) (b : Nat) (data : Data) : Stream :=
  if data.getD 1 0 &&& streamEof ≠ 0 ∧ (s.buffer b).data ≠ [] then
    let s := s.setBuffer b { s.buffer b with state := .ready }
    if s.noFid then { s with lastFid := s.lastFid ^^^ streamFid } else s
  else s

end Stream

inductive User where
  | queue (b : Nat)
  | dequeue
  deriving DecidableEq, Repr

def Stream.user (s : Stream) : User → Stream
  | .queue b => { s with queue := (s.queue.queueBuffer b).2 }
  | .dequeue => { s with queue := s.queue.dequeueBuffer.2 }

structure Packet where
  user : List User
  status : Int
  data : Data

structure BulkUrb where
  user : List User
  transferBufferLength : Nat
  data : Data

namespace Stream

/-- One packet of `uvc_video_decode_isoc`, with the buffer for the next one. -/
def decodePacket (s : Stream) (buf : Option Nat) (packet : Packet) : Option (Option Nat × Stream) :=
  let s := packet.user.foldl user s
  if packet.status < 0 then
    match buf with
    | none => some (none, s)
    | some b => some (some b, s.setBuffer b { s.buffer b with error := true })
  else
    match s.decodeStarts s.rounds buf packet.data with
    | none => none
    | some (ret, buf, s) =>
      if ret < 0 then some (buf, s)
      else
        match buf with
        | none => none
        | some b =>
          let s := s.decodeData b (packet.data.drop ret.toNat)
          let s := s.decodeEnd b packet.data
          if (s.buffer b).state = .ready then
            let s := if (s.buffer b).length ≠ (s.buffer b).data.length ∧ ¬ s.compressed then
              s.setBuffer b { s.buffer b with error := true } else s
            let (next, queue) := s.queue.nextBuffer b
            some (next, { s with queue := queue })
          else some (some b, s)

/-- `uvc_video_decode_isoc`. -/
def decodeIsoc (s : Stream) (buf : Option Nat) : List Packet → Option Stream
  | [] => some s
  | packet :: rest => (s.decodePacket buf packet).bind fun (buf, s) => s.decodeIsoc buf rest

/-- The part of `uvc_video_decode_bulk` that decodes the header in the first URB of a payload,
and returns the data after it. -/
def decodeBulkHeader (s : Stream) (buf : Option Nat) (data : Data) :
    Option (Option Nat × Data × Stream) :=
  if s.headerSize = 0 ∧ ¬ s.skipPayload then
    match s.decodeStarts s.rounds buf data with
    | none => none
    | some (ret, buf, s) =>
      if ret < 0 ∨ buf = none then some (buf, data, { s with skipPayload := true })
      else
        some (buf, data.drop ret.toNat,
          { s with header := data.take ret.toNat, headerSize := ret.toNat })
  else some (buf, data, s)

/-- The end of a payload in `uvc_video_decode_bulk`. -/
def endBulkPayload (s : Stream) (buf : Option Nat) : Stream :=
  let s : Stream :=
    match buf with
    | none => s
    | some b =>
      if s.skipPayload then s
      else
        let s := s.decodeEnd b s.header
        if (s.buffer b).state = .ready then { s with queue := (s.queue.nextBuffer b).2 } else s
  { s with headerSize := 0, skipPayload := false, payloadSize := 0 }

/-- `uvc_video_decode_bulk`. -/
def decodeBulk (s : Stream) (buf : Option Nat) (urb : BulkUrb) : Option Stream :=
  let s := urb.user.foldl user s
  if urb.data = [] then some s
  else
    let s := { s with payloadSize := s.payloadSize + BitVec.ofNat 32 urb.data.length }
    (s.decodeBulkHeader buf urb.data).map fun (buf, data, s) =>
      let s : Stream :=
        match buf with
        | none => s
        | some b => if s.skipPayload then s else s.decodeData b data
      if urb.data.length < urb.transferBufferLength ∨ s.maxPayloadSize ≤ s.payloadSize then
        s.endBulkPayload buf
      else s

end Stream

inductive Event where
  | user (op : User)
  | isoc (packets : List Packet)
  | bulk (urb : BulkUrb)

/-- `uvc_video_complete` for a URB without error, or what the user does in between. -/
def eventStep (s : Stream) : Event → Option Stream
  | .user op => some (s.user op)
  | .isoc packets => s.decodeIsoc s.queue.irqqueue.head? packets
  | .bulk urb => s.decodeBulk s.queue.irqqueue.head? urb

end TbsMedia.Uvc
