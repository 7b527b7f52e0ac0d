import TbsMedia.Lib.Memory
import TbsMedia.DvbCore.TsPacket

/-!
The records of `demux.h` and `dvb_demux.h`, as far as the software demux reads
or writes them. Feeds and filters live in two fixed arrays of the demux, so a
pointer to one of them is its index: `nf` feeds, `nq` filters.

The chain `feed->filter`, `filter->next`, ... is the list of its members from
the head on. `is_filtering` and `priv` are the same memory in both members of
the `feed` union and appear once.
-/

namespace TbsMedia.DvbCore

open Lib

def dmxMaxSectionSize : Nat := 4096

/-- `DMX_MAX_SECTION_SIZE + 188`. -/
def dmxMaxSecfeedSize : Nat := dmxMaxSectionSize + 188

def dmxMaxPid : Nat := 0x2000

/-- `DMX_MAX_FILTER_SIZE`, which is also `DVB_DEMUX_MASK_MAX`. -/
abbrev dmxMaxFilterSize : Nat := 18

def tsPacket : Nat := 1
def tsPayloadOnly : Nat := 2
def tsDecoder : Nat := 4
def tsDemux : Nat := 8

/-- The first value of `enum dmx_ts_pes` that names no decoder. -/
abbrev dmxTsPesOther : Nat := 20

/-- `dmx_output_t`. It comes from user space unchecked, so it may also be a
number without a name. -/
inductive DmxOutput where
  | decoder
  | tap
  | tsTap
  | tsdemuxTap
  | other
deriving DecidableEq, Inhabited, Repr

/-- The `ts_type` that `dvb_dmxdev_start_feed` asks for. -/
def dmxdevTsType (output : DmxOutput) (pesType : Nat) : Nat :=
  let tsType := if pesType < dmxTsPesOther then tsDecoder else 0
  match output with
  | .tsTap => tsType ||| tsPacket
  | .tsdemuxTap => tsType ||| (tsPacket ||| tsDemux)
  | .tap => tsType ||| (tsPacket ||| tsDemux ||| tsPayloadOnly)
  | _ => tsType

inductive DmxType where
  | ts
  | sec
  | pes
deriving DecidableEq, Inhabited, Repr

inductive DmxState where
  | free
  | allocated
  | set
  | ready
  | go
deriving DecidableEq, Inhabited, Repr

/-- The numbers behind `DMX_STATE_*`; the code compares states by order. -/
def DmxState.toNat : DmxState → Nat
  | .free => 0
  | .allocated => 1
  | .set => 2
  | .ready => 3
  | .go => 4

/-- `struct dvb_demux_filter`. -/
structure DvbDemuxFilter (nf : Nat) where
  filterValue : Fin dmxMaxFilterSize → UInt8
  filterMask : Fin dmxMaxFilterSize → UInt8
  filterMode : Fin dmxMaxFilterSize → UInt8
  priv : Option Nat
  maskandmode : Fin dmxMaxFilterSize → UInt8
  maskandnotmode : Fin dmxMaxFilterSize → UInt8
  doneq : Bool
  feed : Option (Fin nf)
  state : DmxState
  type : DmxType
deriving Inhabited

/-- `struct dmx_section_feed`; `secbuf` is the offset of that pointer in
`secbuf_base`. -/
structure DmxSectionFeed where
  checkCrc : Bool
  crcVal : UInt32
  secbuf : Nat
  secbufBase : Mem UInt8
  secbufp : Nat
  seclen : Nat
  tsfeedp : Nat
deriving Inhabited

/-- `struct dvb_demux_feed`. `holder` is not in the source: it records whose
out-pointer the allocating call filled, and no operation reads it. -/
structure DvbDemuxFeed (nq : Nat) where
  type : DmxType
  state : DmxState
  isFiltering : Bool
  priv : Option Nat
  holder : Option Nat
  pid : Nat
  sec : DmxSectionFeed
  filter : List (Fin nq)
  tsType : Nat
  pesType : Nat
  cc : Int
  pusiSeen : Bool
  peslen : Nat
deriving Inhabited

/-- What the section path calls outside `dvb_demux.c`: the kernel's
`crc32_be`, and the client's callback, whose negative results end the walk
over a feed's filters. -/
structure SectionOps (nq : Nat) where
  crc32Be : UInt32 → Bytes → UInt32
  cbSec : Fin nq → Bytes → Int
deriving Inhabited

end TbsMedia.DvbCore
