import TbsMedia.DvbNet.Ule

/-!
The chain of ULE extension headers in front of a bridged frame. The loop over them
looks at nothing but the last type field it has read, and behind a bridged header
that is a field of the inner frame: its own type if the D-bit is set, and two bytes
of its payload otherwise.
-/

namespace TbsMedia.DvbNet

open Lib Option

/-- The length of an optional header of this type, with the type field behind it. -/
def extLen (type : Nat) : Nat := ((type &&& 0x0700) >>> 8) <<< 1

/-- From `pos` on there are optional headers of these types, and then a header of type
`last`. -/
inductive OptionalHeaders (mem : Mem UInt8) (last : Nat) : Nat → Nat → List Nat → Prop
  | done (pos : Nat) : OptionalHeaders mem last pos last []
  | header {pos type : Nat} {types : List Nat} (hlow : type < 1536) (hoptional : extLen type ≠ 0)
      (htail : OptionalHeaders mem last (pos + extLen type)
        (mem.be16 (pos + extLen type - 2)) types) :
      OptionalHeaders mem last pos type (type :: types)

/-- An SNDU is at its extension headers, and they are optional ones in front of a
bridged frame that `ule_bridged_sndu` takes. -/
structure BeforeBridged (st : UleLoop) (destAddr : Bytes) (skb : SkBuff) (types : List Nat)
    (inner : Bytes) : Prop where
  loaded : st.priv.uleSkb = some skb
  chain : ∃ type, st.point = .extension destAddr ⟨skb.data, type, false, 0⟩ ∧
    OptionalHeaders skb.mem 1 skb.data type types
  inside : (types.map extLen).sum ≤ skb.len
  frame : skb.bytes.drop (types.map extLen).sum = inner
  header : ethHlen ≤ inner.length
  taken : uleBridgedSndu skb st.priv.uleSnduLen
    ⟨skb.data + (types.map extLen).sum, 1, false, (types.map extLen).sum⟩ = true

/-- The loop stops behind the bridged header with the length of the optional ones, and
the frame is handed up as it is. -/
structure EndsChain (dev : NetDevice) (call : UleCall) (st : UleLoop) (destAddr : Bytes)
    (skb : SkBuff) (types : List Nat) (inner : Bytes) : Prop where
  stops : ∃ type, stepMachine (uleStep dev call) (types.length + 1) st = some { st with
      priv := { st.priv with
        uleSkb := some (skb.pull (types.map extLen).sum)
        uleSnduType := type
        uleBridged := true }
      point := .deliver destAddr }
  passed : ∃ frame, stepMachine (uleStep dev call) (types.length + 2) st =
    some { st.snduDone with frames := st.frames ++ [frame] } ∧ frame.mac ++ frame.data = inner

/-- No header has the type behind the end of the table of handlers, and the field that
the loop takes for the next type does not announce another header. -/
def FieldEndsChain (skb : SkBuff) (dbit : Bool) (types : List Nat) : Prop :=
  (∀ type ∈ types, type &&& 0x00ff ≠ 255) ∧
    1536 ≤ skb.mem.be16 (skb.data + (types.map extLen).sum + (if dbit then 2 else 3) * ethAlen)

variable (dev : NetDevice) (call : UleCall) {st : UleLoop} {destAddr : Bytes} {skb : SkBuff}
  {types : List Nat}

theorem OptionalHeaders.low {last pos type : Nat} (hlast : last < 1536)
    (hchain : OptionalHeaders skb.mem last pos type types) : type < 1536 := by
  cases hchain with
  | done => exact hlast
  | header hlow => exact hlow

theorem optional_round (hskb : st.priv.uleSkb = some skb) {pos type total : Nat}
    (hpoint : st.point = .extension destAddr ⟨pos, type, false, total⟩)
    (hoptional : extLen type ≠ 0)
    (hnext : skb.mem.be16 (pos + extLen type - 2) < 1536) :
    uleStep dev call st = some (st.goto (if type &&& 0x00ff = 255 then .oops
      else .extension destAddr ⟨pos + extLen type, skb.mem.be16 (pos + extLen type - 2), false,
        total + extLen type⟩)) := by
  have hlen : ¬ (type &&& 0x0700) >>> 8 = 0 := fun h => hoptional (by rw [extLen, h]; rfl)
  rw [extLen] at hnext
  simp only [uleStep, hpoint, uleExtension, hskb, handleOneUleExtension]
  by_cases hindex : type &&& 0x00ff = 255
  · simp [hindex]
  · simp [if_neg hindex, if_neg hlen, if_pos hnext, extLen]

theorem optional_run {pos type total : Nat} (hchain : OptionalHeaders skb.mem 1 pos type types)
    (hskb : st.priv.uleSkb = some skb)
    (hpoint : st.point = .extension destAddr ⟨pos, type, false, total⟩) (n : Nat) :
    stepMachine (uleStep dev call) (types.length + (n + 1)) st =
      if ∀ type ∈ types, type &&& 0x00ff ≠ 255 then
        stepMachine (uleStep dev call) (n + 1) (st.goto (.extension destAddr
          ⟨pos + (types.map extLen).sum, 1, false, total + (types.map extLen).sum⟩))
      else none := by
  induction hchain generalizing st total with
  | done pos =>
    have hsame : st.goto (.extension destAddr ⟨pos, 1, false, total⟩) = st := by
      rw [← hpoint]
      rfl
    simp [hsame]
  | @header pos type types hlow hoptional htail ih =>
    have hround := optional_round dev call hskb hpoint hoptional (htail.low (by decide))
    rw [List.length_cons, add_right_comm, stepMachine, hround, bind_some]
    by_cases hindex : type &&& 0x00ff = 255
    · rw [if_pos hindex, if_neg (by simp [hindex])]
      rfl
    have hrest := @ih (st.goto (.extension destAddr ⟨pos + extLen type, _, false, _⟩))
      (total + extLen type) hskb rfl
    rw [if_neg hindex, hrest]
    simp [hindex, UleLoop.goto, add_assoc]

variable (st) in
theorem bridged_round (hskb : st.priv.uleSkb = some skb) {ext : UleExtension}
    (hpoint : st.point = .extension destAddr ext) (htype : ext.snduType = 1)
    (htaken : uleBridgedSndu skb st.priv.uleSnduLen ext = true) {field : Nat}
    (hfield : skb.mem.be16 (ext.nextHdr + (if st.priv.uleDbit then 2 else 3) * ethAlen) = field) :
    uleStep dev call st = some (if field < 1536 then
        st.goto (.extension destAddr { ext with bridged := true, snduType := field })
      else { st with
        priv := { st.priv with
          uleSkb := some (skb.pull ext.totalExtLen), uleSnduType := field, uleBridged := true }
        point := .deliver destAddr }) := by
  have hone : handleOneUleExtension skb st.priv.uleSnduLen st.priv.uleDbit ext =
      .next { ext with bridged := true, snduType := field } := by
    simp [handleOneUleExtension, htype, htaken, ← hfield]
  simp [uleStep, hpoint, uleExtension, hskb, hone]

theorem SkBuff.bytes_pull {n : Nat} (hn : n ≤ skb.len) : (skb.pull n).bytes = skb.bytes.drop n := by
  rw [pull, if_pos hn, bytes, bytes, ← Nat.add_sub_cancel' hn, Mem.read_add,
    List.drop_left' (Mem.length_read ..), Nat.add_sub_cancel_left]

variable (st) in
theorem deliver_bridged {inner : Bytes} (hskb : st.priv.uleSkb = some skb)
    (hpoint : st.point = .deliver destAddr) (hbridged : st.priv.uleBridged = true)
    (hbytes : skb.bytes = inner) (hhdr : ethHlen ≤ inner.length) :
    ∃ frame, uleStep dev call st = some { st.snduDone with frames := st.frames ++ [frame] } ∧
      frame.mac ++ frame.data = inner := by
  have hlen : ethHlen ≤ skb.len := by rwa [← hbytes, SkBuff.bytes, Mem.length_read] at hhdr
  simp only [uleStep, hpoint, uleDeliver, hskb, hbridged, if_true]
  refine ⟨_, rfl, ?_⟩
  have hmem : (dvbNetEthTypeTrans dev skb).2.2 = skb.pull ethHlen := by
    rw [dvbNetEthTypeTrans]
    split_ifs <;> rfl
  have hwhole := Mem.read_add skb.mem skb.data ethHlen (skb.len - ethHlen)
  rw [Nat.add_sub_cancel' hlen] at hwhole
  simp only [hmem, ← hbytes]
  rw [SkBuff.pull, if_pos hlen]
  exact hwhole.symm

/-- Whether the chain ends with the bridged header is told by a field of the frame inside. -/
theorem bridged_header_ends_chain_iff (dev : NetDevice) (call : UleCall) {st : UleLoop}
    {destAddr : Bytes} {skb : SkBuff} {types : List Nat} {inner : Bytes}
    (hbefore : BeforeBridged st destAddr skb types inner) :
    EndsChain dev call st destAddr skb types inner ↔ FieldEndsChain skb st.priv.uleDbit types := by
  obtain ⟨hskb, ⟨type, hpoint, hchain⟩, hinside, hframe, hheader, htaken⟩ := hbefore
  rw [FieldEndsChain]
  generalize hfield : skb.mem.be16 (skb.data + (types.map extLen).sum +
    (if st.priv.uleDbit then 2 else 3) * ethAlen) = field
  have hrun := optional_run dev call hchain hskb hpoint
  rw [zero_add] at hrun
  have hround := bridged_round dev call (st.goto (.extension destAddr _)) hskb rfl rfl htaken hfield
  constructor
  · rintro ⟨⟨type', hstops⟩, -⟩
    rw [hrun 0] at hstops
    split_ifs at hstops with hindex
    rw [stepMachine, hround, bind_some] at hstops
    refine ⟨hindex, ?_⟩
    by_contra hlow
    rw [if_pos (not_le.mp hlow)] at hstops
    exact UlePoint.noConfusion (congrArg UleLoop.point (Option.some.inj hstops))
  · rintro ⟨hindex, hhigh⟩
    rw [if_neg (not_lt.mpr hhigh)] at hround
    constructor
    · refine ⟨field, ?_⟩
      rw [hrun 0, if_pos hindex, stepMachine, hround]
      rfl
    have hpulled := SkBuff.bytes_pull hinside
    obtain ⟨frame, hframes, hinner⟩ := deliver_bridged dev call { st with
        priv := { st.priv with
          uleSkb := some (skb.pull (types.map extLen).sum)
          uleSnduType := field
          uleBridged := true }
        point := .deliver destAddr } rfl rfl rfl (hpulled.trans hframe) hheader
    refine ⟨frame, ?_, hinner⟩
    rw [hrun 1, if_pos hindex, stepMachine, hround, bind_some]
    exact congrArg (·.bind (stepMachine (uleStep dev call) 0)) hframes

def innerFrame : Bytes := List.replicate 12 0x02 ++ [0x08, 0x00] ++ List.replicate 4 0x45

def paddedSkb : SkBuff where
  mem := Mem.memcpy (fun _ => 0) 0 ([0x00, 0x01] ++ innerFrame)
  data := 0
  len := 20

def paddedBridged : UleLoop :=
  { uleStart { samplePriv with uleSkb := some paddedSkb, uleSnduLen := 24 } with
    point := .extension [] ⟨0, 0x100, false, 0⟩ }

theorem padded_frame_ends_chain :
    EndsChain sampleDevice (sampleCall []) paddedBridged [] paddedSkb [0x100] innerFrame := by
  have hbefore : BeforeBridged paddedBridged [] paddedSkb [0x100] innerFrame :=
    ⟨rfl, ⟨0x100, rfl, .header (by decide) (by decide) (.done 2)⟩, by decide, by decide, by decide,
      by decide⟩
  exact (bridged_header_ends_chain_iff sampleDevice (sampleCall []) hbefore).mpr
    ⟨by decide, by decide⟩

end TbsMedia.DvbNet
