import TbsMedia.Uvc.Frames

/-!
Payloads arrive in isochronous packets, one in each, or in bulk URBs, where one payload may
take several. In both cases what the decoder does with them is what an assembler does with
their fragments.
-/

namespace TbsMedia.Uvc

open Lib List Uvc.Stream

structure PacketArrival (p : Payload) (packet : Packet) : Prop where
  status : packet.status = 0
  data : packet.data = p.bytes

section Isoc

variable {s : Stream} {a : Assembler UInt8} {buf : Option Nat}

theorem Mirrors.decodePacket (h : Mirrors .active s a) (hhand : AtHand buf s a)
    {packet : Packet} {p : Payload} (harrival : PacketArrival p packet) :
    ∃ supply buf' s', s.decodePacket buf packet = some (buf', s') ∧
      Mirrors .active s' (a.step (p.fragment, supply)) ∧
      AtHand buf' s' (a.step (p.fragment, supply)) := by
  obtain ⟨huser, -, hhand⟩ := Mirrors.users .active packet.user h hhand
  obtain ⟨supply, ret, buf', s', hstart, hbegun⟩ :=
    huser.decodeStarts hhand p p.data (2 * (packet.user.foldl Stream.user s).queue.irqqueue.length)
  have hnotError : ¬ packet.status < 0 := by
    rw [harrival.status]
    decide
  simp only [Stream.decodePacket, hnotError, if_false, harrival.data, Payload.bytes,
    Stream.rounds, hstart]
  rcases hbegun.result with ⟨hneg, hnone⟩ | ⟨rfl, hsome⟩
  · have hstep : a.step (p.fragment, supply) =
        (a.sync p.fragment).accept p.fragment supply := by
      rw [Assembler.step, Assembler.add, hnone]
    refine ⟨supply, buf', s', if_pos hneg, ?_, ?_⟩
    · rw [hstep]
      exact hbegun.mirrors
    · rw [hstep]
      exact hbegun.hand
  · rcases hbegun.hand with ⟨-, hnone⟩ | ⟨b, rest, rfl, hirq⟩
    · exact absurd hnone hsome
    obtain ⟨⟨capacity, data⟩, hcur⟩ := Option.ne_none_iff_exists'.mp hsome
    obtain ⟨hfills, -, hirq⟩ := (hbegun.mirrors.fills hcur).decodeData hirq p.data
    obtain ⟨hsame, hirq, hend⟩ := hfills.decodeEnd hirq hcur p.data
    have hdrop : (p.header ++ p.data).drop (p.header.length : Int).toNat = p.data := drop_left
    have hnonneg : ¬ (p.header.length : Int) < 0 := by omega
    simp only [hnonneg, if_false, hdrop]
    generalize hlast : (s'.decodeData b p.data).decodeEnd b (p.header ++ p.data) = t at *
    have hcompressed := hsame.compressed.trans hfills.compressed
    refine ⟨supply, ?_⟩
    split_ifs at hend ⊢ with hready hshort
    · exact absurd hcompressed hshort.2
    · refine ⟨_, _, rfl, hend.1, ?_⟩
      rw [hend.2]
      exact hend.1.atHand
    · exact ⟨_, _, rfl, hend, .inr ⟨b, rest, rfl, hirq⟩⟩

theorem Mirrors.decodeIsoc {packets : List Packet} {payloads : List Payload}
    (harr : List.Forall₂ PacketArrival payloads packets) :
    ∀ {s : Stream} {a : Assembler UInt8} {buf : Option Nat}, Mirrors .active s a →
      AtHand buf s a → ∃ (s' : Stream) (inputs : List (Fragment UInt8 × Option Nat)),
        s.decodeIsoc buf packets = some s' ∧
        inputs.map Prod.fst = payloads.map Payload.fragment ∧
        Mirrors .active s' (inputs.foldl Assembler.step a) := by
  induction harr with
  | nil => exact fun {s a buf} h _ => ⟨s, [], rfl, rfl, h⟩
  | @cons p packet payloads packets hfirst _ ih =>
    intro s a buf h hhand
    obtain ⟨supply, buf', s', hpacket, hnext, hhand'⟩ := h.decodePacket hhand hfirst
    obtain ⟨s'', inputs, hrest, hins, hlast⟩ := ih hnext hhand'
    refine ⟨s'', (p.fragment, supply) :: inputs, ?_, ?_, hlast⟩
    · rw [Stream.decodeIsoc, hpacket]
      exact hrest
    · rw [map_cons, map_cons, hins]

end Isoc

/-- The URBs in which the rest of a payload arrives, after `size` bytes of it: full ones, and
one that is shorter or reaches the maximum. -/
inductive Arrival (max : Nat) : Nat → Data → List BulkUrb → Prop where
  | last {size : Nat} {urb : BulkUrb}
      (hends : urb.data.length < urb.transferBufferLength ∨ max ≤ size + urb.data.length) :
      Arrival max size urb.data [urb]
  | more {size : Nat} {urb : BulkUrb} {data : Data} {urbs : List BulkUrb}
      (hfull : urb.data.length = urb.transferBufferLength)
      (hsize : size + urb.data.length < max)
      (hrest : Arrival max (size + urb.data.length) data urbs) :
      Arrival max size (urb.data ++ data) (urb :: urbs)

structure BulkArrival (max : Nat) (p : Payload) (urbs : List BulkUrb) : Prop where
  arrival : Arrival max 0 p.bytes urbs
  header : ∀ urb ∈ urbs.head?, p.header.length ≤ urb.data.length

structure Between (s : Stream) : Prop where
  headerSize : s.headerSize = 0
  skipPayload : s.skipPayload = false
  payloadSize : s.payloadSize = 0

inductive Inside (p : Payload) (a : Assembler UInt8) (s : Stream) (got : Data) : Prop where
  | skipping (hmirrors : Mirrors .active s a) (hcurrent : a.current = none)
      (hskip : s.skipPayload = true)
  | reading {capacity : Nat} {data : Data} (hcurrent : a.current = some (capacity, data))
      (hfills : Fills capacity (data ++ got) s a) (hskip : s.skipPayload = false)
      (hheader : s.header = p.header) (hsize : s.headerSize = p.header.length)

/-- The part of `uvc_video_decode_bulk` that processes video data. -/
def Stream.decodeBulkData (s : Stream) (buf : Option Nat) (data : Data) : Stream :=
  match buf with
  | none => s
  | some b => if s.skipPayload then s else s.decodeData b data

theorem Stream.decodeBulkData_skip {s : Stream} (hskip : s.skipPayload = true)
    (buf : Option Nat) (data : Data) : s.decodeBulkData buf data = s := by
  cases buf with
  | none => rfl
  | some b => exact if_pos hskip

/-- The part of `uvc_video_decode_bulk` that detects the end of a payload. -/
def Stream.detectBulkEnd (s : Stream) (buf : Option Nat) (urb : BulkUrb) : Stream :=
  if urb.data.length < urb.transferBufferLength ∨ s.maxPayloadSize ≤ s.payloadSize then
    s.endBulkPayload buf
  else s

def Stream.countBulk (s : Stream) (urb : BulkUrb) : Stream :=
  { s with payloadSize := s.payloadSize + BitVec.ofNat 32 urb.data.length }

theorem Stream.decodeBulk_eq (s : Stream) (buf : Option Nat) {urb : BulkUrb}
    (hdata : urb.data ≠ []) :
    s.decodeBulk buf urb =
      (((urb.user.foldl Stream.user s).countBulk urb).decodeBulkHeader buf urb.data).map
        fun (buf, data, s) => (s.decodeBulkData buf data).detectBulkEnd buf urb := by
  rw [decodeBulk, if_neg hdata]
  rfl

section Bulk

variable {p : Payload} {s : Stream} {a : Assembler UInt8} {buf : Option Nat} {got : Data}

theorem Mirrors.of_queue {state : BufState} {t : Stream} (h : Mirrors state s a)
    (hcompressed : t.compressed = s.compressed) (hnoFid : t.noFid = s.noFid)
    (hlastFid : t.lastFid = s.lastFid) (hstart : t.starts = s.starts)
    (hqueue : t.queue = s.queue) : Mirrors state t a := by
  refine ⟨hcompressed.trans h.compressed, hnoFid.trans h.noFid, hlastFid.trans h.lastFid, ?_, ?_⟩
  · rw [hstart]
    exact h.starts
  · rw [hqueue]
    exact h.queue

theorem AtHand.some (h : AtHand buf s a) (hcur : a.current ≠ none) :
    ∃ b rest, buf = some b ∧ s.queue.irqqueue = b :: rest := by
  rcases h with ⟨-, hnone⟩ | h
  · exact absurd hnone hcur
  · exact h

namespace Inside

section

variable (h : Inside p a s got)
include h

theorem atHand : AtHand s.queue.irqqueue.head? s a := by
  cases h with
  | skipping hmir _ _ => exact hmir.atHand
  | reading _ hfills _ _ _ =>
    obtain ⟨b, rest, hirq⟩ := hfills.head
    exact .inr ⟨b, rest, by rw [hirq]; rfl, hirq⟩

theorem users (hhand : AtHand buf s a) (ops : List User) :
    Inside p a (ops.foldl Stream.user s) got ∧ SameTransfer s (ops.foldl Stream.user s) ∧
      AtHand buf (ops.foldl Stream.user s) a := by
  cases h with
  | skipping hmir hcur hskip =>
    obtain ⟨hmir, hsame, hhand⟩ := Mirrors.users .active ops hmir hhand
    exact ⟨.skipping hmir hcur (hsame.skipPayload.trans hskip), hsame, hhand⟩
  | @reading capacity data hcur hfills hskip hhdr hsize =>
    obtain ⟨b, rest, rfl, hirq⟩ := hhand.some (by rw [hcur]; nofun)
    obtain ⟨hfills, hsame, hhand⟩ := Mirrors.users (filling_inUse capacity (data ++ got)) ops
      hfills (.inr ⟨b, rest, rfl, hirq⟩)
    obtain ⟨b', rest', hb, hirq⟩ := hhand.some nofun
    exact ⟨.reading hcur hfills (hsame.skipPayload.trans hskip)
      (hsame.header.trans hhdr) (hsame.headerSize.trans hsize), hsame,
      .inr ⟨b', rest', hb, hirq⟩⟩

theorem countBulk (urb : BulkUrb) : Inside p a (s.countBulk urb) got := by
  cases h with
  | skipping hmir hcur hskip =>
    exact .skipping (hmir.of_queue rfl rfl rfl rfl rfl) hcur hskip
  | reading hcur hfills hskip hhdr hsize =>
    exact .reading hcur (.of_queue hfills rfl rfl rfl rfl rfl) hskip hhdr hsize

theorem decodeBulkHeader (data : Data) : s.decodeBulkHeader buf data = some (buf, data, s) := by
  refine if_neg ?_
  rintro ⟨hzero, hnot⟩
  cases h with
  | skipping _ _ hskip => exact hnot hskip
  | reading _ _ _ _ hsize =>
    have htwo := p.two
    omega

theorem decodeBulkData (hhand : AtHand buf s a) (data : Data) :
    Inside p a (s.decodeBulkData buf data) (got ++ data) ∧
      SameTransfer s (s.decodeBulkData buf data) ∧ AtHand buf (s.decodeBulkData buf data) a := by
  cases h with
  | skipping hmir hcur hskip =>
    rw [decodeBulkData_skip hskip]
    exact ⟨.skipping hmir hcur hskip, .refl s, hhand⟩
  | reading hcur hfills hskip hhdr hsize =>
    obtain ⟨b, rest, rfl, hirq⟩ := hhand.some (by rw [hcur]; nofun)
    have hdata : s.decodeBulkData (some b) data = s.decodeData b data :=
      if_neg (by rw [hskip]; exact Bool.false_ne_true)
    obtain ⟨hfills, hsame, hirq⟩ := hfills.decodeData hirq data
    rw [hdata]
    rw [append_assoc] at hfills
    exact ⟨.reading hcur hfills (hsame.skipPayload.trans hskip)
      (hsame.header.trans hhdr) (hsame.headerSize.trans hsize), hsame,
      .inr ⟨b, rest, rfl, hirq⟩⟩

end

theorem endBulkPayload (h : Inside p a s p.data) (hhand : AtHand buf s a) :
    Mirrors .active (s.endBulkPayload buf) (a.add p.fragment) ∧
      Between (s.endBulkPayload buf) ∧
      (s.endBulkPayload buf).maxPayloadSize = s.maxPayloadSize := by
  cases h with
  | skipping hmir hcur hskip =>
    have hadd : a.add p.fragment = a := by rw [Assembler.add, hcur]
    have hend : s.endBulkPayload buf =
        { s with headerSize := 0, skipPayload := false, payloadSize := 0 } := by
      cases buf with
      | none => rfl
      | some b => simp only [endBulkPayload, hskip, if_true]
    rw [hadd, hend]
    exact ⟨hmir.of_queue rfl rfl rfl rfl rfl, ⟨rfl, rfl, rfl⟩, rfl⟩
  | reading hcur hfills hskip hhdr hsize =>
    obtain ⟨b, rest, rfl, hirq⟩ := hhand.some (by simp [hcur])
    obtain ⟨hsame, -, hend⟩ := hfills.decodeEnd hirq hcur []
    rw [append_nil] at hsame hend
    simp only [endBulkPayload, hskip, hhdr, Bool.false_eq_true, if_false]
    have hmax := hsame.maxPayloadSize
    split_ifs at hend ⊢ with hready
    · exact ⟨hend.1.of_queue rfl rfl rfl rfl rfl, ⟨rfl, rfl, rfl⟩, hmax⟩
    · exact ⟨hend.of_queue rfl rfl rfl rfl rfl, ⟨rfl, rfl, rfl⟩, hmax⟩

end Inside

/-- The first URB of a payload: its header is decoded, and the decoder is inside it. -/
theorem Mirrors.decodeBulkHeader (h : Mirrors .active s a) (hhand : AtHand buf s a)
    (p : Payload) (hheaderSize : s.headerSize = 0) (hskip : s.skipPayload = false) (more : Data) :
    ∃ supply buf' data' s', s.decodeBulkHeader buf (p.header ++ more) = some (buf', data', s') ∧
      (s'.decodeBulkData buf' data').payloadSize = s.payloadSize ∧
      (s'.decodeBulkData buf' data').maxPayloadSize = s.maxPayloadSize ∧
      Inside p ((a.sync p.fragment).accept p.fragment supply) (s'.decodeBulkData buf' data') more ∧
      AtHand buf' (s'.decodeBulkData buf' data')
        ((a.sync p.fragment).accept p.fragment supply) := by
  obtain ⟨supply, ret, buf', s', hstart, hbegun⟩ :=
    h.decodeStarts hhand p more (2 * s.queue.irqqueue.length)
  have hfirst : s.headerSize = 0 ∧ ¬ s.skipPayload = true := by
    rw [hskip]
    exact ⟨hheaderSize, Bool.false_ne_true⟩
  have hsame := hbegun.same
  rcases hbegun.result with ⟨hneg, hnone⟩ | ⟨rfl, hsome⟩
  · have hhdr : s.decodeBulkHeader buf (p.header ++ more) =
        some (buf', p.header ++ more, { s' with skipPayload := true }) := by
      simp only [Stream.decodeBulkHeader, if_pos hfirst, Stream.rounds, hstart]
      exact if_pos (.inl hneg)
    refine ⟨supply, buf', _, _, hhdr, ?_⟩
    rw [Stream.decodeBulkData_skip rfl]
    exact ⟨hsame.payloadSize, hsame.maxPayloadSize,
      .skipping (hbegun.mirrors.of_queue rfl rfl rfl rfl rfl) hnone rfl, hbegun.hand⟩
  · obtain ⟨b, rest, rfl, hirq⟩ := hbegun.hand.some hsome
    obtain ⟨⟨capacity, data⟩, hcur⟩ := Option.ne_none_iff_exists'.mp hsome
    have hhdr : s.decodeBulkHeader buf (p.header ++ more) = some (some b, more,
        { s' with header := p.header, headerSize := p.header.length }) := by
      have hok : ¬ ((p.header.length : Int) < 0 ∨ some b = none) := by
        rintro (hneg | hnone)
        · omega
        · cases hnone
      simp only [Stream.decodeBulkHeader, if_pos hfirst, Stream.rounds, hstart, if_neg hok,
        Int.toNat_natCast, take_left, drop_left]
    have hin : Inside p ((a.sync p.fragment).accept p.fragment supply)
        { s' with header := p.header, headerSize := p.header.length } [] := by
      refine .reading hcur ?_ (hsame.skipPayload.trans hskip) rfl rfl
      rw [append_nil]
      exact .of_queue (hbegun.mirrors.fills hcur) rfl rfl rfl rfl rfl
    obtain ⟨hgot, hkept, hhand'⟩ := hin.decodeBulkData (.inr ⟨b, rest, rfl, hirq⟩) more
    exact ⟨supply, some b, more, _, hhdr, hkept.payloadSize.trans hsame.payloadSize,
      hkept.maxPayloadSize.trans hsame.maxPayloadSize, hgot, hhand'⟩

/-- The URBs that are still to come, from where the decoder is. The assembler is the one after
the payload the decoder is inside of. -/
inductive Due (max : BitVec 32) (s : Stream) : Assembler UInt8 → List Payload →
    List BulkUrb → Prop where
  | between {a : Assembler UInt8} {payloads : List Payload} {arrangement : List (List BulkUrb)}
      (hmax : s.maxPayloadSize = max) (hmirrors : Mirrors .active s a) (hbetween : Between s)
      (harrive : List.Forall₂ (BulkArrival max.toNat) payloads arrangement) :
      Due max s a payloads arrangement.flatten
  | inside {p : Payload} {a : Assembler UInt8} {got data : Data} {size : Nat}
      {urbs : List BulkUrb} {payloads : List Payload} {arrangement : List (List BulkUrb)}
      (hmax : s.maxPayloadSize = max) (hinside : Inside p a s got)
      (hgot : p.data = got ++ data) (hcount : s.payloadSize = BitVec.ofNat 32 size)
      (hsize : size + data.length < 2 ^ 32) (hrest : Arrival max.toNat size data urbs)
      (harrive : List.Forall₂ (BulkArrival max.toNat) payloads arrangement) :
      Due max s (a.add p.fragment) payloads (urbs ++ arrangement.flatten)

variable {data : Data} {size max : Nat} {urbs : List BulkUrb}

theorem Inside.detectBulkEnd {max : BitVec 32} {urb : BulkUrb} {payloads : List Payload}
    {arrangement : List (List BulkUrb)} (h : Inside p a s got) (hhand : AtHand buf s a)
    (hmax : s.maxPayloadSize = max) (hgot : ∀ rest, data = urb.data ++ rest → p.data = got ++ rest)
    (hcount : s.payloadSize = BitVec.ofNat 32 (size + urb.data.length))
    (hsize : size + data.length < 2 ^ 32) (hrest : Arrival max.toNat size data (urb :: urbs))
    (harr : List.Forall₂ (BulkArrival max.toNat) payloads arrangement) :
    Due max (s.detectBulkEnd buf urb) (a.add p.fragment) payloads
      (urbs ++ arrangement.flatten) := by
  have hreach : size + urb.data.length < 2 ^ 32 →
      (s.maxPayloadSize ≤ s.payloadSize ↔ max.toNat ≤ size + urb.data.length) := by
    intro hlt
    rw [hmax, hcount, BitVec.le_def, BitVec.toNat_ofNat, Nat.mod_eq_of_lt hlt]
  cases hrest with
  | last hends =>
    have hall : got = p.data := by
      have hdata := hgot [] (append_nil _).symm
      rw [append_nil] at hdata
      exact hdata.symm
    subst hall
    obtain ⟨hmir, hbetween, hkept⟩ := h.endBulkPayload hhand
    have hend : s.detectBulkEnd buf urb = s.endBulkPayload buf :=
      if_pos (hends.imp_right (hreach hsize).mpr)
    rw [hend]
    exact .between (hkept.trans hmax) hmir hbetween harr
  | @more _ _ data _ hfull hless hrest =>
    rw [length_append, ← Nat.add_assoc] at hsize
    have hgoesOn : ¬ (urb.data.length < urb.transferBufferLength ∨
        s.maxPayloadSize ≤ s.payloadSize) := by
      rw [hreach (Nat.lt_of_le_of_lt (Nat.le_add_right _ _) hsize)]
      omega
    have hend : s.detectBulkEnd buf urb = s := if_neg hgoesOn
    rw [hend]
    exact .inside hmax h (hgot data rfl) hcount hsize hrest harr

theorem Arrival.first (h : Arrival max size data urbs) :
    ∃ urb more rest, urbs = urb :: more ∧ data = urb.data ++ rest := by
  cases h with
  | last _ => exact ⟨_, [], [], rfl, (append_nil _).symm⟩
  | more _ _ _ => exact ⟨_, _, _, rfl, rfl⟩

theorem BulkArrival.first (h : BulkArrival max p urbs) :
    ∃ urb more got, urbs = urb :: more ∧ urb.data = p.header ++ got := by
  obtain ⟨urb, more, rest, rfl, hdata⟩ := h.arrival.first
  have hprefix :=
    prefix_of_prefix_length_le (prefix_append p.header p.data) ⟨rest, hdata.symm⟩ (h.header urb rfl)
  obtain ⟨got, hgot⟩ := hprefix
  exact ⟨urb, more, got, rfl, hgot.symm⟩

theorem countBulk_payloadSize (urb : BulkUrb) (hcount : s.payloadSize = BitVec.ofNat 32 size) :
    (s.countBulk urb).payloadSize = BitVec.ofNat 32 (size + urb.data.length) := by
  rw [BitVec.ofNat_add, ← hcount]
  rfl

namespace Due

variable {max : BitVec 32} {payloads : List Payload} {urbs : List BulkUrb}
  (h : Due max s a payloads urbs)
include h

theorem user (op : User) : Due max (s.user op) a payloads urbs := by
  cases h with
  | between hmax hmir hbetween harr =>
    obtain ⟨hmir, hsame, -⟩ := Mirrors.users .active [op] hmir hmir.atHand
    exact .between (hsame.maxPayloadSize.trans hmax) hmir
      ⟨hsame.headerSize.trans hbetween.headerSize,
        hsame.skipPayload.trans hbetween.skipPayload,
        hsame.payloadSize.trans hbetween.payloadSize⟩ harr
  | inside hmax hin hgot hcount hsize hrest harr =>
    obtain ⟨hin, hsame, -⟩ := hin.users hin.atHand [op]
    exact .inside (hsame.maxPayloadSize.trans hmax) hin hgot
      (hsame.payloadSize.trans hcount) hsize hrest harr

theorem finished (hurbs : urbs = []) : payloads = [] ∧ Mirrors .active s a := by
  cases h with
  | between _ hmir _ harr =>
    rcases harr with _ | ⟨hfirst, _⟩
    · exact ⟨rfl, hmir⟩
    obtain ⟨urb, more, -, rfl, -⟩ := hfirst.first
    cases hurbs
  | inside _ _ _ _ _ hrest _ =>
    obtain ⟨urb, more, -, rfl, -⟩ := hrest.first
    cases hurbs

/-- A URB is decoded: it begins the next payload, or goes on with the one before. -/
theorem decodeBulk {urb : BulkUrb} {more : List BulkUrb} (hurbs : urbs = urb :: more)
    (hdata : urb.data ≠ []) (hshort : ∀ p ∈ payloads, p.bytes.length < 2 ^ 32) :
    ∃ (s' : Stream) (inputs : List (Fragment UInt8 × Option Nat)) (begun rest : List Payload),
      s.decodeBulk s.queue.irqqueue.head? urb = some s' ∧ payloads = begun ++ rest ∧
      inputs.map Prod.fst = begun.map Payload.fragment ∧
      Due max s' (inputs.foldl Assembler.step a) rest more := by
  rw [Stream.decodeBulk_eq s _ hdata]
  cases h with
  | between hmax hmir hbetween harr =>
    cases harr with
    | nil => cases hurbs
    | @cons p first payloads arrangement hfirst harr =>
      obtain ⟨urb', more', got, rfl, hgot⟩ := hfirst.first
      obtain ⟨rfl, rfl⟩ := List.cons.inj hurbs
      obtain ⟨huser, hsame, hhand⟩ := Mirrors.users .active urb'.user hmir hmir.atHand
      obtain ⟨supply, buf', data', s', hhdr, hcount, hmax', hin, hhand'⟩ :=
        (huser.of_queue rfl rfl rfl rfl rfl :
          Mirrors .active ((urb'.user.foldl Stream.user s).countBulk urb') a).decodeBulkHeader
          hhand p (hsame.headerSize.trans hbetween.headerSize)
          (hsame.skipPayload.trans hbetween.skipPayload) got
      rw [← hgot] at hhdr
      rw [hhdr]
      refine ⟨_, [(p.fragment, supply)], [p], payloads, rfl, rfl, rfl, ?_⟩
      have hsize : 0 + p.bytes.length < 2 ^ 32 := by
        rw [Nat.zero_add]
        exact hshort p mem_cons_self
      refine hin.detectBulkEnd hhand' ?_ ?_ ?_ hsize hfirst.arrival harr
      · exact hmax'.trans (hsame.maxPayloadSize.trans hmax)
      · intro rest hrest
        rw [hgot, append_assoc] at hrest
        exact append_cancel_left hrest
      · exact hcount.trans (countBulk_payloadSize urb'
          (hsame.payloadSize.trans hbetween.payloadSize))
  | inside hmax hin hgot hcount hsize hrest harr =>
    obtain ⟨urb', more', rest, rfl, -⟩ := hrest.first
    obtain ⟨rfl, rfl⟩ := List.cons.inj hurbs
    obtain ⟨huser, hsame, hhand⟩ := hin.users hin.atHand urb'.user
    have hcounted := huser.countBulk urb'
    obtain ⟨hin', hsame', hhand'⟩ := hcounted.decodeBulkData hhand urb'.data
    rw [hcounted.decodeBulkHeader]
    refine ⟨_, [], [], payloads, rfl, rfl, rfl, ?_⟩
    refine hin'.detectBulkEnd hhand' ?_ ?_ ?_ hsize hrest harr
    · exact hsame'.maxPayloadSize.trans (hsame.maxPayloadSize.trans hmax)
    · intro rest hrest
      rw [hgot, hrest, append_assoc]
    · exact hsame'.payloadSize.trans (countBulk_payloadSize urb' (hsame.payloadSize.trans hcount))

end Due

end Bulk

def Event.packets : Event → List Packet
  | .isoc packets => packets
  | _ => []

def Event.urbs : Event → List BulkUrb
  | .bulk urb => [urb]
  | _ => []

/-- The decoder makes of the events what an assembler makes of the payloads. -/
def Decodes (s : Stream) (a : Assembler UInt8) (payloads : List Payload) (events : List Event) :
    Prop :=
  ∃ (s' : Stream) (inputs : List (Fragment UInt8 × Option Nat)),
    events.foldlM eventStep s = some s' ∧
    inputs.map Prod.fst = payloads.map Payload.fragment ∧
    Mirrors .active s' (inputs.foldl Assembler.step a)

variable {s t : Stream} {a : Assembler UInt8} {payloads rest : List Payload} {events : List Event}

theorem Decodes.cons {e : Event} {inputs : List (Fragment UInt8 × Option Nat)}
    (hstep : eventStep s e = some t) (hins : inputs.map Prod.fst = payloads.map Payload.fragment)
    (hrest : Decodes t (inputs.foldl Assembler.step a) rest events) :
    Decodes s a (payloads ++ rest) (e :: events) := by
  obtain ⟨s', more, hmore, hmap, hlast⟩ := hrest
  refine ⟨s', inputs ++ more, ?_, ?_, ?_⟩
  · rw [foldlM_cons, hstep]
    exact hmore
  · rw [map_append, map_append, hins, hmap]
  · rw [foldl_append]
    exact hlast

/-- An isochronous stream: every event is a step of the user, or packets with payloads. -/
theorem Mirrors.isoc_run (hkind : ∀ urb, Event.bulk urb ∉ events) (h : Mirrors .active s a)
    (harr : List.Forall₂ PacketArrival payloads (events.flatMap Event.packets)) :
    Decodes s a payloads events := by
  induction events generalizing s a payloads with
  | nil =>
    cases harr
    exact ⟨s, [], rfl, rfl, h⟩
  | cons e events ih =>
    have hkinds : ∀ urb, .bulk urb ∉ events := fun urb hmem => hkind urb (mem_cons_of_mem _ hmem)
    cases e with
    | user op => exact ih hkinds (h.user .active h.atHand op).1 harr
    | bulk urb => exact absurd mem_cons_self (hkind urb)
    | isoc packets =>
      have hfirst := forall₂_take_append payloads packets _ harr
      have hoth := forall₂_drop_append payloads packets _ harr
      obtain ⟨t, inputs, hrun, hins, hmir⟩ := Mirrors.decodeIsoc hfirst h h.atHand
      rw [← take_append_drop packets.length payloads]
      exact .cons hrun hins (ih hkinds hmir hoth)

/-- A bulk stream: every event is a step of the user, or the next URB. -/
theorem Due.bulk_run {max : BitVec 32} (hkind : ∀ packets, Event.isoc packets ∉ events)
    (hdata : ∀ urb ∈ events.flatMap Event.urbs, urb.data ≠ [])
    (h : Due max s a payloads (events.flatMap Event.urbs))
    (hshort : ∀ p ∈ payloads, p.bytes.length < 2 ^ 32) : Decodes s a payloads events := by
  induction events generalizing s a payloads with
  | nil =>
    obtain ⟨rfl, hmir⟩ := h.finished rfl
    exact ⟨s, [], rfl, rfl, hmir⟩
  | cons e events ih =>
    have hkinds : ∀ packets, .isoc packets ∉ events :=
      fun packets hmem => hkind packets (mem_cons_of_mem _ hmem)
    have hdatas : ∀ urb ∈ events.flatMap Event.urbs, urb.data ≠ [] :=
      fun urb hmem => hdata urb (mem_append_right _ hmem)
    cases e with
    | user op => exact ih hkinds hdatas (h.user op) hshort
    | isoc packets => exact absurd mem_cons_self (hkind packets)
    | bulk urb =>
      obtain ⟨t, inputs, begun, rest, hrun, rfl, hins, hdue⟩ :=
        h.decodeBulk rfl (hdata urb mem_cons_self) hshort
      exact .cons hrun hins (ih hkinds hdatas hdue
        (fun p hmem => hshort p (mem_append_right _ hmem)))

end TbsMedia.Uvc
