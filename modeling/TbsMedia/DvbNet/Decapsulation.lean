import TbsMedia.DvbNet.SnduDecoding

/-!
The decoder undoes the encapsulation: over a cell, over the cells of a call, and over the calls,
however the cells are grouped into them. Of the SNDUs that were packed, those come out that are
meant for the device.
-/

namespace TbsMedia.DvbNet

open Lib StateTransition Relation List UleLoop

theorem header_byte (pusi priority : Bool) (high : Fin 32) :
    (UInt8.ofNat ((if pusi then 0x40 else 0) + (if priority then 0x20 else 0) + high.val) &&&
      tsTei = 0) ∧
    ((UInt8.ofNat ((if pusi then 0x40 else 0) + (if priority then 0x20 else 0) + high.val) &&&
      tsPusi ≠ 0) ↔ pusi = true) := by
  revert pusi priority high
  decide

theorem counter_byte (c : Fin 16) :
    UInt8.ofNat (0x10 + c.val) &&& tsSc = 0 ∧
      UInt8.ofNat (0x10 + c.val) &&& 0x0f = UInt8.ofNat c.val ∧
      (UInt8.ofNat c.val + 1) &&& 0x0f = UInt8.ofNat ((c.val + 1) % 16) := by
  revert c
  decide

structure CellAt (buf : Mem UInt8) (ts cc : Nat) (cell : UleCell) : Prop where
  valid : isInvalid buf ts = false
  pusi : isPusi buf ts = cell.pusi
  counter : buf (ts + 3) &&& 0x0f = UInt8.ofNat (cc % 16)
  payload : buf.read (ts + 4) 184 = cell.payload

variable {cc n : Nat} {s : Sndu} {p : DvbNetPriv}

theorem cellAt_of_read {buf : Mem UInt8} {ts : Nat} {pid : Fin 8192} {cell : UleCell}
    (hread : buf.read ts 188 = cellBytes pid cc cell) : CellAt buf ts cc cell := by
  have hsplit := hread
  rw [show 188 = 4 + 184 from rfl, Mem.read_add] at hsplit
  obtain ⟨hhdr, hpay⟩ := append_inj hsplit (by simp)
  have hbytes : [buf ts, buf (ts + 1), buf (ts + 2), buf (ts + 3)] = _ := hhdr
  simp only [List.cons.injEq, and_true] at hbytes
  obtain ⟨hsync, hflags, -, hcounter⟩ := hbytes
  have hhigh : pid.val / 256 < 32 := by omega
  obtain ⟨htei, hpusi⟩ := header_byte cell.pusi cell.priority ⟨pid.val / 256, hhigh⟩
  obtain ⟨hsc, hcc, -⟩ := counter_byte ⟨cc % 16, Nat.mod_lt _ (by decide)⟩
  refine ⟨?_, ?_, ?_, hpay⟩
  · have hclear : buf (ts + 1) &&& tsTei = 0 := by
      rw [hflags]
      exact htei
    have hplain : buf (ts + 3) &&& tsSc = 0 := by
      rw [hcounter]
      exact hsc
    simp [isInvalid, hsync, hclear, hplain, tsSync]
  · rw [isPusi, hflags, Bool.eq_iff_iff, decide_eq_true_iff]
    exact hpusi
  · rw [hcounter]
    exact hcc

theorem counter_next {tscc : UInt8} (htscc : tscc = UInt8.ofNat (cc % 16)) :
    (tscc + 1) &&& 0x0f = UInt8.ofNat ((cc + 1) % 16) := by
  obtain ⟨-, -, hnext⟩ := counter_byte ⟨cc % 16, Nat.mod_lt _ (by decide)⟩
  rw [htscc, hnext]
  simp

theorem Received.synced (hreceived : Received s n p) : p.needPusi = false := by
  cases hreceived with
  | heading hhead => exact hhead.synced
  | loading hload => exact hload.synced

open Received

theorem Received.remain (hreceived : Received s n p) : p.uleSnduRemain = s.bytes.length - n := by
  cases hreceived with
  | heading _ hrem => exact hrem
  | loading hload => exact hload.remain

theorem Received.tscc (hreceived : Received s n p) (tscc : UInt8) :
    Received s n { p with tscc := tscc } := by
  cases hreceived with
  | heading hhead hrem =>
    exact .heading ⟨{ hhead with }, hhead.skb, hhead.split⟩ hrem
  | loading hload hshort =>
    exact .loading ⟨{ hload with },
      hload.four_le, hload.type1, hload.type, hload.remain, hload.skb⟩ hshort

/-- The loop stands before a cell with the counter `cc`. -/
structure BeforeCell (cur : Sending) (cc : Nat) (st : UleLoop) : Prop where
  point : st.point = .cell
  newTs : st.newTs = true
  between : Between cur st.priv
  counter : cur.isSome → st.priv.tscc = UInt8.ofNat (cc % 16)

variable {cur : Sending}

section Cells

variable {dev : NetDevice} {call : UleCall} {st : UleLoop} {s : Sndu} {n cc : Nat}
  {cell : UleCell}

def UleLoop.entered (st : UleLoop) : UleLoop :=
  { st with tsRemain := 184, fromWhere := st.ts + 4, point := .sync }

def UleLoop.counted (st : UleLoop) : UleLoop :=
  { st.entered with
    priv := { st.priv with tscc := (st.priv.tscc + 1) &&& 0x0f }, point := .pusi }

/-- The loop has come to the next bytes of an SNDU in the cell and has counted the cell. -/
structure ToHeader (dev : NetDevice) (call : UleCall) (cc : Nat) (s : Sndu)
    (n fromWhere room : Nat) (st next : UleLoop) : Prop where
  reach : Reaches (uleStep dev call) st next
  point : next.point = .header
  held : AtHeader s n next.priv
  cursor : CursorAt call fromWhere room next
  ts : next.ts = st.ts
  tscc : next.priv.tscc = UInt8.ofNat ((cc + 1) % 16)
  frames : next.frames = st.frames

theorem enter_cell (hbefore : BeforeCell cur cc st) (hinside : st.ts < call.bufLen)
    (hcell : CellAt call.buf st.ts cc cell) : uleStep dev call st = some st.entered := by
  simp [entered, uleStep, hbefore.point, uleCell, hinside, hbefore.newTs, hcell.valid]

variable {priority : Bool} {bytes : Bytes}

section

variable (dev) (hbefore : BeforeCell (some (s, n)) cc st) (hinside : st.ts < call.bufLen)
include hbefore hinside

theorem synced_to_pusi (hcell : CellAt call.buf st.ts cc cell) :
    Reaches (uleStep dev call) st st.counted := by
  have hsynced := synced hbefore.between
  have hcounter := hcell.counter.trans (hbefore.counter rfl).symm
  have hsync : uleStep dev call st.entered = some (st.entered.goto .continuity) := by
    simp [entered, uleStep, uleSync, hsynced]
  have hcontinuity : uleStep dev call (st.entered.goto .continuity) = some st.counted := by
    simp [entered, counted, uleStep, goto, uleContinuity, hbefore.newTs, hcounter]
  exact ((reaches_step (enter_cell hbefore hinside hcell)).trans (reaches_step hsync)).trans
    (reaches_step hcontinuity)

theorem plain_to_header (hcell : CellAt call.buf st.ts cc ⟨false, priority, bytes⟩) :
    ∃ next, ToHeader dev call cc s n (st.ts + 4) 184 st next := by
  have hreach := synced_to_pusi dev hbefore hinside hcell
  have hpusi := hcell.pusi
  have hstep : uleStep dev call st.counted = some (st.counted.goto .header) := by
    simp [counted, entered, uleStep, ulePusi, hpusi]
  exact ⟨st.counted.goto .header, hreach.trans (reaches_step hstep), rfl,
    .inr (.tscc hbefore.between _), ⟨rfl, rfl, le_rfl, hinside⟩, rfl,
    counter_next (hbefore.counter rfl), rfl⟩

/-- In a cell with PUSI the pointer field agrees with what the SNDU in progress lacks. -/
theorem pusi_to_header (hroom : s.bytes.length - n + 2 ≤ 183)
    (hcell : CellAt call.buf st.ts cc ⟨true, priority, UInt8.ofNat (s.bytes.length - n) :: bytes⟩) :
    ∃ next, ToHeader dev call cc s n (st.ts + 5) 183 st next := by
  have hreach := synced_to_pusi dev hbefore hinside hcell
  have hpusi := hcell.pusi
  have hsync := synced hbefore.between
  have hrem := remain hbefore.between
  have hptr : (call.buf (st.ts + 4)).toNat = s.bytes.length - n := by
    have hfirst := congrArg (fun l => l[0]?) hcell.payload
    have hbyte : call.buf (st.ts + 4) = UInt8.ofNat (s.bytes.length - n) := by
      simpa [Mem.read] using hfirst
    rw [hbyte, UInt8.toNat_ofNat']
    omega
  have hagrees : ¬ (¬ ((call.buf (st.ts + 4)).toNat : Int) < (184 : Nat) - 1 ∨
      (call.buf (st.ts + 4)).toNat ≠ st.priv.uleSnduRemain) := by
    rw [hptr, hrem]
    omega
  have hstep : uleStep dev call st.counted = some ((st.counted.consume 1).goto .flush) := by
    simp only [counted, entered, uleStep, ulePusi, hpusi, hsync, if_true,
      if_neg hagrees, Bool.false_eq_true, not_false_eq_true]
  have hflush : uleStep dev call ((st.counted.consume 1).goto .flush) =
      some (((st.counted.consume 1).goto .flush).goto .header) := by
    have hsmall : ¬ st.priv.uleSnduRemain > 183 := by omega
    simp [counted, entered, uleStep, uleFlush, goto, consume, hsmall]
  have hleft : u8Sub 184 1 = 183 := by decide
  exact ⟨_, (hreach.trans (reaches_step hstep)).trans (reaches_step hflush), rfl,
    .inr (tscc hbefore.between _), ⟨rfl, hleft, by decide, hinside⟩, rfl,
    counter_next (hbefore.counter rfl), rfl⟩

end

variable (dev s) in
/-- The first SNDU of a cell on which the decoder synchronises. -/
theorem unsynced_to_header (hbefore : BeforeCell none cc st) (hinside : st.ts < call.bufLen)
    (hcell : CellAt call.buf st.ts cc ⟨true, priority, 0 :: bytes⟩) :
    ∃ next, ToHeader dev call cc s 0 (st.ts + 5) 183 st next := by
  have hclose := hbefore.between
  have hpusi := hcell.pusi
  have hptr : call.buf (st.ts + 4) = 0 := by
    have hfirst := congrArg (fun l => l[0]?) hcell.payload
    simpa [Mem.read] using hfirst
  let synced : UleLoop := { st with
    priv := { st.priv with tscc := UInt8.ofNat (cc % 16) }
    tsRemain := 183, fromWhere := st.ts + 5, point := .continuity }
  have hsync : uleStep dev call st.entered = some synced := by
    simp [entered, synced, uleStep, uleSync, hclose.needPusi_eq, hpusi, hptr, hcell.counter, u8Sub]
  let counted : UleLoop := { st with
    priv := { st.priv with tscc := (UInt8.ofNat (cc % 16) + 1) &&& 0x0f }
    tsRemain := 183, fromWhere := st.ts + 5, point := .pusi }
  have hcontinuity : uleStep dev call synced = some counted := by
    simp [synced, counted, uleStep, uleContinuity, hbefore.newTs, hcell.counter]
  let started : UleLoop := { counted with
    priv := { counted.priv with needPusi := false }, point := .flush }
  have hstart : uleStep dev call counted = some started := by
    simp [counted, started, uleStep, ulePusi, hpusi, hclose.needPusi_eq]
  have hflush : uleStep dev call started = some (started.goto .header) := by
    simp [counted, started, uleStep, uleFlush, hclose.remain]
  have hreach : Reaches (uleStep dev call) st (started.goto .header) :=
    ((((reaches_step (enter_cell hbefore hinside hcell)).trans (reaches_step hsync)).trans
      (reaches_step hcontinuity)).trans (reaches_step hstart)).trans (reaches_step hflush)
  refine ⟨started.goto .header, hreach, rfl, .inl ⟨rfl, ?_⟩,
    ⟨rfl, rfl, by decide, hinside⟩, rfl, counter_next rfl, rfl⟩
  exact ⟨rfl, hclose.skb, hclose.len, hclose.type1, hclose.bridged, hclose.remain⟩

structure OverCell (dev : NetDevice) (call : UleCall) (st next : UleLoop) (cur' : Sending)
    (cc : Nat) (sent : List Sndu) : Prop where
  reach : Reaches (uleStep dev call) st next
  before : BeforeCell cur' (cc + 1) next
  ts : next.ts = st.ts + 188
  frames : next.frames = st.frames ++ received dev sent

variable {cur' : Sending} {bytes : Bytes} {todo todo' : List Sndu}

/-- What the rest of the cell has is received. -/
theorem ToHeader.over {header : UleLoop} {fromWhere room : Nat}
    (hhdr : ToHeader dev call cc s n fromWhere room st header) (hroom : 2 ≤ room)
    (hfills : Fills room (some (s, n)) todo bytes cur' todo')
    (halloc : ∀ k, (call.alloc k).isSome) (hread : call.buf.read fromWhere room = bytes) :
    ∃ next sent, OverCell dev call st next cur' cc sent ∧
      pending (some (s, n)) todo = sent ++ pending cur' todo' := by
  obtain ⟨sent, hsent, next, hrest, hpoint, hnew, hnext, hbetween, hcounter, hframes⟩ :=
    fill_run hfills halloc ⟨hhdr.point, hhdr.held, hroom⟩ hhdr.cursor hread
  exact ⟨next, sent, ⟨hhdr.reach.trans hrest,
    ⟨hpoint, hnew, hbetween, fun _ => hcounter.trans hhdr.tscc⟩, hhdr.ts ▸ hnext,
    hhdr.frames ▸ hframes⟩, hsent⟩

/-- Without an SNDU in progress a cell in which none starts is stuffing. -/
theorem Fills.none_eq {room : Nat} (hfills : Fills room none todo bytes cur' todo) :
    cur' = none := by
  generalize htodo : todo = todo' at hfills
  cases hfills with
  | stuffing => rfl
  | starts hroom hrest =>
    have hlen := hrest.length_le
    simp at hlen

theorem CellAt.behind_pointer {pointer : UInt8} {buf : Mem UInt8} {ts : Nat}
    (hcell : CellAt buf ts cc ⟨true, priority, pointer :: bytes⟩) :
    buf.read (ts + 5) 183 = bytes := by
  have hpay := hcell.payload
  rw [show 184 = 1 + 183 from rfl, Mem.read_add] at hpay
  exact (append_inj hpay (by simp : _ = [pointer].length)).2

variable (dev) in
theorem cell_run {cells : List UleCell} (hpacks : Packs cur todo (cell :: cells))
    (hbefore : BeforeCell cur cc st) (hinside : st.ts < call.bufLen)
    (hcell : CellAt call.buf st.ts cc cell) (halloc : ∀ k, (call.alloc k).isSome) :
    ∃ next cur' todo' sent, OverCell dev call st next cur' cc sent ∧ Packs cur' todo' cells ∧
      pending cur todo = sent ++ pending cur' todo' := by
  cases hpacks with
  | @plain _ cur' _ bytes _ priority hfills hrest =>
    cases cur with
    | none =>
      -- the decoder waits for a PUSI and skips the cell
      obtain rfl := hfills.none_eq
      have hclose := hbefore.between
      have hpusi := hcell.pusi
      have hskip : uleStep dev call st.entered = some st.entered.nextCell := by
        simp [entered, uleStep, uleSync, hclose.needPusi_eq, hpusi]
      refine ⟨st.entered.nextCell, none, todo, [], ⟨?_, ?_, rfl, ?_⟩, hrest, rfl⟩
      · exact (reaches_step (enter_cell hbefore hinside hcell)).trans (reaches_step hskip)
      · exact ⟨rfl, hbefore.newTs, hclose, fun hsome => by cases hsome⟩
      · exact (append_nil _).symm
    | some sending =>
      obtain ⟨header, hhdr⟩ := plain_to_header dev hbefore hinside hcell
      obtain ⟨next, sent, hover, hsent⟩ := hhdr.over (by decide) hfills halloc hcell.payload
      exact ⟨next, cur', todo, sent, hover, hrest, hsent⟩
  | @pusi _ cur' _ todo' bytes _ priority hfills hstart hrest =>
    have hroom := hfills.toSend_le hstart
    cases cur with
    | none =>
      cases hfills with
      | stuffing => exact absurd rfl hstart
      | @starts _ s _ _ _ _ htwo hfirst =>
        obtain ⟨header, hhdr⟩ := unsynced_to_header dev s hbefore hinside hcell
        obtain ⟨next, sent, hover, hsent⟩ := hhdr.over htwo hfirst halloc hcell.behind_pointer
        exact ⟨next, cur', todo', sent, hover, hrest, hsent⟩
    | some sending =>
      obtain ⟨header, hhdr⟩ := pusi_to_header dev hbefore hinside hroom hcell
      obtain ⟨next, sent, hover, hsent⟩ :=
        hhdr.over (by decide) hfills halloc hcell.behind_pointer
      exact ⟨next, cur', todo', sent, hover, hrest, hsent⟩

variable (dev) in
theorem call_run {pid : Fin 8192} {now later : List UleCell} {i : Nat}
    (hpacks : Packs cur todo (now ++ later))
    (hbuf : ∀ j cell, now[j]? = some cell →
      call.buf.read (188 * (i + j)) 188 = cellBytes pid (cc + j) cell)
    (hlen : call.bufLen = 188 * (i + now.length)) (hts : st.ts = 188 * i)
    (hbefore : BeforeCell cur cc st) (halloc : ∀ k, (call.alloc k).isSome) :
    ∃ last cur' todo' sent, last ∈ eval (uleStep dev call) st ∧
      BeforeCell cur' (cc + now.length) last ∧ Packs cur' todo' later ∧
      pending cur todo = sent ++ pending cur' todo' ∧
      last.frames = st.frames ++ received dev sent := by
  induction now generalizing cur todo st i cc with
  | nil =>
    have hend : uleStep dev call st = none := by
      have hnone : ¬ st.ts < call.bufLen := by
        rw [length_nil] at hlen
        omega
      simp [uleStep, hbefore.point, uleCell, hnone]
    exact ⟨st, cur, todo, [], mem_eval.mpr ⟨.refl, hend⟩, hbefore, hpacks, rfl, (append_nil _).symm⟩
  | cons cell rest ih =>
    have hinside : st.ts < call.bufLen := by
      rw [length_cons] at hlen
      omega
    have hcell : CellAt call.buf st.ts cc cell := by
      rw [hts]
      exact cellAt_of_read (hbuf 0 cell rfl)
    obtain ⟨next, cur1, todo1, sent1, hover, hpacks1, hsent1⟩ :=
      cell_run dev hpacks hbefore hinside hcell halloc
    have hbuf1 : ∀ j cell, rest[j]? = some cell →
        call.buf.read (188 * (i + 1 + j)) 188 = cellBytes pid (cc + 1 + j) cell := by
      intro j later hlater
      have hread := hbuf (j + 1) later hlater
      rwa [add_comm j 1, ← add_assoc, ← add_assoc] at hread
    obtain ⟨last, cur', todo', sent2, hlast, hpre', hpacks', hsent2, hframes⟩ :=
      ih hpacks1 hbuf1 (by simp only [length_cons] at hlen; omega)
        (by rw [hover.ts, hts]; omega) hover.before
    refine ⟨last, cur', todo', sent1 ++ sent2, ?_, ?_, hpacks', ?_, ?_⟩
    · rwa [reaches_eval hover.reach]
    · rwa [length_cons, add_comm rest.length 1, ← add_assoc]
    · rw [hsent1, hsent2, append_assoc]
    · rw [hframes, hover.frames, received_append, append_assoc]

end Cells

/-- However the cells are grouped into calls, the SNDUs that are meant for the device come out. -/
theorem calls_run (dev : NetDevice) {pid : Fin 8192} {cc : Nat} {todo : List Sndu}
    {cells : List UleCell} {calls : List UleCall} {p : DvbNetPriv} (hpacks : Packs cur todo cells)
    (hgroup : Grouped pid cc cells calls) (hbefore : BeforeCell cur cc (uleStart p)) :
    ∃ enough, ∀ fuel ≥ enough,
      dvbNetUleCalls dev fuel calls p = some (received dev (pending cur todo)) := by
  induction calls generalizing cc cur todo cells p with
  | nil =>
    obtain rfl : cells = [] := hgroup
    cases hpacks with
    | done => exact ⟨0, fun _ _ => rfl⟩
  | cons call rest ih =>
    obtain ⟨now, later, rfl, hcarry, hlater⟩ := hgroup
    obtain ⟨last, cur', todo', sent, hlast, hpre', hpacks', hsent, hframes⟩ :=
      call_run dev (i := 0) hpacks (fun j cell hcell => by
        rw [zero_add]
        exact hcarry.buf j cell hcell) (by rw [hcarry.len, zero_add]) rfl hbefore
        hcarry.alloc
    obtain ⟨fuel1, hrun⟩ := exists_run_of_mem_eval hlast
    obtain ⟨fuel2, hcalls⟩ := ih hpacks' hlater
      (p := last.priv) ⟨rfl, rfl, hpre'.between, hpre'.counter⟩
    refine ⟨max fuel1 fuel2, ?_⟩
    intro fuel hfuel
    have hfirst : dvbNetUle dev fuel call p = some (last.priv, last.frames) := by
      rw [dvbNetUle, runMachine_mono hrun (le_trans (le_max_left _ _) hfuel)]
      rfl
    simp only [dvbNetUleCalls, hfirst, Option.bind_eq_bind, Option.bind_some,
      hcalls fuel (le_trans (le_max_right _ _) hfuel)]
    rw [hframes, hsent, received_append]
    rfl

/-- The decoder undoes the encapsulation: from a state in which it awaits a PUSI, for every
packing of SNDUs into cells and every grouping of the cells into calls, the frames that it hands
up are those of the SNDUs that are meant for the device, in order. -/
theorem decapsulation_undoes_encapsulation (dev : NetDevice) (pid : Fin 8192) (cc : Nat)
    (sndus : List Sndu) (cells : List UleCell) (calls : List UleCall) (p : DvbNetPriv)
    (hstart : Closed true p) (hpacks : Packs none sndus cells)
    (hgrouped : Grouped pid cc cells calls) :
    ∃ enough, ∀ fuel ≥ enough, dvbNetUleCalls dev fuel calls p = some (received dev sndus) :=
  calls_run dev hpacks hgrouped ⟨rfl, rfl, hstart, fun hsome => by cases hsome⟩

def sampleSndu (dest : Option EthAddr) : Sndu :=
  { dest := dest, type := 0x0800, payload := [0x2a]
    type_ge := by decide
    type_lt := by decide
    length_ge := by cases dest <;> simp [snduLength, destBytes]
    length_ge_dest := by cases dest <;> simp [snduLength, destBytes]
    length_le := by cases dest <;> simp [snduLength, destBytes] }

/-- An SNDU that is too long for a cell. -/
def longSndu : Sndu :=
  { sampleSndu none with
    payload := List.replicate 200 0x2a
    length_ge := by decide +kernel
    length_ge_dest := by decide +kernel
    length_le := by decide +kernel }

def splitCells : List UleCell :=
  [⟨true, false, 0 :: ((sampleSndu none).bytes ++ longSndu.bytes.take 174)⟩,
    ⟨false, false, longSndu.bytes.drop 174 ++ List.replicate 150 0xff⟩]

theorem packs_splitCells : Packs none [sampleSndu none, longSndu] splitCells := by
  have hlen : longSndu.bytes.length = 208 := by decide +kernel
  have hrest : Fills 184 (some (longSndu, 174)) []
      (longSndu.bytes.drop 174 ++ List.replicate 150 0xff) none [] :=
    .ends (by rw [hlen]; decide) (by rw [hlen]; exact .stuffing 150 [])
  exact .pusi false (.starts (by decide) (.ends (by decide) (.starts (by decide)
    (.goesOn [] (by rw [hlen]; decide))))) (by simp) (.plain false hrest .done)

def cellCall (cc : Nat) (cell : UleCell) : UleCall :=
  { sampleCall [] with buf := Mem.memcpy (fun _ => 0xff) 0 (cellBytes 0 cc cell) }

theorem grouped_cellCall {cc : Nat} {cell : UleCell} {cells : List UleCell} {calls : List UleCall}
    (hlen : cell.payload.length = 184) (hrest : Grouped 0 (cc + 1) cells calls) :
    Grouped 0 cc (cell :: cells) (cellCall cc cell :: calls) := by
  refine ⟨[cell], cells, rfl, ⟨rfl, ?_, fun _ => rfl⟩, hrest⟩
  rintro (_ | _) _ ⟨⟩
  have hself := Mem.read_memcpy_self (fun _ => 0xff) 0 (cellBytes 0 cc cell)
  rwa [show (cellBytes 0 cc cell).length = 188 by simp [cellBytes, hlen]] at hself

/-- Two SNDUs without an address, the second one split over two calls. -/
theorem sample_sndu_received :
    received sampleDevice [sampleSndu none, longSndu] =
        [⟨List.replicate 12 0 ++ [0x08, 0x00], [0x2a], 0x0800, .host⟩,
          ⟨List.replicate 12 0 ++ [0x08, 0x00], List.replicate 200 0x2a, 0x0800, .host⟩] ∧
      ∃ enough, ∀ fuel ≥ enough, dvbNetUleCalls sampleDevice fuel (splitCells.mapIdx cellCall)
        samplePriv = some (received sampleDevice [sampleSndu none, longSndu]) :=
  ⟨by decide +kernel, decapsulation_undoes_encapsulation sampleDevice 0 0 _ splitCells _ samplePriv
    ⟨rfl, rfl, rfl, rfl, rfl, rfl⟩ packs_splitCells
    (grouped_cellCall (by decide +kernel) (grouped_cellCall (by decide +kernel) rfl))⟩

def sampleCell (s : Sndu) : UleCell :=
  ⟨true, false, 0 :: (s.bytes ++ List.replicate (183 - s.bytes.length) 0xff)⟩

def groupDevice : NetDevice :=
  { sampleDevice with devAddr := #v[0x03, 0, 0, 0, 0, 0x01] }

def ownSndu : Sndu := sampleSndu (some groupDevice.devAddr)

/-- An SNDU for that device is dropped like one for a group that it is not in. -/
theorem own_group_address_dropped :
    ownSndu.dest = some groupDevice.devAddr ∧ Closed true samplePriv ∧
      Packs none [ownSndu] [sampleCell ownSndu] ∧
      Grouped 0 0 [sampleCell ownSndu] [sampleCall (sampleCell ownSndu).payload] ∧
      dvbNetUleCalls groupDevice 20 [sampleCall (sampleCell ownSndu).payload] samplePriv =
        some [] := by
  refine ⟨rfl, ⟨rfl, rfl, rfl, rfl, rfl, rfl⟩, ?_, ?_, by decide +kernel⟩
  · exact .pusi false (.starts (by decide) (.ends (by decide) (.stuffing _ []))) (by simp) .done
  · exact grouped_cellCall (by decide +kernel) rfl

end TbsMedia.DvbNet
