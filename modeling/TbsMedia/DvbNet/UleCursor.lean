import TbsMedia.DvbNet.Ule

/-!
The cursor of the ULE decoder on arbitrary bytes. In every cell `from_where` and `ts_remain`
add up to the cell's end, whatever the cells hold, but for one value of the pointer field: the
check of it lets 184 pass, and `ts_remain` wraps around. And the loop ends but for SNDUs whose
chain of extension headers does not.
-/

namespace TbsMedia.DvbNet

open Lib StateTransition Relation List
open Option (isNone_iff_eq_none some_ne_none)
open UleLoop (goto consume nextCell resync snduDone)

/-- The offsets at which a step reads the buffer; with a wrong CRC32 there is a message that
shows the bytes behind it. -/
def uleReads (call : UleCall) (st : UleLoop) : List Nat :=
  match st.point with
  | .cell => if st.ts < call.bufLen ∧ st.newTs then [st.ts, st.ts + 1, st.ts + 3] else []
  | .sync =>
    if st.priv.needPusi then
      (st.ts + 1) :: if isPusi call.buf st.ts then [st.ts + 3, st.ts + 4] else []
    else []
  | .continuity => if st.newTs then [st.ts + 3] else []
  | .pusi =>
    (st.ts + 1) ::
      if isPusi call.buf st.ts ∧ ¬ st.priv.needPusi then [st.fromWhere] else []
  | .flush => if st.priv.uleSnduRemain > 183 then [st.ts + 4] else []
  | .header =>
    if st.priv.uleSkb.isNone ∧ 2 ≤ st.tsRemain ∧ st.priv.uleSnduLen = 0 then
      [st.fromWhere, st.fromWhere + 1]
    else []
  | .type =>
    match st.tsRemain with
    | 0 => []
    | 1 => [st.fromWhere]
    | _ => if st.priv.uleSnduType1 then [st.fromWhere] else [st.fromWhere, st.fromWhere + 1]
  | .copy =>
    (List.range (min st.priv.uleSnduRemain st.tsRemain)).map (st.fromWhere + ·)
  | .complete => if st.tsRemain > 2 then [st.fromWhere, st.fromWhere + 1] else []
  | .more => if st.tsRemain ≥ 2 then [st.fromWhere, st.fromWhere + 1] else []
  | _ => []

/-- The step depends on no other byte of the buffer. -/
theorem uleStep_congr {dev : NetDevice} {call : UleCall} {st : UleLoop} {buf : Mem UInt8}
    (hsame : ∀ a ∈ uleReads call st, buf a = call.buf a) :
    uleStep dev { call with buf := buf } st = uleStep dev call st := by
  have hpusi (h : buf (st.ts + 1) = call.buf (st.ts + 1)) :
      isPusi buf st.ts = isPusi call.buf st.ts := by
    rw [isPusi, isPusi, h]
  cases hpoint : st.point <;> simp only [uleStep, hpoint] <;> simp only [uleReads, hpoint] at hsame
  case cell | continuity | flush | more =>
    simp only [uleCell, isInvalid, uleContinuity, uleFlush, uleMore]
    split_ifs at hsame ⊢ <;> simp_all
  case sync =>
    cases hneed : st.priv.needPusi <;> simp [uleSync, hneed] at hsame ⊢
    cases hboth : isPusi call.buf st.ts <;> simp_all
  case pusi =>
    rw [ulePusi, ulePusi, hpusi (hsame _ mem_cons_self)]
    cases hboth : isPusi call.buf st.ts <;> cases hneed : st.priv.needPusi <;> simp_all
  case header =>
    unfold uleHeader
    split_ifs at hsame with hread
    · have hfield : buf.be16 st.fromWhere = call.buf.be16 st.fromWhere := by simp_all [Mem.be16]
      simp only [hfield]
    · dsimp only
      split_ifs <;> first | rfl | grind
  case type =>
    unfold uleType
    rcases hroom : st.tsRemain with _ | _ | rest <;> rw [hroom] at hsame <;>
      split_ifs at hsame ⊢ <;> simp_all [Mem.be16]
  case alloc => rfl
  case copy =>
    have hread := Mem.read_congr buf call.buf st.fromWhere _ fun i hi =>
      hsame _ (mem_map_of_mem (mem_range.mpr hi))
    simp only [uleCopy, hread]

/-- Whether `ts_remain` and `from_where` are set for the cell at `ts`. -/
def CursorSet (st : UleLoop) : Prop :=
  match st.point with
  | .cell => st.newTs = false
  | .returned | .oops => False
  | _ => True

/-- Whether the SNDU's buffer is still being filled, or has just been: from the check of the
CRC32 on it belongs to the frame. -/
def Filling (st : UleLoop) : Prop :=
  match st.point with
  | .extension _ _ | .deliver _ => False
  | _ => True

structure UleGood (call : UleCall) (st : UleLoop) : Prop where
  cursor : CursorSet st → st.fromWhere + st.tsRemain = st.ts + tsSz ∧ st.tsRemain ≤ 184
  reads : ∀ a ∈ uleReads call st, st.ts ≤ a ∧ a < st.ts + tsSz ∧ st.ts + tsSz ≤ call.bufLen
  opened : Filling st → ∀ skb, st.priv.uleSkb = some skb →
    skb.len + st.priv.uleSnduRemain = st.priv.uleSnduLen
  known : st.point ≠ .oops

def extensionNext (skb : SkBuff) (snduLen : Nat) (dbit : Bool) (ext : UleExtension) :
    Option UleExtension :=
  match handleOneUleExtension skb snduLen dbit ext with
  | .next ext => if ext.snduType < 1536 then some ext else none
  | _ => none

/-- The chain of extension headers comes to an end, and not behind the handlers' tables. -/
def ExtensionsEnd (skb : SkBuff) (snduLen : Nat) (dbit : Bool) (ext : UleExtension) : Prop :=
  ∃ last ∈ eval (extensionNext skb snduLen dbit) ext,
    handleOneUleExtension skb snduLen dbit last ≠ .oops

/-- What the decoder has to be spared: a cell on which it synchronises with the pointer field
184, and an endless chain of extension headers. -/
def UleCond (call : UleCall) (st : UleLoop) : Prop :=
  match st.point with
  | .sync =>
    st.priv.needPusi = true → isPusi call.buf st.ts = true →
      (call.buf (st.ts + 4)).toNat ≠ 184
  | .extension _ ext =>
    ∀ skb, st.priv.uleSkb = some skb →
      ExtensionsEnd skb st.priv.uleSnduLen st.priv.uleDbit ext
  | _ => True

/-- The cursor stands in the cell at `ts`, which lies in the buffer. -/
structure InCell (bufLen ts fromWhere tsRemain : Nat) : Prop where
  cursor : fromWhere + tsRemain = ts + 188
  start : ts + 4 ≤ fromWhere
  inside : ts + 188 ≤ bufLen

theorem InCell.consume {bufLen ts fromWhere tsRemain n : Nat}
    (hin : InCell bufLen ts fromWhere tsRemain) (hn : n ≤ tsRemain) :
    InCell bufLen ts (fromWhere + n) (u8Sub tsRemain n) := by
  obtain ⟨hcur, hstart, hinside⟩ := hin
  have hsub := u8Sub_of_le hn (by omega)
  refine ⟨?_, ?_, hinside⟩ <;> omega

structure PrivOk (p : DvbNetPriv) : Prop where
  opened : ∀ skb, p.uleSkb = some skb → skb.len + p.uleSnduRemain = p.uleSnduLen
  unsynced : p.needPusi = true → p.uleSkb = none ∧ p.uleSnduRemain = 0
  idle : p.uleSkb = none → p.uleSnduLen = 0 → p.uleSnduRemain = 0

open PrivOk

structure Idle (p : DvbNetPriv) : Prop where
  synced : p.needPusi = false
  closed : p.uleSkb = none
  len : p.uleSnduLen = 0

section PrivOk

variable {p : DvbNetPriv}

theorem PrivOk.closed (hnone : p.uleSkb = none) (hzero : p.uleSnduRemain = 0) : PrivOk p :=
  ⟨fun skb hskb => by simp [hnone] at hskb, fun _ => ⟨hnone, hzero⟩, fun _ _ => hzero⟩

theorem PrivOk.parsing (hsync : p.needPusi = false) (hnone : p.uleSkb = none)
    (hlen : p.uleSnduLen ≠ 0) : PrivOk p :=
  ⟨fun skb hskb => by simp [hnone] at hskb, fun htrue => by simp [hsync] at htrue,
    fun _ hzero => absurd hzero hlen⟩

theorem PrivOk.filling {skb : SkBuff} (hsync : p.needPusi = false) (hskb : p.uleSkb = some skb)
    (hlen : skb.len + p.uleSnduRemain = p.uleSnduLen) : PrivOk p := by
  refine ⟨?_, fun htrue => by simp [hsync] at htrue, fun hnone => by simp [hskb] at hnone⟩
  intro skb' hskb'
  rw [hskb] at hskb'
  cases hskb'
  exact hlen

theorem PrivOk.reset (p : DvbNetPriv) : PrivOk (resetUle p) := closed rfl rfl

theorem PrivOk.resync (p : DvbNetPriv) : PrivOk { resetUle p with needPusi := true } :=
  closed rfl rfl

end PrivOk

abbrev UleLoop.InCell (st : UleLoop) (call : UleCall) : Prop :=
  DvbNet.InCell call.bufLen st.ts st.fromWhere st.tsRemain

def UleInv (call : UleCall) (st : UleLoop) : Prop :=
  188 ∣ st.ts ∧
  match st.point with
  | .cell => PrivOk st.priv ∧ (st.newTs = false →
      st.InCell call ∧ 2 ≤ st.tsRemain ∧ Idle st.priv)
  | .sync => PrivOk st.priv ∧ st.InCell call ∧
      (st.newTs = true → st.fromWhere = st.ts + 4) ∧
      (st.newTs = false → 2 ≤ st.tsRemain ∧ Idle st.priv)
  | .continuity => PrivOk st.priv ∧ st.InCell call ∧
      (st.priv.needPusi = true → isPusi call.buf st.ts = true ∧
        call.buf (st.ts + 3) &&& 0x0f = st.priv.tscc) ∧
      (st.priv.needPusi = false → st.newTs = true → st.fromWhere = st.ts + 4) ∧
      (st.newTs = false → 2 ≤ st.tsRemain ∧ Idle st.priv)
  | .pusi => PrivOk st.priv ∧ st.InCell call ∧ st.newTs = true ∧
      (st.priv.needPusi = true → isPusi call.buf st.ts = true) ∧
      (st.priv.needPusi = false → st.fromWhere = st.ts + 4)
  | .flush => PrivOk st.priv ∧ st.InCell call ∧ st.newTs = true ∧
      st.priv.needPusi = false ∧ st.priv.uleSnduRemain ≤ 183 ∧
      (st.tsRemain < 2 → st.priv.uleSnduRemain = 0)
  | .header => PrivOk st.priv ∧ st.InCell call ∧ st.priv.needPusi = false ∧
      (st.tsRemain < 2 → st.priv.uleSnduRemain = 0) ∧
      (st.newTs = false → 2 ≤ st.tsRemain ∧ Idle st.priv)
  | .type | .alloc => st.InCell call ∧ st.priv.needPusi = false ∧
      st.priv.uleSkb = none ∧ st.priv.uleSnduLen ≠ 0
  | .copy | .complete => PrivOk st.priv ∧ st.InCell call ∧ st.priv.needPusi = false ∧
      st.priv.uleSkb ≠ none
  | .extension _ _ | .deliver _ => st.InCell call ∧ st.priv.needPusi = false ∧
      st.priv.uleSkb ≠ none
  | .more => PrivOk st.priv ∧ st.InCell call ∧ st.priv.needPusi = false ∧
      (st.priv.uleSkb ≠ none → st.tsRemain = 0) ∧
      (st.priv.uleSkb = none → st.priv.uleSnduRemain = 0)
  | .returned => PrivOk st.priv
  | .oops => False

section Steps

variable {dev : NetDevice} {call : UleCall} {st next : UleLoop}

theorem UleInv.inCell (hinv : UleInv call st) (hset : CursorSet st) : st.InCell call := by
  cases hpoint : st.point <;> simp only [UleInv, CursorSet, hpoint] at hinv hset
  case cell => exact (hinv.2.2 hset).1
  case type | alloc | extension | deliver => exact hinv.2.1
  all_goals exact hinv.2.2.1

/-- What is left to do in a cell, extension headers aside: the ways to look at it, the bytes
and the points. -/
def cellWeight (point : UlePoint) (newTs needPusi : Bool) (tsRemain : Nat) : Nat :=
  match point with
  | .cell => bif newTs then (bif needPusi then 8000 else 9000) else 20 * tsRemain + 14
  | .sync => bif newTs then (bif needPusi then 7900 else 8900) else 20 * tsRemain + 13
  | .continuity => bif newTs then (bif needPusi then 7800 else 8800) else 20 * tsRemain + 12
  | .pusi => bif needPusi then 7700 else 8700
  | .flush => 20 * tsRemain + 2000
  | .header => bif newTs then 20 * tsRemain + 1000 else 20 * tsRemain + 11
  | .type => 20 * tsRemain + 30
  | .alloc => 20 * tsRemain + 29
  | .copy => 20 * tsRemain + 28
  | .complete => 20 * tsRemain + 27
  | .extension _ _ => 20 * tsRemain + 26
  | .deliver _ => 20 * tsRemain + 25
  | .more => 20 * tsRemain + 15
  | .returned | .oops => 0

def uleWeight (call : UleCall) (st : UleLoop) : Nat :=
  (call.bufLen - st.ts) * 100 + cellWeight st.point st.newTs st.priv.needPusi st.tsRemain

noncomputable def headersLeft (st : UleLoop) : Nat :=
  match st.point, st.priv.uleSkb with
  | .extension _ ext, some skb =>
    stepsLeft (extensionNext skb st.priv.uleSnduLen st.priv.uleDbit) ext
  | _, _ => 0

/-- The order that every step goes down: first the weight, then the extension headers. -/
def Nearer (call : UleCall) : UleLoop → UleLoop → Prop :=
  InvImage (Prod.Lex (· < ·) (· < ·)) (fun st => (uleWeight call st, headersLeft st))

theorem nearer_wf (call : UleCall) : WellFounded (Nearer call) :=
  InvImage.wf _ (.prod_lex Nat.lt_wfRel.wf Nat.lt_wfRel.wf)

structure Advances (call : UleCall) (st next : UleLoop) : Prop where
  inv : UleInv call next
  nearer : Nearer call next st

theorem Advances.within (hinv : UleInv call next) (hts : next.ts = st.ts)
    (hless : cellWeight next.point next.newTs next.priv.needPusi next.tsRemain <
      cellWeight st.point st.newTs st.priv.needPusi st.tsRemain) :
    Advances call st next := by
  refine ⟨hinv, Prod.Lex.left _ _ ?_⟩
  simp only [uleWeight, hts]
  omega

theorem Advances.nextCell (hdvd : 188 ∣ st.ts) (hin : st.ts + 188 ≤ call.bufLen)
    (hts : next.ts = st.ts) (hpriv : PrivOk next.priv) (hnew : next.newTs = true) :
    Advances call st next.nextCell := by
  have hcell : cellWeight .cell true next.priv.needPusi next.tsRemain ≤ 9000 := by
    cases next.priv.needPusi <;> simp [cellWeight]
  refine ⟨⟨?_, hpriv, ?_⟩, Prod.Lex.left _ _ ?_⟩
  · simp only [UleLoop.nextCell, hts]
    exact Dvd.dvd.add hdvd (dvd_refl 188)
  · intro hold
    simp [UleLoop.nextCell, hnew] at hold
  · simp only [uleWeight, UleLoop.nextCell, hnew, hts, tsSz]
    omega

theorem UleInv.resync (hts : 188 ∣ st.ts) (hnew : st.newTs = true) :
    UleInv call (st.resync.goto .cell) := by
  refine ⟨hts, .resync st.priv, ?_⟩
  intro hold
  simp [UleLoop.resync, UleLoop.goto, hnew] at hold

/-- A cell in which no new SNDU is looked for is looked at for the first time. -/
theorem newTs_of_not_idle (hold : st.newTs = false → 2 ≤ st.tsRemain ∧ Idle st.priv)
    (hnot : ¬ (2 ≤ st.tsRemain ∧ Idle st.priv)) : st.newTs = true := by
  by_contra hfalse
  exact hnot (hold (Bool.eq_false_iff.mpr hfalse))

theorem newTs_of_unsynced (hold : st.newTs = false → 2 ≤ st.tsRemain ∧ Idle st.priv)
    (hneed : st.priv.needPusi = true) : st.newTs = true := by
  apply newTs_of_not_idle hold
  intro hidle
  have hsync := hidle.2.synced
  simp [hneed] at hsync

theorem UleInv.snduDone (hts : 188 ∣ st.ts) (hin : st.InCell call)
    (hsync : st.priv.needPusi = false) : UleInv call st.snduDone :=
  ⟨hts, reset st.priv, hin, hsync, fun hfalse => absurd rfl hfalse, fun _ => rfl⟩

section

variable (hcells : 188 ∣ call.bufLen) (hinv : UleInv call st)
include hinv

include hcells in
theorem uleCell_advances (hpoint : st.point = .cell) (hstep : uleCell call st = some next) :
    Advances call st next := by
  simp only [UleInv, hpoint] at hinv
  obtain ⟨hts, hpriv, hold⟩ := hinv
  have hinside : st.ts < call.bufLen → st.ts + 188 ≤ call.bufLen := by omega
  rw [uleCell] at hstep
  split_ifs at hstep with hlt hnew hbad
  · cases hstep
    exact .nextCell hts (hinside hlt) rfl (resync st.priv) hnew
  · cases hstep
    refine .within ⟨hts, hpriv, ⟨rfl, le_rfl, hinside hlt⟩, fun _ => rfl, ?_⟩ rfl ?_
    · intro hfalse
      simp [hnew] at hfalse
    · simp only [hpoint, hnew]
      cases st.priv.needPusi <;> simp [cellWeight]
  · cases hstep
    have hnew := Bool.eq_false_iff.mpr hnew
    obtain ⟨hin, hroom, hidle⟩ := hold hnew
    refine .within ⟨hts, hpriv, hin, ?_, fun _ => ⟨hroom, hidle⟩⟩ rfl ?_
    · intro htrue
      simp [goto, hnew] at htrue
    · simp [hpoint, goto, hnew, cellWeight]

theorem uleSync_advances (hpoint : st.point = .sync) (hcond : UleCond call st) :
    Advances call st (uleSync call st) := by
  simp only [UleInv, hpoint] at hinv
  simp only [UleCond, hpoint] at hcond
  obtain ⟨hts, hpriv, hin, hfrom, hold⟩ := hinv
  rw [uleSync]
  split_ifs with hneed hpusi
  · have hnew := newTs_of_unsynced hold hneed
    have hsync : PrivOk { st.priv with tscc := call.buf (st.ts + 3) &&& 0x0f } := { hpriv with }
    dsimp only
    split_ifs with hptr
    · exact .nextCell hts hin.inside rfl hsync hnew
    have hne := hcond hneed hpusi
    obtain ⟨hcur, -, hinside⟩ := hin
    have hstart := hfrom hnew
    have hsub : u8Sub st.tsRemain (1 + (call.buf (st.ts + 4)).toNat) =
        st.tsRemain - (1 + (call.buf (st.ts + 4)).toNat) :=
      u8Sub_of_le (by omega) (by omega)
    refine .within ⟨hts, hsync, ⟨?_, ?_, hinside⟩, fun _ => ⟨hpusi, rfl⟩, ?_, ?_⟩ rfl ?_
    · simp only [hsub]
      omega
    · simp only
      omega
    · intro hfalse
      simp [hneed] at hfalse
    · intro hfalse
      simp [hnew] at hfalse
    · simp [hpoint, hneed, hnew, cellWeight]
  · exact .nextCell hts hin.inside rfl hpriv (newTs_of_unsynced hold hneed)
  · refine .within ⟨hts, hpriv, hin, fun htrue => absurd htrue hneed, fun _ => hfrom, hold⟩ rfl ?_
    simp only [hpoint, goto, Bool.eq_false_iff.mpr hneed]
    cases st.newTs <;> simp [cellWeight]

theorem uleContinuity_advances (hpoint : st.point = .continuity) :
    Advances call st (uleContinuity call st) := by
  simp only [UleInv, hpoint] at hinv
  obtain ⟨hts, hpriv, hin, hpusi, hfrom, hold⟩ := hinv
  rw [uleContinuity]
  split_ifs with hnew hcc
  · refine .within ⟨hts, { hpriv with }, hin, hnew,
      fun hneed => (hpusi hneed).1, fun hsync => hfrom hsync hnew⟩ rfl ?_
    simp only [hpoint, hnew]
    cases st.priv.needPusi <;> simp [cellWeight]
  · -- a cell on which the decoder synchronises agrees with its own counter
    have hsync : st.priv.needPusi = false := by
      apply Bool.eq_false_iff.mpr
      intro hneed
      exact hcc (hpusi hneed).2
    refine .within (.resync hts hnew) rfl ?_
    simp [hpoint, hnew, hsync, UleLoop.resync, UleLoop.goto, cellWeight]
  · have hnew := Bool.eq_false_iff.mpr hnew
    obtain ⟨hroom, hidle⟩ := hold hnew
    refine .within ⟨hts, hpriv, hin, hidle.synced,
      fun hsmall => absurd hroom hsmall.not_ge, fun _ => ⟨hroom, hidle⟩⟩ rfl ?_
    simp [hpoint, UleLoop.goto, hnew, cellWeight]

theorem ulePusi_advances (hpoint : st.point = .pusi) : Advances call st (ulePusi call st) := by
  simp only [UleInv, hpoint] at hinv
  obtain ⟨hts, hpriv, hin, hnew, hset, hfrom⟩ := hinv
  have hcur := hin.cursor
  have hstart := hin.start
  rw [ulePusi]
  split_ifs with hpusi hneed
  · have hzero := (hpriv.unsynced hneed).2
    refine .within ⟨hts, ⟨hpriv.opened, fun hfalse => (Bool.false_ne_true hfalse).elim,
      hpriv.idle⟩, hin, hnew, rfl, ?_, fun _ => hzero⟩ rfl ?_
    · simp only [hzero]
      omega
    · simp only [hpoint, hneed, cellWeight, cond_true]
      omega
  · have hneed := Bool.eq_false_iff.mpr hneed
    have hstart := hfrom hneed
    dsimp only
    split_ifs with hptr
    · refine .within (.resync hts hnew) rfl ?_
      simp [hpoint, hneed, UleLoop.resync, UleLoop.goto, hnew, cellWeight]
    push Not at hptr
    have hbyte := (call.buf st.fromWhere).toNat_lt
    have hmove := hin.consume (n := 1) (by omega)
    have hsub : u8Sub st.tsRemain 1 = st.tsRemain - 1 := u8Sub_of_le (by omega) (by omega)
    refine .within ⟨hts, hpriv, hmove, hnew, hneed, ?_, ?_⟩ rfl ?_
    · simp only [UleLoop.goto, UleLoop.consume]
      omega
    · simp only [UleLoop.goto, UleLoop.consume, hsub]
      omega
    · simp only [hpoint, hneed, UleLoop.goto, UleLoop.consume, cellWeight, cond_false, hsub]
      omega
  · have hsync : st.priv.needPusi = false := by
      by_contra htrue
      exact hpusi (hset (Bool.eq_true_of_not_eq_false htrue))
    have hstart := hfrom hsync
    refine .within ⟨hts, hpriv, hin, hsync, ?_, ?_⟩ rfl ?_
    · simp only [UleLoop.goto]
      omega
    · intro hfalse
      simp [UleLoop.goto, hnew] at hfalse
    · simp only [hpoint, UleLoop.goto, hnew, hsync, cellWeight, cond_true, cond_false]
      omega

theorem uleFlush_advances (hpoint : st.point = .flush) : Advances call st (uleFlush call st) := by
  simp only [UleInv, hpoint] at hinv
  obtain ⟨hts, hpriv, hin, hnew, hsync, hrem, hsmall⟩ := hinv
  rw [uleFlush, if_neg hrem.not_gt]
  refine .within ⟨hts, hpriv, hin, hsync, hsmall, ?_⟩ rfl ?_
  · intro hfalse
    simp [goto, hnew] at hfalse
  · simp [hpoint, goto, hnew, cellWeight]

theorem uleHeader_advances (hpoint : st.point = .header) :
    Advances call st (uleHeader call st) := by
  simp only [UleInv, hpoint] at hinv
  obtain ⟨hts, hpriv, hin, hsync, hsmall, hold⟩ := hinv
  have ⟨hcur, hstart, hinside⟩ := hin
  rw [uleHeader]
  split_ifs with hnone hroom hlen
  · rw [isNone_iff_eq_none] at hnone
    have hnew := newTs_of_not_idle hold (fun h => by omega)
    exact .nextCell hts hinside rfl (closed hnone (hsmall hroom)) hnew
  · rw [isNone_iff_eq_none] at hnone
    have hzero := hpriv.idle hnone hlen
    have hlength : ∀ n dbit, 5 ≤ n → Advances call st (({ st with priv := { st.priv with
        uleSnduLen := n, uleDbit := dbit } }.consume 2).goto .type) := by
      intro n dbit hn
      refine .within ⟨hts, hin.consume (by omega), hsync, hnone, ?_⟩ rfl ?_
      · simp only [goto, consume]
        omega
      simp only [hpoint, goto, consume, cellWeight,
        u8Sub_of_le (not_lt.mp hroom) (show st.tsRemain < 256 by omega)]
      cases st.newTs <;> simp only [cond_true, cond_false] <;> omega
    dsimp only
    split_ifs with hdbit hshort hshort
    · exact .nextCell hts hinside rfl (closed hnone hzero) rfl
    · exact hlength _ _ (not_lt.mp hshort)
    · exact .nextCell hts hinside rfl (closed hnone hzero) rfl
    · exact hlength _ _ (not_lt.mp hshort)
  · have hnew := newTs_of_not_idle hold (fun h => hlen h.2.len)
    refine .within ⟨hts, hin, hsync, isNone_iff_eq_none.mp hnone, hlen⟩ rfl ?_
    simp [hpoint, goto, hnew, cellWeight]
  · rw [isNone_iff_eq_none] at hnone
    have hnew := newTs_of_not_idle hold (fun h => hnone h.2.closed)
    refine .within ⟨hts, hpriv, hin, hsync, hnone⟩ rfl ?_
    simp [hpoint, goto, hnew, cellWeight]

theorem uleType_advances (hpoint : st.point = .type) : Advances call st (uleType call st) := by
  simp only [UleInv, hpoint] at hinv
  obtain ⟨hts, hin, hsync, hnone, hlen⟩ := hinv
  have ⟨hcur, hstart, hinside⟩ := hin
  rcases hroom : st.tsRemain with _ | _ | rest
  · simp only [uleType, hroom]
    exact .nextCell hts hinside rfl (parsing hsync hnone hlen) rfl
  · simp only [uleType, hroom]
    exact .nextCell hts hinside rfl (parsing hsync hnone hlen) rfl
  rw [UleLoop.InCell, hroom] at hin
  simp only [uleType, hroom]
  split_ifs
  all_goals
    refine .within ⟨hts, hin.consume (by omega), hsync, hnone, hlen⟩ rfl ?_
    simp only [hpoint, goto, consume, cellWeight, hroom]
    rw [u8Sub_of_le (by omega) (by omega)]
    omega

theorem uleAlloc_advances (hpoint : st.point = .alloc) : Advances call st (uleAlloc call st) := by
  simp only [UleInv, hpoint] at hinv
  obtain ⟨hts, hin, hsync, hnone, hlen⟩ := hinv
  rw [uleAlloc]
  split
  · refine .within ⟨hts, parsing hsync hnone hlen⟩ rfl ?_
    simp [hpoint, goto, cellWeight]
  refine .within ⟨hts, filling hsync rfl (zero_add _), hin, hsync, some_ne_none _⟩ rfl ?_
  simp [hpoint, cellWeight]

theorem uleCopy_advances (hpoint : st.point = .copy) : Advances call st (uleCopy call st) := by
  simp only [UleInv, hpoint] at hinv
  obtain ⟨hts, hpriv, hin, hsync, hsome⟩ := hinv
  obtain ⟨skb, hskb⟩ := Option.ne_none_iff_exists'.mp hsome
  have hopen := hpriv.opened skb hskb
  have hmove := hin.consume (min_le_right st.priv.uleSnduRemain st.tsRemain)
  obtain ⟨hcur, hstart, -⟩ := hin
  have hsub := u8Sub_of_le (min_le_right st.priv.uleSnduRemain st.tsRemain) (by omega)
  simp only [uleCopy, hskb]
  have hpriv' : PrivOk { st.priv with
      uleSkb := some (skb.put (call.buf.read st.fromWhere (min st.priv.uleSnduRemain st.tsRemain)))
      uleSnduRemain := st.priv.uleSnduRemain - min st.priv.uleSnduRemain st.tsRemain } := by
    refine filling hsync rfl ?_
    simp only [SkBuff.put, Mem.length_read]
    omega
  split_ifs with hdone
  · refine .within ⟨hts, hpriv', hmove, hsync, some_ne_none _⟩ rfl ?_
    simp only [hpoint, goto, consume, cellWeight, hsub]
    omega
  refine .within ⟨hts, hpriv', hmove, hsync, ?_, fun hfalse => by cases hfalse⟩ rfl ?_
  · intro _
    simp only [consume, goto, hsub] at hdone ⊢
    omega
  · simp only [hpoint, goto, consume, cellWeight, hsub]
    omega

theorem uleComplete_advances (hpoint : st.point = .complete) :
    Advances call st (uleComplete dev st) := by
  simp only [UleInv, hpoint] at hinv
  obtain ⟨hts, -, hin, hsync, hsome⟩ := hinv
  obtain ⟨skb, hskb⟩ := Option.ne_none_iff_exists'.mp hsome
  have hdone : Advances call st st.snduDone := by
    refine .within (.snduDone hts hin hsync) rfl ?_
    simp [hpoint, snduDone, cellWeight]
  simp only [uleComplete, hskb]
  generalize crc32Be _ _ = crc
  split_ifs
  · exact hdone
  · exact hdone
  all_goals
    refine .within ⟨hts, hin, hsync, some_ne_none _⟩ rfl ?_
    simp [hpoint, goto, cellWeight]

variable {destAddr : Bytes} {ext : UleExtension} {priv : DvbNetPriv}

/-- A round at the extension headers is the last one, or goes on to the next header. -/
theorem uleExtension_advances (hpoint : st.point = .extension destAddr ext)
    (hcond : UleCond call st) : Advances call st (uleExtension destAddr ext st) := by
  simp only [UleInv, hpoint] at hinv
  obtain ⟨hts, hin, hsync, hsome⟩ := hinv
  obtain ⟨skb, hskb⟩ := Option.ne_none_iff_exists'.mp hsome
  simp only [UleCond, hpoint] at hcond
  obtain ⟨last, hlast, hknown⟩ := hcond skb hskb
  simp only [uleExtension, hskb]
  cases hone : handleOneUleExtension skb st.priv.uleSnduLen st.priv.uleDbit ext with
  | discard =>
    refine .within (.snduDone hts hin hsync) rfl ?_
    simp [hpoint, snduDone, cellWeight]
  | next ext' =>
    dsimp only
    split_ifs with hmore
    · have hnext : extensionNext skb st.priv.uleSnduLen st.priv.uleDbit ext = some ext' := by
        simp [extensionNext, hone, if_pos hmore]
      have hweight : uleWeight call (st.goto (.extension destAddr ext')) = uleWeight call st := by
        simp [uleWeight, goto, hpoint, cellWeight]
      refine ⟨⟨hts, hin, hsync, by simp [goto, hskb]⟩, ?_⟩
      rw [Nearer, InvImage, hweight]
      apply Prod.Lex.right
      simp only [headersLeft, goto, hpoint, hskb]
      exact stepsLeft_lt hlast hnext
    · refine .within ⟨hts, hin, hsync, some_ne_none _⟩ rfl ?_
      simp [hpoint, cellWeight]
  | oops =>
    have hstop : extensionNext skb st.priv.uleSnduLen st.priv.uleDbit ext = none := by
      simp [extensionNext, hone]
    have hself := mem_eval.mpr ⟨.refl, hstop⟩
    rw [Part.mem_unique hlast hself] at hknown
    exact absurd hone hknown

theorem uleDeliver_advances (hpoint : st.point = .deliver destAddr) :
    Advances call st (uleDeliver dev destAddr st) := by
  simp only [UleInv, hpoint] at hinv
  obtain ⟨hts, hin, hsync, hsome⟩ := hinv
  obtain ⟨skb, hskb⟩ := Option.ne_none_iff_exists'.mp hsome
  simp only [uleDeliver, hskb]
  refine .within (.snduDone hts hin hsync) rfl ?_
  simp [hpoint, snduDone, cellWeight]

theorem uleMore_advances (hpoint : st.point = .more) : Advances call st (uleMore call st) := by
  simp only [UleInv, hpoint] at hinv
  obtain ⟨hts, hpriv, hin, hsync, hfull, hzero⟩ := hinv
  rw [uleMore]
  split_ifs with hmore hnone
  · have hclose : st.priv.uleSkb = none := by
      by_contra hsome
      have := hfull hsome
      omega
    refine .within ⟨hts, closed rfl (hzero hclose),
      fun _ => ⟨hin, hmore.1, hsync, rfl, rfl⟩⟩ rfl ?_
    simp [hpoint, cellWeight]
  · rw [isNone_iff_eq_none] at hnone
    exact .nextCell hts hin.inside rfl (closed hnone (hzero hnone)) rfl
  · exact .nextCell hts hin.inside rfl hpriv rfl

include hcells

theorem uleStep_advances (hcond : UleCond call st) (hstep : uleStep dev call st = some next) :
    Advances call st next := by
  cases hpoint : st.point <;> rw [uleStep, hpoint] at hstep
  case cell => exact uleCell_advances hcells hinv hpoint hstep
  case returned | oops => cases hstep
  all_goals obtain rfl := Option.some.inj hstep
  case sync => exact uleSync_advances hinv hpoint hcond
  case continuity => exact uleContinuity_advances hinv hpoint
  case pusi => exact ulePusi_advances hinv hpoint
  case flush => exact uleFlush_advances hinv hpoint
  case header => exact uleHeader_advances hinv hpoint
  case type => exact uleType_advances hinv hpoint
  case alloc => exact uleAlloc_advances hinv hpoint
  case copy => exact uleCopy_advances hinv hpoint
  case complete => exact uleComplete_advances hinv hpoint
  case extension => exact uleExtension_advances hinv hpoint hcond
  case deliver => exact uleDeliver_advances hinv hpoint
  case more => exact uleMore_advances hinv hpoint

theorem UleInv.reads {a : Nat} (hread : a ∈ uleReads call st) :
    st.ts ≤ a ∧ a < st.ts + tsSz ∧ st.ts + tsSz ≤ call.bufLen := by
  rw [tsSz]
  cases hpoint : st.point
  case cell =>
    obtain ⟨i, hi⟩ := hinv.1
    simp only [uleReads, hpoint] at hread
    split_ifs at hread with hnew
    · simp only [mem_cons, not_mem_nil, or_false] at hread
      omega
    · cases hread
  case pusi =>
    obtain ⟨hcur, hstart, hin⟩ := hinv.inCell (by simp [CursorSet, hpoint])
    simp only [UleInv, hpoint] at hinv
    simp only [uleReads, hpoint] at hread
    split_ifs at hread with hsync
    · have hfrom := hinv.2.2.2.2.2 (Bool.eq_false_iff.mpr hsync.2)
      simp only [mem_cons, not_mem_nil, or_false] at hread
      omega
    · simp only [mem_cons, not_mem_nil, or_false] at hread
      omega
  case type =>
    obtain ⟨hcur, hstart, hin⟩ := hinv.inCell (by simp [CursorSet, hpoint])
    rcases hroom : st.tsRemain with _ | _ | rest <;> simp only [uleReads, hpoint, hroom] at hread
    · cases hread
    · simp only [mem_cons, not_mem_nil, or_false] at hread
      omega
    · split_ifs at hread <;> simp only [mem_cons, not_mem_nil, or_false] at hread <;> omega
  case copy =>
    obtain ⟨hcur, hstart, hin⟩ := hinv.inCell (by simp [CursorSet, hpoint])
    simp only [uleReads, hpoint] at hread
    obtain ⟨i, hi, rfl⟩ := List.mem_map.mp hread
    have := mem_range.mp hi
    omega
  case returned | oops | alloc | extension | deliver =>
    simp only [uleReads, hpoint] at hread
    cases hread
  all_goals
    obtain ⟨hcur, hstart, hin⟩ := hinv.inCell (by simp [CursorSet, hpoint])
    simp only [uleReads, hpoint] at hread
    split_ifs at hread <;> simp only [mem_cons, not_mem_nil, or_false] at hread <;> omega

theorem UleInv.good : UleGood call st := by
  refine ⟨?_, fun a hread => hinv.reads hcells hread, ?_, ?_⟩
  · intro hset
    obtain ⟨hcur, hstart, -⟩ := hinv.inCell hset
    rw [tsSz]
    omega
  · intro hfilling skb hskb
    cases hpoint : st.point <;> simp only [UleInv, Filling, hpoint] at hinv hfilling
    case type | alloc => simp [hinv.2.2.2.1] at hskb
    case returned => exact hinv.2.opened skb hskb
    case oops => exact hinv.2.elim
    all_goals exact hinv.2.1.opened skb hskb
  · intro hpoint
    simp only [UleInv, hpoint] at hinv
    exact hinv.2

end

/-- Synchronising on a pointer field of 184 lets `ts_remain` wrap around. -/
theorem not_safe_of_pointer (hpoint : st.point = .sync) (hinv : UleInv call st)
    (hneed : st.priv.needPusi = true) (hpusi : isPusi call.buf st.ts = true)
    (hptr : (call.buf (st.ts + 4)).toNat = 184) :
    ¬ SafeRun (uleStep dev call) (UleGood call) st := by
  intro hsafe
  simp only [UleInv, hpoint] at hinv
  obtain ⟨-, -, hin, hfrom, hold⟩ := hinv
  have hnew := newTs_of_unsynced hold hneed
  have hroom : st.tsRemain = 184 := by
    have hcur := hin.cursor
    have hstart := hfrom hnew
    omega
  have hstep : uleStep dev call st = some (uleSync call st) := by rw [uleStep, hpoint]
  have hwrap : (uleSync call st).tsRemain = 255 ∧ (uleSync call st).point = .continuity := by
    simp [uleSync, hneed, hpusi, hptr, hroom, u8Sub]
  have hgood := hsafe.1 _ (.single hstep)
  have hcur := hgood.cursor (by simp [CursorSet, hwrap.2])
  omega

/-- A run that gets through the extension headers has seen their chain end. -/
theorem extensionsEnd_of_run {skb : SkBuff} {fuel : Nat}
    (hpoint : st.point = .extension destAddr ext) (hskb : st.priv.uleSkb = some skb)
    (hgood : ∀ t, Reaches (uleStep dev call) st t → UleGood call t)
    (hrun : (runMachine (uleStep dev call) fuel st).isSome) :
    ExtensionsEnd skb st.priv.uleSnduLen st.priv.uleDbit ext := by
  induction fuel generalizing st ext with
  | zero => cases hrun
  | succ fuel ih =>
    have hstep : uleStep dev call st = some (uleExtension destAddr ext st) := by
      rw [uleStep, hpoint]
    rw [runMachine, hstep] at hrun
    cases hone : handleOneUleExtension skb st.priv.uleSnduLen st.priv.uleDbit ext with
    | discard =>
      have hstop : extensionNext skb st.priv.uleSnduLen st.priv.uleDbit ext = none := by
        simp [extensionNext, hone]
      exact ⟨ext, mem_eval.mpr ⟨.refl, hstop⟩, by simp [hone]⟩
    | next ext' =>
      by_cases hmore : ext'.snduType < 1536
      · have hnext : extensionNext skb st.priv.uleSnduLen st.priv.uleDbit ext = some ext' := by
          simp [extensionNext, hone, if_pos hmore]
        have hgoto : uleExtension destAddr ext st = st.goto (.extension destAddr ext') := by
          simp [uleExtension, hskb, hone, if_pos hmore]
        rw [hgoto] at hrun hstep
        obtain ⟨last, hlast, hknown⟩ := @ih (st.goto (.extension destAddr ext')) ext' rfl hskb
          (fun t hreach => hgood t (hreach.head hstep)) hrun
        refine ⟨last, ?_, hknown⟩
        rw [reaches_eval (ReflTransGen.single hnext)]
        exact hlast
      · have hstop : extensionNext skb st.priv.uleSnduLen st.priv.uleDbit ext = none := by
          simp [extensionNext, hone, if_neg hmore]
        exact ⟨ext, mem_eval.mpr ⟨.refl, hstop⟩, by simp [hone]⟩
    | oops =>
      have hoops : (uleExtension destAddr ext st).point = .oops := by
        simp [uleExtension, hskb, hone, goto]
      exact absurd hoops (hgood _ (.single hstep)).known

theorem not_safe_of_not_cond (hinv : UleInv call st) (hbad : ¬ UleCond call st) :
    ¬ SafeRun (uleStep dev call) (UleGood call) st := by
  cases hpoint : st.point <;> simp only [UleCond, hpoint, not_true_eq_false] at hbad
  case sync =>
    push Not at hbad
    obtain ⟨hneed, hpusi, hptr⟩ := hbad
    exact not_safe_of_pointer hpoint hinv hneed hpusi hptr
  case extension destAddr ext =>
    push Not at hbad
    obtain ⟨skb, hskb, hendless⟩ := hbad
    rintro ⟨hgood, last, hlast⟩
    obtain ⟨fuel, hrun⟩ := exists_run_of_mem_eval hlast
    exact hendless (extensionsEnd_of_run hpoint hskb hgood (Option.isSome_of_mem hrun))

theorem uleInv_start (call : UleCall) (hpriv : PrivOk priv) : UleInv call (uleStart priv) :=
  ⟨.intro 0 rfl, hpriv, fun hfalse => (Bool.false_ne_true hfalse.symm).elim⟩

/-- One call is safe if and only if it is spared wherever it comes. -/
theorem call_safe_iff (dev : NetDevice) (hcells : 188 ∣ call.bufLen) (hpriv : PrivOk priv) :
    SafeRun (uleStep dev call) (UleGood call) (uleStart priv) ↔
      ∀ st, Reaches (uleStep dev call) (uleStart priv) st → UleCond call st :=
  safeRun_iff (nearer_wf call) (fun _ hinv => hinv.good hcells)
    (fun _ _ hinv hcond hstep => (uleStep_advances hcells hinv hcond hstep).inv)
    (fun _ _ hinv hcond hstep => (uleStep_advances hcells hinv hcond hstep).nearer)
    (fun _ hinv hbad => not_safe_of_not_cond hinv hbad) (uleInv_start call hpriv)

theorem privOk_after (hcells : 188 ∣ call.bufLen) (hpriv : PrivOk priv)
    (hcond : ∀ st, Reaches (uleStep dev call) (uleStart priv) st → UleCond call st)
    (hlast : st ∈ eval (uleStep dev call) (uleStart priv)) : PrivOk st.priv := by
  obtain ⟨hreach, hstop⟩ := mem_eval.mp hlast
  have hinv := reaches_invariant
    (fun _ _ hinv hcond hstep => (uleStep_advances hcells hinv hcond hstep).inv)
    (uleInv_start call hpriv) hcond hreach
  cases hpoint : st.point <;> rw [uleStep, hpoint] at hstop <;> simp only [UleInv, hpoint] at hinv
  case cell => exact hinv.2.1
  case returned => exact hinv.2
  case oops => exact hinv.2.elim
  all_goals cases hstop

end Steps

def CallsSafe : DvbNetPriv → List (NetDevice × UleCall) → Prop
  | _, [] => True
  | priv, (dev, call) :: rest =>
    SafeRun (uleStep dev call) (UleGood call) (uleStart priv) ∧
      ∀ st ∈ eval (uleStep dev call) (uleStart priv), CallsSafe st.priv rest

def CallsSpared : DvbNetPriv → List (NetDevice × UleCall) → Prop
  | _, [] => True
  | priv, (dev, call) :: rest =>
    (∀ st, Reaches (uleStep dev call) (uleStart priv) st → UleCond call st) ∧
      ∀ st ∈ eval (uleStep dev call) (uleStart priv), CallsSpared st.priv rest

theorem callsSafe_iff {calls : List (NetDevice × UleCall)} (hcells : ∀ c ∈ calls, 188 ∣ c.2.bufLen)
    {priv : DvbNetPriv} (hpriv : PrivOk priv) : CallsSafe priv calls ↔ CallsSpared priv calls := by
  induction calls generalizing priv with
  | nil => exact .rfl
  | cons first rest ih =>
    obtain ⟨dev, call⟩ := first
    obtain ⟨hfirst, hrest⟩ := forall_mem_cons.mp hcells
    simp only [CallsSafe, CallsSpared, call_safe_iff dev hfirst hpriv]
    apply and_congr_right
    intro hcond
    apply forall₂_congr
    intro st hlast
    exact ih hrest (privOk_after hfirst hpriv hcond hlast)

/-- On arbitrary bytes, from the moment the interface is set up: the cursor stays in the cell,
the reads too, the SNDU's buffer and what it lacks make up its length, and every call ends, if
and only if the decoder never synchronises on a pointer field of 184 and never meets an
endless chain of extension headers. -/
theorem ule_cursor_inside_iff (p : DvbNetPriv) (calls : List (NetDevice × UleCall))
    (hcells : ∀ c ∈ calls, tsSz ∣ c.2.bufLen) :
    CallsSafe (dvbNetAddIf p) calls ↔ CallsSpared (dvbNetAddIf p) calls :=
  callsSafe_iff hcells (reset _)

def sparedNow (call : UleCall) (st : UleLoop) : Bool :=
  match st.point with
  | .sync => !(isPusi call.buf st.ts && (call.buf (st.ts + 4)).toNat == 184)
  | .extension _ _ => false
  | _ => true

theorem uleCond_of_sparedNow {call : UleCall} {st : UleLoop}
    (hspared : sparedNow call st = true) : UleCond call st := by
  cases hpoint : st.point <;> simp only [sparedNow, UleCond, hpoint] at hspared ⊢
  case sync =>
    intro _ hpusi hptr
    simp [hpusi, hptr] at hspared
  case extension => cases hspared

theorem one_byte_sndu_inside :
    CallsSafe samplePriv
      [(sampleDevice, sampleCall (0x00 :: withCrc [0x80, 0x05, 0x08, 0x00, 0x2a]))] := by
  apply (ule_cursor_inside_iff _ _ (by decide)).mpr
  refine ⟨fun st hreach => uleCond_of_sparedNow ?_, fun _ _ => trivial⟩
  refine test_of_testMachine 20 ?_ hreach
  decide +kernel

/-- A cell whose pointer field is 184 puts the cursor behind the cell with 255 bytes left. -/
theorem pointer_field_184_wraps :
    (∃ st, Reaches (uleStep sampleDevice (sampleCall [184])) (uleStart samplePriv) st ∧
      CursorSet st ∧ st.ts = 0 ∧ st.fromWhere = 189 ∧ st.tsRemain = 255) ∧
    ¬ CallsSafe samplePriv [(sampleDevice, sampleCall [184])] := by
  have hsteps : (stepMachine (uleStep sampleDevice (sampleCall [184])) 2
      (uleStart samplePriv)).any (fun st => (st.point matches .continuity) &&
        decide (st.ts = 0 ∧ st.fromWhere = 189 ∧ st.tsRemain = 255)) = true := by
    decide +kernel
  obtain ⟨st, hst, htest⟩ := (Option.any_eq_true _ _).mp hsteps
  obtain ⟨hpoint, hcursor⟩ := (Bool.and_eq_true _ _).mp htest
  have hreach := reaches_of_stepMachine hst
  have hset : CursorSet st := by
    rw [CursorSet]
    split at hpoint
    · simp_all
    · cases hpoint
  obtain ⟨hts, hfrom, hroom⟩ := of_decide_eq_true hcursor
  refine ⟨⟨st, hreach, hset, hts, hfrom, hroom⟩, ?_⟩
  rintro ⟨⟨hgood, -⟩, -⟩
  have hend := ((hgood st hreach).cursor hset).2
  omega

/-- At a bridged frame whose inner type field says that a bridged frame follows, the loop over
the extension headers stays where it is. -/
theorem uleStep_fixed {dev : NetDevice} {call : UleCall} {st : UleLoop} {destAddr : Bytes}
    {ext : UleExtension} {skb : SkBuff} (hpoint : st.point = .extension destAddr ext)
    (hskb : st.priv.uleSkb = some skb) (htype : ext.snduType < 1536)
    (hone : handleOneUleExtension skb st.priv.uleSnduLen st.priv.uleDbit ext = .next ext) :
    uleStep dev call st = some st := by
  simp only [uleStep, hpoint, uleExtension, hskb, hone, if_pos htype, goto]
  rw [← hpoint]

def bridgedLoop : Bytes :=
  0x00 :: withCrc ([0x00, 0x1e, 0x00, 0x01] ++ sampleDevice.devAddr.toList ++
    [0, 0, 0, 0, 0, 0, 0, 0, 0, 0, 0, 0, 0x08, 0x00, 0, 0, 0, 0, 0x00, 0x01])

theorem bridged_frame_never_ends :
    ¬ ∃ fuel last, runMachine (uleStep sampleDevice (sampleCall bridgedLoop)) fuel
      (uleStart samplePriv) = some last := by
  have hsteps : (stepMachine (uleStep sampleDevice (sampleCall bridgedLoop)) 12
      (uleStart samplePriv)).any (fun st =>
        match st.point, st.priv.uleSkb with
        | .extension _ ext, some skb => decide (ext.snduType < 1536) &&
            decide (handleOneUleExtension skb st.priv.uleSnduLen st.priv.uleDbit ext = .next ext)
        | _, _ => false) = true := by
    decide +kernel
  obtain ⟨st, hst, htest⟩ := (Option.any_eq_true _ _).mp hsteps
  have hfixed : uleStep sampleDevice (sampleCall bridgedLoop) st = some st := by
    split at htest
    · rename_i destAddr ext skb hpoint hskb
      obtain ⟨htype, hone⟩ := (Bool.and_eq_true _ _).mp htest
      exact uleStep_fixed hpoint hskb (of_decide_eq_true htype) (of_decide_eq_true hone)
    · cases htest
  rintro ⟨fuel, last, hrun⟩
  have hlast := mem_eval_of_run hrun
  rw [reaches_eval (reaches_of_stepMachine hst)] at hlast
  obtain ⟨fuel', hrun'⟩ := exists_run_of_mem_eval hlast
  rw [runMachine_of_fixed hfixed] at hrun'
  cases hrun'

end TbsMedia.DvbNet
