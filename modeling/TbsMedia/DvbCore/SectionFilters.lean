import Mathlib.Data.LawfulXor.Basic
import TbsMedia.DvbCore.FailedStart
import TbsMedia.DvbCore.SectionDelivery

/-!
What a section filter of the user means, from `DMX_SET_FILTER` to the comparison
in `dvb_dmx_swfilter_sectionfilter`, and how far the outcome of that comparison
is a matter of the section. The comparison always takes 18 bytes from `secbuf`
on, and a section may be shorter.
-/

namespace TbsMedia.DvbCore

open Lib Option DvbDemux Prog Function

variable {nd nf nq : Nat}

def bit (byte : UInt8) (b : Fin 8) : Bool := byte.toBitVec.getLsbD b

theorem byte_eq_zero_iff (byte : UInt8) : byte = 0 ↔ ∀ b, bit byte b = false := by
  constructor
  · rintro rfl b
    simp [bit]
  intro hbits
  apply UInt8.toBitVec_inj.mp
  apply BitVec.eq_of_getLsbD_eq
  intro b hb
  simpa [bit] using hbits ⟨b, hb⟩

section Bits

variable (x y : UInt8) (b : Fin 8)

theorem bit_and : bit (x &&& y) b = (bit x b && bit y b) := by simp [bit]

theorem bit_xor : bit (x ^^^ y) b = (bit x b ^^ bit y b) := by simp [bit]

theorem bit_not : bit (~~~ x) b = !bit x b := by simp [bit]

end Bits

theorem bit_inverted (byte : UInt8) (b : Fin 8) : bit (byte ^^^ 0xff) b = !bit byte b := by
  have hones : (255#8).getLsbD b = true := by decide +revert
  rw [bit_xor, show bit 0xff b = true from hones, Bool.xor_true]

/-- The byte of a section that a byte of the user's filter is about: the length
field is left out. -/
def sectionByte (k : Fin dmxFilterSize) : Fin dmxMaxFilterSize :=
  if k.val = 0 then 0 else ⟨k.val + 2, Nat.add_lt_add_right k.isLt 2⟩

/-- What `DMX_SET_FILTER` promises: all bits with mask 1 and mode 0 are equal, and
of the bits with mask 1 and mode 1, if there are any, one is not. -/
def Wanted (filter : DmxFilter) (bytes : Fin dmxFilterSize → UInt8) : Prop :=
  (∀ k b, bit (filter.mask k) b = true → bit (filter.mode k) b = false →
    bit (bytes k) b = bit (filter.filter k) b) ∧
  ((∃ k b, bit (filter.mask k) b = true ∧ bit (filter.mode k) b = true) →
    ∃ k b, bit (filter.mask k) b = true ∧ bit (filter.mode k) b = true ∧
      bit (bytes k) b ≠ bit (filter.filter k) b)

theorem sectionByte_cases :
    ∀ i : Fin dmxMaxFilterSize, (i = 1 ∨ i = 2) ∨ ∃ k, sectionByte k = i := by
  decide

variable {P : Fin dmxMaxFilterSize → Prop} {f : Fin nf} {q : Fin nq} {d' d : DvbDemux nf nq}
  {a : Answer} {s s' : Dmxdev nd nf nq} {i : Fin nd}

theorem forall_sectionByte (hlen : ∀ i, i = 1 ∨ i = 2 → P i) :
    (∀ i, P i) ↔ ∀ k, P (sectionByte k) := by
  constructor
  · exact fun hall k => hall _
  intro hall i
  rcases sectionByte_cases i with hi | ⟨k, rfl⟩
  · exact hlen i hi
  · exact hall k

theorem exists_sectionByte (hlen : ∀ i, i = 1 ∨ i = 2 → ¬ P i) :
    (∃ i, P i) ↔ ∃ k, P (sectionByte k) := by
  simpa using not_congr (forall_sectionByte hlen)

theorem writeSecfilter_sectionByte (i : Fin nd) (para : DmxFilter) (flt : DvbDemuxFilter nf)
    (k : Fin dmxFilterSize) :
    (writeSecfilter i para flt).filterValue (sectionByte k) = para.filter k ∧
    (writeSecfilter i para flt).filterMask (sectionByte k) = para.mask k ∧
    (writeSecfilter i para flt).filterMode (sectionByte k) = para.mode k := by
  by_cases hk : k.val = 0
  · obtain rfl : k = 0 := Fin.ext hk
    exact ⟨rfl, rfl, rfl⟩
  · have hge : 3 ≤ k.val + 2 := by omega
    simp [writeSecfilter, sectionByte, hk, hge]

theorem written_filter_iff (i : Fin nd) (filter : DmxFilter) (flt : DvbDemuxFilter nf)
    (secbuf : Nat → UInt8) :
    dvbDmxSwfilterSectionfilter (prepareSecfilter (writeSecfilter i (invertMode filter) flt))
        secbuf = true ↔
      Wanted filter (fun k => secbuf (sectionByte k)) := by
  have hlen (k : Fin dmxMaxFilterSize) (hk : k = 1 ∨ k = 2) :
      (writeSecfilter i (invertMode filter) flt).filterMask k = 0 := by
    rcases hk with rfl | rfl <;> rfl
  have hbytes := writeSecfilter_sectionByte i (invertMode filter) flt
  rw [sectionfilter_iff, prepareSecfilter_doneq]
  generalize hw : writeSecfilter i (invertMode filter) flt = written at hlen hbytes
  rw [prepareSecfilter]
  rw [forall_sectionByte (fun k hk => by simp [hlen k hk]),
    exists_sectionByte (fun k hk => by simp [hlen k hk]),
    exists_sectionByte (fun k hk => by simp [hlen k hk])]
  simp only [hbytes, invertMode, Wanted]
  refine and_congr (forall_congr' fun k => ?_) (imp_congr (exists_congr fun k => ?_)
    (exists_congr fun k => ?_))
  · rw [byte_eq_zero_iff]
    refine forall_congr' fun b => ?_
    rw [bit_and, bit_and, bit_inverted, bit_xor]
    grind
  · rw [ne_eq, byte_eq_zero_iff, not_forall]
    refine exists_congr fun b => ?_
    rw [bit_and, bit_not, bit_inverted]
    grind
  · rw [ne_eq, byte_eq_zero_iff, not_forall]
    refine exists_congr fun b => ?_
    rw [bit_and, bit_and, bit_xor, bit_not, bit_inverted]
    grind

theorem prepareSecfilters_filter (d : DvbDemux nf nq) (hq : q ∈ (d.feed f).filter) :
    (prepareSecfilters f d).filter q = prepareSecfilter (d.filter q) := by
  have hwalk (chain : List (Fin nq)) (d : DvbDemux nf nq) :
      (chain.foldl (fun d q => d.updFilter q prepareSecfilter) d).filter q =
        if q ∈ chain then prepareSecfilter (d.filter q) else d.filter q := by
    induction chain generalizing d with
    | nil => rfl
    | cons q' rest ih =>
      rw [List.foldl_cons, ih]
      rcases eq_or_ne q q' with rfl | hne
      · simp [updFilter, prepareSecfilter]
      · simp [updFilter, hne]
  rw [prepareSecfilters, hwalk, if_pos hq]

theorem sectionStart_filter (hstart : dmxSectionFeedStartFiltering a f d = (.ok (), d'))
    (hq : q ∈ (d.feed f).filter) : d'.filter q = prepareSecfilter (d.filter q) := by
  unfold dmxSectionFeedStartFiltering at hstart
  split_ifs at hstart
  all_goals obtain ⟨hret, rfl⟩ := Prod.mk.inj hstart
  all_goals simp at hret
  exact prepareSecfilters_filter _ (by simpa [dvbDmxSwfilterSectionNew] using hq)

/-- The handle has a demux filter with the user's filter in it, ready for use, on a
feed that is filtering. -/
def Installed (i : Fin nd) (para : DmxFilter) (s : Dmxdev nd nf nq) : Prop :=
  ∃ q f flt, (s.filter i).filterSec = some q ∧ q ∈ (s.demux.feed f).filter ∧
    (s.demux.feed f).isFiltering = true ∧
    s.demux.filter q = prepareSecfilter (writeSecfilter i para flt)

theorem allocateFilter_mem (halloc : dmxSectionFeedAllocateFilter a f d = (.ok q, d')) :
    q ∈ (d'.feed f).filter := by
  unfold dmxSectionFeedAllocateFilter at halloc
  split_ifs at halloc with hlock
  · simp at halloc
  split at halloc
  · simp at halloc
  · obtain ⟨hq, rfl⟩ := Prod.mk.inj halloc
    simp [updFeed, Except.ok.inj hq]

theorem startSecfilter_installs {sec : Fin nf} {para : DmxSctFilterParams}
    (hrun : (startSecfilter i sec para).run s = some (.ok (), s')) :
    Installed i para.filter s' := by
  rw [startSecfilter, run_bind, run_demuxCall, bind_some] at hrun
  rcases halloc : dmxSectionFeedAllocateFilter (s.world 0) sec s.demux with ⟨err | q, d⟩
  · rw [halloc] at hrun
    obtain ⟨_, _, -, hrun⟩ := run_bind_some hrun
    obtain ⟨_, _, -, hrun⟩ := run_bind_some hrun
    simp at hrun
  simp only [halloc, run_bind, run_modify, bind_some, run_demuxCall] at hrun
  have hmem := allocateFilter_mem halloc
  generalize hwritten : d.updFilter q (writeSecfilter i para.filter) = written at hrun
  rcases hstart : dmxSectionFeedStartFiltering (s.world 1) sec written with ⟨err | _, d'⟩
  · simp_all
  have hq : q ∈ (written.feed sec).filter := by rwa [← hwritten]
  have hfeed := sectionStart_feed _ sec _ _ hstart
  have hflt := sectionStart_filter hstart hq
  simp only [Dmxdev.withDemux_world, Dmxdev.upd_world, Dmxdev.answered_world,
    Dmxdev.withDemux_demux, hwritten, hstart] at hrun
  cases hrun
  refine ⟨q, sec, d.filter q, ?_, ?_, ?_, ?_⟩
  · simp [dvbDmxdevFilterTimer]
  · simpa [hfeed, dvbDmxSwfilterSectionNew] using hq
  · simp [hfeed]
  · simp [hflt, ← hwritten, updFilter]

theorem startSection_installs (hrun : (startSection i).run s = some (.ok (), s')) :
    Installed i (s.filter i).paramsSec.filter s' := by
  simp only [startSection, run_bind, run_theFilter, run_filterUpd, run_findFeed, bind_some] at hrun
  split at hrun
  · obtain ⟨r, t, hcall, hrun⟩ := run_bind_some hrun
    rcases r with err | sec
    · simp at hrun
    obtain ⟨_, t1, -, hrun⟩ := run_bind_some hrun
    obtain ⟨r, t2, -, hrun⟩ := run_bind_some hrun
    cases r with
    | error err =>
      obtain ⟨_, t3, -, hrun⟩ := run_bind_some hrun
      simp at hrun
    | ok _ => exact startSecfilter_installs hrun
  · obtain ⟨_, t1, -, hrun⟩ := run_bind_some hrun
    obtain ⟨_, t2, -, hrun⟩ := run_bind_some hrun
    exact startSecfilter_installs hrun

/-- `DMX_START` of a section filter that is set. -/
theorem filterStart_installs (hstate : (s.filter i).state = .set) (htype : (s.filter i).type = .sec)
    (hrun : (dvbDmxdevFilterStart i).run s = some (.ok (), s')) :
    Installed i (s.filter i).paramsSec.filter s' := by
  have hidle : (stopRunning i).run s = some ((), s) := by
    simp [stopRunning, hstate, DmxdevState.toNat]
  rw [dvbDmxdevFilterStart, run_bind, run_theFilter, bind_some, hstate,
    if_neg (lt_irrefl _), run_bind, hidle] at hrun
  obtain ⟨ready, t, hbuf, hrun⟩ := run_bind_some hrun
  have hcore := SameCores.of_run (provideBuffer_within i) hbuf i
  rcases ready with _ | _
  · simp at hrun
  obtain ⟨r, t1, hstart, hrun⟩ := run_bind_some hrun
  rcases r with err | _
  · simp at hrun
  cases hrun
  rw [startByType, run_bind, run_theFilter, bind_some, hcore.type, htype] at hstart
  obtain ⟨q, f, flt, hq, hrest⟩ := startSection_installs hstart
  exact ⟨q, f, flt, by simpa using hq, by rwa [hcore.paramsSec] at hrest⟩

/-- `DMX_SET_FILTER` and, unless it starts the filter itself, `DMX_START`, both with
success. -/
def StartedWith (i : Fin nd) (params : DmxSctFilterParams) (s s' : Dmxdev nd nf nq) : Prop :=
  if params.flags &&& dmxImmediateStart ≠ 0 then
    (dvbDmxdevFilterSet i params).run s = some (.ok (), s')
  else ∃ t, (dvbDmxdevFilterSet i params).run s = some (.ok (), t) ∧
    (dvbDmxdevFilterStart i).run t = some (.ok (), s')

theorem StartedWith.installed {params : DmxSctFilterParams} (hstart : StartedWith i params s s') :
    Installed i (invertMode params.filter) s' := by
  have hset : ∃ t, (t.filter i).state = .set ∧ (t.filter i).type = .sec ∧
      (t.filter i).paramsSec.filter = invertMode params.filter ∧
      (dvbDmxdevFilterStart i).run t = some (.ok (), s') := by
    rw [StartedWith] at hstart
    split_ifs at hstart with hflag
    · obtain ⟨_, t, -, hrun⟩ := run_bind_some hstart
      simp only [dvbDmxdevFilterStateSet, run_bind, run_filterUpd, bind_some, if_pos hflag] at hrun
      exact ⟨_, by simp, by simp, by simp, hrun⟩
    obtain ⟨t, hset, hrun⟩ := hstart
    obtain ⟨_, t1, -, hset⟩ := run_bind_some hset
    simp only [dvbDmxdevFilterStateSet, run_bind, run_filterUpd, bind_some,
      if_neg hflag, run_pure] at hset
    cases hset
    exact ⟨_, by simp, by simp, by simp, hrun⟩
  obtain ⟨t, hstate, htype, hparams, hrun⟩ := hset
  exact hparams ▸ filterStart_installs hstate htype hrun

/-- The handle has a filter on a feed that is filtering, and a section of at least 18
bytes gets to its callback if and only if it is what the user asked for. -/
def FiltersAsAsked (i : Fin nd) (filter : DmxFilter) (s : Dmxdev nd nf nq) : Prop :=
  ∃ q f, (s.filter i).filterSec = some q ∧ q ∈ (s.demux.feed f).filter ∧
    (s.demux.feed f).isFiltering = true ∧
    ∀ (completed : Bytes) (mem : Mem UInt8) (start : Nat),
      dmxMaxFilterSize ≤ completed.length → mem.read start completed.length = completed →
      (dvbDmxSwfilterSectionfilter (s.demux.filter q) (fun k => mem (start + k)) = true ↔
        Wanted filter (fun k => completed.getD (sectionByte k) 0))

/-- A section filter that was started calls its user for the sections the user has asked for. -/
theorem section_filter_meaning (i : Fin nd) (params : DmxSctFilterParams) (s s' : Dmxdev nd nf nq)
    (hstarted : StartedWith i params s s') : FiltersAsAsked i params.filter s' := by
  obtain ⟨q, f, flt, hq, hmem, hon, hfilter⟩ := hstarted.installed
  refine ⟨q, f, hq, hmem, hon, ?_⟩
  intro completed mem start hlength hread
  have hbyte (k : Fin dmxMaxFilterSize) : completed.getD k 0 = mem (start + k) := by
    rw [← hread, Mem.getD_read _ _ (k.isLt.trans_le hlength)]
  simp only [hfilter, written_filter_iff, hbyte]

/-- The user asks for sections whose fourth byte is `0xff`. -/
def fourthByteSet : DmxFilter where
  filter := fun _ => 0xff
  mask := fun k => if k = 1 then 0xff else 0
  mode := fun _ => 0

def idleDevice : Dmxdev 1 1 1 where
  filter := default
  demux := readyDemux 1 1
  world := fun _ => .ok
  fresh := 0

def fourthByteParams : DmxSctFilterParams :=
  { (default : DmxSctFilterParams) with filter := fourthByteSet, flags := dmxImmediateStart }

theorem section_filter_meaning_fourth_byte :
    ∃ s', StartedWith 0 fourthByteParams idleDevice s' ∧ FiltersAsAsked 0 fourthByteSet s' := by
  have hset : ∃ s', (dvbDmxdevFilterSet 0 fourthByteParams).run idleDevice = some (.ok (), s') :=
    ⟨_, rfl⟩
  obtain ⟨s', hs'⟩ := hset
  have hstarted : StartedWith 0 fourthByteParams idleDevice s' := by rwa [StartedWith]
  exact ⟨s', hstarted, section_filter_meaning 0 fourthByteParams idleDevice s' hstarted⟩

/-! The comparison and the bytes behind a short section. -/

/-- `prepare_secfilters` has prepared every filter of the chain. -/
theorem started_prepared {a : Answer} {f : Fin nf} {d d' : DvbDemux nf nq} {q : Fin nq}
    (hstart : dmxSectionFeedStartFiltering a f d = (.ok (), d'))
    (hq : q ∈ (d'.feed f).filter) : ∃ flt, d'.filter q = prepareSecfilter flt := by
  have hkeeps : ∀ (chain : List (Fin nq)) (d : DvbDemux nf nq),
      (q ∈ chain ∨ ∃ flt, d.filter q = prepareSecfilter flt) →
      ∃ flt, (chain.foldl (fun d q => d.updFilter q prepareSecfilter) d).filter q =
        prepareSecfilter flt := by
    intro chain
    induction chain with
    | nil => exact fun d hor => hor.resolve_left List.not_mem_nil
    | cons p rest ih =>
      refine fun d hor => ih _ ?_
      rcases eq_or_ne q p with rfl | hne
      · exact .inr ⟨d.filter q, by simp⟩
      · simpa [hne] using hor
  rw [sectionStart_feed a f d d' hstart] at hq
  unfold dmxSectionFeedStartFiltering at hstart
  split_ifs at hstart
  all_goals obtain ⟨hret, rfl⟩ := Prod.mk.inj hstart
  all_goals simp at hret
  exact hkeeps _ _ (.inl (by simpa using hq))

theorem prepared_accepts_iff (flt : DvbDemuxFilter nf) (secbuf : Nat → UInt8) :
    dvbDmxSwfilterSectionfilter (prepareSecfilter flt) secbuf = true ↔
      (∀ i, flt.filterMask i &&& flt.filterMode i &&& (flt.filterValue i ^^^ secbuf i) = 0) ∧
      ((∃ i, flt.filterMask i &&& ~~~ flt.filterMode i ≠ 0) →
        ∃ i, flt.filterMask i &&& ~~~ flt.filterMode i &&&
          (flt.filterValue i ^^^ secbuf i) ≠ 0) := by
  rw [sectionfilter_iff, prepareSecfilter_doneq]
  rfl

/-- The filter compares no byte at or behind the end of a section of `n` bytes. -/
def MasksInside (flt : DvbDemuxFilter nf) (n : Nat) : Prop :=
  ∀ i : Fin dmxMaxFilterSize, n ≤ i → flt.filterMask i = 0

/-- The filter says the same of any two contents that begin with the same `n` bytes. -/
def DecidedBy (flt : DvbDemuxFilter nf) (n : Nat) : Prop :=
  ∀ secbuf secbuf' : Nat → UInt8, (∀ k < n, secbuf k = secbuf' k) →
    dvbDmxSwfilterSectionfilter flt secbuf = dvbDmxSwfilterSectionfilter flt secbuf'

theorem MasksInside.decidedBy {flt : DvbDemuxFilter nf} {n : Nat}
    (hinside : MasksInside (prepareSecfilter flt) n) : DecidedBy (prepareSecfilter flt) n := by
  intro secbuf secbuf' hsame
  have hmasked (i : Fin dmxMaxFilterSize) (mode : UInt8) :
      flt.filterMask i &&& mode &&& (flt.filterValue i ^^^ secbuf i) =
        flt.filterMask i &&& mode &&& (flt.filterValue i ^^^ secbuf' i) := by
    rcases lt_or_ge i.val n with hlt | hge
    · rw [hsame i hlt]
    · have hzero : flt.filterMask i = 0 := hinside i hge
      rw [hzero, UInt8.zero_and, UInt8.zero_and, UInt8.zero_and]
  exact Bool.eq_iff_iff.mpr (by simp only [prepared_accepts_iff, hmasked])

theorem mode_and_notmode (mask mode : UInt8) : mask &&& mode &&& (mask &&& ~~~ mode) = 0 := by
  rw [byte_eq_zero_iff]
  intro b
  simp only [bit_and, bit_not]
  cases bit mode b <;> simp

/-- A byte whose mask is not zero decides: there are contents that differ only in it, of
which one is accepted and one is not. -/
theorem masked_byte_decides (flt : DvbDemuxFilter nf) {i : Fin dmxMaxFilterSize}
    (hi : flt.filterMask i ≠ 0) : ∃ taken dropped : Nat → UInt8,
      (∀ k ≠ i.val, taken k = dropped k) ∧
      dvbDmxSwfilterSectionfilter (prepareSecfilter flt) taken = true ∧
      ¬ dvbDmxSwfilterSectionfilter (prepareSecfilter flt) dropped = true := by
  have hones (x v : UInt8) : x &&& (v ^^^ (v ^^^ 0xff)) = x := by
    rw [xor_cancel_left, UInt8.eq_iff_toBitVec_eq, UInt8.toBitVec_and]
    exact BitVec.and_allOnes
  -- the contents in which byte `k` differs from the value by `turned k`
  let bytes (turned : Fin dmxMaxFilterSize → UInt8) (k : Nat) : UInt8 :=
    if hk : k < dmxMaxFilterSize then flt.filterValue ⟨k, hk⟩ ^^^ turned ⟨k, hk⟩ else 0
  have hbytes (turned : Fin dmxMaxFilterSize → UInt8) (k : Fin dmxMaxFilterSize) :
      bytes turned k = flt.filterValue k ^^^ turned k := dif_pos k.isLt
  rcases eq_or_ne (flt.filterMask i &&& flt.filterMode i) 0 with hmode | hmode
  · -- byte `i` is only asked to differ: turn it in contents that differ nowhere else
    have hnot : flt.filterMask i &&& ~~~ flt.filterMode i ≠ 0 := by
      intro hzero
      refine hi ((byte_eq_zero_iff _).mpr fun b => ?_)
      have hone := (byte_eq_zero_iff _).mp hmode b
      have htwo := (byte_eq_zero_iff _).mp hzero b
      simp only [bit_and, bit_not] at hone htwo
      revert hone htwo
      cases bit (flt.filterMask i) b <;> cases bit (flt.filterMode i) b <;> simp
    refine ⟨update (bytes 0) i (flt.filterValue i ^^^ 0xff), bytes 0,
      fun k hk => update_of_ne hk .., (prepared_accepts_iff ..).mpr ⟨fun k => ?_, ?_⟩, ?_⟩
    · rcases eq_or_ne k i with rfl | hne
      · rw [hmode, UInt8.zero_and]
      · rw [update_of_ne (Fin.val_ne_of_ne hne), hbytes, xor_cancel_left]
        exact UInt8.and_zero
    · refine fun _ => ⟨i, ?_⟩
      rwa [update_self, hones]
    · rw [prepared_accepts_iff]
      rintro ⟨-, hsome⟩
      obtain ⟨k, hk⟩ := hsome ⟨i, hnot⟩
      rw [hbytes, xor_cancel_left] at hk
      exact hk UInt8.and_zero
  · -- byte `i` is asked to be equal: turn it in contents that are accepted
    let turned (k : Fin dmxMaxFilterSize) := flt.filterMask k &&& ~~~ flt.filterMode k
    have hturned (k : Fin dmxMaxFilterSize) :
        flt.filterValue k ^^^ bytes turned k = flt.filterMask k &&& ~~~ flt.filterMode k := by
      rw [hbytes, xor_cancel_left]
    refine ⟨bytes turned, update (bytes turned) i (flt.filterValue i ^^^ 0xff),
      fun k hk => (update_of_ne hk ..).symm,
      (prepared_accepts_iff ..).mpr ⟨fun k => ?_, ?_⟩, ?_⟩
    · rw [hturned, mode_and_notmode]
    · rintro ⟨k, hk⟩
      exact ⟨k, by rwa [hturned, UInt8.and_self]⟩
    · rw [prepared_accepts_iff]
      rintro ⟨hall, -⟩
      have hzero := hall i
      rw [update_self, hones] at hzero
      exact hmode hzero

theorem decidedBy_iff (flt : DvbDemuxFilter nf) (n : Nat) :
    DecidedBy (prepareSecfilter flt) n ↔ MasksInside (prepareSecfilter flt) n := by
  refine ⟨fun hdecided i hi => ?_, MasksInside.decidedBy⟩
  by_contra hmask
  obtain ⟨taken, dropped, hsame, htaken, hdropped⟩ := masked_byte_decides flt hmask
  have halike := hdecided taken dropped fun k hk => hsame k (by omega)
  exact hdropped (halike ▸ htaken)

theorem sectionFilterWalk_congr (ops : SectionOps nq) {flt : Fin nq → DvbDemuxFilter nf}
    {secbuf secbuf' : Nat → UInt8} (bytes : Bytes) (chain : List (Fin nq))
    (hsame : ∀ q ∈ chain, dvbDmxSwfilterSectionfilter (flt q) secbuf =
      dvbDmxSwfilterSectionfilter (flt q) secbuf') :
    sectionFilterWalk ops flt secbuf bytes chain =
      sectionFilterWalk ops flt secbuf' bytes chain := by
  induction chain with
  | nil => rfl
  | cons q rest ih =>
    simp [sectionFilterWalk, hsame q List.mem_cons_self,
      ih fun p hp => hsame p (List.mem_cons_of_mem q hp)]

theorem sectionCalls_local (ops : SectionOps nq) (flt : Fin nq → DvbDemuxFilter nf)
    (feed : DvbDemuxFeed nq) {mem mem' : Mem UInt8} {start start' len : Nat} (hheader : 2 ≤ len)
    (hdecided : ∀ q ∈ feed.filter, DecidedBy (flt q) len)
    (hread : mem.read start len = mem'.read start' len) :
    sectionCalls ops flt feed mem start len = sectionCalls ops flt feed mem' start' len := by
  have hbyte (k : Nat) (hk : k < len) : mem (start + k) = mem' (start' + k) := by
    rw [← Mem.getD_read mem start hk 0, hread, Mem.getD_read mem' start' hk]
  have hwalk (bytes : Bytes) := sectionFilterWalk_congr ops bytes feed.filter
    fun q hq => hdecided q hq _ _ hbyte
  have hsyntax : mem (start + 1) = mem' (start' + 1) := hbyte 1 hheader
  simp only [sectionCalls, dvbDmxSwfilterSectionFeed, hwalk, hread, hsyntax]
  split_ifs <;> rfl

def shortThen (byte : UInt8) : List TsPacket :=
  [{ bytes := [0x47, 0x40, 0x10, 0x10, 0x00, 0x70, 0x00, 0x00] ++ List.replicate 180 byte,
     size := by rw [List.length_append, List.length_replicate]; rfl }]

def preparedDemux : DvbDemux 1 1 :=
  sectionDemux.updFilter 0 (writeSecfilter (0 : Fin 1) (invertMode fourthByteSet))

def filteringDemux : DvbDemux 1 1 := (dmxSectionFeedStartFiltering .ok 0 preparedDemux).2

end TbsMedia.DvbCore
