import TbsMedia.Lib.Run
import TbsMedia.DvbCore.StartFeed

/-!
Who owns the TS feeds of the demux, over whole runs of the calls on the demux
device. An entry of a PES filter and the feed slot it points to live in two
layers; slots are reused by whoever comes next. The pointer and the slot stay
together as long as no `dvb_dmxdev_start_feed` fails after it has claimed a slot.
-/

namespace TbsMedia.DvbCore

open Lib List Option Dmxdev Contract Prog Function

variable {nd nf nq : Nat} {s s' : Dmxdev nd nf nq} {i : Fin nd}

namespace Dmxdev

/-- The `feed.ts` list of an open PES filter. -/
def entries (s : Dmxdev nd nf nq) (i : Fin nd) : List (DmxdevFeed nf) :=
  if (s.filter i).state ≠ .free ∧ (s.filter i).type = .pes then (s.filter i).feedTs else []

/-- The slot is allocated, and it was allocated for the entry at `addr`. -/
def Owned (s : Dmxdev nd nf nq) (addr : Nat) (f : Fin nf) : Prop :=
  (s.demux.feed f).state ≠ .free ∧ (s.demux.feed f).type = .ts ∧
    (s.demux.feed f).holder = some addr

theorem entries_congr (hflt : s'.filter i = s.filter i) : s'.entries i = s.entries i := by
  rw [entries, entries, hflt]

end Dmxdev

structure FeedsOwned (s : Dmxdev nd nf nq) : Prop where
  owned : ∀ i, ∀ e ∈ s.entries i, ∀ f, e.ts = some f → s.Owned e.addr f
  alone : ∀ i, (s.entries i).Pairwise (fun e e' => ∀ f, e.ts = some f → e'.ts ≠ some f)
  apart : ∀ i j, i ≠ j → ∀ e ∈ s.entries i, ∀ e' ∈ s.entries j,
    ∀ f, e.ts = some f → e'.ts ≠ some f

structure OwnInv (s : Dmxdev nd nf nq) : Prop where
  owned : ∀ i, ∀ e ∈ s.entries i, ∀ f, e.ts = some f → s.Owned e.addr f
  nodup : ∀ i, ((s.entries i).map DmxdevFeed.addr).Nodup
  apart : ∀ i j, i ≠ j → ∀ e ∈ s.entries i, ∀ e' ∈ s.entries j, e.addr ≠ e'.addr
  below : ∀ i, ∀ e ∈ s.entries i, e.addr < s.fresh
  plain : ∀ i, (s.filter i).state ≠ .free → (s.filter i).type ≠ .sec

/-- Work on handle `i` leaves the other handles and their feeds alone. -/
structure Local (i : Fin nd) (s s' : Dmxdev nd nf nq) : Prop where
  filters : ∀ j, j ≠ i → s'.filter j = s.filter j
  feeds : ∀ j, j ≠ i → ∀ e ∈ s.entries j, ∀ f, e.ts = some f →
    s'.demux.feed f = s.demux.feed f
  fresh : s.fresh ≤ s'.fresh

theorem OwnInv.feedsOwned (hinv : OwnInv s) : FeedsOwned s := by
  refine ⟨hinv.owned, ?_, ?_⟩
  · intro i
    have hnodup := pairwise_map.mp (hinv.nodup i)
    refine hnodup.imp_of_mem ?_
    intro e e' he he' haddr f hf hf'
    have hsame := (hinv.owned i e he f hf).2.2.symm.trans (hinv.owned i e' he' f hf').2.2
    exact haddr (Option.some.inj hsame)
  · intro i j hij e he e' he' f hf hf'
    have hsame := (hinv.owned i e he f hf).2.2.symm.trans (hinv.owned j e' he' f hf').2.2
    exact hinv.apart i j hij e he e' he' (Option.some.inj hsame)

theorem Local.refl (i : Fin nd) (s : Dmxdev nd nf nq) : Local i s s :=
  ⟨fun _ _ => rfl, fun _ _ _ _ _ _ => rfl, le_rfl⟩

theorem Local.trans {s1 s2 s3 : Dmxdev nd nf nq} (hfirst : Local i s1 s2) (hnext : Local i s2 s3) :
    Local i s1 s3 := by
  refine ⟨?_, ?_, hfirst.fresh.trans hnext.fresh⟩
  · intro j hj
    rw [hnext.filters j hj, hfirst.filters j hj]
  intro j hj e he f hf
  have he2 : e ∈ s2.entries j := by rwa [entries_congr (hfirst.filters j hj)]
  rw [hnext.feeds j hj e he2 f hf, hfirst.feeds j hj e he f hf]

variable {f : Fin nf}

/-- A slot that is free, or that an entry of handle `i` points to, is none that another
handle points to. -/
theorem OwnInv.foreign (hinv : OwnInv s) {j : Fin nd} (hji : j ≠ i)
    (hf : (s.demux.feed f).state = .free ∨ ∃ e ∈ s.entries i, e.ts = some f) {e' : DmxdevFeed nf}
    (he' : e' ∈ s.entries j) : e'.ts ≠ some f := by
  intro hts'
  have howned := hinv.owned j e' he' f hts'
  rcases hf with hfree | ⟨e, he, hts⟩
  · exact howned.1 hfree
  · have hsame := (hinv.owned i e he f hts).2.2.symm.trans howned.2.2
    exact hinv.apart i j hji.symm e he e' he' (Option.some.inj hsame)

/-- Work that changes no other filter, and no slot but one that is free or that an
entry of handle `i` points to. -/
theorem Local.of_slot (hinv : OwnInv s)
    (hf : (s.demux.feed f).state = .free ∨ ∃ e ∈ s.entries i, e.ts = some f)
    (hflts : ∀ j ≠ i, s'.filter j = s.filter j)
    (hfeed : ∀ k ≠ f, s'.demux.feed k = s.demux.feed k) (hfresh : s'.fresh = s.fresh) :
    Local i s s' := by
  refine ⟨hflts, ?_, hfresh.ge⟩
  intro j hj e he k hk
  apply hfeed
  rintro rfl
  exact hinv.foreign hj hf he hk

theorem Local.of_same_feeds (hflts : ∀ j ≠ i, s'.filter j = s.filter j)
    (hfeed : s'.demux.feed = s.demux.feed) (hfresh : s.fresh ≤ s'.fresh) : Local i s s' :=
  ⟨hflts, fun _ _ _ _ _ _ => by rw [hfeed], hfresh⟩

/-- The invariant after work on handle `i`: only the entries of that handle have to be
looked at. -/
theorem OwnInv.of_local (hinv : OwnInv s) (hlocal : Local i s s')
    (howned : ∀ e ∈ s'.entries i, ∀ f, e.ts = some f → s'.Owned e.addr f)
    (hnodup : ((s'.entries i).map DmxdevFeed.addr).Nodup)
    (haddr : ∀ e ∈ s'.entries i, (∃ e0 ∈ s.entries i, e0.addr = e.addr) ∨
      (s.fresh ≤ e.addr ∧ e.addr < s'.fresh))
    (hplain : (s'.filter i).state ≠ .free → (s'.filter i).type ≠ .sec) : OwnInv s' := by
  have hoth : ∀ j ≠ i, s'.entries j = s.entries j := fun j hj =>
    entries_congr (hlocal.filters j hj)
  have hfar : ∀ j ≠ i, ∀ e ∈ s'.entries i, ∀ e' ∈ s.entries j, e.addr ≠ e'.addr := by
    intro j hj e he e' he'
    rcases haddr e he with ⟨e0, he0, hsame⟩ | ⟨hnew, -⟩
    · rw [← hsame]
      exact hinv.apart i j hj.symm e0 he0 e' he'
    · have := hinv.below j e' he'
      omega
  constructor
  · intro j e he f hf
    rcases eq_or_ne j i with rfl | hj
    · exact howned e he f hf
    rw [hoth j hj] at he
    have hold := hinv.owned j e he f hf
    rwa [Dmxdev.Owned, hlocal.feeds j hj e he f hf]
  · intro j
    rcases eq_or_ne j i with rfl | hj
    · exact hnodup
    · rw [hoth j hj]
      exact hinv.nodup j
  · intro j k hjk e he e' he'
    rcases eq_or_ne j i with rfl | hj
    · rw [hoth k hjk.symm] at he'
      exact hfar k hjk.symm e he e' he'
    rw [hoth j hj] at he
    rcases eq_or_ne k i with rfl | hk
    · exact (hfar j hj e' he' e he).symm
    · rw [hoth k hk] at he'
      exact hinv.apart j k hjk e he e' he'
  · intro j e he
    rcases eq_or_ne j i with rfl | hj
    · rcases haddr e he with ⟨e0, he0, hsame⟩ | ⟨-, hnew⟩
      · rw [← hsame]
        exact (hinv.below j e0 he0).trans_le hlocal.fresh
      · exact hnew
    · rw [hoth j hj] at he
      exact (hinv.below j e he).trans_le hlocal.fresh
  · intro j hj
    rcases eq_or_ne j i with rfl | hji
    · exact hplain hj
    · rw [hlocal.filters j hji] at hj ⊢
      exact hinv.plain j hj

/-- Work on handle `i` that ends in a state with the invariant. -/
structure Stage (i : Fin nd) (s s' : Dmxdev nd nf nq) : Prop where
  inv : OwnInv s'
  loc : Local i s s'

theorem Stage.trans {s1 s2 s3 : Dmxdev nd nf nq} (hfirst : Stage i s1 s2) (hnext : Stage i s2 s3) :
    Stage i s1 s3 :=
  ⟨hnext.inv, hfirst.loc.trans hnext.loc⟩

/-- No feed changes, and handle `i` gets no entry that it did not have. -/
theorem OwnInv.fewer (hinv : OwnInv s) (hflts : ∀ j ≠ i, s'.filter j = s.filter j)
    (hfeed : s'.demux.feed = s.demux.feed) (hfresh : s'.fresh = s.fresh)
    (hfewer : (s'.entries i).Sublist (s.entries i))
    (hplain : (s'.filter i).state ≠ .free → (s'.filter i).type ≠ .sec) : Stage i s s' := by
  have hlocal : Local i s s' := .of_same_feeds hflts hfeed hfresh.ge
  refine ⟨hinv.of_local hlocal ?_ ?_ ?_ hplain, hlocal⟩
  · intro e he f hf
    have hold := hinv.owned i e (hfewer.subset he) f hf
    rwa [Dmxdev.Owned, hfeed]
  · exact (hinv.nodup i).sublist (hfewer.map _)
  · exact fun e he => .inl ⟨e, hfewer.subset he, rfl⟩

/-- One slot changes, which is free or which an entry of handle `i` points to. Pointers to
that slot are accounted for afterwards, and there are no new other pointers. -/
theorem OwnInv.slot (hinv : OwnInv s)
    (hf : (s.demux.feed f).state = .free ∨ ∃ e ∈ s.entries i, e.ts = some f)
    (hflts : ∀ j ≠ i, s'.filter j = s.filter j)
    (hfeed : ∀ k ≠ f, s'.demux.feed k = s.demux.feed k) (hfresh : s'.fresh = s.fresh)
    (haddr : ((s'.entries i).map DmxdevFeed.addr).Sublist ((s.entries i).map DmxdevFeed.addr))
    (hts : ∀ e ∈ s'.entries i, ∀ k, e.ts = some k → (k ≠ f ∧ e ∈ s.entries i) ∨ s'.Owned e.addr k)
    (hplain : (s'.filter i).state ≠ .free → (s'.filter i).type ≠ .sec) : Stage i s s' := by
  have hlocal : Local i s s' := .of_slot hinv hf hflts hfeed hfresh
  refine ⟨hinv.of_local hlocal ?_ ?_ ?_ hplain, hlocal⟩
  · intro e he k hk
    rcases hts e he k hk with ⟨hkf, hold⟩ | howned
    · rw [Dmxdev.Owned, hfeed k hkf]
      exact hinv.owned i e hold k hk
    · exact howned
  · exact (hinv.nodup i).sublist haddr
  · intro e he
    have hmem := haddr.subset (List.mem_map_of_mem he)
    exact .inl (List.mem_map.mp hmem)

/-- An update of filter `i` that leaves its kind and its entries as they are. -/
theorem OwnInv.upd (hinv : OwnInv s) (i : Fin nd) (change : DmxdevFilter nf nq → DmxdevFilter nf nq)
    (hfree : (change (s.filter i)).state = .free ↔ (s.filter i).state = .free)
    (htype : (change (s.filter i)).type = (s.filter i).type)
    (hfeedTs : (change (s.filter i)).feedTs = (s.filter i).feedTs) :
    Stage i s (s.upd i change) := by
  apply hinv.fewer
  · intro j hj
    simp [update_of_ne hj]
  · rfl
  · rfl
  · simp [entries, hfree, htype, hfeedTs]
  · simp only [upd_filter, update_self, htype]
    exact fun h => hinv.plain i (fun hold => h (hfree.mpr hold))

variable {e : DmxdevFeed nf}

/-- A slot that an entry of handle `i` owns changes, and the entry owns it still. -/
theorem OwnInv.used (hinv : OwnInv s) (he : e ∈ s.entries i) (hf : e.ts = some f)
    (hflt : s'.filter = s.filter) (hfresh : s'.fresh = s.fresh)
    (hfeed : ∀ k ≠ f, s'.demux.feed k = s.demux.feed k) (howned : s'.Owned e.addr f) :
    Stage i s s' := by
  have hsame : s'.entries i = s.entries i := entries_congr (by rw [hflt])
  apply hinv.slot (.inr ⟨e, he, hf⟩)
  · intro j _
    rw [hflt]
  · exact hfeed
  · exact hfresh
  · rw [hsame]
  · intro e' he' k hk
    rw [hsame] at he'
    rcases eq_or_ne k f with rfl | hkf
    · have hhold := (hinv.owned i e he k hf).2.2.symm.trans (hinv.owned i e' he' k hk).2.2
      rw [← Option.some.inj hhold]
      exact .inr howned
    · exact .inl ⟨hkf, he'⟩
  · rw [hflt]
    exact hinv.plain i

theorem OwnInv.stage (hinv : OwnInv s) (i : Fin nd) : Stage i s s := ⟨hinv, .refl i s⟩

theorem OwnInv.answered (hinv : OwnInv s) (i : Fin nd) : Stage i s s.answered :=
  hinv.fewer (fun _ _ => rfl) rfl rfl (List.Sublist.refl _) (hinv.plain i)

/-! The code that starts no feed, function by function. -/

/-- The access is not the allocation of `dvb_dmxdev_start_feed`. -/
def NoStart (tag : Option (Mark nd)) (_ : Dmxdev nd nf nq) : Prop :=
  ∀ i pid, tag ≠ some (.allocateTs i pid)

abbrev quietly : Contract (Dmxdev nd nf nq) (Mark nd) := .alone NoStart

theorem noStart_none (s : Dmxdev nd nf nq) : NoStart none s := fun _ _ => nofun

theorem quietly_theFilter {post : DmxdevFilter nf nq → Dmxdev nd nf nq → Prop}
    (hpost : post (s.filter i) s) : quietly.Wp (theFilter i) post s :=
  alone_read (noStart_none s) hpost

theorem quietly_filterUpd {change : DmxdevFilter nf nq → DmxdevFilter nf nq}
    {post : Unit → Dmxdev nd nf nq → Prop} (hpost : post () (s.upd i change)) :
    quietly.Wp (filterUpd i change) post s :=
  alone_modify (noStart_none s) hpost

theorem quietly_ask {post : Answer → Dmxdev nd nf nq → Prop} (hpost : post (s.world 0) s.answered) :
    quietly.Wp ask post s := by
  apply alone_call (noStart_none s)
  intro out hout
  cases hout
  exact hpost

variable {α : Type} {post : α → Dmxdev nd nf nq → Prop}

theorem quietly_demuxCall {f : Answer → DvbDemux nf nq → α × DvbDemux nf nq}
    (hpost : post (f (s.world 0) s.demux).1 (s.answered.withDemux (f (s.world 0) s.demux).2)) :
    quietly.Wp (demuxCall f) post s := by
  apply alone_call (noStart_none s)
  intro out hout
  cases hout
  exact hpost

theorem quietly_demuxRelease {f : DvbDemux nf nq → Option (α × DvbDemux nf nq)}
    (hpost : ∀ out, f s.demux = some out → post out.1 (s.withDemux out.2)) :
    quietly.Wp (demuxRelease f) post s := by
  apply alone_call (noStart_none s)
  intro out hout
  obtain ⟨out, hf, rfl⟩ := map_eq_some_iff.mp hout
  exact hpost out hf

variable {p : Code nd nf nq α} {P : α → Dmxdev nd nf nq → Prop}

theorem stage_bind {β : Type} {next : α → Code nd nf nq β} {Q : β → Dmxdev nd nf nq → Prop}
    (hfirst : quietly.Wp p (fun a t => Stage i s t ∧ P a t) s)
    (hnext : ∀ a t, Stage i s t → P a t → quietly.Wp (next a) (fun b u => Stage i t u ∧ Q b u) t)
    : quietly.Wp (p >>= next) (fun b u => Stage i s u ∧ Q b u) s := by
  refine .bind (hfirst.mono ?_)
  rintro a t - ⟨hstage, hp⟩
  refine (hnext a t hstage hp).mono ?_
  rintro b u - ⟨hstage', hq⟩
  exact ⟨hstage.trans hstage', hq⟩

theorem entries_setTs (s : Dmxdev nd nf nq) (i : Fin nd) (addr : Nat) (ts : Option (Fin nf)) :
    (s.upd i (setTs addr ts)).entries i =
      (s.entries i).map (fun e => if e.addr = addr then { e with ts := ts } else e) := by
  simp only [entries, upd_filter, update_self, setTs]
  split_ifs
  · rfl
  · rfl

theorem addr_setTs (addr : Nat) (ts : Option (Fin nf)) (l : List (DmxdevFeed nf)) :
    (l.map (fun e => if e.addr = addr then { e with ts := ts } else e)).map DmxdevFeed.addr =
      l.map DmxdevFeed.addr := by
  rw [List.map_map]
  apply map_congr_left
  intro e _
  rw [comp_apply]
  split_ifs
  · rfl
  · rfl

theorem stop_owned {addr : Nat} (a : Answer) (howned : s.Owned addr f) :
    (s.answered.withDemux (dmxTsFeedStopFiltering a f s.demux).2).Owned addr f ∧
      ∀ k ≠ f, (dmxTsFeedStopFiltering a f s.demux).2.feed k = s.demux.feed k := by
  rcases stopFiltering_cases a f s.demux with ⟨err, hout⟩ | ⟨-, ret, hout⟩
  · rw [hout]
    exact ⟨howned, fun _ _ => rfl⟩
  rw [hout]
  constructor
  · simpa [Dmxdev.Owned, tsFeedStopped] using howned.2
  · intro k hk
    simp [update_of_ne hk]

theorem stopFeeds_stage (i : Fin nd) (l : List (DmxdevFeed nf)) (s : Dmxdev nd nf nq)
    (hinv : OwnInv s) (hl : ∀ e ∈ l, e ∈ s.entries i) :
    quietly.Wp (stopFeeds l) (fun _ t => Stage i s t ∧ t.filter = s.filter) s := by
  induction l generalizing s with
  | nil => exact alone_pure ⟨hinv.stage i, rfl⟩
  | cons e rest ih =>
    unfold stopFeeds
    rcases hts : e.ts with _ | f
    · trivial
    have he := hl e mem_cons_self
    obtain ⟨howned, hfeed⟩ := stop_owned (s.world 0) (hinv.owned i e he f hts)
    refine .bind (quietly_demuxCall ?_)
    have hstage : Stage i s (s.answered.withDemux
        (dmxTsFeedStopFiltering (s.world 0) f s.demux).2) :=
      hinv.used he hts rfl rfl hfeed howned
    refine (ih _ hstage.inv ?_).mono ?_
    · exact fun e' he' => hl e' (mem_cons_of_mem e he')
    · rintro - u - ⟨hstage', hflt⟩
      exact ⟨hstage.trans hstage', hflt⟩

variable {d : DvbDemux nf nq}

theorem release_frame {d' : DvbDemux nf nq} {ret : Ret}
    (hrel : dvbdmxReleaseTsFeed f d = some (ret, d')) : ∀ k ≠ f, d'.feed k = d.feed k := by
  intro k hk
  rcases releaseTsFeed_cases f d d' ret hrel with ⟨-, rfl⟩ | ⟨-, q, rest, -, rfl⟩
  · rfl
  · unfold pesRelease
    split_ifs <;> simp [dvbDemuxFeedDel, update_of_ne hk]

theorem OwnInv.addr_eq (hinv : OwnInv s) {e' : DmxdevFeed nf} (he : e ∈ s.entries i)
    (hf : e.ts = some f) (he' : e' ∈ s.entries i) (hf' : e'.ts = some f) : e'.addr = e.addr :=
  Option.some.inj ((hinv.owned i e' he' f hf').2.2.symm.trans (hinv.owned i e he f hf).2.2)

theorem OwnInv.cleared (hinv : OwnInv s) (he : e ∈ s.entries i) (hf : e.ts = some f)
    (hfeed : ∀ k ≠ f, d.feed k = s.demux.feed k) :
    Stage i s ((s.withDemux d).upd i (setTs e.addr none)) := by
  have hlist : ((s.withDemux d).upd i (setTs e.addr none)).entries i = _ :=
    entries_setTs (s.withDemux d) i e.addr none
  apply hinv.slot (.inr ⟨e, he, hf⟩)
  · intro j hj
    simp [update_of_ne hj]
  · exact hfeed
  · rfl
  · rw [hlist, addr_setTs]
    exact List.Sublist.refl _
  · intro e' he' k hk
    rw [hlist] at he'
    obtain ⟨e0, he0, rfl⟩ := List.mem_map.mp he'
    split_ifs at hk ⊢ with haddr
    · refine .inl ⟨?_, he0⟩
      rintro rfl
      exact haddr (hinv.addr_eq he hf he0 hk)
  · simpa [setTs] using hinv.plain i

theorem releaseFeeds_stage (i : Fin nd) (l : List (DmxdevFeed nf)) (s : Dmxdev nd nf nq)
    (hinv : OwnInv s) (hl : ∀ e ∈ l, e ∈ s.entries i)
    (hnodup : l.Pairwise fun e e' => e.addr ≠ e'.addr) :
    quietly.Wp (releaseFeeds i l) (fun _ t => Stage i s t ∧
      (t.filter i).state = (s.filter i).state ∧ (t.filter i).type = (s.filter i).type) s := by
  induction l generalizing s with
  | nil => exact alone_pure ⟨hinv.stage i, rfl, rfl⟩
  | cons e rest ih =>
    unfold releaseFeeds
    rcases hts : e.ts with _ | f
    · trivial
    have he := hl e mem_cons_self
    obtain ⟨hnew, hrest⟩ := pairwise_cons.mp hnodup
    refine .bind (quietly_demuxRelease ?_)
    rintro ⟨ret, d⟩ hrel
    have hstage := hinv.cleared he hts (release_frame hrel)
    refine .bind (quietly_filterUpd ((ih _ hstage.inv ?_ hrest).mono ?_))
    · intro e' he'
      rw [entries_setTs]
      refine List.mem_map.mpr ⟨e', hl e' (mem_cons_of_mem e he'), ?_⟩
      simp [(hnew e' he').symm]
    · rintro - u - ⟨hstage', hstate, htype⟩
      refine ⟨hstage.trans hstage', ?_, ?_⟩
      · simpa [setTs] using hstate
      · simpa [setTs] using htype

theorem OwnInv.removed (hinv : OwnInv s) (he : e ∈ s.entries i) (hf : e.ts = some f)
    (hfeed : ∀ k ≠ f, d.feed k = s.demux.feed k) :
    Stage i s ((s.withDemux d).upd i (fun flt => { flt with
      feedTs := flt.feedTs.filter (fun e' => e'.addr ≠ e.addr) })) := by
  have hlist : ((s.withDemux d).upd i (fun flt => { flt with
      feedTs := flt.feedTs.filter (fun e' => e'.addr ≠ e.addr) })).entries i =
        (s.entries i).filter (fun e' => e'.addr ≠ e.addr) := by
    simp only [entries, upd_filter, update_self, withDemux_filter]
    split_ifs
    · rfl
    · rfl
  apply hinv.slot (.inr ⟨e, he, hf⟩)
  · intro j hj
    simp [update_of_ne hj]
  · exact hfeed
  · rfl
  · rw [hlist]
    exact filter_sublist.map _
  · intro e' he' k hk
    rw [hlist] at he'
    obtain ⟨hold, haddr⟩ := mem_filter.mp he'
    refine .inl ⟨?_, hold⟩
    rintro rfl
    exact of_decide_eq_true haddr (hinv.addr_eq he hf hold hk)
  · simpa using hinv.plain i

theorem removeFeeds_stage (i : Fin nd) (pid : Nat) (l : List (DmxdevFeed nf))
    (s : Dmxdev nd nf nq) (hinv : OwnInv s) (hl : ∀ e ∈ l, e ∈ s.entries i)
    (hnodup : l.Pairwise fun e e' => e.addr ≠ e'.addr) :
    quietly.Wp (removeFeeds i pid l)
      (fun _ t => Stage i s t ∧ (t.filter i).state = (s.filter i).state) s := by
  induction l generalizing s with
  | nil => exact alone_pure ⟨hinv.stage i, rfl⟩
  | cons e rest ih =>
    have he := hl e mem_cons_self
    have hsub : ∀ e' ∈ rest, e' ∈ s.entries i := fun e' he' => hl e' (mem_cons_of_mem e he')
    obtain ⟨hnew, hrest⟩ := pairwise_cons.mp hnodup
    unfold removeFeeds
    rcases hts : e.ts with _ | f
    · exact ih s hinv hsub hrest
    split_ifs with hpid
    · obtain ⟨howned, hfeed⟩ := stop_owned (s.world 0) (hinv.owned i e he f hts)
      have hstop : Stage i s (s.answered.withDemux
          (dmxTsFeedStopFiltering (s.world 0) f s.demux).2) :=
        hinv.used he hts rfl rfl hfeed howned
      refine .bind (quietly_demuxCall ?_)
      refine .bind (quietly_demuxRelease ?_)
      rintro ⟨ret, d⟩ hrel
      have hrem := hstop.inv.removed he hts (release_frame hrel)
      have hstage := hstop.trans hrem
      refine .bind (quietly_filterUpd ((ih _ hstage.inv ?_ hrest).mono ?_))
      · intro e' he'
        have hmem := hsub e' he'
        simp only [entries, upd_filter, update_self, withDemux_filter, answered_filter] at hmem ⊢
        split_ifs at hmem ⊢
        · exact mem_filter.mpr ⟨hmem, decide_eq_true (hnew e' he').symm⟩
        · cases hmem
      · rintro - u - ⟨hstage', hstate⟩
        exact ⟨hstage.trans hstage', by simpa using hstate⟩
    · exact ih s hinv hsub hrest

theorem entries_eq_feedTs (hopen : (s.filter i).state ≠ .free) (htype : (s.filter i).type = .pes) :
    s.entries i = (s.filter i).feedTs := by
  rw [entries, if_pos ⟨hopen, htype⟩]

/-- Filter `i` loses its entries, or it has none. -/
theorem OwnInv.emptied (hinv : OwnInv s) (i : Fin nd)
    (change : DmxdevFilter nf nq → DmxdevFilter nf nq) (hempty : (s.upd i change).entries i = [])
    (hplain : (change (s.filter i)).state ≠ .free → (change (s.filter i)).type ≠ .sec) :
    Stage i s (s.upd i change) := by
  apply hinv.fewer
  · intro j hj
    simp [update_of_ne hj]
  · rfl
  · rfl
  · rw [hempty]
    exact nil_sublist _
  · simpa using hplain

section Stages

variable (i : Fin nd) (s : Dmxdev nd nf nq) (hinv : OwnInv s) (hopen : (s.filter i).state ≠ .free)
include hinv hopen

theorem filterStateSet_stage (state : DmxdevState) (hstate : state ≠ .free) :
    quietly.Wp (dvbDmxdevFilterStateSet i state) (fun _ t => Stage i s t ∧
      t = s.upd i (fun flt => { flt with state := state })) s := by
  refine quietly_filterUpd ⟨?_, rfl⟩
  exact hinv.upd i _ (iff_of_false hstate hopen) rfl rfl

theorem feedStop_stage :
    quietly.Wp (dvbDmxdevFeedStop i) (fun _ t => Stage i s t ∧
      t.filter i = { s.filter i with state := .set }) s := by
  refine stage_bind (filterStateSet_stage i s hinv hopen .set (by decide)) ?_
  rintro - t hstage rfl
  refine .bind (quietly_theFilter ?_)
  cases htype : ((s.upd i (fun flt => { flt with state := .set })).filter i).type with
  | sec => exact absurd htype (hstage.inv.plain i (by simp))
  | pes =>
    have hlist := entries_eq_feedTs (by simp) htype
    refine stage_bind (stopFeeds_stage i _ _ hstage.inv (fun e he => hlist ▸ he)) ?_
    intro _ u hstage' hflt
    refine alone_pure ⟨hstage'.inv.stage i, ?_⟩
    simp [hflt]
  | none => exact alone_pure ⟨hstage.inv.stage i, by simp⟩

theorem filterStop_stage :
    quietly.Wp (dvbDmxdevFilterStop i) (fun _ t => Stage i s t ∧
      (t.filter i).state ≠ .free ∧ (t.filter i).type = (s.filter i).type ∧
      ((t.filter i).type = .pes → (t.filter i).state.toNat < DmxdevState.go.toNat)) s := by
  refine .bind (quietly_theFilter ?_)
  rcases lt_or_ge (s.filter i).state.toNat DmxdevState.go.toNat with hstate | hstate
  · rw [if_pos hstate]
    exact alone_pure ⟨hinv.stage i, hopen, rfl, fun _ => hstate⟩
  rw [if_neg hstate.not_gt]
  cases htype : (s.filter i).type with
  | sec => exact absurd htype (hinv.plain i hopen)
  | pes =>
    have hlist := entries_eq_feedTs hopen htype
    refine stage_bind (feedStop_stage i s hinv hopen) ?_
    intro _ t hstage hflt
    have hsame : t.entries i = s.entries i := by simp [entries, hflt, htype, hopen]
    refine stage_bind (releaseFeeds_stage i _ t hstage.inv ?_ ?_) ?_
    · intro e he
      rwa [hsame, hlist]
    · rw [← hlist]
      exact pairwise_map.mp (hinv.nodup i)
    rintro - u hstage' ⟨hstate', htype'⟩
    refine .bind (quietly_filterUpd (alone_pure ⟨?_, ?_, ?_, ?_⟩))
    · exact hstage'.inv.upd i _ Iff.rfl rfl rfl
    · simp [flushBuffer, hstate', hflt]
    · simp [flushBuffer, htype', hflt, htype]
    · simp [flushBuffer, hstate', hflt, DmxdevState.toNat]
  | none =>
    split_ifs
    all_goals exact alone_pure ⟨hinv.stage i, hopen, htype, by simp [htype]⟩

theorem filterReset_stage :
    quietly.Wp (dvbDmxdevFilterReset i) (fun _ t => Stage i s t ∧
      (t.filter i).state ≠ .free) s := by
  refine .bind (quietly_theFilter ?_)
  split_ifs with hstate
  · exact alone_pure ⟨hinv.stage i, hopen⟩
  have hreset : Stage i s (s.upd i resetType) :=
    hinv.emptied i _ (by simp [entries, resetType]) (by simp [resetType])
  refine .bind (quietly_filterUpd ?_)
  have hstill : ((s.upd i resetType).filter i).state ≠ .free := by simpa [resetType] using hopen
  refine .bind ((filterStateSet_stage i _ hreset.inv hstill .allocated (by decide)).mono ?_)
  rintro - t - ⟨hstage, rfl⟩
  exact alone_pure ⟨hreset.trans hstage, by simp⟩

theorem filterFree_stage :
    quietly.Wp (dvbDmxdevFilterFree i) (fun _ t => Stage i s t ∧ True) s := by
  refine stage_bind (filterStop_stage i s hinv hopen) ?_
  rintro - t hstop ⟨hopen1, -⟩
  refine stage_bind (filterReset_stage i t hstop.inv hopen1) ?_
  intro _ u hreset hopen2
  refine .bind (quietly_filterUpd ?_)
  refine .bind (quietly_filterUpd (alone_pure ⟨?_, trivial⟩))
  have hbuf := hreset.inv.upd i (fun flt => { flt with
    buffer := { flt.buffer with data := none } }) Iff.rfl rfl rfl
  exact hbuf.trans (hbuf.inv.emptied i _ (by simp [entries]) (by simp))

theorem stopRunning_stage :
    quietly.Wp (stopRunning i) (fun _ t => Stage i s t ∧
      (t.filter i).state ≠ .free ∧ (t.filter i).type = (s.filter i).type ∧
      ((t.filter i).type = .pes → (t.filter i).state.toNat < DmxdevState.go.toNat)) s := by
  refine .bind (quietly_theFilter ?_)
  split_ifs with hstate
  · refine .bind ((filterStop_stage i s hinv hopen).mono ?_)
    intro _ t _ hdone
    exact alone_pure hdone
  · exact alone_pure ⟨hinv.stage i, hopen, rfl, fun _ => by omega⟩

omit hopen in
theorem provideBuffer_stage :
    quietly.Wp (provideBuffer i) (fun _ t => Stage i s t ∧
      (t.filter i).state = (s.filter i).state ∧ (t.filter i).type = (s.filter i).type ∧
      (t.filter i).feedTs = (s.filter i).feedTs) s := by
  refine .bind (quietly_theFilter ?_)
  cases (s.filter i).buffer.data with
  | some _ =>
    refine .bind (quietly_filterUpd (alone_pure ⟨hinv.upd i _ Iff.rfl rfl rfl, ?_⟩))
    simp [flushBuffer]
  | none =>
    refine .bind (quietly_ask ?_)
    have hstage := hinv.answered i
    dsimp only
    split_ifs
    · exact alone_pure ⟨hstage, rfl, rfl, rfl⟩
    refine .bind (quietly_filterUpd (alone_pure
      ⟨hstage.trans (hstage.inv.upd i _ Iff.rfl rfl rfl), ?_⟩))
    simp [flushBuffer]

theorem setBufferSize_stage (size : Nat) :
    quietly.Wp (dvbDmxdevSetBufferSize i size)
      (fun _ t => Stage i s t ∧ (t.filter i).state ≠ .free) s := by
  refine .bind (quietly_theFilter ?_)
  split_ifs
  · exact alone_pure ⟨hinv.stage i, hopen⟩
  · exact alone_pure ⟨hinv.stage i, hopen⟩
  · exact alone_pure ⟨hinv.stage i, hopen⟩
  refine .bind (quietly_ask ?_)
  have hstage := hinv.answered i
  split_ifs
  · exact alone_pure ⟨hstage, hopen⟩
  · exact .bind (quietly_filterUpd (alone_pure
      ⟨hstage.trans (hstage.inv.upd i _ Iff.rfl rfl rfl), by simpa using hopen⟩))

end Stages

/-! The code that starts feeds. -/

/-- Where `dvb_dmxdev_start_feed` allocates: if it gets a slot, the feed can also be
given a filter, set and started. -/
def StartsCleanly : Option (Mark nd) → Dmxdev nd nf nq → Prop
  | some (.allocateTs i pid), s => (s.world 0).interrupted = true ∨
      ∀ f, freeFeed s.demux = some f → FeedAccepted i pid f s
  | _, _ => True

theorem startsCleanly_of_noStart (tag : Option (Mark nd)) (s : Dmxdev nd nf nq)
    (htag : NoStart tag s) : StartsCleanly tag s := by
  rcases tag with _ | ⟨i⟩ | ⟨i⟩ | ⟨i, pid⟩
  · trivial
  · trivial
  · trivial
  · exact absurd rfl (htag i pid)

/-- An entry of handle `i` points to a free slot. -/
def Stale (i : Fin nd) (s : Dmxdev nd nf nq) : Prop :=
  ∃ e ∈ s.entries i, ∃ f, e.ts = some f ∧ (s.demux.feed f).state = .free

theorem Stale.not_owned (hstale : Stale i s) : ¬ FeedsOwned s := by
  intro howned
  obtain ⟨e, he, f, hf, hfree⟩ := hstale
  exact (howned.owned i e he f hf).1 hfree

/-- The pointer of one entry is set, to nothing or to a slot that was free and is now
owned by the entry. -/
theorem OwnInv.pointed (hinv : OwnInv s) (i : Fin nd) (addr : Nat) (ts : Option (Fin nf))
    (hflt : s'.filter = (s.upd i (setTs addr ts)).filter) (hfresh : s'.fresh = s.fresh)
    (hfeed : ∀ k, ts ≠ some k → s'.demux.feed k = s.demux.feed k)
    (hnew : ∀ f, ts = some f → (s.demux.feed f).state = .free ∧ s'.Owned addr f) :
    Stage i s s' := by
  have hlist : s'.entries i = (s.entries i).map
      (fun e => if e.addr = addr then { e with ts := ts } else e) := by
    rw [← entries_setTs]
    exact entries_congr (by rw [hflt])
  have hold : ∀ j, ∀ e ∈ s.entries j, ∀ k, e.ts = some k →
      s'.demux.feed k = s.demux.feed k := by
    intro j e he k hk
    apply hfeed
    intro hts
    exact (hinv.owned j e he k hk).1 (hnew k hts).1
  have hlocal : Local i s s' := by
    refine ⟨?_, fun j _ => hold j, hfresh.ge⟩
    intro j hj
    simp [hflt, update_of_ne hj]
  refine ⟨hinv.of_local hlocal ?_ ?_ ?_ ?_, hlocal⟩
  · intro e he k hk
    rw [hlist] at he
    obtain ⟨e0, he0, rfl⟩ := List.mem_map.mp he
    split_ifs at hk ⊢ with haddr
    · rw [haddr]
      exact (hnew k hk).2
    · rw [Dmxdev.Owned, hold i e0 he0 k hk]
      exact hinv.owned i e0 he0 k hk
  · rw [hlist, addr_setTs]
    exact hinv.nodup i
  · intro e he
    rw [hlist] at he
    obtain ⟨e0, he0, rfl⟩ := List.mem_map.mp he
    refine .inl ⟨e0, he0, ?_⟩
    split_ifs
    · rfl
    · rfl
  · simpa [hflt, setTs] using hinv.plain i

theorem meets_of_quietly (hwp : quietly.Wp p post s) : p.Meets StartsCleanly s :=
  (alone_meets hwp).mono startsCleanly_of_noStart

theorem giveBack_quiet (f : Fin nf) (err : Errno) (s : Dmxdev nd nf nq) :
    quietly.Wp (giveBack f err) (fun _ _ => True) s :=
  Contract.Wp.bind (quietly_demuxRelease (fun _ _ => alone_pure trivial))

theorem setAndStart_quiet (f : Fin nf) (pid tsType pesType : Nat) (s : Dmxdev nd nf nq) :
    quietly.Wp (setAndStart f pid tsType pesType) (fun _ _ => True) s := by
  refine .bind (quietly_demuxCall ?_)
  rcases (dmxTsFeedSet (s.world 0) f pid tsType pesType s.demux).1 with err | done
  · exact giveBack_quiet f err _
  refine .bind (quietly_demuxCall ?_)
  split
  · exact giveBack_quiet f _ _
  · exact alone_pure trivial

theorem meets_startFeed (i : Fin nd) (pid addr : Nat) (s : Dmxdev nd nf nq) :
    (dvbDmxdevStartFeed i pid addr).Meets StartsCleanly s ↔
      StartsCleanly (some (.allocateTs i pid)) s := by
  have hparams : (setTs addr none (s.filter i)).paramsPes = (s.filter i).paramsPes := rfl
  simp only [dvbDmxdevStartFeed, meets_bind, theFilter, filterUpd, allocateTs,
    meets_read, meets_modify, meets_call, run_read, run_modify,
    Option.some.injEq, forall_eq', StartsCleanly, true_and, upd_world, upd_demux,
    FeedAccepted, upd_filter, update_self, hparams]
  refine and_iff_left ?_
  rintro ⟨⟨ret, ts⟩, t⟩ -
  rcases ret with err | done
  · trivial
  rcases ts with _ | f
  · trivial
  · rw [meets_bind]
    exact ⟨⟨trivial, trivial⟩, fun _ _ => meets_of_quietly (setAndStart_quiet f _ _ _ _)⟩

/-- One `dvb_dmxdev_start_feed` for an entry of the handle. -/
theorem startFeed_fact (i : Fin nd) (pid addr : Nat) (s : Dmxdev nd nf nq) (hinv : OwnInv s)
    (hmem : addr ∈ (s.entries i).map DmxdevFeed.addr) :
    ∃ r s', (dvbDmxdevStartFeed i pid addr).run s = some (r, s') ∧
      (s'.filter i).state = (s.filter i).state ∧ (s'.filter i).type = (s.filter i).type ∧
      (s'.entries i).map DmxdevFeed.addr = (s.entries i).map DmxdevFeed.addr ∧
      ((StartsCleanly (some (.allocateTs i pid)) s ∧ Stage i s s') ∨
        (¬ StartsCleanly (some (.allocateTs i pid)) s ∧ r ≠ .ok () ∧ Stale i s')) := by
  obtain ⟨r, s', hrun, hout⟩ := startFeed_outcome i pid addr s
  have hkept : ∀ ts, s'.filter = (s.upd i (setTs addr ts)).filter →
      (s'.filter i).state = (s.filter i).state ∧ (s'.filter i).type = (s.filter i).type ∧
      (s'.entries i).map DmxdevFeed.addr = (s.entries i).map DmxdevFeed.addr := by
    intro ts hflt
    refine ⟨by simp [hflt, setTs], by simp [hflt, setTs], ?_⟩
    rw [entries_congr (show s'.filter i = (s.upd i (setTs addr ts)).filter i by
      rw [hflt]), entries_setTs, addr_setTs]
  refine ⟨r, s', hrun, ?_⟩
  cases hout with
  | unclaimed err _ hcause hflt hdemux hfresh =>
    obtain ⟨hstate, htype, haddr⟩ := hkept none hflt
    refine ⟨hstate, htype, haddr, .inl ⟨?_, ?_⟩⟩
    · refine hcause.imp_right ?_
      intro hnone f hf
      rw [hnone] at hf
      cases hf
    · exact hinv.pointed i addr none hflt hfresh (fun k _ => by rw [hdemux]) (by simp)
  | refused err _ f hlock hfree href hflt hfeed hback hflts hfresh =>
    obtain ⟨hstate, htype, haddr⟩ := hkept (some f) hflt
    refine ⟨hstate, htype, haddr, .inr ⟨?_, by simp, ?_⟩⟩
    · rintro (hsignal | hclean)
      · simp [hlock] at hsignal
      · exact href (hclean f hfree)
    obtain ⟨e, he, rfl⟩ := List.mem_map.mp hmem
    refine ⟨{ e with ts := some f }, ?_, f, rfl, hback⟩
    rw [entries_congr (show s'.filter i = (s.upd i (setTs e.addr (some f))).filter i
      by rw [hflt]), entries_setTs]
    exact List.mem_map.mpr ⟨e, he, by simp⟩
  | started _ f q hlock hfree hacc hflt hfeed htaken hfresh =>
    obtain ⟨hstate, htype, haddr⟩ := hkept (some f) hflt
    refine ⟨hstate, htype, haddr, .inl ⟨.inr ?_, ?_⟩⟩
    · intro f' hf'
      obtain rfl := mem_unique hfree hf'
      exact hacc
    refine hinv.pointed i addr (some f) hflt hfresh (fun k hk => hfeed k ?_) ?_
    · rintro rfl
      exact hk rfl
    intro f' hf'
    cases hf'
    exact ⟨freeFeed_some hfree, by simp [htaken.1], htaken.2⟩

/-- Work on handle `i` that may start feeds: if all these starts are clean it is a
stage of the run, and otherwise it fails and leaves a stale pointer. -/
def Starting (i : Fin nd) (p : Code nd nf nq Ret) (s : Dmxdev nd nf nq) : Prop :=
  ∀ r s', p.run s = some (r, s') →
    (p.Meets StartsCleanly s ∧ Stage i s s' ∧ (s'.filter i).state ≠ .free) ∨
    (¬ p.Meets StartsCleanly s ∧ r ≠ .ok () ∧ Stale i s')

theorem Starting.of_quietly {p : Code nd nf nq Ret}
    (hwp : quietly.Wp p (fun _ t => Stage i s t ∧ (t.filter i).state ≠ .free) s) :
    Starting i p s := by
  intro r s' hrun
  obtain ⟨hstage, hopen⟩ := alone_run hwp hrun
  exact .inl ⟨meets_of_quietly hwp, hstage, hopen⟩

theorem Starting.ended (hinv : OwnInv s) (hopen : (s.filter i).state ≠ .free) {r : Ret} :
    Starting i (pure r) s :=
  .of_quietly (alone_pure ⟨hinv.stage i, hopen⟩)

theorem meets_bind_run {β : Type} {next : α → Code nd nf nq β} {t : Dmxdev nd nf nq} {a : α}
    (hrun : p.run s = some (a, t)) :
    (p >>= next).Meets StartsCleanly s ↔
      p.Meets StartsCleanly s ∧ (next a).Meets StartsCleanly t := by
  simp [meets_bind, hrun]

theorem Starting.after {next : α → Code nd nf nq Ret}
    (hfirst : quietly.Wp p (fun a t => Stage i s t ∧ P a t) s)
    (hsecond : ∀ a t, Stage i s t → P a t → Starting i (next a) t) : Starting i (p >>= next) s := by
  intro r s' hrun
  obtain ⟨a, t, hp, hnext⟩ := run_bind_some hrun
  obtain ⟨hstage, hP⟩ := alone_run hfirst hp
  rw [meets_bind_run hp]
  rcases hsecond a t hstage hP r s' hnext with ⟨hmeets, hstage', hopen⟩ | ⟨hnot, hfail, hstale⟩
  · exact .inl ⟨⟨meets_of_quietly hfirst, hmeets⟩, hstage.trans hstage', hopen⟩
  · exact .inr ⟨fun h => hnot h.2, hfail, hstale⟩

theorem Starting.andThen {p : Code nd nf nq Ret} {next : Ret → Code nd nf nq Ret}
    (hfirst : Starting i p s) (herror : ∀ err, next (.error err) = pure (.error err))
    (hok : ∀ t, Stage i s t → (t.filter i).state ≠ .free → Starting i (next (.ok ())) t) :
    Starting i (p >>= next) s := by
  intro r s' hrun
  obtain ⟨a, t, hp, hnext⟩ := run_bind_some hrun
  rw [meets_bind_run hp]
  rcases hfirst a t hp with ⟨hmeets, hstage, hopen⟩ | ⟨hnot, hfail, hstale⟩
  · rcases a with err | done
    · rw [herror err] at hnext ⊢
      cases hnext
      exact .inl ⟨⟨hmeets, trivial⟩, hstage, hopen⟩
    · rcases hok t hstage hopen r s' hnext with ⟨hmeets', hstage', hopen'⟩ | ⟨hnot', hrest⟩
      · exact .inl ⟨⟨hmeets, hmeets'⟩, hstage.trans hstage', hopen'⟩
      · exact .inr ⟨fun h => hnot' h.2, hrest⟩
  · rcases a with err | done
    · rw [herror err] at hnext
      cases hnext
      exact .inr ⟨fun h => hnot h.1, nofun, hstale⟩
    · exact absurd rfl hfail

/-- After an error `dvb_dmxdev_filter_start` calls `dvb_dmxdev_filter_stop`, which does
nothing for a filter that is not running. -/
theorem filterStop_idle (i : Fin nd) (err : Errno) (s : Dmxdev nd nf nq)
    (hidle : (s.filter i).state.toNat < DmxdevState.go.toNat) :
    (do
      let _ ← dvbDmxdevFilterStop i
      pure (.error err) : Code nd nf nq Ret).run s = some (.error err, s) ∧
    (do
      let _ ← dvbDmxdevFilterStop i
      pure (.error err) : Code nd nf nq Ret).Meets StartsCleanly s := by
  constructor
  · simp [run_filterStop_idle hidle]
  · simp [dvbDmxdevFilterStop, meets_bind, theFilter, StartsCleanly, hidle]
    trivial

theorem noStart_start (i : Fin nd) (s : Dmxdev nd nf nq) : NoStart (some (.start i)) s :=
  fun _ _ => nofun

section Starts

variable (i : Fin nd) (s : Dmxdev nd nf nq) (hinv : OwnInv s) (hopen : (s.filter i).state ≠ .free)
include hinv hopen

theorem startFeed_starting (pid addr : Nat)
    (hmem : addr ∈ (s.entries i).map DmxdevFeed.addr) :
    Starting i (dvbDmxdevStartFeed i pid addr) s := by
  intro r s' hrun
  obtain ⟨r', t, hrun', hstate, -, -, hfact⟩ := startFeed_fact i pid addr s hinv hmem
  obtain ⟨rfl, rfl⟩ := Prod.mk.inj (mem_unique hrun hrun')
  rw [meets_startFeed]
  rcases hfact with ⟨hclean, hstage⟩ | hbad
  · exact .inl ⟨hclean, hstage, by rwa [hstate]⟩
  · exact .inr hbad

theorem startFeeds_starting (l : List (DmxdevFeed nf))
    (hl : ∀ e ∈ l, e.addr ∈ (s.entries i).map DmxdevFeed.addr)
    (hidle : (s.filter i).state.toNat < DmxdevState.go.toNat) : Starting i (startFeeds i l) s := by
  induction l generalizing s with
  | nil => exact .ended hinv hopen
  | cons e rest ih =>
    intro r s' hrun
    obtain ⟨r1, t, hfirst, hstate, -, haddr, hfact⟩ :=
      startFeed_fact i e.pid e.addr s hinv (hl e mem_cons_self)
    obtain ⟨r1', t', hfirst', hnext⟩ := run_bind_some hrun
    obtain ⟨rfl, rfl⟩ := Prod.mk.inj (mem_unique hfirst' hfirst)
    rw [startFeeds, meets_bind_run hfirst, meets_startFeed]
    rcases r1' with err | done
    · obtain ⟨hstop, hcalm⟩ := filterStop_idle i err t' (by rwa [hstate])
      rw [hstop] at hnext
      cases hnext
      rcases hfact with ⟨hclean, hstage⟩ | ⟨hnot, -, hstale⟩
      · exact .inl ⟨⟨hclean, hcalm⟩, hstage, by rwa [hstate]⟩
      · exact .inr ⟨fun h => hnot h.1, nofun, hstale⟩
    · rcases hfact with ⟨hclean, hstage⟩ | ⟨-, hfail, -⟩
      · have htail := ih t' hstage.inv (by rwa [hstate])
          (fun e' he' => by rw [haddr]; exact hl e' (mem_cons_of_mem e he')) (by rwa [hstate])
        rcases htail r s' hnext with ⟨hmeets, hstage', hopen'⟩ | ⟨hnot, hrest⟩
        · exact .inl ⟨⟨hclean, hmeets⟩, hstage.trans hstage', hopen'⟩
        · exact .inr ⟨fun h => hnot h.2, hrest⟩
      · exact absurd rfl hfail

section

variable (hidle : (s.filter i).type = .pes → (s.filter i).state.toNat < DmxdevState.go.toNat)
include hidle

theorem startByType_starting : Starting i (startByType i) s := by
  refine .after (P := fun flt t => flt = s.filter i ∧ t = s)
    (quietly_theFilter ⟨hinv.stage i, rfl, rfl⟩) ?_
  rintro flt t - ⟨rfl, rfl⟩
  cases htype : (t.filter i).type with
  | sec => exact absurd htype (hinv.plain i hopen)
  | pes =>
    have hlist := entries_eq_feedTs hopen htype
    refine startFeeds_starting i t hinv hopen _ ?_ (hidle htype)
    intro e he
    rw [hlist]
    exact List.mem_map_of_mem he
  | none => exact .ended hinv hopen

theorem startStopped_starting : Starting i (startStopped i) s := by
  refine .andThen (startByType_starting i s hinv hopen hidle) (fun _ => rfl) ?_
  intro t hstage hopen'
  refine .of_quietly (Contract.Wp.bind (alone_modify (noStart_start i t)
    (alone_pure ⟨?_, by simp⟩)))
  exact hstage.inv.upd i _ (iff_of_false (by simp) hopen') rfl rfl

end

theorem filterStart_starting : Starting i (dvbDmxdevFilterStart i) s := by
  refine .after (P := fun flt t => flt = s.filter i ∧ t = s)
    (quietly_theFilter ⟨hinv.stage i, rfl, rfl⟩) ?_
  rintro flt t - ⟨rfl, rfl⟩
  split_ifs with hstate
  · exact .ended hinv hopen
  refine .after (stopRunning_stage i t hinv hopen) ?_
  rintro - u hstop ⟨hopen1, -, hidle⟩
  refine .after (provideBuffer_stage i u hstop.inv) ?_
  rintro ready v hbuf ⟨hstate', htype', -⟩
  have hopen2 : (v.filter i).state ≠ .free := by rwa [hstate']
  rcases ready with _ | _
  · exact .ended hbuf.inv hopen2
  refine startStopped_starting i v hbuf.inv hopen2 ?_
  rwa [htype', hstate']

theorem newFeed_stage (pid : Nat) (htype : (s.filter i).type = .pes) :
    quietly.Wp (newFeed i pid) (fun addr t => Stage i s t ∧
      (t.filter i).state = (s.filter i).state ∧
      addr ∈ (t.entries i).map DmxdevFeed.addr) s := by
  have hnew : (s.addEntry i pid).entries i =
      { pid := pid, ts := none, addr := s.fresh } :: s.entries i := by
    simp [entries, addEntry, hopen, htype]
  have hlocal : Local i s (s.addEntry i pid) := by
    refine .of_same_feeds ?_ rfl (Nat.le_succ _)
    intro j hj
    simp [addEntry, update_of_ne hj]
  apply alone_call (noStart_none s)
  intro out hout
  cases hout
  refine ⟨⟨hinv.of_local hlocal ?_ ?_ ?_ ?_, hlocal⟩, by simp [addEntry], by simp [hnew]⟩
  · intro e he f hf
    rw [hnew] at he
    rcases mem_cons.mp he with rfl | hold
    · cases hf
    · exact hinv.owned i e hold f hf
  · rw [hnew, map_cons, nodup_cons]
    refine ⟨?_, hinv.nodup i⟩
    intro hmem
    obtain ⟨e, he, haddr⟩ := List.mem_map.mp hmem
    exact absurd (hinv.below i e he) (by simp [haddr])
  · intro e he
    rw [hnew] at he
    rcases mem_cons.mp he with rfl | hold
    · exact .inr ⟨le_rfl, Nat.lt_succ_self _⟩
    · exact .inl ⟨e, hold, rfl⟩
  · simpa [addEntry] using hinv.plain i

theorem addPid_starting (pid : Nat) : Starting i (dvbDmxdevAddPid i pid) s := by
  refine .after (P := fun flt t => flt = s.filter i ∧ t = s)
    (quietly_theFilter ⟨hinv.stage i, rfl, rfl⟩) ?_
  rintro flt t - ⟨rfl, rfl⟩
  split_ifs with hkind hone
  · exact .ended hinv hopen
  · exact .ended hinv hopen
  have htype : (t.filter i).type = .pes := by
    by_contra hoth
    exact hkind (.inl hoth)
  have hans := hinv.answered i
  refine .after (P := fun _ u => u = t.answered) (quietly_ask ⟨hans, rfl⟩) ?_
  rintro a u - rfl
  split_ifs
  · exact .ended hans.inv hopen
  refine .after (newFeed_stage i t.answered hans.inv hopen pid htype) ?_
  rintro addr v hnew ⟨hstate, hmem⟩
  have hopen' : (v.filter i).state ≠ .free := by rwa [hstate]
  refine .after (P := fun _ w => w = v) (quietly_theFilter ⟨hnew.inv.stage i, rfl⟩) ?_
  rintro flt w - rfl
  split_ifs
  · exact startFeed_starting i w hnew.inv hopen' pid addr hmem
  · exact .ended hnew.inv hopen'

theorem pesFilterSet_starting (params : DmxPesFilterParams) :
    Starting i (dvbDmxdevPesFilterSet i params) s := by
  refine .after (filterStop_stage i s hinv hopen) ?_
  rintro - t hstop ⟨hopen1, -⟩
  refine .after (filterReset_stage i t hstop.inv hopen1) ?_
  rintro - u hreset hopen2
  rcases lt_or_ge dmxPesOther params.pesType with hpes | hpes
  · rw [if_pos hpes]
    exact .ended hreset.inv hopen2
  rw [if_neg hpes.not_gt]
  refine .after (P := fun _ v => (v.filter i).state ≠ .free) (quietly_filterUpd ⟨?_, ?_⟩) ?_
  · exact hreset.inv.emptied i _ (by simp [entries]) (by simp)
  · simpa using hopen2
  rintro - v hset hopen3
  refine .after (filterStateSet_stage i v hset.inv hopen3 .set (by decide)) ?_
  rintro - w hstate rfl
  have hopen4 : ((v.upd i (fun flt => { flt with state := .set })).filter i).state ≠ .free := by
    simp
  refine .andThen (addPid_starting i _ hstate.inv hopen4 params.pid) (fun _ => rfl) ?_
  intro x hadd hopen5
  split_ifs
  · exact filterStart_starting i x hadd.inv hopen5
  · exact .ended hadd.inv hopen5

theorem removePid_stage (pid : Nat) :
    quietly.Wp (dvbDmxdevRemovePid i pid)
      (fun _ t => Stage i s t ∧ (t.filter i).state ≠ .free) s := by
  refine .bind (quietly_theFilter ?_)
  split_ifs with hkind
  · exact alone_pure ⟨hinv.stage i, hopen⟩
  have htype : (s.filter i).type = .pes := by
    by_contra hoth
    exact hkind (.inl hoth)
  have hlist := entries_eq_feedTs hopen htype
  refine .bind ((removeFeeds_stage i pid _ s hinv ?_ ?_).mono ?_)
  · exact fun e he => hlist ▸ he
  · rw [← hlist]
    exact pairwise_map.mp (hinv.nodup i)
  · exact fun _ t _ hdone => alone_pure ⟨hdone.1, by rwa [hdone.2]⟩

end Starts

/-! Runs of calls on any number of handles. -/

def HandleCall.handle : HandleCall nd → Option (Fin nd)
  | .openDemux => none
  | .ioctl i _ => some i
  | .close i => some i

/-- One call. There are no calls on a handle that is not open, and no filter is made a
section filter. -/
def handleStep (s : Dmxdev nd nf nq) : HandleCall nd → Option (Dmxdev nd nf nq)
  | .openDemux => (dvbDemuxOpen.run s).map Prod.snd
  | .ioctl i cmd =>
    match (s.filter i).state, cmd with
    | .free, _ => none
    | _, .setFilter _ => none
    | _, cmd => ((dvbDemuxDoIoctl i cmd).run s).map Prod.snd
  | .close i =>
    match (s.filter i).state with
    | .free => none
    | _ => ((dvbDmxdevFilterFree i).run s).map Prod.snd

/-- Every `dvb_dmxdev_start_feed` of the call is clean. -/
def CleanCall (s : Dmxdev nd nf nq) : HandleCall nd → Prop
  | .ioctl i cmd => (dvbDemuxDoIoctl i cmd).Meets StartsCleanly s
  | _ => True

def Undisturbed (s : Dmxdev nd nf nq) (call : HandleCall nd) : Prop :=
  ∀ next, handleStep s call = some next → ∀ j, call.handle ≠ some j →
    ∀ e ∈ s.entries j, ∀ f, e.ts = some f → next.demux.feed f = s.demux.feed f

section

variable (i : Fin nd) (cmd : DmxCmd) (hcmd : ∀ params, cmd ≠ .setFilter params)
  (s : Dmxdev nd nf nq) (hinv : OwnInv s) (hopen : (s.filter i).state ≠ .free)
include hcmd hinv hopen

theorem dmxCmd_starting : Starting i (dmxCmd i cmd) s := by
  cases cmd with
  | start =>
    refine .after (P := fun _ t => t = s) (quietly_theFilter ⟨hinv.stage i, rfl⟩) ?_
    rintro flt t - rfl
    split_ifs
    · exact .ended hinv hopen
    · exact filterStart_starting i t hinv hopen
  | stop =>
    refine .of_quietly ((filterStop_stage i s hinv hopen).mono ?_)
    exact fun _ _ _ hdone => ⟨hdone.1, hdone.2.1⟩
  | setFilter params => exact absurd rfl (hcmd params)
  | setPesFilter params => exact pesFilterSet_starting i s hinv hopen params
  | setBufferSize size => exact .of_quietly (setBufferSize_stage i s hinv hopen size)
  | addPid pid => exact addPid_starting i s hinv hopen pid
  | removePid pid => exact .of_quietly (removePid_stage i s hinv hopen pid)

theorem doIoctl_starting : Starting i (dvbDemuxDoIoctl i cmd) s := by
  have hdevice := hinv.answered i
  refine .after (P := fun _ t => t = s.answered) (quietly_ask ⟨hdevice, rfl⟩) ?_
  rintro a t - rfl
  cases a.interrupted with
  | true => exact .ended hdevice.inv hopen
  | false =>
    have hflt := hdevice.inv.answered i
    refine .after (P := fun _ t => t = s.answered.answered) (quietly_ask ⟨hflt, rfl⟩) ?_
    rintro b t - rfl
    cases b.interrupted with
    | true => exact .ended hflt.inv hopen
    | false => exact dmxCmd_starting i cmd hcmd _ hflt.inv hopen

end

theorem openFrom_stage (l : List (Fin nd)) (s : Dmxdev nd nf nq) (hinv : OwnInv s) :
    quietly.Wp (openFrom l) (fun _ t => OwnInv t ∧ t.demux = s.demux) s := by
  induction l with
  | nil => exact alone_pure ⟨hinv, rfl⟩
  | cons i rest ih =>
    refine .bind (quietly_theFilter ?_)
    split_ifs with hfree
    · have hinit := hinv.emptied i (fun flt => { flt with
        buffer := dvbRingbufferInit none 8192, type := .none })
        (by simp [entries]) (by simp)
      have hset := hinit.inv.emptied i (fun flt => { flt with state := .allocated })
        (by simp [entries]) (by simp)
      have htimer := hset.inv.upd i delTimer Iff.rfl rfl rfl
      exact .bind (quietly_filterUpd (Contract.Wp.bind (quietly_filterUpd
        (Contract.Wp.bind (quietly_filterUpd (alone_pure ⟨htimer.inv, rfl⟩))))))
    · exact ih

theorem open_stage (s : Dmxdev nd nf nq) (hinv : OwnInv s) :
    quietly.Wp dvbDemuxOpen (fun _ t => OwnInv t ∧ t.demux = s.demux) s := by
  refine .bind (quietly_ask ?_)
  split_ifs
  · exact alone_pure ⟨{ hinv with }, rfl⟩
  · exact openFrom_stage _ s.answered { hinv with }

theorem handleStep_ioctl {next : Dmxdev nd nf nq} {cmd : DmxCmd}
    (hstep : handleStep s (.ioctl i cmd) = some next) :
    (s.filter i).state ≠ .free ∧ (∀ params, cmd ≠ .setFilter params) ∧
      ∃ r, (dvbDemuxDoIoctl i cmd).run s = some (r, next) := by
  simp only [handleStep] at hstep
  split at hstep
  · cases hstep
  · cases hstep
  rename_i hcmd hfree
  obtain ⟨⟨r, t⟩, hrun, rfl⟩ := map_eq_some_iff.mp hstep
  exact ⟨hfree, hcmd, r, hrun⟩

theorem handleStep_close {next : Dmxdev nd nf nq} (hstep : handleStep s (.close i) = some next) :
    (s.filter i).state ≠ .free ∧ ∃ r, (dvbDmxdevFilterFree i).run s = some (r, next) := by
  rw [handleStep] at hstep
  split at hstep
  · cases hstep
  rename_i hfree
  obtain ⟨⟨r, t⟩, hrun, rfl⟩ := map_eq_some_iff.mp hstep
  exact ⟨hfree, r, hrun⟩

theorem Local.undisturbed {j : Fin nd} (hlocal : Local i s s') (hj : some i ≠ some j)
    (he : e ∈ s.entries j) (hf : e.ts = some f) : s'.demux.feed f = s.demux.feed f :=
  hlocal.feeds j (fun h => hj (congrArg some h.symm)) e he f hf

section

variable (s : Dmxdev nd nf nq) (call : HandleCall nd) (next : Dmxdev nd nf nq) (hinv : OwnInv s)
  (hstep : handleStep s call = some next)
include hinv hstep

/-- A clean call keeps the invariant and leaves the feeds of other handles alone. -/
theorem handleStep_keeps (hclean : CleanCall s call) : OwnInv next ∧ Undisturbed s call := by
  have hsame : ∀ next', handleStep s call = some next' → next' = next := fun next' hstep' =>
    mem_unique hstep' hstep
  cases call with
  | openDemux =>
    obtain ⟨⟨r, t⟩, hrun, rfl⟩ := map_eq_some_iff.mp hstep
    obtain ⟨hnext, hdemux⟩ := alone_run (open_stage s hinv) hrun
    refine ⟨hnext, ?_⟩
    intro next' hstep' j _ e _ f _
    rw [hsame next' hstep', hdemux]
  | ioctl i cmd =>
    obtain ⟨hopen, hcmd, r, hrun⟩ := handleStep_ioctl hstep
    rcases doIoctl_starting i cmd hcmd s hinv hopen r next hrun with
      ⟨-, hstage, -⟩ | ⟨hnot, -⟩
    · refine ⟨hstage.inv, ?_⟩
      intro next' hstep' j hj e he f hf
      rw [hsame next' hstep']
      exact hstage.loc.undisturbed hj he hf
    · exact absurd hclean hnot
  | close i =>
    obtain ⟨hopen, r, hrun⟩ := handleStep_close hstep
    obtain ⟨hstage, -⟩ := alone_run (filterFree_stage i s hinv hopen) hrun
    refine ⟨hstage.inv, ?_⟩
    intro next' hstep' j hj e he f hf
    rw [hsame next' hstep']
    exact hstage.loc.undisturbed hj he hf

theorem handleStep_breaks (hclean : ¬ CleanCall s call) : ¬ FeedsOwned next := by
  cases call with
  | openDemux => exact absurd trivial hclean
  | ioctl i cmd =>
    obtain ⟨hopen, hcmd, r, hrun⟩ := handleStep_ioctl hstep
    rcases doIoctl_starting i cmd hcmd s hinv hopen r next hrun with
      ⟨hmeets, -⟩ | ⟨-, -, hstale⟩
    · exact absurd hmeets hclean
    · exact hstale.not_owned
  | close i => exact absurd trivial hclean

end

theorem ownInv_init (s : Dmxdev nd nf nq) : OwnInv (dvbDmxdevInit s) := by
  have hempty : ∀ i, (dvbDmxdevInit s).entries i = [] := by
    intro i
    simp [entries, dvbDmxdevInit]
  constructor
  · intro i e he
    simp [hempty] at he
  · intro i
    simp [hempty]
  · intro i j _ e he
    simp [hempty] at he
  · intro i e he
    simp [hempty] at he
  · intro i hopen
    simp [dvbDmxdevInit] at hopen

/-- Along a run of calls on any number of handles, pointers to feeds point to owned
feeds in every state, and no call touches a feed of another handle, exactly if every
`dvb_dmxdev_start_feed` of the run is clean. -/
theorem feeds_owned_iff_clean (s : Dmxdev nd nf nq) (calls : List (HandleCall nd)) :
    (Always handleStep FeedsOwned (dvbDmxdevInit s) calls ∧
      Along handleStep Undisturbed (dvbDmxdevInit s) calls) ↔
    Along handleStep CleanCall (dvbDmxdevInit s) calls := by
  have hiff := always_iff_along handleStep FeedsOwned CleanCall OwnInv
    (fun _ hinv => hinv.feedsOwned)
    (fun s call next hinv hstep hclean => (handleStep_keeps s call next hinv hstep hclean).1)
    handleStep_breaks (dvbDmxdevInit s) (ownInv_init s) calls
  rw [hiff]
  exact and_iff_left_of_imp (.imp OwnInv handleStep_keeps (ownInv_init s))

def refusingWorld (n : Nat) : Answer :=
  if n = 9 then { Answer.ok with driver := -5 } else .ok

/-- One feed slot. The first handle's start fails at the driver. The second handle gets
the slot, and the first then removes its PID. -/
def takenFeedRun : List (HandleCall 2) :=
  let tap (pid flags : Nat) : DmxPesFilterParams :=
    { pid := pid, output := .tsdemuxTap, pesType := dmxPesOther, flags := flags }
  [.openDemux, .ioctl 0 (.setPesFilter (tap 0x100 0)), .ioctl 0 .start,
   .openDemux, .ioctl 1 (.setPesFilter (tap 0x200 dmxImmediateStart)), .ioctl 0 (.removePid 0x100)]

def oneFeedDevice : Dmxdev 2 1 1 where
  filter := default
  demux := readyDemux 1 1
  world := refusingWorld
  fresh := 0

/-- The second handle is running, and its feed has been released by the first. -/
theorem stale_pointer_releases_foreign_feed :
    ¬ Always handleStep FeedsOwned (dvbDmxdevInit oneFeedDevice) takenFeedRun := by
  refine not_always_of_run (fun s => (∃ e ∈ s.entries 1, e.ts = some 0) ∧
    (s.demux.feed 0).state = .free) (by decide +kernel) ?_
  rintro last ⟨⟨e, he, hts⟩, hfree⟩
  have hstale : Stale 1 last := ⟨e, he, 0, hts, hfree⟩
  exact hstale.not_owned

end TbsMedia.DvbCore
