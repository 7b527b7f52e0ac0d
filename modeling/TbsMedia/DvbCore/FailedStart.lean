import TbsMedia.DvbCore.StartFeed
import TbsMedia.DvbCore.FilterFrames

/-!
What a failed `dvb_dmxdev_filter_start` leaves behind. The error paths of a PES
filter rely on `dvb_dmxdev_filter_stop`, which does nothing before the filter is in
state GO; those of a section filter rely on `dvb_dmxdev_feed_restart`, and the last
one, when the feed does not start, on nothing.
-/

namespace TbsMedia.DvbCore

open Lib Function Option Prog DvbDemux Dmxdev DmxdevState List

variable {nd nf nq : Nat}

/-- The feed works for the dmxdev filter `i`: a TS feed of its own, or a section feed
that has a filter of its own. -/
def WorksFor (i : Fin nd) (d : DvbDemux nf nq) (f : Fin nf) : Prop :=
  ((d.feed f).type = .ts ∧ (d.feed f).priv = some i.val) ∨
    ((d.feed f).type = .sec ∧ ∃ q ∈ (d.feed f).filter, (d.filter q).priv = some i.val)

/-- An allocated feed of the dmxdev filter `i`. -/
def FeedOf (i : Fin nd) (d : DvbDemux nf nq) (f : Fin nf) : Prop :=
  (d.feed f).state ≠ .free ∧ WorksFor i d f

def Silent (i : Fin nd) (d : DvbDemux nf nq) : Prop :=
  ∀ f, FeedOf i d f → (d.feed f).isFiltering = false

/-- The section filter `j` is running, and its feed `f` filters for it. -/
def Receiving (s : Dmxdev nd nf nq) (j : Fin nd) (f : Fin nf) : Prop :=
  (s.filter j).type = .sec ∧ (s.filter j).state = .go ∧ (s.filter j).feedSec = some f ∧
    (s.demux.feed f).state ≠ .free ∧ (s.demux.feed f).isFiltering = true ∧
    ∃ q, (s.filter j).filterSec = some q ∧ q ∈ (s.demux.feed f).filter

/-- The failed start of filter `i` leaks nothing and disturbs nobody. -/
structure CleanFailure (i : Fin nd) (s s' : Dmxdev nd nf nq) : Prop where
  feeds : ∀ f, (s'.demux.feed f).state = .free ↔ (s.demux.feed f).state = .free
  filters : ∀ q, (s'.demux.filter q).state = .free ↔ (s.demux.filter q).state = .free
  silent : Silent i s'.demux
  others : ∀ j, j ≠ i → ∀ f, Receiving s j f → Receiving s' j f

structure SameFeed (feed feed' : DvbDemuxFeed nq) : Prop where
  state : feed'.state = feed.state
  type : feed'.type = feed.type
  isFiltering : feed'.isFiltering = feed.isFiltering
  filter : feed'.filter = feed.filter
  priv : feed'.priv = feed.priv

open SameFeed

def SameFilters (d d' : DvbDemux nf nq) : Prop :=
  ∀ q, (d'.filter q).state = (d.filter q).state ∧ (d'.filter q).priv = (d.filter q).priv

theorem SameFeed.refl (feed : DvbDemuxFeed nq) : SameFeed feed feed := ⟨rfl, rfl, rfl, rfl, rfl⟩

theorem SameFilters.refl (d : DvbDemux nf nq) : SameFilters d d := fun _ => ⟨rfl, rfl⟩

theorem SameFilters.trans {d1 d2 d3 : DvbDemux nf nq} (hfirst : SameFilters d1 d2)
    (hnext : SameFilters d2 d3) : SameFilters d1 d3 := fun q =>
  ⟨(hnext q).1.trans (hfirst q).1, (hnext q).2.trans (hfirst q).2⟩

variable {d d' : DvbDemux nf nq} {f : Fin nf} {i : Fin nd}

theorem worksFor_congr (htype : (d'.feed f).type = (d.feed f).type)
    (hchain : (d'.feed f).filter = (d.feed f).filter) (hpriv : (d'.feed f).priv = (d.feed f).priv)
    (hflts : SameFilters d d') : WorksFor i d' f ↔ WorksFor i d f := by
  simp only [WorksFor, htype, hchain, hpriv, (hflts _).2]

theorem SameFeed.feedOf (hsame : SameFeed (d.feed f) (d'.feed f)) (hflts : SameFilters d d') :
    FeedOf i d' f ↔ FeedOf i d f := by
  rw [FeedOf, FeedOf, hsame.state, worksFor_congr hsame.type hsame.filter hsame.priv hflts]

variable {s s' : Dmxdev nd nf nq} {j : Fin nd}

theorem SameFeed.receiving (hflt : s'.filter j = s.filter j)
    (hsame : SameFeed (s.demux.feed f) (s'.demux.feed f)) (hrecv : Receiving s j f) :
    Receiving s' j f := by
  rw [Receiving, hflt, hsame.state, hsame.isFiltering, hsame.filter]
  exact hrecv

/-- A failure that changes slots which are free before and after, and nothing else that
matters, is clean as far as filter `i` was silent before. -/
theorem cleanFailure_iff_silent (hoth : ∀ j ≠ i, s'.filter j = s.filter j)
    (hused : ∀ f, (s.demux.feed f).state ≠ .free → SameFeed (s.demux.feed f) (s'.demux.feed f))
    (hfree : ∀ f, (s.demux.feed f).state = .free → (s'.demux.feed f).state = .free)
    (hflts : SameFilters s.demux s'.demux) : CleanFailure i s s' ↔ Silent i s.demux := by
  constructor
  · intro hclean f hfeed
    have hsame := hused f hfeed.1
    rw [← hsame.isFiltering]
    exact hclean.silent f ((hsame.feedOf hflts).mpr hfeed)
  intro hsilent
  constructor
  · intro f
    refine ⟨?_, hfree f⟩
    intro hgone
    by_contra hstate
    exact hstate ((hused f hstate).state.symm.trans hgone)
  · intro q
    rw [(hflts q).1]
  · intro f hfeed
    have hstate : (s.demux.feed f).state ≠ .free := fun h => hfeed.1 (hfree f h)
    have hsame := hused f hstate
    rw [hsame.isFiltering]
    exact hsilent f ((hsame.feedOf hflts).mp hfeed)
  · intro j hj f hrecv
    exact (hused f hrecv.2.2.2.1).receiving (hoth j hj) hrecv

/-! PES filters. -/

/-- `dvb_dmxdev_start_feed` gets through for this PID. -/
def FeedStarts (i : Fin nd) (pid : Nat) (s : Dmxdev nd nf nq) : Prop :=
  (s.world 0).interrupted = false ∧
    ∃ f, freeFeed s.demux = some f ∧ FeedAccepted i pid f s

variable {pid addr : Nat} {r : Ret}

section

variable (houtcome : StartFeedOutcome i pid addr s r s')
include houtcome

theorem StartFeedOutcome.feed (k : Fin nf) (hused : (s.demux.feed k).state ≠ .free) :
    s'.demux.feed k = s.demux.feed k := by
  cases houtcome with
  | unclaimed err _ hcause hflt hdemux hfresh => rw [hdemux]
  | refused err _ f hlock hfree href hflt hfeed hback hflts hfresh =>
    apply hfeed
    rintro rfl
    exact hused (freeFeed_some hfree)
  | started _ f q hlock hfree hacc hflt hfeed htaken hfresh =>
    apply hfeed
    rintro rfl
    exact hused (freeFeed_some hfree)

theorem StartFeedOutcome.filter : ∃ ts, s'.filter = (s.upd i (setTs addr ts)).filter := by
  cases houtcome with
  | unclaimed err _ hcause hflt => exact ⟨none, hflt⟩
  | refused err _ f hlock hfree href hflt => exact ⟨some f, hflt⟩
  | started _ f q hlock hfree hacc hflt => exact ⟨some f, hflt⟩

theorem StartFeedOutcome.state : (s'.filter i).state = (s.filter i).state := by
  obtain ⟨ts, hflt⟩ := houtcome.filter
  simp [hflt, setTs]

end

section

variable (i : Fin nd) (l : List (DmxdevFeed nf)) (s s' : Dmxdev nd nf nq)

theorem startFeeds_used (r : Ret) (hidle : (s.filter i).state.toNat < DmxdevState.go.toNat)
    (hrun : (startFeeds i l).run s = some (r, s')) (k : Fin nf)
    (hused : (s.demux.feed k).state ≠ .free) : (s'.demux.feed k).state ≠ .free := by
  induction l generalizing s with
  | nil =>
    cases hrun
    exact hused
  | cons e rest ih =>
    obtain ⟨r1, t, hfirst, houtcome⟩ := startFeed_outcome i e.pid e.addr s
    obtain ⟨r1', t', hfirst', hnext⟩ := run_bind_some hrun
    obtain ⟨rfl, rfl⟩ := Prod.mk.inj (mem_unique hfirst' hfirst)
    have hidle' : (t'.filter i).state.toNat < go.toNat := by rwa [houtcome.state]
    have hused' : (t'.demux.feed k).state ≠ .free := by rwa [houtcome.feed k hused]
    rcases r1' with err | done
    · rw [run_bind, run_filterStop_idle hidle'] at hnext
      cases hnext
      exact hused'
    · exact ih t' hidle' hnext hused'

/-- The start of a PES filter fails: cleanly if it is the first PID that cannot be
started, and otherwise the feeds started before stay allocated. -/
theorem startFeeds_clean_iff (err : Errno) (hidle : (s.filter i).state.toNat < DmxdevState.go.toNat)
    (hrun : (startFeeds i l).run s = some (.error err, s')) :
    CleanFailure i s s' ↔ Silent i s.demux ∧ ∀ e, l.head? = some e → ¬ FeedStarts i e.pid s := by
  rcases l with _ | ⟨e, rest⟩
  · cases hrun
  obtain ⟨r1, t, hfirst, houtcome⟩ := startFeed_outcome i e.pid e.addr s
  obtain ⟨r1', t', hfirst', hnext⟩ := run_bind_some hrun
  obtain ⟨rfl, rfl⟩ := Prod.mk.inj (mem_unique hfirst' hfirst)
  have hidle' : (t'.filter i).state.toNat < go.toNat := by rwa [houtcome.state]
  simp only [head?_cons, Option.some.injEq, forall_eq']
  have hused := houtcome.feed
  have hoth : ∀ j ≠ i, t'.filter j = s.filter j := by
    intro j hj
    obtain ⟨ts, hflt⟩ := houtcome.filter
    simp [hflt, update_of_ne hj]
  cases houtcome with
  | unclaimed err1 _ hcause hflt hdemux hfresh =>
    rw [run_bind, run_filterStop_idle hidle'] at hnext
    cases hnext
    have hno : ¬ FeedStarts i e.pid s := by
      rintro ⟨hlock, f, hf, -⟩
      rcases hcause with hsignal | hnone
      · simp [hlock] at hsignal
      · simp [hnone] at hf
    rw [and_iff_left hno]
    refine cleanFailure_iff_silent hoth ?_ ?_ ?_
    · exact fun f _ => hdemux ▸ refl _
    · exact fun f hf => hdemux ▸ hf
    · exact hdemux ▸ SameFilters.refl _
  | refused err1 _ f hlock hfree href hflt hfeed hback hflts hfresh =>
    rw [run_bind, run_filterStop_idle hidle'] at hnext
    cases hnext
    have hno : ¬ FeedStarts i e.pid s := by
      rintro ⟨-, f', hf', hacc⟩
      obtain rfl := mem_unique hfree hf'
      exact href hacc
    rw [and_iff_left hno]
    refine cleanFailure_iff_silent hoth ?_ ?_ hflts
    · exact fun k hk => hused k hk ▸ refl _
    intro k hk
    rcases eq_or_ne k f with rfl | hkf
    · exact hback
    · rwa [hfeed k hkf]
  | started _ f q hlock hfree hacc hflt hfeed htaken hfresh =>
    refine iff_of_false ?_ (fun h => h.2 ⟨hlock, f, hfree, hacc⟩)
    intro hclean
    have hkept := startFeeds_used i rest t' s' _ hidle' hnext f (by simp [htaken.1])
    exact hkept ((hclean.feeds f).mpr (freeFeed_some hfree))

end

/-! The calls of the section feed API. -/

/-- Nothing that matters changes but the feed `f`. -/
structure OnlyFeed (f : Fin nf) (d d' : DvbDemux nf nq) : Prop where
  feeds : ∀ k, k ≠ f → SameFeed (d.feed k) (d'.feed k)
  filters : SameFilters d d'
  startFeed : d'.startFeed = d.startFeed

theorem SameFeed.trans {feed1 feed2 feed3 : DvbDemuxFeed nq} (hfirst : SameFeed feed1 feed2)
    (hnext : SameFeed feed2 feed3) : SameFeed feed1 feed3 where
  state := hnext.state.trans hfirst.state
  type := hnext.type.trans hfirst.type
  isFiltering := hnext.isFiltering.trans hfirst.isFiltering
  filter := hnext.filter.trans hfirst.filter
  priv := hnext.priv.trans hfirst.priv

theorem OnlyFeed.trans {d1 d2 d3 : DvbDemux nf nq} (hfirst : OnlyFeed f d1 d2)
    (hnext : OnlyFeed f d2 d3) : OnlyFeed f d1 d3 where
  feeds := fun k hk => (hfirst.feeds k hk).trans (hnext.feeds k hk)
  filters := hfirst.filters.trans hnext.filters
  startFeed := hnext.startFeed.trans hfirst.startFeed

section

variable (f : Fin nf) (d : DvbDemux nf nq)

theorem OnlyFeed.updFeed (change : DvbDemuxFeed nq → DvbDemuxFeed nq) :
    OnlyFeed f d (d.updFeed f change) where
  feeds := fun k hk => by
    rw [updFeed_feed, update_of_ne hk]
    exact refl _
  filters := .refl d
  startFeed := rfl

theorem OnlyFeed.feedDel : OnlyFeed f d (dvbDemuxFeedDel f d) := ⟨fun _ _ => refl _, .refl d, rfl⟩

theorem prepareSecfilters_same :
    SameFilters d (prepareSecfilters f d) ∧ (prepareSecfilters f d).startFeed = d.startFeed := by
  unfold prepareSecfilters
  generalize (d.feed f).filter = chain
  induction chain generalizing d with
  | nil => exact ⟨.refl d, rfl⟩
  | cons q rest ih =>
    obtain ⟨hrest, hstart⟩ := ih (d.updFilter q prepareSecfilter)
    refine ⟨.trans ?_ hrest, hstart⟩
    intro k
    rcases eq_or_ne k q with rfl | hk
    · simp [prepareSecfilter]
    · simp [update_of_ne hk]

theorem OnlyFeed.prepareSecfilters : OnlyFeed f d (prepareSecfilters f d) where
  feeds := fun k _ => by
    rw [prepareSecfilters_feed]
    exact refl _
  filters := (prepareSecfilters_same f d).1
  startFeed := (prepareSecfilters_same f d).2

end

/-- `start_filtering` gets through. -/
def SectionStarts (a : Answer) (f : Fin nf) (d : DvbDemux nf nq) : Prop :=
  StartAccepted a d ∧ (d.feed f).isFiltering = false ∧ (d.feed f).filter ≠ []

/-- A feed after `start_filtering`, and after `stop_filtering`. -/
def secFeedStarted (feed : DvbDemuxFeed nq) : DvbDemuxFeed nq :=
  { feed with isFiltering := true, state := .go }

def secFeedStopped (feed : DvbDemuxFeed nq) : DvbDemuxFeed nq :=
  { feed with state := .ready, isFiltering := false }

theorem sectionNew_same (feed : DvbDemuxFeed nq) :
    SameFeed feed (dvbDmxSwfilterSectionNew feed) := ⟨rfl, rfl, rfl, rfl, rfl⟩

section

variable (a : Answer) (f : Fin nf) (d : DvbDemux nf nq)

theorem sectionFeedStart_effect :
    ∃ r d', dmxSectionFeedStartFiltering a f d = (r, d') ∧ OnlyFeed f d d' ∧
      ((SectionStarts a f d ∧ r = .ok () ∧ SameFeed (secFeedStarted (d.feed f)) (d'.feed f)) ∨
        (¬ SectionStarts a f d ∧ (∃ err, r = .error err) ∧ SameFeed (d.feed f) (d'.feed f))) := by
  have hsame := OnlyFeed.updFeed f d id
  have hreset := OnlyFeed.updFeed f d dvbDmxSwfilterSectionNew
  have hprep := hreset.trans (OnlyFeed.prepareSecfilters f _)
  unfold dmxSectionFeedStartFiltering SectionStarts StartAccepted
  split_ifs with hlock hbusy hempty hdrv hfail
  · refine ⟨_, _, rfl, ?_, .inr ⟨by simp [hlock], ⟨_, rfl⟩, refl _⟩⟩
    simpa [updFeed] using hsame
  · refine ⟨_, _, rfl, ?_, .inr ⟨by simp [hbusy], ⟨_, rfl⟩, refl _⟩⟩
    simpa [updFeed] using hsame
  · refine ⟨_, _, rfl, ?_, .inr ⟨?_, ⟨_, rfl⟩, refl _⟩⟩
    · simpa [updFeed] using hsame
    · exact fun h => h.2.2 (isEmpty_iff.mp hempty)
  · refine ⟨_, _, rfl, hreset, .inr ⟨?_, ⟨_, rfl⟩, ?_⟩⟩
    · rintro ⟨⟨-, hstart, -⟩, -⟩
      simp [hstart] at hdrv
    · rw [updFeed_feed, update_self]
      exact sectionNew_same _
  · refine ⟨_, _, rfl, hprep, .inr ⟨?_, ⟨_, rfl⟩, ?_⟩⟩
    · exact fun h => absurd h.1.2.2 (by omega)
    · rw [prepareSecfilters_feed, updFeed_feed, update_self]
      exact sectionNew_same _
  · refine ⟨_, _, rfl, hprep.trans (OnlyFeed.updFeed f _ _), .inl ⟨?_, rfl, ?_⟩⟩
    · exact ⟨⟨by simpa using hlock, by simpa using hdrv, by omega⟩, by simpa using hbusy,
        fun h => hempty (isEmpty_iff.mpr h)⟩
    · rw [updFeed_feed, update_self, prepareSecfilters_feed, updFeed_feed, update_self]
      exact ⟨rfl, rfl, rfl, rfl, rfl⟩

theorem sectionFeedStart_empty (hempty : (d.feed f).filter = []) :
    ∃ err, dmxSectionFeedStartFiltering a f d = (.error err, d) := by
  unfold dmxSectionFeedStartFiltering
  simp only [hempty, isEmpty_nil, if_true]
  split_ifs
  all_goals exact ⟨_, rfl⟩

theorem sectionFeedAllocateFilter_cases :
    ((a.interrupted = true ∨ freeFilter d = none) ∧
      ∃ err, dmxSectionFeedAllocateFilter a f d = (.error err, d)) ∨
    (¬ (a.interrupted = true ∨ freeFilter d = none) ∧
      ∃ q d', dmxSectionFeedAllocateFilter a f d = (.ok q, d') ∧
        (d.filter q).state = .free ∧ (d'.filter q).state ≠ .free) := by
  cases hlock : a.interrupted with
  | true => exact .inl ⟨.inl rfl, _, by simp only [dmxSectionFeedAllocateFilter, hlock]; rfl⟩
  | false =>
    rcases hfree : freeFilter d with _ | q
    · refine .inl ⟨.inr rfl, .ebusy, ?_⟩
      simp [dmxSectionFeedAllocateFilter, hlock, dvbDmxFilterAlloc, hfree]
    refine .inr ⟨by simp, q, (dmxSectionFeedAllocateFilter a f d).2, ?_, freeFilter_some hfree, ?_⟩
    all_goals simp [dmxSectionFeedAllocateFilter, hlock, dvbDmxFilterAlloc, hfree]

end

/-! The loops over the filters of the device. -/

def firstActive (s : Dmxdev nd nf nq) (pid : Nat) : Option (Fin nd) :=
  (List.finRange nd).find? (s.active pid)

theorem run_findFeed (pid : Nat) (l : List (Fin nd)) (s : Dmxdev nd nf nq) :
    (findFeed pid l).run s =
      some ((l.find? (s.active pid)).bind (fun j => (s.filter j).feedSec), s) := by
  induction l with
  | nil => rfl
  | cons j rest ih =>
    cases hact : s.active pid j with
    | true => simp [findFeed, hact]
    | false => simp [findFeed, hact, ih]

variable {sec : Fin nf}

theorem run_feedRestartFrom_none {l : List (Fin nd)} (i : Fin nd)
    (hnone : l.find? (s.active pid) = none) (hsec : (s.filter i).feedSec = some sec) :
    (feedRestartFrom i pid l).run s =
      some (.ok (), s.withDemux (dvbdmxReleaseSectionFeed sec s.demux).2) := by
  induction l with
  | nil => simp [feedRestartFrom, hsec]
  | cons j rest ih =>
    rw [find?_cons] at hnone
    cases hact : s.active pid j with
    | true => simp [hact] at hnone
    | false =>
      rw [hact] at hnone
      simp [feedRestartFrom, hact, ih hnone]

theorem run_feedRestartFrom_some {l : List (Fin nd)} (i : Fin nd)
    (hsome : l.find? (s.active pid) = some j) :
    (feedRestartFrom i pid l).run s =
      ((dvbDmxdevFeedStart j).run s).map (fun out => (.ok (), out.2)) := by
  induction l with
  | nil => cases hsome
  | cons k rest ih =>
    rw [find?_cons] at hsome
    cases hact : s.active pid k with
    | true =>
      rw [hact] at hsome
      cases hsome
      simp only [feedRestartFrom, run_bind, run_read, bind_some, hact, if_true, run_pure]
      rw [map_eq_bind]
      rfl
    | false =>
      rw [hact] at hsome
      simp [feedRestartFrom, hact, ih hsome]

theorem Dmxdev.active_sec (hact : s.active pid j = true) : (s.filter j).type = .sec := by
  simp only [active, decide_eq_true_eq] at hact
  exact hact.2.1

theorem firstActive_sec (hfirst : firstActive s pid = some j) : (s.filter j).type = .sec :=
  active_sec (find?_some hfirst)

/-- The demux after `dvb_dmxdev_feed_restart` found no filter to go on with. -/
theorem run_feedRestart_none (hnone : firstActive s (s.filter i).paramsSec.pid = none)
    (hsec : (s.filter i).feedSec = some sec) :
    (dvbDmxdevFeedRestart i).run s =
      some (.ok (), s.withDemux (dvbdmxReleaseSectionFeed sec s.demux).2) := by
  simp [dvbDmxdevFeedRestart, run_feedRestartFrom_none i hnone hsec]

/-- It found the filter `j`, which is set going, and its feed started. -/
theorem run_feedRestart_some (hsome : firstActive s (s.filter i).paramsSec.pid = some j) :
    (dvbDmxdevFeedRestart i).run s = (s.filter j).feedSec.map (fun sec => (.ok (),
      (s.upd j (fun flt => { flt with state := .go })).answered.withDemux
        (dmxSectionFeedStartFiltering (s.world 0) sec s.demux).2)) := by
  have htype := firstActive_sec hsome
  simp only [dvbDmxdevFeedRestart, run_bind, run_theFilter, bind_some,
    run_feedRestartFrom_some i hsome]
  cases hsec : (s.filter j).feedSec with
  | none => simp [dvbDmxdevFeedStart, startAgainByType, htype, hsec]
  | some sec => simp [dvbDmxdevFeedStart, startAgainByType, htype, hsec]

variable {err : Errno}

/-- `startSecfilter` fails for want of a filter, after which the feed is started again;
or it fails at the start, and the filter it has taken is lost. -/
theorem startSecfilter_error {para : DmxSctFilterParams}
    (hrun : (startSecfilter i sec para).run s = some (.error err, s')) :
    (((s.world 0).interrupted = true ∨ freeFilter s.demux = none) ∧
      ∃ r t, (dvbDmxdevFeedRestart i).run s.answered = some (r, t) ∧
        s' = t.answered.withDemux (dmxSectionFeedStartFiltering (t.world 0) sec t.demux).2) ∨
    (¬ ((s.world 0).interrupted = true ∨ freeFilter s.demux = none) ∧
      ∃ q, (s.demux.filter q).state = .free ∧ (s'.demux.filter q).state ≠ .free) := by
  obtain ⟨r, t, hfirst, hnext⟩ := run_bind_some hrun
  rcases sectionFeedAllocateFilter_cases (s.world 0) sec s.demux with
    ⟨hcause, err', hout⟩ | ⟨hcause, q, d', hout, hfree, htaken⟩
  · rw [run_demuxCall, hout] at hfirst
    cases hfirst
    obtain ⟨r', t', hrestart, hnext⟩ := run_bind_some hnext
    cases hnext
    exact .inl ⟨hcause, r', t', hrestart, rfl⟩
  · rw [run_demuxCall, hout] at hfirst
    cases hfirst
    refine .inr ⟨hcause, q, hfree, ?_⟩
    obtain ⟨_, t', hwrite, hnext⟩ := run_bind_some hnext
    cases hwrite
    obtain ⟨r', t'', hstart, hnext⟩ := run_bind_some hnext
    cases hstart
    obtain ⟨r'', d'', heffect, honly, -⟩ := sectionFeedStart_effect (s.world 1) sec
      (d'.updFilter q (writeSecfilter i para.filter))
    have hkept : (d''.filter q).state ≠ .free := by
      rw [(honly.filters q).1]
      simpa [writeSecfilter] using htaken
    simp only [withDemux_world, upd_world, answered_world, withDemux_demux, heffect] at hnext
    rcases r'' with err'' | done
    · cases hnext
      exact hkept
    · cases hnext

/-! A feed that is shared with a filter that is active. -/

inductive RestartFate where
  | restarted
  | stopped
  | untouched
deriving DecidableEq

def RestartFate.feed : RestartFate → DvbDemuxFeed nq → DvbDemuxFeed nq
  | .restarted => secFeedStarted
  | .stopped => secFeedStopped
  | .untouched => id

instance (a : Answer) (d : DvbDemux nf nq) : Decidable (StartAccepted a d) :=
  inferInstanceAs (Decidable (_ ∧ _ ∧ _))

/-- The feed is stopped if the driver can, and started if it does not filter and has
a filter; there are two attempts. -/
def restartFate (first second : Answer) (f : Fin nf) (d : DvbDemux nf nq) : RestartFate :=
  if ((d.feed f).isFiltering = false ∨ d.stopFeed = true) ∧ (d.feed f).filter ≠ [] ∧
      (StartAccepted first d ∨ StartAccepted second d) then .restarted
  else if d.stopFeed then .stopped
  else .untouched

def SilentBut (i : Fin nd) (f : Fin nf) (d : DvbDemux nf nq) : Prop :=
  ∀ k, k ≠ f → FeedOf i d k → (d.feed k).isFiltering = false

/-- Which fates of the shared feed `f` do no harm. -/
def FateClean (i : Fin nd) (f : Fin nf) (s : Dmxdev nd nf nq) : RestartFate → Prop
  | .restarted => (s.demux.feed f).state ≠ .free ∧ SilentBut i f s.demux ∧
      ¬ WorksFor i s.demux f
  | .stopped => (s.demux.feed f).state ≠ .free ∧ SilentBut i f s.demux ∧
      ∀ j, j ≠ i → ¬ Receiving s j f
  | .untouched => Silent i s.demux

theorem RestartFate.feed_core (fate : RestartFate) (feed : DvbDemuxFeed nq) :
    (fate.feed feed).type = feed.type ∧ (fate.feed feed).filter = feed.filter ∧
      (fate.feed feed).priv = feed.priv := by
  cases fate with
  | restarted => exact ⟨rfl, rfl, rfl⟩
  | stopped => exact ⟨rfl, rfl, rfl⟩
  | untouched => exact ⟨rfl, rfl, rfl⟩

/-- What `Receiving` reads of a filter; one that is done may have been set going. -/
structure SameOrGoing (flt flt' : DmxdevFilter nf nq) : Prop where
  type : flt'.type = flt.type
  feedSec : flt'.feedSec = flt.feedSec
  filterSec : flt'.filterSec = flt.filterSec
  going : flt.state = .go → flt'.state = .go

/-- A failure that changes only the feed `f`, part by part. -/
theorem cleanFailure_iff_fateClean (fate : RestartFate)
    (hoth : ∀ j ≠ i, SameOrGoing (s.filter j) (s'.filter j)) (honly : OnlyFeed f s.demux s'.demux)
    (hfeed : SameFeed (fate.feed (s.demux.feed f)) (s'.demux.feed f)) :
    CleanFailure i s s' ↔ FateClean i f s fate := by
  obtain ⟨htype, hchain, hpriv⟩ := fate.feed_core (s.demux.feed f)
  have hworks : WorksFor i s'.demux f ↔ WorksFor i s.demux f :=
    worksFor_congr (hfeed.type.trans htype) (hfeed.filter.trans hchain)
      (hfeed.priv.trans hpriv) honly.filters
  have hsilent : Silent i s'.demux ↔ SilentBut i f s.demux ∧
      (FeedOf i s'.demux f → (s'.demux.feed f).isFiltering = false) := by
    constructor
    · intro h
      refine ⟨?_, h f⟩
      intro k hk hof
      have hsame := honly.feeds k hk
      rw [← hsame.isFiltering]
      exact h k ((hsame.feedOf honly.filters).mpr hof)
    · rintro ⟨hbut, hself⟩ k hof
      rcases eq_or_ne k f with rfl | hk
      · exact hself hof
      have hsame := honly.feeds k hk
      rw [hsame.isFiltering]
      exact hbut k hk ((hsame.feedOf honly.filters).mp hof)
  have hparts : CleanFailure i s s' ↔
      ((s'.demux.feed f).state = .free ↔ (s.demux.feed f).state = .free) ∧
      Silent i s'.demux ∧ (∀ j ≠ i, Receiving s j f →
        (s'.demux.feed f).state ≠ .free ∧ (s'.demux.feed f).isFiltering = true) := by
    constructor
    · intro hclean
      refine ⟨hclean.feeds f, hclean.silent, ?_⟩
      intro j hj hrecv
      have hstill := hclean.others j hj f hrecv
      exact ⟨hstill.2.2.2.1, hstill.2.2.2.2.1⟩
    rintro ⟨hstate, hquiet, hstill⟩
    refine ⟨?_, fun q => by rw [(honly.filters q).1], hquiet, ?_⟩
    · intro k
      rcases eq_or_ne k f with rfl | hk
      · exact hstate
      · rw [(honly.feeds k hk).state]
    intro j hj k hrecv
    obtain ⟨hsec, hgo, hfeedSec, hused, hfilt, q, hq, hmem⟩ := hrecv
    have hsame := hoth j hj
    rw [Receiving, hsame.type, hsame.feedSec, hsame.filterSec]
    rcases eq_or_ne k f with rfl | hk
    · obtain ⟨hused', hfilt'⟩ :=
        hstill j hj ⟨hsec, hgo, hfeedSec, hused, hfilt, q, hq, hmem⟩
      rw [hfeed.filter, hchain]
      exact ⟨hsec, hsame.going hgo, hfeedSec, hused', hfilt', q, hq, hmem⟩
    · have hfeed' := honly.feeds k hk
      rw [hfeed'.state, hfeed'.isFiltering, hfeed'.filter]
      exact ⟨hsec, hsame.going hgo, hfeedSec, hused, hfilt, q, hq, hmem⟩
  rw [hparts, hsilent, FeedOf, hworks, hfeed.state, hfeed.isFiltering]
  cases fate with
  | restarted => simp [RestartFate.feed, secFeedStarted, FateClean]
  | stopped =>
    simp only [RestartFate.feed, secFeedStopped, FateClean]
    simp
  | untouched =>
    simp only [RestartFate.feed, FateClean, id_eq, true_and]
    constructor
    · rintro ⟨⟨hbut, hself⟩, -⟩ k hof
      rcases eq_or_ne k f with rfl | hk
      · exact hself hof
      · exact hbut k hk hof
    · intro h
      refine ⟨⟨fun k _ => h k, h f⟩, ?_⟩
      intro j _ hrecv
      exact ⟨hrecv.2.2.2.1, hrecv.2.2.2.2.1⟩

theorem sectionStarts_congr {a : Answer} (honly : OnlyFeed f d d')
    (hsame : SameFeed (d.feed f) (d'.feed f)) : SectionStarts a f d' ↔ SectionStarts a f d := by
  simp only [SectionStarts, StartAccepted, honly.startFeed, hsame.isFiltering, hsame.filter]

theorem sectionFeedStop_effect (a : Answer) (f : Fin nf) (d : DvbDemux nf nq) :
    (dmxSectionFeedStopFiltering a f d).2 =
      if d.stopFeed then d.updFeed f secFeedStopped else d := by
  unfold dmxSectionFeedStopFiltering
  cases d.stopFeed with
  | true => rfl
  | false => rfl

theorem restart_effect (f : Fin nf) (a1 a2 a3 : Answer) (d : DvbDemux nf nq) :
    let d1 := (dmxSectionFeedStopFiltering a1 f d).2
    let d2 := (dmxSectionFeedStartFiltering a2 f d1).2
    let d3 := (dmxSectionFeedStartFiltering a3 f d2).2
    OnlyFeed f d d3 ∧ SameFeed ((restartFate a2 a3 f d).feed (d.feed f)) (d3.feed f) := by
  intro d1 d2 d3
  unfold restartFate
  have hstop : d1 = if d.stopFeed then d.updFeed f secFeedStopped else d :=
    sectionFeedStop_effect a1 f d
  have honly1 : OnlyFeed f d d1 := by
    rw [hstop]
    split_ifs
    · exact .updFeed f d _
    · simpa [updFeed] using OnlyFeed.updFeed f d id
  have hfeed1 : d1.feed f = if d.stopFeed then secFeedStopped (d.feed f) else d.feed f := by
    rw [hstop]
    split_ifs
    · simp
    · rfl
  have hcan : ∀ a, SectionStarts a f d1 ↔ StartAccepted a d ∧
      ((d.feed f).isFiltering = false ∨ d.stopFeed = true) ∧ (d.feed f).filter ≠ [] := by
    intro a
    rw [SectionStarts, StartAccepted, honly1.startFeed, hfeed1, StartAccepted]
    cases d.stopFeed with
    | true => simp [secFeedStopped]
    | false => simp
  have hstart : SameFeed (secFeedStarted (d.feed f)) (secFeedStarted (d1.feed f)) := by
    rw [hfeed1]
    split_ifs
    · exact ⟨rfl, rfl, rfl, rfl, rfl⟩
    · exact refl _
  obtain ⟨r2, d2', hout2, honly2, hcase2⟩ := sectionFeedStart_effect a2 f d1
  obtain rfl : d2 = d2' := by simp only [d2, hout2]
  obtain ⟨r3, d3', hout3, honly3, hcase3⟩ := sectionFeedStart_effect a3 f d2
  obtain rfl : d3 = d3' := by simp only [d3, hout3]
  refine ⟨(honly1.trans honly2).trans honly3, ?_⟩
  rcases hcase2 with ⟨hgo2, -, hsame2⟩ | ⟨hno2, -, hsame2⟩
  · have hno3 : ¬ SectionStarts a3 f d2 := by
      rintro ⟨-, hidle, -⟩
      simp [hsame2.isFiltering, secFeedStarted] at hidle
    rcases hcase3 with ⟨hgo3, -, -⟩ | ⟨-, -, hsame3⟩
    · exact absurd hgo3 hno3
    obtain ⟨hacc, hidle, hchain⟩ := (hcan a2).mp hgo2
    rw [if_pos ⟨hidle, hchain, .inl hacc⟩]
    exact (hstart.trans hsame2).trans hsame3
  · rw [hcan] at hno2
    rw [sectionStarts_congr honly2 hsame2, hcan] at hcase3
    rcases hcase3 with ⟨⟨hacc, hidle, hchain⟩, -, hsame3⟩ | ⟨hno3, -, hsame3⟩
    · rw [if_pos ⟨hidle, hchain, .inr hacc⟩]
      refine hstart.trans (trans ?_ hsame3)
      exact ⟨rfl, hsame2.type, rfl, hsame2.filter, hsame2.priv⟩
    rw [if_neg (by tauto)]
    have hboth := hsame2.trans hsame3
    rw [hfeed1] at hboth
    cases hdrv : d.stopFeed with
    | true => simpa [hdrv, RestartFate.feed] using hboth
    | false => simpa [hdrv, RestartFate.feed] using hboth

/-! A feed of its own. -/

/-- The slot `f` was free and has been claimed; it has no filters yet. -/
structure Claimed (f : Fin nf) (d d' : DvbDemux nf nq) : Prop where
  only : OnlyFeed f d d'
  free : (d.feed f).state = .free
  used : (d'.feed f).state ≠ .free
  empty : (d'.feed f).filter = []

theorem not_clean_of_used (hfree : (s.demux.feed f).state = .free)
    (hused : (s'.demux.feed f).state ≠ .free) :
    ¬ CleanFailure i s s' := fun hclean => hused ((hclean.feeds f).mpr hfree)

structure Returned (f : Fin nf) (d d' : DvbDemux nf nq) : Prop where
  only : OnlyFeed f d d'
  free : (d.feed f).state = .free
  back : (d'.feed f).state = .free
  empty : (d'.feed f).filter = []

theorem Returned.clean_iff (hret : Returned f s.demux s'.demux)
    (hoth : ∀ j ≠ i, s'.filter j = s.filter j) : CleanFailure i s s' ↔ Silent i s.demux := by
  refine cleanFailure_iff_silent hoth ?_ ?_ hret.only.filters
  · intro k hused
    apply hret.only.feeds
    rintro rfl
    exact hused hret.free
  · intro k hfree
    rcases eq_or_ne k f with rfl | hk
    · exact hret.back
    · rw [(hret.only.feeds k hk).state]
      exact hfree

theorem allocateSectionFeed_cases (a : Answer) (d : DvbDemux nf nq) :
    ((a.interrupted = true ∨ freeFeed d = none) ∧
      ∃ err, dvbdmxAllocateSectionFeed a d = (.error err, d)) ∨
    (¬ (a.interrupted = true ∨ freeFeed d = none) ∧
      ∃ f d', dvbdmxAllocateSectionFeed a d = (.ok f, d') ∧ Claimed f d d' ∧
        d'.filter = d.filter) := by
  cases hlock : a.interrupted with
  | true => exact .inl ⟨.inl rfl, _, by simp only [dvbdmxAllocateSectionFeed, hlock]; rfl⟩
  | false =>
    rcases hfree : freeFeed d with _ | f
    · refine .inl ⟨.inr rfl, .ebusy, ?_⟩
      simp [dvbdmxAllocateSectionFeed, hlock, dvbDmxFeedAlloc, hfree]
    have hout : (dvbdmxAllocateSectionFeed a d) = (.ok f,
        (d.updFeed f (fun feed => { feed with state := .allocated })).updFeed f
          (fun feed => { feed with
            type := .sec, pid := 0xffff, filter := [], isFiltering := false,
            priv := none, holder := none,
            sec := { feed.sec with
              secbuf := 0, secbufp := 0, seclen := 0, tsfeedp := 0 } })) := by
      simp [dvbdmxAllocateSectionFeed, hlock, dvbDmxFeedAlloc, hfree]
    refine .inr ⟨by simp, f, _, hout, ⟨?_, freeFeed_some hfree, ?_, ?_⟩, rfl⟩
    · exact (OnlyFeed.updFeed f d _).trans (OnlyFeed.updFeed f _ _)
    · simp
    · simp

theorem sectionFeedSet_cases (a : Answer) (f : Fin nf) (pid : Nat) (checkCrc : Bool)
    (d0 d : DvbDemux nf nq) (hclaim : Claimed f d0 d) :
    ((pid > 0x1fff ∨ a.interrupted = true) ∧
      ∃ err, dmxSectionFeedSet a f pid checkCrc d = (.error err, d)) ∨
    (¬ (pid > 0x1fff ∨ a.interrupted = true) ∧
      ∃ d', dmxSectionFeedSet a f pid checkCrc d = (.ok (), d') ∧ Claimed f d0 d' ∧
        d'.filter = d.filter) := by
  unfold dmxSectionFeedSet
  split_ifs with hpid hlock
  · exact .inl ⟨.inl hpid, _, rfl⟩
  · exact .inl ⟨.inr hlock, _, rfl⟩
  obtain ⟨hfeed, hflt, hstart⟩ := dvbDemuxFeedAdd_same f d
  refine .inr ⟨by tauto, _, rfl, ⟨?_, hclaim.free, ?_, ?_⟩, hflt⟩
  · refine (hclaim.only.trans ⟨?_, ?_, hstart⟩).trans (.updFeed f _ _)
    · exact fun k _ => hfeed ▸ refl _
    · exact fun q => by rw [hflt]; exact ⟨rfl, rfl⟩
  · simp
  · simpa [hfeed] using hclaim.empty

theorem releaseSectionFeed_claimed {d0 : DvbDemux nf nq} (hclaim : Claimed f d0 d) :
    Returned f d0 (dvbdmxReleaseSectionFeed f d).2 := by
  have hout : (dvbdmxReleaseSectionFeed f d).2 =
      (dvbDemuxFeedDel f (d.updFeed f (fun feed => { feed with state := .free }))).updFeed f
        (fun feed => { feed with pid := 0xffff }) := by
    simp [dvbdmxReleaseSectionFeed, hclaim.used]
  rw [hout]
  refine ⟨?_, hclaim.free, ?_, ?_⟩
  · exact ((hclaim.only.trans (.updFeed f d _)).trans (.feedDel f _)).trans (.updFeed f _ _)
  · simp [dvbDemuxFeedDel]
  · simpa [dvbDemuxFeedDel] using hclaim.empty

/-- The filter `i` has claimed the feed `f` since `s`, and nothing else happened. -/
structure Holding (i : Fin nd) (f : Fin nf) (s t : Dmxdev nd nf nq) : Prop where
  claimed : Claimed f s.demux t.demux
  filter : t.demux.filter = s.demux.filter
  feedSec : (t.filter i).feedSec = some f
  pid : (t.filter i).paramsSec.pid = (s.filter i).paramsSec.pid
  active : t.active = s.active
  others : ∀ j, j ≠ i → t.filter j = s.filter j

variable {t : Dmxdev nd nf nq}

/-- The first active filter on the PID, if it is another one, has no feed to share. -/
def Orphaned (i : Fin nd) (s : Dmxdev nd nf nq) : Prop :=
  ∀ j, j ≠ i → firstActive s (s.filter i).paramsSec.pid = some j → (s.filter j).feedSec = none

/-- The restart with a feed that has just been claimed: no filter is active and the
slot is given back, or the filter `i` itself is taken for active and the slot stays. -/
theorem Holding.restart {t' : Dmxdev nd nf nq} (hhold : Holding i f s t)
    (horphan : Orphaned i s) (hrun : (dvbDmxdevFeedRestart i).run t = some (r, t')) :
    (firstActive s (s.filter i).paramsSec.pid = none ∧
      (∀ j ≠ i, t'.filter j = s.filter j) ∧ Returned f s.demux t'.demux) ∨
    (firstActive s (s.filter i).paramsSec.pid ≠ none ∧ Claimed f s.demux t'.demux) := by
  have hfirst : firstActive t (t.filter i).paramsSec.pid =
      firstActive s (s.filter i).paramsSec.pid := by
    rw [firstActive, firstActive, hhold.active, hhold.pid]
  rcases hact : firstActive s (s.filter i).paramsSec.pid with _ | j
  · rw [hact] at hfirst
    rw [run_feedRestart_none hfirst hhold.feedSec] at hrun
    cases hrun
    exact .inl ⟨rfl, hhold.others, releaseSectionFeed_claimed hhold.claimed⟩
  rw [hact] at hfirst
  rw [run_feedRestart_some hfirst] at hrun
  rcases eq_or_ne j i with rfl | hj
  · obtain ⟨err, hout⟩ := sectionFeedStart_empty (t.world 0) f t.demux hhold.claimed.empty
    rw [hhold.feedSec, map_some, hout] at hrun
    cases hrun
    exact .inr ⟨by simp, hhold.claimed⟩
  · simp [hhold.others j hj, horphan j hj hact] at hrun

def NewFailsCleanly (i : Fin nd) (s : Dmxdev nd nf nq) : Prop :=
  Silent i s.demux ∧ (((s.world 0).interrupted = true ∨ freeFeed s.demux = none) ∨
    (firstActive s (s.filter i).paramsSec.pid = none ∧
      (((s.filter i).paramsSec.pid > 0x1fff ∨ (s.world 1).interrupted = true) ∨
        ((s.world 2).interrupted = true ∨ freeFilter s.demux = none))))

/-- The filter could not be had, or the feed not be started. -/
theorem Holding.startSecfilter_clean_iff {para : DmxSctFilterParams} (hhold : Holding i f s t)
    (horphan : Orphaned i s) (hrun : (startSecfilter i f para).run t = some (.error err, s')) :
    CleanFailure i s s' ↔ Silent i s.demux ∧
      firstActive s (s.filter i).paramsSec.pid = none ∧
      ((t.world 0).interrupted = true ∨ freeFilter s.demux = none) := by
  have hfreeFilter : freeFilter t.demux = freeFilter s.demux := by
    simp only [freeFilter, hhold.filter]
  rcases startSecfilter_error hrun with ⟨hcause, r, u, hrestart, rfl⟩ | ⟨hcause, q, hfree, htaken⟩
  · rw [hfreeFilter] at hcause
    have hhold' : Holding i f s t.answered := { hhold with }
    rcases hhold'.restart horphan hrestart with ⟨hnone, hoth, hret⟩ | ⟨hsome, hclaim⟩
    · obtain ⟨err', hout⟩ := sectionFeedStart_empty (u.world 0) f u.demux hret.empty
      have hclean : CleanFailure i s (u.answered.withDemux u.demux) ↔ Silent i s.demux :=
        Returned.clean_iff hret hoth
      rw [hout]
      tauto
    · obtain ⟨err', hout⟩ := sectionFeedStart_empty (u.world 0) f u.demux hclaim.empty
      rw [hout]
      exact iff_of_false (not_clean_of_used hclaim.free hclaim.used) (fun h => hsome h.2.1)
  · rw [hfreeFilter] at hcause
    refine iff_of_false ?_ (fun h => hcause h.2.2)
    intro hclean
    rw [hhold.filter] at hfree
    exact htaken ((hclean.filters q).mpr hfree)

theorem startNewSection_clean_iff (horphan : Orphaned i s)
    (hrun : (startNewSection i (s.filter i).paramsSec).run s = some (.error err, s')) :
    CleanFailure i s s' ↔ NewFailsCleanly i s := by
  obtain ⟨r1, s1, hfirst, hnext⟩ := run_bind_some hrun
  rw [run_demuxCall] at hfirst
  rcases allocateSectionFeed_cases (s.world 0) s.demux with
    ⟨hcause, err1, hout⟩ | ⟨hcause, f, d1, hout, hclaim1, hflt1⟩
  · rw [hout] at hfirst
    cases hfirst
    cases hnext
    rw [NewFailsCleanly, and_iff_left (.inl hcause)]
    exact cleanFailure_iff_silent (fun _ _ => rfl) (fun _ _ => refl _) (fun _ h => h) (.refl _)
  rw [hout] at hfirst
  cases hfirst
  obtain ⟨_, s2, hstore, hnext⟩ := run_bind_some hnext
  cases hstore
  obtain ⟨r3, s3, hset, hnext⟩ := run_bind_some hnext
  rw [run_demuxCall] at hset
  have hhold : ∀ d, Claimed f s.demux d → d.filter = s.demux.filter →
      Holding i f s (((s.answered.withDemux d1).upd i (fun flt => { flt with
        feedSec := some f })).answered.withDemux d) := by
    intro d hclaim hflt
    refine ⟨hclaim, hflt, by simp, by simp, ?_, ?_⟩
    · funext pid j
      rcases eq_or_ne j i with rfl | hj
      · simp [active]
      · simp [active, update_of_ne hj]
    · intro j hj
      simp [update_of_ne hj]
  rcases sectionFeedSet_cases (s.world 1) f (s.filter i).paramsSec.pid
      ((s.filter i).paramsSec.flags &&& dmxCheckCrc ≠ 0) s.demux d1 hclaim1 with
    ⟨hcause3, err3, hout3⟩ | ⟨hcause3, d3, hout3, hclaim3, hflt3⟩
  · simp only [upd_world, withDemux_world, answered_world,
      upd_demux, withDemux_demux, hout3] at hset
    cases hset
    obtain ⟨r4, s4, hrestart, hnext⟩ := run_bind_some hnext
    cases hnext
    rcases (hhold d1 hclaim1 hflt1).restart horphan hrestart with
      ⟨hnone, hoth, hret⟩ | ⟨hsome, hclaim⟩
    · rw [Returned.clean_iff hret hoth, NewFailsCleanly,
        and_iff_left (.inr ⟨hnone, .inl hcause3⟩)]
    · refine iff_of_false (not_clean_of_used hclaim.free hclaim.used) ?_
      rintro ⟨-, h | h⟩
      · exact hcause h
      · exact hsome h.1
  · simp only [upd_world, withDemux_world, answered_world,
      upd_demux, withDemux_demux, hout3] at hset
    cases hset
    rw [(hhold d3 hclaim3 (hflt3.trans hflt1)).startSecfilter_clean_iff horphan hnext,
      NewFailsCleanly]
    simp only [hcause, hcause3, false_or, upd_world, withDemux_world, answered_world]

/-! Section filters. -/

def sharedFeed (i : Fin nd) (s : Dmxdev nd nf nq) : Option (Fin nf) :=
  (firstActive s (s.filter i).paramsSec.pid).bind
    (fun j => if j = i then none else (s.filter j).feedSec)

def SectionFailsCleanly (i : Fin nd) (s : Dmxdev nd nf nq) : Prop :=
  match sharedFeed i s with
  | none => NewFailsCleanly i s
  | some f => ((s.world 1).interrupted = true ∨ freeFilter s.demux = none) ∧
      FateClean i f s (restartFate (s.world 2) (s.world 3) f s.demux)

theorem cleanFailure_congr (hdemux : t.demux = s.demux) (hoth : ∀ j ≠ i, t.filter j = s.filter j)
    : CleanFailure i t s' ↔ CleanFailure i s s' := by
  have hrecv : ∀ j ≠ i, ∀ f, Receiving t j f ↔ Receiving s j f := by
    intro j hj f
    rw [Receiving, Receiving, hdemux, hoth j hj]
  constructor
  · rintro ⟨hfeeds, hflts, hsilent, hothers⟩
    exact ⟨hdemux ▸ hfeeds, hdemux ▸ hflts, hsilent,
      fun j hj f h => hothers j hj f ((hrecv j hj f).mpr h)⟩
  · rintro ⟨hfeeds, hflts, hsilent, hothers⟩
    exact ⟨hdemux.symm ▸ hfeeds, hdemux.symm ▸ hflts, hsilent,
      fun j hj f h => hothers j hj f ((hrecv j hj f).mp h)⟩

variable {α : Type}

theorem find?_of_imp {p p' : α → Bool} {l : List α} {a : α} (hfind : l.find? p = some a)
    (himp : ∀ b, p' b = true → p b = true) (ha : p' a = true) : l.find? p' = some a := by
  induction l with
  | nil => cases hfind
  | cons b rest ih =>
    cases hb : p b with
    | true =>
      rw [find?_cons_of_pos hb] at hfind
      cases hfind
      exact find?_cons_of_pos ha
    | false =>
      rw [find?_cons_of_neg (by simp [hb])] at hfind
      rw [find?_cons_of_neg (fun h => by simp [himp b h] at hb)]
      exact ih hfind

theorem active_clearSection (i : Fin nd) (s : Dmxdev nd nf nq) :
    (s.upd i clearSection).active = s.active := by
  funext pid j
  rcases eq_or_ne j i with rfl | hj
  · simp [active, clearSection]
  · simp [active, update_of_ne hj]

theorem run_findFeed_shared (i : Fin nd) (s : Dmxdev nd nf nq) :
    (findFeed (s.filter i).paramsSec.pid (List.finRange nd)).run (s.upd i clearSection) =
      some (sharedFeed i s, s.upd i clearSection) := by
  rw [run_findFeed, active_clearSection, sharedFeed]
  congr 2
  apply Option.bind_congr
  intro j _
  rcases eq_or_ne j i with rfl | hj
  · simp [clearSection]
  · simp [hj]

/-- The device after the shared feed `f` has been stopped for the filter `i`. -/
def stoppedShared (i : Fin nd) (f : Fin nf) (s : Dmxdev nd nf nq) : Dmxdev nd nf nq :=
  (s.upd i (fun flt => { clearSection flt with
    feedSec := some f, state := .set, timer := false })).answered.withDemux
      (dmxSectionFeedStopFiltering (s.world 0) f s.demux).2

theorem startSection_run (i : Fin nd) (s : Dmxdev nd nf nq) (htype : (s.filter i).type = .sec) :
    (startSection i).run s =
      match sharedFeed i s with
      | none => (startNewSection i (s.filter i).paramsSec).run (s.upd i clearSection)
      | some f => (startSecfilter i f (s.filter i).paramsSec).run (stoppedShared i f s) := by
  simp only [startSection, run_bind, run_theFilter, run_filterUpd, bind_some, run_findFeed_shared]
  rcases sharedFeed i s with _ | f
  · rfl
  simp only [run_bind, run_filterUpd, bind_some, dvbDmxdevFeedStop,
    dvbDmxdevFilterStateSet, stopByType, run_theFilter]
  simp [clearSection, htype, stoppedShared, delTimer, upd]

theorem stoppedShared_others (hj : j ≠ i) : (stoppedShared i f s).filter j = s.filter j := by
  simp [stoppedShared, update_of_ne hj]

theorem stoppedShared_filters (i : Fin nd) (f : Fin nf) (s : Dmxdev nd nf nq) :
    (stoppedShared i f s).demux.filter = s.demux.filter := by
  rw [stoppedShared, withDemux_demux, sectionFeedStop_effect]
  split_ifs
  · rfl
  · rfl

theorem firstActive_stoppedShared (hshared : sharedFeed i s = some f) :
    ∃ j, j ≠ i ∧ (s.filter j).feedSec = some f ∧
      firstActive (stoppedShared i f s)
        ((stoppedShared i f s).filter i).paramsSec.pid = some j := by
  obtain ⟨j, hfirst, hfeed⟩ := bind_eq_some_iff.mp hshared
  have hj : j ≠ i := by
    rintro rfl
    simp at hfeed
  have hpid : ((stoppedShared i f s).filter i).paramsSec.pid = (s.filter i).paramsSec.pid := by
    simp [stoppedShared, clearSection]
  have hact : ∀ k ≠ i,
      (stoppedShared i f s).active (s.filter i).paramsSec.pid k =
        s.active (s.filter i).paramsSec.pid k := by
    intro k hk
    simp [active, stoppedShared_others hk]
  refine ⟨j, hj, by simpa [hj] using hfeed, ?_⟩
  rw [hpid]
  refine find?_of_imp hfirst ?_ ((hact j hj).trans (find?_some hfirst))
  intro k hk
  rcases eq_or_ne k i with rfl | hki
  · simp [active, stoppedShared, DmxdevState.toNat] at hk
  · rwa [hact k hki] at hk

theorem startShared_clean_iff (hshared : sharedFeed i s = some f)
    (hrun : (startSecfilter i f (s.filter i).paramsSec).run (stoppedShared i f s) =
      some (.error err, s')) :
    CleanFailure i s s' ↔ ((s.world 1).interrupted = true ∨ freeFilter s.demux = none) ∧
      FateClean i f s (restartFate (s.world 2) (s.world 3) f s.demux) := by
  have hfreeFilter : freeFilter (stoppedShared i f s).demux = freeFilter s.demux := by
    simp [freeFilter, stoppedShared_filters]
  have hworld : (stoppedShared i f s).world 0 = s.world 1 := rfl
  obtain ⟨j, hj, hfeed, hfirst⟩ := firstActive_stoppedShared hshared
  rcases startSecfilter_error hrun with ⟨hcause, r, t, hrestart, rfl⟩ | ⟨hcause, q, hfree, htaken⟩
  · rw [hworld, hfreeFilter] at hcause
    rw [and_iff_right hcause]
    have hfirst' : firstActive (stoppedShared i f s).answered
        ((stoppedShared i f s).answered.filter i).paramsSec.pid = some j := hfirst
    rw [run_feedRestart_some hfirst'] at hrestart
    simp only [answered_filter, stoppedShared_others hj, hfeed, map_some] at hrestart
    cases hrestart
    obtain ⟨honly, hsame⟩ := restart_effect f (s.world 0) (s.world 2) (s.world 3) s.demux
    refine cleanFailure_iff_fateClean _ ?_ honly hsame
    intro k hk
    rcases eq_or_ne k j with rfl | hkj
    · simp [stoppedShared_others hk]
      exact ⟨rfl, rfl, rfl, fun _ => rfl⟩
    · simp [update_of_ne hkj, stoppedShared_others hk]
      exact ⟨rfl, rfl, rfl, id⟩
  · rw [hfreeFilter] at hcause
    refine iff_of_false ?_ (fun h => hcause h.1)
    intro hclean
    rw [stoppedShared_filters] at hfree
    exact htaken ((hclean.filters q).mpr hfree)

theorem startSection_clean_iff (htype : (s.filter i).type = .sec)
    (hrun : (startSection i).run s = some (.error err, s')) :
    CleanFailure i s s' ↔ SectionFailsCleanly i s := by
  rw [startSection_run i s htype] at hrun
  unfold SectionFailsCleanly
  cases hshared : sharedFeed i s with
  | some f =>
    rw [hshared] at hrun
    exact startShared_clean_iff hshared hrun
  | none =>
    rw [hshared] at hrun
    have hoth : ∀ j ≠ i, (s.upd i clearSection).filter j = s.filter j := by
      intro j hj
      simp [update_of_ne hj]
    have hparams : ((s.upd i clearSection).filter i).paramsSec = (s.filter i).paramsSec := by
      simp [clearSection]
    have hfirst : firstActive (s.upd i clearSection) (s.filter i).paramsSec.pid =
        firstActive s (s.filter i).paramsSec.pid := by
      rw [firstActive, active_clearSection, firstActive]
    have horphan : Orphaned i (s.upd i clearSection) := by
      intro j hj hsome
      rw [hparams, hfirst] at hsome
      simpa [sharedFeed, hsome, hj] using hshared
    rw [← hparams] at hrun
    have hnew := startNewSection_clean_iff horphan hrun
    have hsame : CleanFailure i (s.upd i clearSection) s' ↔ CleanFailure i s s' :=
      cleanFailure_congr rfl hoth
    rw [hsame, NewFailsCleanly, hparams, hfirst] at hnew
    exact hnew

/-! The state of a filter after its own stop. -/

theorem SameCores.of_run {p : Code nd nf nq α} {a : α} (hin : p.Within Quiet)
    (hrun : p.run s = some (a, t)) : SameCores s t :=
  Prog.Within.run (fun _ => .of_filter rfl)
    (fun _ _ _ hfirst hnext j => (hfirst j).trans (hnext j))
    (hin.mono (fun _ _ _ h => h.2)) hrun

open SameCores

theorem feedRestart_type (hsec : (s.filter i).feedSec = some sec)
    (hrun : (dvbDmxdevFeedRestart i).run s = some (r, t)) :
    (t.filter i).type = (s.filter i).type := by
  rcases hfirst : firstActive s (s.filter i).paramsSec.pid with _ | j
  · rw [run_feedRestart_none hfirst hsec] at hrun
    cases hrun
    rfl
  rw [run_feedRestart_some hfirst] at hrun
  obtain ⟨_, -, hout⟩ := map_eq_some_iff.mp hrun
  cases hout
  rcases eq_or_ne i j with rfl | hij
  · simp
  · simp [update_of_ne hij]

theorem filterStop_type (hstate : DmxdevState.go.toNat ≤ (s.filter i).state.toNat)
    (htype : (s.filter i).type ≠ .pes) (hrun : (dvbDmxdevFilterStop i).run s = some (r, t)) :
    (t.filter i).type = (s.filter i).type := by
  rw [dvbDmxdevFilterStop, run_bind, run_theFilter, bind_some, if_neg hstate.not_gt] at hrun
  cases hkind : (s.filter i).type with
  | pes => exact absurd hkind htype
  | none =>
    rw [hkind] at hrun
    split_ifs at hrun <;> cases hrun <;> exact hkind
  | sec =>
    rw [hkind] at hrun
    rcases hsec : (s.filter i).feedSec with _ | sec
    · rw [hsec] at hrun
      cases hrun
      simp [flushBuffer, hkind]
    rw [hsec] at hrun
    obtain ⟨_, u1, hstop, hnext⟩ := run_bind_some hrun
    obtain ⟨_, u0, hset, hswitch⟩ := run_bind_some hstop
    cases hset
    obtain ⟨_, u2, hrel, hnext⟩ := run_bind_some hnext
    obtain ⟨_, u3, hrestart, hnext⟩ := run_bind_some hnext
    cases hnext
    have hcore := (of_run (stopByType_within i) hswitch i).trans
      (of_run (releaseSecfilter_within sec _) hrel i)
    have hsec' : (u2.filter i).feedSec = some sec := by simpa [hsec] using hcore.feedSec
    simpa [flushBuffer, feedRestart_type hsec' hrestart, hkind] using hcore.type

/-- After its own stop a PES filter does not run any more. -/
theorem stopRunning_idle {a : Unit} (hrun : (stopRunning i).run s = some (a, t))
    (htype : (t.filter i).type = .pes) : (t.filter i).state.toNat < DmxdevState.go.toNat := by
  rcases lt_or_ge (s.filter i).state.toNat go.toNat with hstate | hstate
  · rw [stopRunning, run_bind, run_theFilter, bind_some, if_neg hstate.not_ge] at hrun
    cases hrun
    exact hstate
  rw [stopRunning, run_bind, run_theFilter, bind_some, if_pos hstate] at hrun
  obtain ⟨r, t', hstop, hnext⟩ := run_bind_some hrun
  cases hnext
  have htype' : (s.filter i).type = .pes := by
    by_contra hoth
    exact hoth ((filterStop_type hstate hoth hstop).symm.trans htype)
  rw [dvbDmxdevFilterStop, run_bind, run_theFilter, bind_some, if_neg hstate.not_gt] at hstop
  rw [htype'] at hstop
  obtain ⟨_, u1, hfeedStop, hnext⟩ := run_bind_some hstop
  obtain ⟨_, u2, hset, hswitch⟩ := run_bind_some hfeedStop
  cases hset
  obtain ⟨_, u3, hrel, hflush⟩ := run_bind_some hnext
  cases hflush
  have hcore := (of_run (stopByType_within i) hswitch i).trans
    (of_run (releaseFeeds_within i _) hrel i)
  simp [flushBuffer, hcore.state, DmxdevState.toNat]

/-! The whole call. -/

/-- The state that a failing start finds after its own stop lets it fail cleanly. A PES
filter must fail at its first PID; a section filter before `start_filtering`. -/
def FailsCleanly (i : Fin nd) (s : Dmxdev nd nf nq) : Prop :=
  match (s.filter i).type with
  | .none => Silent i s.demux
  | .pes => Silent i s.demux ∧
      ∀ e, (s.filter i).feedTs.head? = some e → ¬ FeedStarts i e.pid s
  | .sec => SectionFailsCleanly i s

theorem startByType_clean_iff
    (hidle : (s.filter i).type = .pes → (s.filter i).state.toNat < DmxdevState.go.toNat)
    (hrun : (startByType i).run s = some (.error err, s')) :
    CleanFailure i s s' ↔ FailsCleanly i s := by
  rw [startByType, run_bind, run_theFilter, bind_some] at hrun
  unfold FailsCleanly
  cases htype : (s.filter i).type with simp only [htype] at hrun
  | none =>
    cases hrun
    exact cleanFailure_iff_silent (fun _ _ => rfl) (fun _ _ => refl _) (fun _ h => h) (.refl _)
  | pes => exact startFeeds_clean_iff i _ s s' err (hidle htype) hrun
  | sec => exact startSection_clean_iff htype hrun

/-- A failed `dvb_dmxdev_filter_start` leaves the allocated feeds and filters, the silence
of the failed filter and the sections of all others as they were after its own stop, if
and only if that state lets it fail cleanly. -/
theorem failed_start_clean_iff (i : Fin nd) (s s₁ s₂ : Dmxdev nd nf nq) (err : Errno)
    (hset : DmxdevState.set.toNat ≤ (s.filter i).state.toNat)
    (hready : (stopRunning i >>= fun _ => provideBuffer i).run s = some (true, s₁))
    (hfail : (dvbDmxdevFilterStart i).run s = some (.error err, s₂)) :
    CleanFailure i s₁ s₂ ↔ FailsCleanly i s₁ := by
  have hstart : (startStopped i).run s₁ = some (.error err, s₂) := by
    rw [← hfail, dvbDmxdevFilterStart, run_bind, run_theFilter, bind_some, if_neg hset.not_gt]
    obtain ⟨_, t, hstop, hbuffer⟩ := run_bind_some hready
    simp [run_bind, hstop, hbuffer]
  have hidle : (s₁.filter i).type = .pes →
      (s₁.filter i).state.toNat < go.toNat := by
    intro htype
    obtain ⟨_, t, hstop, hbuffer⟩ := run_bind_some hready
    have hcore := of_run (provideBuffer_within i) hbuffer i
    rw [hcore.state]
    exact stopRunning_idle hstop (hcore.type.symm.trans htype)
  obtain ⟨r, t, hswitch, hnext⟩ := run_bind_some hstart
  rcases r with err' | done
  · obtain ⟨herr, rfl⟩ := Prod.mk.inj (Option.some.inj hnext)
    exact startByType_clean_iff hidle hswitch
  · cases hnext

/-- A handle is opened for whole packets of two PIDs, with `DMX_SET_PES_FILTER` and
`DMX_ADD_PID`. -/
def openTwoPids : Code 1 2 2 Unit := do
  let _ ← dvbDemuxOpen
  let _ ← dvbDemuxDoIoctl 0 (.setPesFilter
    { pid := 0x100, output := .tsdemuxTap, pesType := dmxPesOther, flags := 0 })
  let _ ← dvbDemuxDoIoctl 0 (.addPid 0x200)

/-- A device with nothing open whose driver refuses the `n`-th thing it is asked. -/
def refusingDevice (n : Nat) : Dmxdev 1 2 2 where
  filter := default
  demux := readyDemux 2 2
  world := fun k => if k = n then { Answer.ok with driver := -5 } else .ok
  fresh := 0

def refusedStart (s : Dmxdev 1 2 2) : Option (Dmxdev 1 2 2 × Dmxdev 1 2 2) :=
  match (stopRunning 0 >>= fun _ => provideBuffer 0).run s, (dvbDmxdevFilterStart 0).run s with
  | some (true, s₁), some (.error (.driver (-5)), s₂) => some (s₁, s₂)
  | _, _ => none

theorem refusedStart_some {s s1 s2 : Dmxdev 1 2 2} (hsome : refusedStart s = some (s1, s2)) :
    (stopRunning 0 >>= fun _ => provideBuffer 0).run s = some (true, s1) ∧
      (dvbDmxdevFilterStart 0).run s = some (.error (.driver (-5)), s2) := by
  unfold refusedStart at hsome
  split at hsome
  · cases hsome
    exact ⟨by assumption, by assumption⟩
  · cases hsome

theorem first_pid_refused_clean : ∃ s s₁ s₂,
    openTwoPids.run (refusingDevice 10) = some ((), s) ∧
      (stopRunning 0 >>= fun _ => provideBuffer 0).run s = some (true, s₁) ∧
      (dvbDmxdevFilterStart 0).run s = some (.error (.driver (-5)), s₂) ∧
      CleanFailure 0 s₁ s₂ := by
  obtain ⟨⟨_, s⟩, hopen, hset, ⟨s₁, s₂⟩, hpair, htype, hdriver, hfree⟩ :
      ∃ out ∈ openTwoPids.run (refusingDevice 10),
        set.toNat ≤ (out.2.filter 0).state.toNat ∧
        ∃ pair ∈ refusedStart out.2, (pair.1.filter 0).type = .pes ∧
          (pair.1.world 2).driver < 0 ∧ ∀ f, (pair.1.demux.feed f).state = .free := by
    decide +kernel
  dsimp only at htype hdriver hfree
  obtain ⟨hready, hfail⟩ := refusedStart_some hpair
  refine ⟨s, s₁, s₂, hopen, hready, hfail, ?_⟩
  apply (failed_start_clean_iff 0 s s₁ s₂ _ hset hready hfail).mpr
  simp only [FailsCleanly, htype]
  refine ⟨fun f hof => absurd (hfree f) hof.1, ?_⟩
  rintro e - ⟨-, f, -, haccepted⟩
  exact absurd haccepted.2.2.2.2 (by omega)

/-- It refuses the second: the first feed stays allocated and filters on. -/
theorem second_pid_refused_leaks : ∃ s s₁ s₂,
    openTwoPids.run (refusingDevice 13) = some ((), s) ∧
      (stopRunning 0 >>= fun _ => provideBuffer 0).run s = some (true, s₁) ∧
      (dvbDmxdevFilterStart 0).run s = some (.error (.driver (-5)), s₂) ∧
      (s₁.demux.feed 0).state = .free ∧ (s₂.demux.feed 0).state = .go ∧
      (s₂.demux.feed 0).isFiltering = true ∧ ¬ CleanFailure 0 s₁ s₂ := by
  obtain ⟨⟨_, s⟩, hopen, ⟨s₁, s₂⟩, hpair, hfree, hgo, hfiltering⟩ :
      ∃ out ∈ openTwoPids.run (refusingDevice 13), ∃ pair ∈ refusedStart out.2,
        (pair.1.demux.feed 0).state = .free ∧ (pair.2.demux.feed 0).state = .go ∧
        (pair.2.demux.feed 0).isFiltering = true := by
    decide +kernel
  dsimp only at hfree hgo hfiltering
  obtain ⟨hready, hfail⟩ := refusedStart_some hpair
  refine ⟨s, s₁, s₂, hopen, hready, hfail, hfree, hgo, hfiltering, ?_⟩
  exact not_clean_of_used hfree (by simp [hgo])

end TbsMedia.DvbCore
