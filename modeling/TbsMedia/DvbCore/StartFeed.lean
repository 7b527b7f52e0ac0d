import TbsMedia.DvbCore.Dmxdev

/-!
What one call of `dvb_dmxdev_start_feed` can have done. It claims the first
free feed slot for an entry of a PES filter, sets the feed and starts it. When
one of the calls after the claim fails the slot is free again, but the entry
keeps pointing to it.
-/

namespace TbsMedia.DvbCore

open Lib Function Option DvbDemux Dmxdev

variable {nd nf nq : Nat}

/-- The slot `f` is found a filter, and the feed can be set and started. -/
def FeedAccepted (i : Fin nd) (pid : Nat) (f : Fin nf) (s : Dmxdev nd nf nq) : Prop :=
  freeFilter s.demux ≠ none ∧
  TsSetAccepted (s.world 1) f pid
    (dmxdevTsType (s.filter i).paramsPes.output (s.filter i).paramsPes.pesType)
    (s.filter i).paramsPes.pesType s.demux ∧
  StartAccepted (s.world 2) s.demux

/-- The three ways in which `dvb_dmxdev_start_feed` comes back. -/
inductive StartFeedOutcome (i : Fin nd) (pid addr : Nat) (s : Dmxdev nd nf nq) :
    Ret → Dmxdev nd nf nq → Prop where
  | unclaimed (err : Errno) (s' : Dmxdev nd nf nq)
      (hcause : (s.world 0).interrupted = true ∨ freeFeed s.demux = none)
      (hfilter : s'.filter = (s.upd i (setTs addr none)).filter)
      (hdemux : s'.demux = s.demux) (hfresh : s'.fresh = s.fresh) :
      StartFeedOutcome i pid addr s (.error err) s'
  | refused (err : Errno) (s' : Dmxdev nd nf nq) (f : Fin nf)
      (hlock : (s.world 0).interrupted = false) (hfree : freeFeed s.demux = some f)
      (hrefused : ¬ FeedAccepted i pid f s)
      (hfilter : s'.filter = (s.upd i (setTs addr (some f))).filter)
      (hfeed : ∀ k, k ≠ f → s'.demux.feed k = s.demux.feed k)
      (hback : (s'.demux.feed f).state = .free)
      (hfilters : ∀ q, (s'.demux.filter q).state = (s.demux.filter q).state ∧
        (s'.demux.filter q).priv = (s.demux.filter q).priv)
      (hfresh : s'.fresh = s.fresh) :
      StartFeedOutcome i pid addr s (.error err) s'
  | started (s' : Dmxdev nd nf nq) (f : Fin nf) (q : Fin nq)
      (hlock : (s.world 0).interrupted = false) (hfree : freeFeed s.demux = some f)
      (haccepted : FeedAccepted i pid f s)
      (hfilter : s'.filter = (s.upd i (setTs addr (some f))).filter)
      (hfeed : ∀ k, k ≠ f → s'.demux.feed k = s.demux.feed k)
      (htaken : (s'.demux.feed f).state = .go ∧ (s'.demux.feed f).type = .ts ∧
        (s'.demux.feed f).holder = some addr)
      (hfresh : s'.fresh = s.fresh) :
      StartFeedOutcome i pid addr s (.ok ()) s'

/-- `dvb_dmxdev_filter_stop` does nothing for a filter that is not running. -/
theorem run_filterStop_idle {i : Fin nd} {s : Dmxdev nd nf nq}
    (hidle : (s.filter i).state.toNat < DmxdevState.go.toNat) :
    (dvbDmxdevFilterStop i).run s = some (.ok (), s) := by
  simp [dvbDmxdevFilterStop, hidle]

theorem setTs_setTs (addr : Nat) (first second : Option (Fin nf)) (flt : DmxdevFilter nf nq) :
    setTs addr second (setTs addr first flt) = setTs addr second flt := by
  simp only [setTs, List.map_map]
  congr 1
  apply List.map_congr_left
  intro e _
  by_cases haddr : e.addr = addr
  all_goals simp [haddr]

/-- Releasing a feed that has a filter frees the slot and that filter, and touches
no other of them. -/
theorem releaseTsFeed_effect (f : Fin nf) (q : Fin nq) (rest : List (Fin nq))
    (d : DvbDemux nf nq) (hstate : (d.feed f).state ≠ .free)
    (hchain : (d.feed f).filter = q :: rest) :
    ∃ d', dvbdmxReleaseTsFeed f d = some (.ok (), d') ∧
      d'.feed = update d.feed f (tsFeedReleased (d.feed f)) ∧
      d'.filter = update d.filter q (filterFreed (d.filter q)) := by
  refine ⟨pesRelease (d.feed f)
    ((dvbDemuxFeedDel f (d.updFilter q filterFreed)).updFeed f tsFeedReleased), ?_, ?_⟩
  · simp [dvbdmxReleaseTsFeed, hstate, hchain]
  · unfold pesRelease
    split_ifs
    all_goals exact ⟨rfl, rfl⟩

theorem dvbDemuxFeedAdd_same (f : Fin nf) (d : DvbDemux nf nq) :
    (dvbDemuxFeedAdd f d).feed = d.feed ∧ (dvbDemuxFeedAdd f d).filter = d.filter ∧
      (dvbDemuxFeedAdd f d).startFeed = d.startFeed := by
  unfold dvbDemuxFeedAdd
  split_ifs
  all_goals exact ⟨rfl, rfl, rfl⟩

/-- `set` either leaves the demux alone or makes the feed ready. -/
theorem dmxTsFeedSet_effect (a : Answer) (f : Fin nf) (pid tsType pesType : Nat)
    (d : DvbDemux nf nq) :
    (¬ TsSetAccepted a f pid tsType pesType d ∧
      ∃ err, dmxTsFeedSet a f pid tsType pesType d = (.error err, d)) ∨
    (TsSetAccepted a f pid tsType pesType d ∧
      ∃ d', dmxTsFeedSet a f pid tsType pesType d = (.ok (), d') ∧
        d'.feed = update d.feed f (tsFeedReady pid tsType pesType (d.feed f)) ∧
        d'.filter = d.filter ∧ d'.startFeed = d.startFeed) := by
  rcases dmxTsFeedSet_cases a f pid tsType pesType d with
    hout | ⟨hok, -, hout⟩ | ⟨hok, hpes, -, -, hout⟩
  · exact .inl hout
  · obtain ⟨hfeed, hflt, hstart⟩ := dvbDemuxFeedAdd_same f d
    refine .inr ⟨hok, _, hout, ?_, ?_, ?_⟩
    · rw [updFeed_feed, hfeed]
    · rw [updFeed_filter, hflt]
    · exact hstart
  · obtain ⟨hfeed, hflt, hstart⟩ := dvbDemuxFeedAdd_same f (takeDecoder f ⟨pesType, hpes⟩ pid d)
    refine .inr ⟨hok, _, hout, ?_, ?_, ?_⟩
    · rw [updFeed_feed, hfeed]
      rfl
    · rw [updFeed_filter, hflt]
      rfl
    · exact hstart

/-- The slot `f`, which has the filter `q`, is given back. -/
theorem giveBack_run (s : Dmxdev nd nf nq) (f : Fin nf) (q : Fin nq) (err : Errno)
    (hstate : (s.demux.feed f).state ≠ .free) (hchain : (s.demux.feed f).filter = [q]) :
    ∃ d', (giveBack f err).run s = some (.error err, s.withDemux d') ∧
      (∀ k ≠ f, d'.feed k = s.demux.feed k) ∧ (d'.feed f).state = .free ∧
      d'.filter = update s.demux.filter q (filterFreed (s.demux.filter q)) := by
  obtain ⟨d', hout, hfeed, hflt⟩ := releaseTsFeed_effect f q [] s.demux hstate hchain
  refine ⟨d', by simp [giveBack, hout], ?_, ?_, hflt⟩
  · intro k hk
    rw [hfeed, update_of_ne hk]
  · simp [hfeed, tsFeedReleased]

theorem setAndStart_run (s : Dmxdev nd nf nq) (f : Fin nf) (q : Fin nq)
    (pid tsType pesType : Nat) (hstate : (s.demux.feed f).state = .allocated)
    (htype : (s.demux.feed f).type = .ts) (hchain : (s.demux.feed f).filter = [q]) :
    (TsSetAccepted (s.world 0) f pid tsType pesType s.demux ∧
        StartAccepted (s.world 1) s.demux ∧
      ∃ d', (setAndStart f pid tsType pesType).run s =
          some (.ok (), s.answered.answered.withDemux d') ∧
        d'.feed = update s.demux.feed f
          (tsFeedStarted (tsFeedReady pid tsType pesType (s.demux.feed f)))) ∨
    (¬ (TsSetAccepted (s.world 0) f pid tsType pesType s.demux ∧
        StartAccepted (s.world 1) s.demux) ∧
      ∃ err s', (setAndStart f pid tsType pesType).run s = some (.error err, s') ∧
        s'.filter = s.filter ∧ s'.fresh = s.fresh ∧
        (∀ k ≠ f, s'.demux.feed k = s.demux.feed k) ∧
        (s'.demux.feed f).state = .free ∧
        s'.demux.filter = update s.demux.filter q (filterFreed (s.demux.filter q))) := by
  rcases dmxTsFeedSet_effect (s.world 0) f pid tsType pesType s.demux with
    ⟨href, err, hset⟩ | ⟨hacc, d1, hset, hfeed1, hflt1, hstart1⟩
  · obtain ⟨d', hrun, hfeed, hfree, hflt⟩ :=
      giveBack_run (s.answered.withDemux s.demux) f q err (by simp [hstate]) hchain
    refine .inr ⟨fun h => href h.1, err,
      (s.answered.withDemux s.demux).withDemux d', ?_, rfl, rfl, hfeed, hfree, hflt⟩
    simp only [setAndStart, Prog.run_bind, run_demuxCall, hset, bind_some]
    exact hrun
  · have hready : (d1.feed f).state = .ready ∧ (d1.feed f).type = .ts ∧
        (d1.feed f).filter = [q] := by
      simp [hfeed1, tsFeedReady, htype, hchain]
    rcases startFiltering_cases (s.world 1) f d1 with
      ⟨hcause, err, hstart⟩ | ⟨hgo, -, -, hstart⟩
    · have hno : ¬ StartAccepted (s.world 1) d1 := by
        rcases hcause with h | h | h
        · exact h
        · exact absurd hready.1 h
        · exact absurd hready.2.1 h
      obtain ⟨d', hrun, hfeed, hfree, hflt⟩ :=
        giveBack_run ((s.answered.withDemux d1).answered.withDemux d1) f q err
          (by simp [hready.1]) hready.2.2
      refine .inr ⟨?_, err, ((s.answered.withDemux d1).answered.withDemux d1).withDemux d',
        ?_, rfl, rfl, ?_, hfree, ?_⟩
      · rintro ⟨-, hgo⟩
        exact hno (by simpa only [StartAccepted, hstart1] using hgo)
      · simp only [setAndStart, Prog.run_bind, run_demuxCall, hset, bind_some,
          withDemux_world, answered_world, withDemux_demux, hstart]
        exact hrun
      · intro k hk
        rw [withDemux_demux, hfeed k hk, withDemux_demux, hfeed1, update_of_ne hk]
      · rw [withDemux_demux, hflt, withDemux_demux, hflt1]
    · refine .inl ⟨hacc, ?_, d1.updFeed f tsFeedStarted, ?_, ?_⟩
      · simpa only [StartAccepted, hstart1] using hgo
      · simp only [setAndStart, Prog.run_bind, run_demuxCall, hset, bind_some,
          withDemux_world, answered_world, withDemux_demux, hstart]
        rfl
      · simp [hfeed1]

/-- `dvb_dmxdev_start_feed` always comes back, in one of the three ways. -/
theorem startFeed_outcome (i : Fin nd) (pid addr : Nat) (s : Dmxdev nd nf nq) :
    ∃ r s', (dvbDmxdevStartFeed i pid addr).run s = some (r, s') ∧
      StartFeedOutcome i pid addr s r s' := by
  rcases allocateTsFeed_cases (s.world 0) (some addr) s.demux with
    ⟨hcause, err, hout⟩ | ⟨f, hlock, hfree, hnone, hout⟩ | ⟨f, q, hlock, hfree, hq, hout⟩
  · refine ⟨.error err, ((s.upd i (setTs addr none)).answered.withDemux s.demux), ?_,
      .unclaimed err _ hcause rfl rfl rfl⟩
    simp [dvbDmxdevStartFeed, allocateTs, hout, tsAllocated]
  · have hrun : (dvbDmxdevStartFeed i pid addr).run s = some (.error .ebusy,
        ((s.upd i (setTs addr none)).upd i (setTs addr (some f))).answered.withDemux
          (s.demux.updFeed f (tsFeedGivenBack (some addr)))) := by
      simp [dvbDmxdevStartFeed, allocateTs, hout, tsAllocated]
    refine ⟨_, _, hrun, .refused _ _ f hlock hfree (fun h => h.1 hnone) ?_ ?_ ?_ ?_ rfl⟩
    · simp [setTs_setTs]
    · intro k hk
      simp [update_of_ne hk]
    · simp [tsFeedGivenBack]
    · intro q
      exact ⟨rfl, rfl⟩
  · let s1 : Dmxdev nd nf nq :=
      ((s.upd i (setTs addr none)).upd i (setTs addr (some f))).answered.withDemux
        (((s.demux.updFeed f (tsFeedTaken (some addr) q)).updFilter q
          (tsFilterTaken f)).updFeed f (fun feed => { feed with priv := some i }))
    have hflt1 : s1.filter = (s.upd i (setTs addr (some f))).filter := by simp [s1, setTs_setTs]
    have hfeed1 : ∀ k ≠ f, s1.demux.feed k = s.demux.feed k := by
      intro k hk
      simp [s1, update_of_ne hk]
    have hrun : (dvbDmxdevStartFeed i pid addr).run s =
        (setAndStart f pid
          (dmxdevTsType (s.filter i).paramsPes.output (s.filter i).paramsPes.pesType)
          (s.filter i).paramsPes.pesType).run s1 := by
      simp [dvbDmxdevStartFeed, allocateTs, hout, tsAllocated, setPriv, s1]
    rw [hrun]
    rcases setAndStart_run s1 f q pid
        (dmxdevTsType (s.filter i).paramsPes.output (s.filter i).paramsPes.pesType)
        (s.filter i).paramsPes.pesType (by simp [s1, tsFeedTaken, tsFeedInit])
        (by simp [s1, tsFeedTaken, tsFeedInit]) (by simp [s1, tsFeedTaken, tsFeedInit]) with
      ⟨hset, hstart, d', hdone, hfeed⟩ |
        ⟨href, err, s', hdone, hflt, hfresh, hfeed, hback, hflts⟩
    · refine ⟨_, _, hdone, .started _ f q hlock hfree ⟨by simp [hq], hset, hstart⟩ hflt1
        ?_ ?_ rfl⟩
      · intro k hk
        rw [withDemux_demux, hfeed, update_of_ne hk, hfeed1 k hk]
      · simp [hfeed, tsFeedStarted, tsFeedReady, s1, tsFeedTaken, tsFeedInit]
    · refine ⟨_, _, hdone, .refused err s' f hlock hfree (fun h => href h.2)
        (hflt.trans hflt1) ?_ hback ?_ hfresh⟩
      · intro k hk
        rw [hfeed k hk, hfeed1 k hk]
      intro q'
      rw [hflts]
      rcases eq_or_ne q' q with rfl | hq'
      · simp [s1, filterFreed, tsFilterTaken, freeFilter_some hq]
      · simp [s1, update_of_ne hq']

end TbsMedia.DvbCore
