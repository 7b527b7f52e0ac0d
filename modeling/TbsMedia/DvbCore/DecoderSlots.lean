import TbsMedia.Lib.Run
import TbsMedia.DvbCore.Demux

/-!
The decoder entries `pesfilter[]` over whole runs of the TS feed calls. Several
clients call in any order, each of them in the order of `dvb_dmxdev_start_feed`:
allocate, set, and release, at once if setting fails.

A slot keeps `ts_type` and `pes_type` of its last user. A release after a
failed `set` reads these leftovers, and they may name an entry that another
feed has taken in the meantime.
-/

namespace TbsMedia.DvbCore

open Lib Function Option DvbDemux

variable {nf nq : Nat}

inductive Phase where
  | idle
  | allocated
  | failed
  | set
deriving DecidableEq

structure TsClients (nf nq : Nat) where
  demux : DvbDemux nf nq
  phase : Fin nf → Phase

open TsClients

inductive TsCall (nf : Nat) where
  | allocate (a : Answer)
  | set (a : Answer) (f : Fin nf) (pid tsType pesType : Nat)
  | start (a : Answer) (f : Fin nf)
  | stop (a : Answer) (f : Fin nf)
  | release (f : Fin nf)

namespace TsClients

/-- The phase of a slot after `set` has returned. -/
def setPhase : Ret → Phase
  | .ok () => .set
  | .error _ => .failed

def allocate (s : TsClients nf nq) (a : Answer) : TsClients nf nq :=
  match dvbdmxAllocateTsFeed a none s.demux with
  | (.ok (), some f, d) => { demux := d, phase := update s.phase f .allocated }
  | (_, _, d) => { s with demux := d }

def step (s : TsClients nf nq) : TsCall nf → Option (TsClients nf nq)
  | .allocate a => some (s.allocate a)
  | .set a f pid tsType pesType =>
    if s.phase f = .allocated then
      let out := dmxTsFeedSet a f pid tsType pesType s.demux
      some { demux := out.2, phase := update s.phase f (setPhase out.1) }
    else none
  | .start a f =>
    if s.phase f = .set then
      some { s with demux := (dmxTsFeedStartFiltering a f s.demux).2 }
    else none
  | .stop a f =>
    if s.phase f = .set then
      some { s with demux := (dmxTsFeedStopFiltering a f s.demux).2 }
    else none
  | .release f =>
    if s.phase f = .failed ∨ s.phase f = .set then
      (dvbdmxReleaseTsFeed f s.demux).map (fun out =>
        { demux := out.2, phase := update s.phase f .idle })
    else none

def SetAs (s : TsClients nf nq) (f : Fin nf) (pes : Fin dmxTsPesOther) : Prop :=
  s.phase f = .set ∧ (s.demux.feed f).tsType &&& tsDecoder ≠ 0 ∧
    (s.demux.feed f).pesType = pes

structure DecoderExclusive (s : TsClients nf nq) : Prop where
  unique : ∀ pes f g, s.SetAs f pes → s.SetAs g pes → f = g
  points : ∀ pes f, s.SetAs f pes → s.demux.pesfilter pes = some f
  vacant : ∀ pes, (∀ f, ¬ s.SetAs f pes) → s.demux.pesfilter pes = none

/-- The feed that is released was set, or what is left in its slot names no
entry that is in use. -/
def CleanRelease (s : TsClients nf nq) : TsCall nf → Prop
  | .release f => s.phase f = .set ∨ ∀ pes : Fin dmxTsPesOther,
      (s.demux.feed f).tsType &&& tsDecoder ≠ 0 → (s.demux.feed f).pesType = pes →
        s.demux.pesfilter pes = none
  | _ => True

structure Inv (s : TsClients nf nq) : Prop where
  entry : ∀ pes f, s.demux.pesfilter pes = some f ↔ s.SetAs f pes
  taken : ∀ f, s.phase f ≠ .idle → (s.demux.feed f).state ≠ .free

section

variable {s s' : TsClients nf nq} (hinv : s.Inv)
include hinv

theorem Inv.exclusive : s.DecoderExclusive := by
  constructor
  · intro pes f g hf hg
    rw [← hinv.entry] at hf hg
    exact mem_unique hf hg
  · intro pes f hf
    exact (hinv.entry pes f).mpr hf
  · intro pes hnone
    cases hpes : s.demux.pesfilter pes with
    | none => rfl
    | some f => exact absurd ((hinv.entry pes f).mp hpes) (hnone f)

/-- A call that leaves the entries, the types of the feeds that are set and
the free slots alone keeps the invariant. -/
theorem Inv.of_same (hpes : s'.demux.pesfilter = s.demux.pesfilter)
    (hset : ∀ f, s'.phase f = .set ↔ s.phase f = .set) (htypes : ∀ f, s.phase f = .set →
      (s'.demux.feed f).tsType = (s.demux.feed f).tsType ∧
        (s'.demux.feed f).pesType = (s.demux.feed f).pesType)
    (htaken : ∀ f, s'.phase f ≠ .idle → (s'.demux.feed f).state ≠ .free) : s'.Inv := by
  refine ⟨?_, htaken⟩
  intro pes f
  rw [hpes, hinv.entry pes f, SetAs, SetAs, hset f]
  constructor
  · rintro ⟨hphase, hdec⟩
    rw [(htypes f hphase).1, (htypes f hphase).2]
    exact ⟨hphase, hdec⟩
  · rintro ⟨hphase, hdec⟩
    rw [(htypes f hphase).1, (htypes f hphase).2] at hdec
    exact ⟨hphase, hdec⟩

theorem Inv.idle_of_free (f : Fin nf) (hfree : (s.demux.feed f).state = .free) :
    s.phase f = .idle := by
  by_contra hphase
  exact hinv.taken f hphase hfree

theorem Inv.touch (f : Fin nf) (hunset : s.phase f ≠ .set) (hunset' : s'.phase f ≠ .set)
    (hpes : s'.demux.pesfilter = s.demux.pesfilter) (hphase : ∀ g ≠ f, s'.phase g = s.phase g)
    (hfeed : ∀ g ≠ f, s'.demux.feed g = s.demux.feed g)
    (htaken : s'.phase f ≠ .idle → (s'.demux.feed f).state ≠ .free) : s'.Inv := by
  apply hinv.of_same hpes
  · intro g
    rcases eq_or_ne g f with rfl | hgf
    · exact iff_of_false hunset' hunset
    · rw [hphase g hgf]
  · intro g hg
    have hgf : g ≠ f := by
      rintro rfl
      exact hunset hg
    rw [hfeed g hgf]
    exact ⟨rfl, rfl⟩
  · intro g hg
    rcases eq_or_ne g f with rfl | hgf
    · exact htaken hg
    · rw [hfeed g hgf]
      exact hinv.taken g (by rwa [hphase g hgf] at hg)

end

variable (s : TsClients nf nq) (a : Answer)

theorem inv_allocate (hinv : s.Inv) : (s.allocate a).Inv := by
  rcases allocateTsFeed_cases a none s.demux with
    ⟨-, err, hout⟩ | ⟨f, -, hfree, -, hout⟩ | ⟨f, q, -, hfree, -, hout⟩
  · have hnext : s.allocate a = s := by simp [allocate, hout]
    rw [hnext]
    exact hinv
  · have hidle := hinv.idle_of_free f (freeFeed_some hfree)
    have hnext : s.allocate a =
        { s with demux := s.demux.updFeed f (tsFeedGivenBack none) } := by
      simp [allocate, hout]
    rw [hnext]
    apply hinv.touch f
    · simp [hidle]
    · simp [hidle]
    · rfl
    · exact fun _ _ => rfl
    · intro g hg
      simp [update_of_ne hg]
    · simp [hidle]
  · have hidle := hinv.idle_of_free f (freeFeed_some hfree)
    have hnext : s.allocate a =
        { demux := (s.demux.updFeed f (tsFeedTaken none q)).updFilter q (tsFilterTaken f),
          phase := update s.phase f .allocated } := by
      simp [allocate, hout]
    rw [hnext]
    apply hinv.touch f
    · simp [hidle]
    · simp
    · rfl
    · intro g hg
      simp [update_of_ne hg]
    · intro g hg
      simp [update_of_ne hg]
    · simp [tsFeedTaken, tsFeedInit]

/-- `dvb_demux_feed_add` concerns the list only. -/
theorem feedAdd_same (f : Fin nf) (d : DvbDemux nf nq) :
    (dvbDemuxFeedAdd f d).feed = d.feed ∧ (dvbDemuxFeedAdd f d).pesfilter = d.pesfilter := by
  unfold dvbDemuxFeedAdd
  split_ifs
  all_goals exact ⟨rfl, rfl⟩

/-- After a successful `set` of `f`, the entries are those of the other feeds and
the one, if any, that `f` was set for. -/
theorem inv_of_set {s : TsClients nf nq} (hinv : s.Inv) (f : Fin nf)
    {d : DvbDemux nf nq} {pid tsType pesType : Nat} (hfeed : d.feed = s.demux.feed)
    (hentry : ∀ pes g, (d.updFeed f (tsFeedReady pid tsType pesType)).pesfilter pes = some g ↔
      (g ≠ f ∧ s.demux.pesfilter pes = some g) ∨
        (g = f ∧ tsType &&& tsDecoder ≠ 0 ∧ pesType = pes)) :
    Inv { demux := d.updFeed f (tsFeedReady pid tsType pesType),
          phase := update s.phase f (setPhase (.ok ())) } := by
  constructor
  · intro pes g
    rw [hentry pes g, SetAs]
    rcases eq_or_ne g f with rfl | hgf
    · simp [setPhase, tsFeedReady]
    · simp [hgf, hinv.entry pes g, SetAs, updFeed_feed, hfeed]
  · intro g hg
    rcases eq_or_ne g f with rfl | hgf
    · simp [tsFeedReady]
    · simp only [update_of_ne hgf, updFeed_feed, hfeed] at hg ⊢
      exact hinv.taken g hg

theorem inv_set (f : Fin nf) (pid tsType pesType : Nat) (hphase : s.phase f = .allocated)
    (hinv : s.Inv) : let out := dmxTsFeedSet a f pid tsType pesType s.demux
    Inv { demux := out.2, phase := update s.phase f (setPhase out.1) } := by
  intro out
  have htaken := hinv.taken f (by simp [hphase])
  rcases dmxTsFeedSet_cases a f pid tsType pesType s.demux with
    ⟨-, err, hout⟩ | ⟨-, hplain, hout⟩ | ⟨-, hpes, hdec, hbusy, hout⟩
  · simp only [out, hout]
    apply hinv.touch f
    · simp [hphase]
    · simp [setPhase]
    · rfl
    · intro g hg
      simp [update_of_ne hg]
    · exact fun _ _ => rfl
    · exact fun _ => htaken
  · simp only [out, hout]
    apply inv_of_set hinv f (feedAdd_same f s.demux).1
    intro pes g
    rw [updFeed_pesfilter, (feedAdd_same f s.demux).2]
    constructor
    · intro hpes
      refine .inl ⟨?_, hpes⟩
      rintro rfl
      exact absurd ((hinv.entry pes g).mp hpes).1 (by simp [hphase])
    · rintro (⟨-, hpes⟩ | ⟨-, hdec, -⟩)
      · exact hpes
      · exact absurd hplain hdec
  · have hvacant : s.demux.pesfilter ⟨pesType, hpes⟩ = none := by
      rcases hentry : s.demux.pesfilter ⟨pesType, hpes⟩ with _ | g
      · rfl
      obtain rfl : g = f := by simpa [pesBusy, hentry] using hbusy
      exact absurd ((hinv.entry _ g).mp hentry).1 (by simp [hphase])
    simp only [out, hout]
    refine inv_of_set hinv f ?_ ?_
    · exact (feedAdd_same f _).1
    intro pes g
    rw [updFeed_pesfilter, (feedAdd_same f _).2]
    simp only [takeDecoder, update_apply]
    by_cases hsame : pes = ⟨pesType, hpes⟩
    · subst hsame
      rw [hvacant]
      simp [hdec, eq_comm]
    rw [if_neg hsame]
    have hoth : pesType ≠ pes := by
      rintro rfl
      exact hsame rfl
    constructor
    · intro hentry
      refine .inl ⟨?_, hentry⟩
      rintro rfl
      exact absurd ((hinv.entry pes g).mp hentry).1 (by simp [hphase])
    · rintro (⟨-, hentry⟩ | ⟨-, -, hpesType⟩)
      · exact hentry
      · exact absurd hpesType hoth

theorem inv_running {s : TsClients nf nq} (hinv : s.Inv) (f : Fin nf)
    (change : DvbDemuxFeed nq → DvbDemuxFeed nq)
    (htypes : ∀ feed, (change feed).tsType = feed.tsType ∧
      (change feed).pesType = feed.pesType ∧ (change feed).state ≠ .free) :
    Inv { s with demux := s.demux.updFeed f change } := by
  refine hinv.of_same ?_ ?_ ?_ ?_
  · rfl
  · exact fun _ => .rfl
  · intro g _
    rcases eq_or_ne g f with rfl | hgf
    · simp [htypes]
    · simp [update_of_ne hgf]
  · intro g hg
    rcases eq_or_ne g f with rfl | hgf
    · simp [htypes]
    · simpa [update_of_ne hgf] using hinv.taken g hg

theorem inv_start (f : Fin nf) (hinv : s.Inv) :
    Inv { s with demux := (dmxTsFeedStartFiltering a f s.demux).2 } := by
  rcases startFiltering_cases a f s.demux with ⟨-, err, hout⟩ | ⟨-, -, -, hout⟩
  · rw [hout]
    exact hinv
  · rw [hout]
    exact inv_running hinv f _ (fun feed => ⟨rfl, rfl, by simp [tsFeedStarted]⟩)

theorem inv_stop (f : Fin nf) (hinv : s.Inv) :
    Inv { s with demux := (dmxTsFeedStopFiltering a f s.demux).2 } := by
  rcases stopFiltering_cases a f s.demux with ⟨err, hout⟩ | ⟨-, ret, hout⟩
  · rw [hout]
    exact hinv
  · rw [hout]
    exact inv_running hinv f _ (fun feed => ⟨rfl, rfl, by simp [tsFeedStopped]⟩)

/-- The entries after a release: the one that the fields of the slot name is
cleared, whoever holds it. -/
theorem release_entry (f : Fin nf) (ret : Ret) (d : DvbDemux nf nq)
    (htaken : (s.demux.feed f).state ≠ .free)
    (hrel : dvbdmxReleaseTsFeed f s.demux = some (ret, d)) :
    (∀ g ≠ f, d.feed g = s.demux.feed g) ∧
    ∀ pes, d.pesfilter pes = if (s.demux.feed f).tsType &&& tsDecoder ≠ 0 ∧
      (s.demux.feed f).pesType = pes then none else s.demux.pesfilter pes := by
  rcases releaseTsFeed_cases f s.demux d ret hrel with
    ⟨hfree, -⟩ | ⟨-, q, rest, -, rfl⟩
  · exact absurd hfree htaken
  constructor
  · intro g hg
    unfold pesRelease
    split_ifs <;> simp [dvbDemuxFeedDel, update_of_ne hg]
  intro pes
  unfold pesRelease
  by_cases hnamed : (s.demux.feed f).tsType &&& tsDecoder ≠ 0 ∧
      (s.demux.feed f).pesType < dmxTsPesOther
  · rw [dif_pos hnamed]
    simp only [update_apply, Fin.ext_iff, hnamed.1, ne_eq, not_false_eq_true, true_and, eq_comm]
    rfl
  · rw [dif_neg hnamed, if_neg]
    · rfl
    · rintro ⟨hdec, hpes⟩
      exact hnamed ⟨hdec, by omega⟩

theorem inv_release (f : Fin nf) (ret : Ret) (d : DvbDemux nf nq) (hphase : s.phase f ≠ .idle)
    (hinv : s.Inv) (hclean : s.CleanRelease (.release f))
    (hrel : dvbdmxReleaseTsFeed f s.demux = some (ret, d)) :
    Inv { demux := d, phase := update s.phase f .idle } := by
  obtain ⟨hfeed, hpes⟩ := release_entry s f ret d (hinv.taken f hphase) hrel
  constructor
  · intro pes g
    have hset : SetAs { demux := d, phase := update s.phase f .idle } g pes ↔
        g ≠ f ∧ s.SetAs g pes := by
      rcases eq_or_ne g f with rfl | hgf
      · simp [SetAs]
      · simp [SetAs, hgf, hfeed g hgf]
    rw [hpes pes, hset, ← hinv.entry pes g]
    split_ifs with hnamed
    · simp only [false_iff, not_and]
      intro hgf hentry
      rcases hclean with hwas | hvacant
      · have hown := (hinv.entry pes f).mpr ⟨hwas, hnamed⟩
        exact hgf (mem_unique hentry hown)
      · rw [hvacant pes hnamed.1 hnamed.2] at hentry
        cases hentry
    · refine ⟨fun hentry => ⟨?_, hentry⟩, fun h => h.2⟩
      rintro rfl
      exact hnamed ((hinv.entry pes g).mp hentry).2
  · intro g hg
    have hgf : g ≠ f := by
      rintro rfl
      simp at hg
    simp only [update_of_ne hgf] at hg
    simp only [hfeed g hgf]
    exact hinv.taken g hg

section

variable (call : TsCall nf) (next : TsClients nf nq) (hinv : s.Inv)
  (hstep : s.step call = some next)
include hinv hstep

theorem step_keeps (hclean : s.CleanRelease call) : next.Inv := by
  cases call with
  | allocate a =>
    cases hstep
    exact inv_allocate s a hinv
  | set a f pid tsType pesType =>
    simp only [step, ite_none_right_eq_some, Option.some.injEq] at hstep
    obtain ⟨hphase, rfl⟩ := hstep
    exact inv_set s a f pid tsType pesType hphase hinv
  | start a f =>
    simp only [step, ite_none_right_eq_some, Option.some.injEq] at hstep
    obtain ⟨-, rfl⟩ := hstep
    exact inv_start s a f hinv
  | stop a f =>
    simp only [step, ite_none_right_eq_some, Option.some.injEq] at hstep
    obtain ⟨-, rfl⟩ := hstep
    exact inv_stop s a f hinv
  | release f =>
    simp only [step, ite_none_right_eq_some, map_eq_some_iff] at hstep
    obtain ⟨hphase, ⟨ret, d⟩, hrel, rfl⟩ := hstep
    have hbusy : s.phase f ≠ .idle := by rcases hphase with h | h <;> simp [h]
    exact inv_release s f ret d hbusy hinv hclean hrel

/-- A release that is not clean takes the entry away from the feed that has it. -/
theorem step_breaks (hclean : ¬ s.CleanRelease call) : ¬ next.DecoderExclusive := by
  cases call with
  | release f =>
    simp only [step, ite_none_right_eq_some, map_eq_some_iff] at hstep
    obtain ⟨hphase, ⟨ret, d⟩, hrel, rfl⟩ := hstep
    simp only [CleanRelease, not_or, not_forall] at hclean
    obtain ⟨hunset, pes, hdec, hpesType, hoccupied⟩ := hclean
    obtain ⟨g, hentry⟩ := ne_none_iff_exists'.mp hoccupied
    have hhold := (hinv.entry pes g).mp hentry
    have hgf : g ≠ f := by
      rintro rfl
      exact hunset hhold.1
    have hbusy : s.phase f ≠ .idle := by rcases hphase with h | h <;> simp [h]
    obtain ⟨hfeed, hpes⟩ := release_entry s f ret d (hinv.taken f hbusy) hrel
    intro hexclusive
    have hpoints := hexclusive.points pes g (by
      simp only [SetAs, update_of_ne hgf, hfeed g hgf]
      exact hhold)
    simp only [hpes pes, if_pos (And.intro hdec hpesType)] at hpoints
    cases hpoints
  | allocate => exact absurd trivial hclean
  | set => exact absurd trivial hclean
  | start => exact absurd trivial hclean
  | stop => exact absurd trivial hclean

end

/-- Before any call: the demux as `dvb_dmx_init` leaves it, with whatever was in
the memory of the slots. -/
def initial (d : DvbDemux nf nq) : TsClients nf nq :=
  { demux := dvbDmxInit d, phase := fun _ => .idle }

theorem inv_initial (d : DvbDemux nf nq) : (initial d).Inv := by
  constructor
  · intro pes f
    simp [initial, dvbDmxInit, SetAs]
  · intro f hf
    simp [initial] at hf

end TsClients

/-- Along a run of calls from the initialised demux, the decoder entries are
exclusive in every state exactly if every release along it is clean. -/
theorem decoder_slots_exclusive_iff (d : DvbDemux nf nq) (calls : List (TsCall nf)) :
    Always TsClients.step TsClients.DecoderExclusive (TsClients.initial d) calls ↔
      Along TsClients.step TsClients.CleanRelease (TsClients.initial d) calls :=
  always_iff_along step TsClients.DecoderExclusive TsClients.CleanRelease
    TsClients.Inv (fun _ hinv => hinv.exclusive) step_keeps step_breaks
    (initial d) (inv_initial d) calls

/-- Two slots. The second is left as decoder feed 0 by its first client. When
the third client has that decoder through the first slot, the fourth gets the
second one, is interrupted while it waits to set it, and gives it back. -/
def lostEntryRun : List (TsCall 2) :=
  [.allocate .ok, .set .ok 0 100 tsPacket dmxTsPesOther, .allocate .ok, .set .ok 1 101 tsDecoder 0,
   .release 1, .release 0, .allocate .ok, .set .ok 0 102 tsDecoder 0,
   .allocate .ok, .set { Answer.ok with interrupted := true } 1 103 tsDecoder 1, .release 1]

/-- The third client is still set as decoder 0, and the entry is empty. -/
theorem failed_set_loses_decoder_entry :
    ¬ Always TsClients.step TsClients.DecoderExclusive
      (TsClients.initial (default : DvbDemux 2 2)) lostEntryRun := by
  refine not_always_of_run (fun s => s.phase 0 = .set ∧ (s.demux.feed 0).tsType &&& tsDecoder ≠ 0 ∧
    (s.demux.feed 0).pesType = 0 ∧ s.demux.pesfilter 0 = none) (by decide +kernel) ?_
  rintro last ⟨hset, hdecoder, hpes, hnone⟩ hexclusive
  have hpoints := hexclusive.points 0 0 ⟨hset, hdecoder, hpes⟩
  rw [hnone] at hpoints
  cases hpoints

end TbsMedia.DvbCore
