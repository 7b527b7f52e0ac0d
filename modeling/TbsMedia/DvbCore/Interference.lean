import TbsMedia.DvbCore.FilterFrames

/-!
Requests while section callbacks and timers run between their accesses. What these
can do to a filter is little: its state can become DONE, when it was GO, or TIMEDOUT.
So a filter that is not in state GO stays so until a request sets it going, and a
request may change a filter freely once it has stopped it.
-/

namespace TbsMedia.DvbCore

open Lib Contract Function DmxdevState

variable {nd nf nq : Nat}

structure OutsideAt (flt flt' : DmxdevFilter nf nq) : Prop where
  type : flt'.type = flt.type
  feedSec : flt'.feedSec = flt.feedSec
  paramsSec : flt'.paramsSec = flt.paramsSec
  going : flt'.state = .go → flt.state = .go
  active : DmxdevState.go.toNat ≤ flt.state.toNat → DmxdevState.go.toNat ≤ flt'.state.toNat

def Outside (s t : Dmxdev nd nf nq) : Prop :=
  ∀ j, OutsideAt (s.filter j) (t.filter j)

theorem OutsideAt.refl (flt : DmxdevFilter nf nq) : OutsideAt flt flt := ⟨rfl, rfl, rfl, id, id⟩

theorem Outside.refl (s : Dmxdev nd nf nq) : Outside s s := fun _ => .refl _

variable {s t : Dmxdev nd nf nq} {change : DmxdevFilter nf nq → DmxdevFilter nf nq} {j : Fin nd}

theorem Outside.trans {u : Dmxdev nd nf nq} (hfirst : Outside s t) (hnext : Outside t u) :
    Outside s u := fun j =>
  { type := (hnext j).type.trans (hfirst j).type
    feedSec := (hnext j).feedSec.trans (hfirst j).feedSec
    paramsSec := (hnext j).paramsSec.trans (hfirst j).paramsSec
    going := fun hgo => (hfirst j).going ((hnext j).going hgo)
    active := fun hact => (hnext j).active ((hfirst j).active hact) }

theorem SameCores.outside (hcores : SameCores s t) : Outside s t :=
  fun j =>
    { type := (hcores j).type
      feedSec := (hcores j).feedSec
      paramsSec := (hcores j).paramsSec
      going := fun hgo => (hcores j).state.symm.trans hgo
      active := fun hact => by rwa [(hcores j).state] }

/-- A filter in state GO can be stopped: `dvb_dmxdev_filter_stop` goes by its type and
by its feed. -/
structure Tied (s : Dmxdev nd nf nq) : Prop where
  typed : ∀ i, (s.filter i).state = .go → (s.filter i).type ≠ .none
  feed : ∀ i, (s.filter i).state = .go → (s.filter i).type = .sec →
    (s.filter i).feedSec ≠ none

theorem Tied.outside (htied : Tied s) (hout : Outside s t) : Tied t where
  typed := fun i hgo => by
    rw [(hout i).type]
    exact htied.typed i ((hout i).going hgo)
  feed := fun i hgo hsec => by
    rw [(hout i).feedSec]
    exact htied.feed i ((hout i).going hgo) ((hout i).type.symm.trans hsec)

/-- The accesses of a request. One that sets a filter going again finds it active, and
if it finds it in state GO, then only the end of a filter's own start sets that filter
going, and the flags of a filter in state GO do not change. -/
def device : Contract (Dmxdev nd nf nq) (Mark nd) where
  inv := Tied
  env := Outside
  env_refl := Outside.refl
  env_trans := fun _ _ _ => Outside.trans
  ready := fun tag s t => ∀ j, tag = some (.feedStart j) →
    DmxdevState.go.toNat ≤ (s.filter j).state.toNat ∧ (t.filter j).state = .go
  cond := fun tag s => ∀ j, tag = some (.feedStart j) → (s.filter j).state = .go
  guar := fun tag s t => ∀ j, tag ≠ some (.start j) → (t.filter j).state = .go →
    (s.filter j).state = .go ∧ (t.filter j).paramsSec.flags = (s.filter j).paramsSec.flags

theorem guar_of_outside {tag : Option (Mark nd)} (hout : Outside s t) :
    device.guar tag s t := fun j _ hgo =>
  ⟨(hout j).going hgo, by rw [(hout j).paramsSec]⟩

/-- Code that leaves all cores alone can be taken for a turn of the environment. -/
theorem wp_quiet {α : Type} {p : Code nd nf nq α} (hin : p.Within Quiet) {s0 : Dmxdev nd nf nq}
    (hpre : Outside s0 s) : device.Wp p (fun _ t => Outside s0 t) s := by
  induction p generalizing s with
  | done a => exact fun t hlater _ => hpre.trans hlater
  | oops => trivial
  | atomic tag update rest ih =>
    intro t hlater htied
    obtain ⟨⟨htag, hcores⟩, hrest⟩ := hin t
    refine ⟨fun j hj => absurd hj (htag j), fun _ => ?_⟩
    have hout := hcores.outside
    exact ⟨guar_of_outside hout, htied.outside hout,
      ih t hrest ((hpre.trans hlater).trans hout)⟩

section

variable {α β : Type} {next : α → Code nd nf nq β} {post : β → Dmxdev nd nf nq → Prop}

theorem wp_quiet_bind {p : Code nd nf nq α} (hin : p.Within Quiet)
    (hnext : ∀ a t, Outside s t → device.Wp (next a) post t) : device.Wp (p >>= next) post s :=
  Wp.bind ((wp_quiet hin (.refl s)).mono fun a t _ => hnext a t)

theorem wp_read_bind {f : Dmxdev nd nf nq → α}
    (hnext : ∀ t u, Outside s t → Tied t → Outside t u → device.Wp (next (f t)) post u) :
    device.Wp (Prog.read f >>= next) post s := by
  apply Wp.bind
  apply Wp.read
  intro t hlater htied
  exact ⟨fun _ => nofun, fun _ => ⟨guar_of_outside (.refl t),
    fun u hu _ => hnext t u hlater htied hu⟩⟩

end

def Parked (i : Fin nd) (s : Dmxdev nd nf nq) : Prop :=
  (s.filter i).state ≠ .go

theorem Parked.outside {i : Fin nd} (hpark : Parked i s) (hout : Outside s t) :
    Parked i t := fun hgo => hpark ((hout i).going hgo)

/-- A change of filter `j` after which it is not in state GO. -/
theorem upd_keeps (hstate : (change (s.filter j)).state ≠ .go) (htied : Tied s)
    (tag : Option (Mark nd)) : device.guar tag s (s.upd j change) ∧ Tied (s.upd j change) := by
  have hgoing : ∀ k, ((s.upd j change).filter k).state = .go →
      (s.upd j change).filter k = s.filter k := by
    intro k hgo
    rcases eq_or_ne k j with rfl | hk
    · simp [hstate] at hgo
    · simp [update_of_ne hk]
  refine ⟨?_, ?_, ?_⟩
  · intro k _ hgo
    have hsame := hgoing k hgo
    rw [hsame] at hgo ⊢
    exact ⟨hgo, rfl⟩
  · intro k hgo
    have hsame := hgoing k hgo
    rw [hsame] at hgo ⊢
    exact htied.typed k hgo
  · intro k hgo
    have hsame := hgoing k hgo
    rw [hsame] at hgo ⊢
    exact htied.feed k hgo

theorem wp_upd {post : Unit → Dmxdev nd nf nq → Prop}
    (hchange : ∀ t, Outside s t → (change (t.filter j)).state ≠ .go)
    (hpost : ∀ t u, Outside s t → Outside (t.upd j change) u → post () u) :
    device.Wp (filterUpd j change) post s := by
  apply Wp.modify
  intro t hlater htied
  refine ⟨fun _ => nofun, fun _ => ?_⟩
  obtain ⟨hguar, htied'⟩ := upd_keeps (hchange t hlater) htied none
  exact ⟨hguar, htied', fun u hu _ => hpost t u hlater hu⟩

/-- Code that keeps filter `i` out of state GO. -/
def Parks {α : Type} (i : Fin nd) (p : Code nd nf nq α) : Prop :=
  ∀ s, Parked i s → device.Wp p (fun _ t => Parked i t) s

def Halts {α : Type} (i : Fin nd) (p : Code nd nf nq α) : Prop :=
  ∀ s, device.Wp p (fun _ t => Parked i t) s

variable {change : DmxdevFilter nf nq → DmxdevFilter nf nq}

section Rules

variable {α β : Type} {i : Fin nd} {p : Code nd nf nq α} {next : α → Code nd nf nq β}
  {state : DmxdevState}

theorem Halts.parks (hhalts : Halts i p) : Parks i p := fun s _ => hhalts s

theorem Parks.pure (a : α) : Parks i (pure a : Code nd nf nq α) :=
  fun _ hpark => .pure (fun _ hlater _ => hpark.outside hlater)

theorem Parks.bind (hfirst : Parks i p) (hnext : ∀ a, Parks i (next a)) :
    Parks i (p >>= next) := fun s hpark =>
  Wp.bind ((hfirst s hpark).mono (fun a t _ ht => hnext a t ht))

theorem Halts.bind (hfirst : Halts i p) (hnext : ∀ a, Parks i (next a)) :
    Halts i (p >>= next) := fun s =>
  Wp.bind ((hfirst s).mono (fun a t _ ht => hnext a t ht))

theorem Parks.quiet (hin : p.Within Quiet) : Parks i p :=
  fun s hpark => (wp_quiet hin (.refl s)).mono (fun _ _ _ hlater => hpark.outside hlater)

theorem Parks.upd (hchange : ∀ flt, flt.state ≠ .go → (change flt).state ≠ .go) :
    Parks i (filterUpd i change) := by
  intro s hpark
  apply wp_upd
  · intro t hlater
    exact hchange _ (hpark.outside hlater)
  · intro t u hlater hu
    refine .outside ?_ hu
    simpa [Parked] using hchange _ (hpark.outside hlater)

theorem Parks.stateSet (j : Fin nd) (hstate : state ≠ .go) :
    Parks i (dvbDmxdevFilterStateSet j state : Code nd nf nq Unit) := by
  intro s hpark
  apply wp_upd
  · exact fun _ _ => hstate
  intro t u hlater hu
  refine .outside ?_ hu
  rcases eq_or_ne i j with rfl | hij
  · simpa [Parked] using hstate
  · simpa [Parked, update_of_ne hij] using hpark.outside hlater

theorem Halts.stateSet (hstate : state ≠ .go) :
    Halts i (dvbDmxdevFilterStateSet i state : Code nd nf nq Unit) := by
  intro s
  apply wp_upd
  · exact fun _ _ => hstate
  · intro t u _ hu
    refine .outside ?_ hu
    simpa [Parked] using hstate

end Rules

/-! Stopping and restarting. -/

theorem feedStop_parks (i j : Fin nd) : Parks i (dvbDmxdevFeedStop j : Code nd nf nq Ret) :=
  Parks.bind (.stateSet j (by decide)) (fun _ => .quiet (stopByType_within j))

theorem feedStop_halts (i : Fin nd) : Halts i (dvbDmxdevFeedStop i : Code nd nf nq Ret) :=
  Halts.bind (.stateSet (by decide)) (fun _ => .quiet (stopByType_within i))

section

variable (i j : Fin nd)

theorem startFeedsAgain_parks (l : List (DmxdevFeed nf)) :
    Parks i (startFeedsAgain j l : Code nd nf nq Ret) := by
  induction l with
  | nil => exact Parks.pure _
  | cons e rest ih =>
    unfold startFeedsAgain
    rcases e.ts with _ | ts
    · exact fun _ _ => trivial
    apply Parks.bind (Parks.quiet (demuxCall_within _))
    intro r
    cases r with
    | error err => exact Parks.bind (feedStop_parks i j) (fun _ => Parks.pure _)
    | ok _ => exact ih

theorem startAgainByType_parks : Parks i (startAgainByType j : Code nd nf nq Ret) := by
  apply Parks.bind (Parks.quiet (theFilter_within j))
  intro flt
  cases flt.type with
  | sec =>
    cases flt.feedSec with
    | none => exact fun _ _ => trivial
    | some sec => exact Parks.quiet (demuxCall_within _)
  | pes => exact startFeedsAgain_parks i j _
  | none => exact Parks.pure _

/-- An active filter is set going again. It is not the one that is out of state GO,
unless the access finds it in another state than GO. -/
theorem feedStart_parks (s : Dmxdev nd nf nq) (hpark : Parked i s)
    (hact : DmxdevState.go.toNat ≤ (s.filter j).state.toNat) :
    device.Wp (dvbDmxdevFeedStart j) (fun _ t => Parked i t) s := by
  apply Wp.bind
  apply Wp.modify
  intro t hlater htied
  constructor
  · intro k hk
    obtain rfl : j = k := by simpa using hk
    exact ⟨(hlater j).active hact, by simp⟩
  intro hcond
  have hgo := hcond j rfl
  have hcores : SameCores t (t.upd j (fun flt => { flt with state := .go })) := by
    intro k
    rcases eq_or_ne k j with rfl | hk
    · simpa using (⟨rfl, hgo.symm, rfl, rfl⟩ : SameCore (t.filter k)
        { t.filter k with state := .go })
    · simpa [update_of_ne hk] using SameCore.refl (t.filter k)
  refine ⟨guar_of_outside hcores.outside, htied.outside hcores.outside, ?_⟩
  intro u hu _
  exact startAgainByType_parks i j u ((hpark.outside hlater).outside (hcores.outside.trans hu))

theorem feedRestartFrom_parks (pid : Nat) (l : List (Fin nd)) :
    Parks i (feedRestartFrom j pid l : Code nd nf nq Ret) := by
  induction l with
  | nil =>
    apply Parks.bind (Parks.quiet (theFilter_within j))
    intro flt
    cases flt.feedSec with
    | none => exact fun _ _ => trivial
    | some sec => exact Parks.bind (Parks.quiet (demuxRelease_within _)) (fun _ => Parks.pure _)
  | cons k rest ih =>
    intro s hpark
    refine wp_read_bind fun t u hlater htied hu => ?_
    have hpark' : Parked i u := (hpark.outside hlater).outside hu
    cases hact : t.active pid k with
    | true =>
      have hstate : go.toNat ≤ (t.filter k).state.toNat := by
        simp only [Dmxdev.active, decide_eq_true_eq] at hact
        exact hact.1
      refine .bind ((feedStart_parks i k u hpark' ((hu k).active hstate)).mono fun _ v _ hv => ?_)
      exact Parks.pure _ v hv
    | false => exact ih u hpark'

theorem feedRestart_parks : Parks i (dvbDmxdevFeedRestart j : Code nd nf nq Ret) :=
  Parks.bind (.quiet (theFilter_within j)) (fun _ => feedRestartFrom_parks i j _ _)

end

/-- `dvb_dmxdev_filter_stop` stops its filter, whatever it finds. -/
theorem filterStop_halts (i : Fin nd) : Halts i (dvbDmxdevFilterStop i : Code nd nf nq Ret) := by
  intro s
  refine wp_read_bind fun t u _ htied hu => ?_
  have hflush : Parks i (do filterUpd i flushBuffer; pure (.ok ()) : Code nd nf nq Ret) :=
    Parks.bind (.quiet (flushBuffer_within i)) (fun _ => .pure _)
  rcases lt_or_ge (t.filter i).state.toNat go.toNat with hstate | hstate
  · rw [if_pos hstate]
    have hpark : Parked i t := by
      intro hgo
      rw [hgo] at hstate
      exact lt_irrefl _ hstate
    exact Parks.pure _ u (hpark.outside hu)
  rw [if_neg hstate.not_gt]
  cases htype : (t.filter i).type with
  | sec =>
    rcases hsec : (t.filter i).feedSec with _ | sec
    · have hpark : Parked i t := fun hgo => htied.feed i hgo htype hsec
      exact hflush u (hpark.outside hu)
    refine Halts.bind (feedStop_halts i) (fun _ => ?_) u
    refine Parks.bind (Parks.quiet (releaseSecfilter_within sec _)) (fun _ => ?_)
    refine .bind (feedRestart_parks i i) (fun _ => ?_)
    exact .bind (.upd (fun _ => id)) (fun _ => hflush)
  | pes =>
    refine Halts.bind (feedStop_halts i) (fun _ => ?_) u
    exact Parks.bind (Parks.quiet (releaseFeeds_within i _)) (fun _ => hflush)
  | none =>
    have hpark : Parked i t := fun hgo => htied.typed i hgo htype
    split_ifs
    all_goals exact Parks.pure _ u (hpark.outside hu)

theorem stopRunning_halts (i : Fin nd) : Halts i (stopRunning i : Code nd nf nq Unit) := by
  intro s
  refine wp_read_bind fun t u _ htied hu => ?_
  split_ifs with hstate
  · exact Halts.bind (filterStop_halts i) (fun _ => Parks.pure _) u
  have hpark : Parked i t := by
    intro hgo
    rw [hgo] at hstate
    exact hstate le_rfl
  exact Parks.pure _ u (hpark.outside hu)

theorem filterReset_parks (i : Fin nd) : Parks i (dvbDmxdevFilterReset i : Code nd nf nq Ret) := by
  apply Parks.bind (Parks.quiet (theFilter_within i))
  intro flt
  split_ifs
  · exact Parks.pure _
  · refine Parks.bind (Parks.upd (fun _ => id)) (fun _ => ?_)
    exact Parks.bind (Parks.stateSet i (by decide)) (fun _ => Parks.pure _)

/-! Starting. -/

def Startable (i : Fin nd) (s : Dmxdev nd nf nq) : Prop :=
  (s.filter i).type ≠ .none ∧ ((s.filter i).type = .sec → (s.filter i).feedSec ≠ none)

/-- How the `switch` of `dvb_dmxdev_filter_start` ends. -/
def SwitchEnds (i : Fin nd) (r : Ret) (s : Dmxdev nd nf nq) : Prop :=
  Parked i s ∧ (r = .ok () → Startable i s)

structure Holds (i : Fin nd) (sec : Fin nf) (s : Dmxdev nd nf nq) : Prop where
  parked : Parked i s
  type : (s.filter i).type = .sec
  feedSec : (s.filter i).feedSec = some sec

variable {s : Dmxdev nd nf nq} {sec : Fin nf} {i : Fin nd} {α β : Type} {p : Code nd nf nq α}
  {next : α → Code nd nf nq β}

theorem Holds.outside {t : Dmxdev nd nf nq} (hholds : Holds i sec s) (hout : Outside s t) :
    Holds i sec t where
  parked := hholds.parked.outside hout
  type := (hout i).type.trans hholds.type
  feedSec := (hout i).feedSec.trans hholds.feedSec

theorem Holds.startable (hholds : Holds i sec s) : Startable i s := by
  refine ⟨?_, fun _ => ?_⟩
  · simp [hholds.type]
  · simp [hholds.feedSec]

theorem Parks.fails (hparks : Parks i p) (err : Errno) (hpark : Parked i s) :
    device.Wp (p >>= fun _ => Pure.pure (Except.error err)) (SwitchEnds i) s := by
  refine .bind ((hparks s hpark).mono fun _ t _ ht => ?_)
  exact .pure (fun u hu _ => ⟨ht.outside hu, nofun⟩)

section

variable (i : Fin nd)

theorem startFeeds_ends (l : List (DmxdevFeed nf)) (s : Dmxdev nd nf nq) (hpark : Parked i s)
    (htype : (s.filter i).type = .pes) : device.Wp (startFeeds i l) (SwitchEnds i) s := by
  induction l generalizing s with
  | nil =>
    refine .pure (fun t hlater _ => ⟨hpark.outside hlater, fun _ => ?_⟩)
    have htype' := (hlater i).type.trans htype
    exact ⟨by simp [htype'], by simp [htype']⟩
  | cons e rest ih =>
    refine wp_quiet_bind (startFeed_within i e.pid e.addr) fun r t hlater => ?_
    cases r with
    | error err => exact (filterStop_halts i).parks.fails err (hpark.outside hlater)
    | ok _ => exact ih t (hpark.outside hlater) ((hlater i).type.trans htype)

theorem startSecfilter_ends (sec : Fin nf) (para : DmxSctFilterParams) (s : Dmxdev nd nf nq)
    (hholds : Holds i sec s) : device.Wp (startSecfilter i sec para) (SwitchEnds i) s := by
  refine wp_quiet_bind (demuxCall_within _) fun r t hlater => ?_
  have hholds' := hholds.outside hlater
  rcases r with err | q
  · refine .bind ((feedRestart_parks i i t hholds'.parked).mono fun _ u _ hu => ?_)
    exact (Parks.quiet (demuxCall_within _)).fails err hu
  apply Wp.bind
  have hwrite : (Prog.modify none (fun s =>
      (s.upd i (fun flt => { flt with filterSec := some q, todo := 0 })).withDemux
        (s.demux.updFilter q (writeSecfilter i para.filter))) : Code nd nf nq Unit).Within Quiet :=
    Prog.within_modify (fun s => quiet_none (SameCores.upd i (fun flt => { flt with
      filterSec := some q, todo := 0 }) (fun _ => ⟨rfl, rfl, rfl, rfl⟩) s))
  refine (wp_quiet hwrite (Outside.refl t)).mono ?_
  intro _ u _ hu
  refine wp_quiet_bind (demuxCall_within _) fun r v hv => ?_
  have hholds'' := (hholds'.outside hu).outside hv
  rcases r with err | _
  · exact Wp.pure (fun w hw _ => ⟨(hholds''.outside hw).parked, nofun⟩)
  apply Wp.bind
  have htimer : (filterUpd i dvbDmxdevFilterTimer : Code nd nf nq Unit).Within Quiet :=
    filterUpd_within i (fun _ => ⟨rfl, rfl, rfl, rfl⟩)
  refine (wp_quiet htimer (Outside.refl v)).mono ?_
  intro _ w _ hw
  refine Wp.pure (fun x hx _ => ?_)
  have hend := (hholds''.outside hw).outside hx
  exact ⟨hend.parked, fun _ => hend.startable⟩

theorem giveFeed_holds (sec : Fin nf) (s : Dmxdev nd nf nq) (hpark : Parked i s)
    (htype : (s.filter i).type = .sec) :
    device.Wp (filterUpd i (fun flt => { flt with feedSec := some sec }))
      (fun _ t => Holds i sec t) s := by
  apply wp_upd
  · intro t hlater
    exact hpark.outside hlater
  intro t u hlater hu
  refine .outside ⟨?_, ?_, ?_⟩ hu
  · simpa [Parked] using hpark.outside hlater
  · simpa using (hlater i).type.trans htype
  · simp

theorem startNewSection_ends (para : DmxSctFilterParams) (s : Dmxdev nd nf nq)
    (hpark : Parked i s) (htype : (s.filter i).type = .sec) :
    device.Wp (startNewSection i para) (SwitchEnds i) s := by
  refine wp_quiet_bind (demuxCall_within _) fun r t hlater => ?_
  rcases r with err | sec
  · exact .pure (fun u hu _ => ⟨(hpark.outside hlater).outside hu, nofun⟩)
  refine .bind ((giveFeed_holds i sec t (hpark.outside hlater) ((hlater i).type.trans htype)).mono
    fun _ u _ hholds => ?_)
  refine wp_quiet_bind (demuxCall_within _) fun r v hv => ?_
  have hholds' := hholds.outside hv
  cases r with
  | error err => exact (feedRestart_parks i i).fails err hholds'.parked
  | ok _ => exact startSecfilter_ends i sec para v hholds'

theorem feedStop_holds (sec : Fin nf) (s : Dmxdev nd nf nq) (hholds : Holds i sec s) :
    device.Wp (dvbDmxdevFeedStop i) (fun _ t => Holds i sec t) s := by
  apply Wp.bind
  apply wp_upd
  · exact fun _ _ => nofun
  intro t u hlater hu
  have hset : Holds i sec (t.upd i (fun flt => { flt with state := .set })) := by
    have hholds' := hholds.outside hlater
    constructor
    · simp [Parked]
    · simpa using hholds'.type
    · simpa using hholds'.feedSec
  refine (wp_quiet (stopByType_within i) (Outside.refl u)).mono ?_
  intro _ v _ hv
  exact (hset.outside hu).outside hv

theorem startSection_ends (s : Dmxdev nd nf nq) (hpark : Parked i s)
    (htype : (s.filter i).type = .sec) : device.Wp (startSection i) (SwitchEnds i) s := by
  refine wp_quiet_bind (theFilter_within i) fun flt t hlater => ?_
  apply Wp.bind
  apply wp_upd
  · intro u hu
    exact (hpark.outside hlater).outside hu
  intro u v hu hv
  have hpark' : Parked i (u.upd i clearSection) := by
    simpa [Parked, clearSection] using (hpark.outside hlater).outside hu
  have htype' : ((u.upd i clearSection).filter i).type = .sec := by
    simpa [clearSection] using (hu i).type.trans ((hlater i).type.trans htype)
  refine .bind ((wp_quiet (findFeed_within _ _) hv).mono fun found w _ hw => ?_)
  have hpark'' := hpark'.outside hw
  have htype'' := (hw i).type.trans htype'
  rcases found with _ | sec
  · exact startNewSection_ends i _ w hpark'' htype''
  refine .bind ((giveFeed_holds i sec w hpark'' htype'').mono fun _ x _ hholds => ?_)
  refine .bind ((feedStop_holds i sec x hholds).mono fun _ y _ hholds' => ?_)
  exact startSecfilter_ends i sec _ y hholds'

theorem startByType_ends (s : Dmxdev nd nf nq) (hpark : Parked i s) :
    device.Wp (startByType i) (SwitchEnds i) s := by
  refine wp_read_bind fun t u hlater _ hu => ?_
  have hpark' := (hpark.outside hlater).outside hu
  cases htype : (t.filter i).type with
  | sec => exact startSection_ends i u hpark' ((hu i).type.trans htype)
  | pes => exact startFeeds_ends i _ u hpark' ((hu i).type.trans htype)
  | none => exact .pure (fun v hv _ => ⟨hpark'.outside hv, nofun⟩)

end

def Runs {α : Type} (p : Code nd nf nq α) : Prop :=
  ∀ s, device.Wp p (fun _ _ => True) s

theorem Halts.runs (hhalts : Halts i p) :
    Runs p := fun s => (hhalts s).mono (fun _ _ _ _ => trivial)

theorem Runs.quiet (hin : p.Within Quiet) : Runs p :=
  fun s => (wp_quiet hin (.refl s)).mono (fun _ _ _ _ => trivial)

theorem Runs.bind (hfirst : Runs p) (hnext : ∀ a, Runs (next a)) : Runs (p >>= next) := fun s =>
  Wp.bind ((hfirst s).mono (fun a t _ _ => hnext a t))

theorem Runs.pure (a : α) : Runs (pure a : Code nd nf nq α) := fun _ => .pure (fun _ _ _ => trivial)

theorem startStopped_runs (i : Fin nd) (s : Dmxdev nd nf nq) (hpark : Parked i s) :
    device.Wp (startStopped i) (fun _ _ => True) s := by
  apply Wp.bind
  refine (startByType_ends i s hpark).mono ?_
  rintro r t - ⟨hpark', hstartable⟩
  rcases r with err | _
  · exact Runs.pure _ t
  apply Wp.bind
  apply Wp.modify
  intro u hlater htied
  refine ⟨fun _ => nofun, fun _ => ⟨?_, ⟨?_, ?_⟩, fun v _ _ => Runs.pure _ v⟩⟩
  · intro j hj hgo
    have hji : j ≠ i := by
      rintro rfl
      exact hj rfl
    rw [Dmxdev.upd_filter, update_of_ne hji] at hgo ⊢
    exact ⟨hgo, rfl⟩
  · intro j hgo
    rcases eq_or_ne j i with rfl | hji
    · simpa [(hlater j).type] using (hstartable rfl).1
    · rw [Dmxdev.upd_filter, update_of_ne hji] at hgo ⊢
      exact htied.typed j hgo
  · intro j hgo hsec
    rcases eq_or_ne j i with rfl | hji
    · have htype : (t.filter j).type = .sec := by simpa [(hlater j).type] using hsec
      simpa [(hlater j).feedSec] using (hstartable rfl).2 htype
    · rw [Dmxdev.upd_filter, update_of_ne hji] at hgo hsec ⊢
      exact htied.feed j hgo hsec

theorem filterStart_runs (i : Fin nd) : Runs (dvbDmxdevFilterStart i : Code nd nf nq Ret) := by
  apply Runs.bind (Runs.quiet (theFilter_within i))
  intro flt
  split_ifs
  · exact Runs.pure _
  intro s
  apply Wp.bind
  refine (stopRunning_halts i s).mono ?_
  intro _ t _ hpark
  refine wp_quiet_bind (provideBuffer_within i) fun ready u hlater => ?_
  cases ready with
  | true => exact startStopped_runs i u (hpark.outside hlater)
  | false => exact Runs.pure _ u

/-- Code that keeps the contract once filter `i` is stopped. -/
def RunsParked {α : Type} (i : Fin nd) (p : Code nd nf nq α) : Prop :=
  ∀ s, Parked i s → device.Wp p (fun _ _ => True) s

theorem Runs.parked (hruns : Runs p) : RunsParked i p := fun s _ => hruns s

open Runs (quiet parked)

theorem Parks.andThen (hfirst : Parks i p) (hnext : ∀ a, RunsParked i (next a)) :
    RunsParked i (p >>= next) := fun s hpark =>
  Wp.bind ((hfirst s hpark).mono (fun a t _ ht => hnext a t ht))

open Parks (andThen stateSet quiet)

theorem Halts.andThen (hfirst : Halts i p) (hnext : ∀ a, RunsParked i (next a)) :
    Runs (p >>= next) := fun s =>
  Wp.bind ((hfirst s).mono (fun a t _ ht => hnext a t ht))

theorem filterSet_runs (i : Fin nd) (params : DmxSctFilterParams) :
    Runs (dvbDmxdevFilterSet i params : Code nd nf nq Ret) := by
  refine Halts.andThen (filterStop_halts i) (fun _ => ?_)
  refine andThen (Parks.upd (fun _ => id)) (fun _ => ?_)
  refine andThen (stateSet i (by decide)) (fun _ => parked ?_)
  split_ifs
  · exact filterStart_runs i
  · exact Runs.pure _

theorem pesFilterSet_runs (i : Fin nd) (params : DmxPesFilterParams) :
    Runs (dvbDmxdevPesFilterSet i params : Code nd nf nq Ret) := by
  refine Halts.andThen (filterStop_halts i) (fun _ => ?_)
  refine andThen (filterReset_parks i) (fun _ => ?_)
  rcases lt_or_ge dmxPesOther params.pesType with hpes | hpes
  · rw [if_pos hpes]
    exact (Runs.pure _).parked
  rw [if_neg hpes.not_gt]
  refine andThen (Parks.upd (fun _ => id)) (fun _ => ?_)
  refine andThen (stateSet i (by decide)) (fun _ => parked ?_)
  refine .bind (.quiet (addPid_within i _)) (fun r => ?_)
  rcases r with err | _
  · exact .pure _
  split_ifs
  · exact filterStart_runs i
  · exact .pure _

theorem dmxCmd_runs (i : Fin nd) (cmd : DmxCmd) : Runs (dmxCmd i cmd : Code nd nf nq Ret) := by
  cases cmd with
  | start =>
    apply Runs.bind (quiet (theFilter_within i))
    intro flt
    split_ifs
    · exact Runs.pure _
    · exact filterStart_runs i
  | stop => exact (filterStop_halts i).runs
  | setFilter params => exact filterSet_runs i params
  | setPesFilter params => exact pesFilterSet_runs i params
  | setBufferSize size => exact quiet (setBufferSize_within i size)
  | addPid pid => exact quiet (addPid_within i pid)
  | removePid pid => exact quiet (removePid_within i pid)

theorem doIoctl_runs (i : Fin nd) (cmd : DmxCmd) :
    Runs (dvbDemuxDoIoctl i cmd : Code nd nf nq Ret) := by
  apply Runs.bind (quiet ask_within)
  intro device
  cases device.interrupted with
  | true => exact Runs.pure _
  | false =>
    apply Runs.bind (quiet ask_within)
    intro filter
    cases filter.interrupted with
    | true => exact Runs.pure _
    | false => exact dmxCmd_runs i cmd

theorem openFrom_runs (l : List (Fin nd)) :
    Runs (openFrom l : Code nd nf nq (Except Errno (Fin nd))) := by
  induction l with
  | nil => exact .pure _
  | cons i rest ih =>
    intro s
    refine wp_read_bind fun t u _ _ hu => ?_
    split_ifs with hfree
    · have hpark : Parked i t := by simp [Parked, hfree]
      have htake : RunsParked i (do
          filterUpd i (fun flt => { flt with
            buffer := dvbRingbufferInit none 8192, type := .none })
          dvbDmxdevFilterStateSet i .allocated
          filterUpd i delTimer
          pure (.ok i) : Code nd nf nq (Except Errno (Fin nd))) := by
        refine andThen (Parks.upd (fun _ => id)) (fun _ => ?_)
        refine andThen (stateSet i (by decide)) (fun _ => parked ?_)
        exact .bind (.quiet (filterUpd_within i (fun _ => ⟨rfl, rfl, rfl, rfl⟩))) (fun _ => .pure _)
      exact htake u (hpark.outside hu)
    · exact ih u

theorem open_runs : Runs (dvbDemuxOpen : Code nd nf nq (Except Errno (Fin nd))) := by
  apply Runs.bind (quiet ask_within)
  intro a
  cases a.interrupted with
  | true => exact Runs.pure _
  | false => exact openFrom_runs _

theorem filterFree_runs (i : Fin nd) : Runs (dvbDmxdevFilterFree i : Code nd nf nq Ret) := by
  refine Halts.andThen (filterStop_halts i) (fun _ => ?_)
  refine andThen (filterReset_parks i) (fun _ => ?_)
  refine andThen (Parks.upd (fun _ => id)) (fun _ => ?_)
  exact andThen (stateSet i (by decide)) (fun _ => (Runs.pure _).parked)

theorem handleCode_runs (call : HandleCall nd) : Runs (handleCode call : Code nd nf nq Unit) := by
  cases call with
  | openDemux => exact .bind open_runs (fun _ => .pure _)
  | ioctl i cmd => exact .bind (doIoctl_runs i cmd) (fun _ => .pure _)
  | close i => exact .bind (filterFree_runs i) (fun _ => .pure _)

/-! Callbacks and timers. -/

theorem Outside.upd (hchange : OutsideAt (s.filter i) (change (s.filter i))) :
    Outside s (s.upd i change) := by
  intro j
  rcases eq_or_ne j i with rfl | hj
  · simpa using hchange
  · simpa [update_of_ne hj] using OutsideAt.refl (s.filter j)

theorem sectionCallback_outside (buffer1 buffer2 : Bytes) (flt : DmxdevFilter nf nq) :
    OutsideAt flt (dvbDmxdevSectionCallback buffer1 buffer2 flt) := by
  unfold dvbDmxdevSectionCallback
  rcases eq_or_ne flt.state .go with hgo | hgo
  · rw [if_neg (by simp [hgo])]
    refine ⟨rfl, rfl, rfl, fun _ => hgo, fun _ => ?_⟩
    dsimp only
    split_ifs
    · decide
    · rw [hgo]
  · rw [if_pos hgo]
    exact .refl flt

theorem dmxdevEvent_outside (s : Dmxdev nd nf nq) (event : DmxdevEvent nd) :
    Outside s (dmxdevEvent s event) := by
  cases event with
  | callback i =>
    rw [dmxdevEvent]
    split_ifs
    · exact .upd ⟨rfl, rfl, rfl, id, id⟩
    · exact .refl s
  | callbackLocked i buffer1 buffer2 =>
    rw [dmxdevEvent]
    split_ifs
    · have hcall := sectionCallback_outside buffer1 buffer2 (s.filter i)
      exact .upd { hcall with }
    · exact .refl s
  | timeout i =>
    rw [dmxdevEvent]
    split_ifs
    · exact .upd ⟨rfl, rfl, rfl, id, id⟩
    · exact .refl s
  | timeoutLocked i =>
    rw [dmxdevEvent]
    split_ifs
    · exact .upd ⟨rfl, rfl, rfl, nofun, fun _ => by simp [DmxdevState.toNat]⟩
    · exact .refl s

end TbsMedia.DvbCore
