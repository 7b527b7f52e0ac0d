import TbsMedia.DvbCore.Dmxdev

/-!
What the accesses of a request leave alone. Most of the code of `dmxdev.c` touches
neither the state nor the type of any filter, nor the feed and the parameters of a
section filter; what does is named one by one in the lemmas here.
-/

namespace TbsMedia.DvbCore

open Lib Prog

variable {nd nf nq : Nat}

structure SameCore (flt flt' : DmxdevFilter nf nq) : Prop where
  type : flt'.type = flt.type
  state : flt'.state = flt.state
  feedSec : flt'.feedSec = flt.feedSec
  paramsSec : flt'.paramsSec = flt.paramsSec

theorem SameCore.refl (flt : DmxdevFilter nf nq) : SameCore flt flt := ⟨rfl, rfl, rfl, rfl⟩

theorem SameCore.trans {flt1 flt2 flt3 : DmxdevFilter nf nq} (hfirst : SameCore flt1 flt2)
    (hnext : SameCore flt2 flt3) : SameCore flt1 flt3 where
  type := hnext.type.trans hfirst.type
  state := hnext.state.trans hfirst.state
  feedSec := hnext.feedSec.trans hfirst.feedSec
  paramsSec := hnext.paramsSec.trans hfirst.paramsSec

def SameCores (s t : Dmxdev nd nf nq) : Prop :=
  ∀ j, SameCore (s.filter j) (t.filter j)

variable {s t : Dmxdev nd nf nq}

theorem SameCores.of_filter (hflt : t.filter = s.filter) : SameCores s t := by
  intro j
  rw [hflt]
  exact .refl _

variable (i : Fin nd)

theorem SameCores.upd (change : DmxdevFilter nf nq → DmxdevFilter nf nq)
    (hchange : ∀ flt, SameCore flt (change flt)) (s : Dmxdev nd nf nq) :
    SameCores s (s.upd i change) := by
  intro j
  rcases eq_or_ne j i with rfl | hj
  · simpa using hchange (s.filter j)
  · rw [Dmxdev.upd_filter, Function.update_of_ne hj]
    exact .refl _

/-- The access is not the one that sets a filter going again, and all cores stay. -/
def Quiet (tag : Option (Mark nd)) (s t : Dmxdev nd nf nq) : Prop :=
  (∀ j, tag ≠ some (.feedStart j)) ∧ SameCores s t

theorem quiet_none (hcores : SameCores s t) : Quiet none s t := ⟨fun _ => nofun, hcores⟩

theorem quiet_same (hflt : t.filter = s.filter) : Quiet none s t :=
  quiet_none (.of_filter hflt)

theorem theFilter_within : (theFilter i : Code nd nf nq _).Within Quiet :=
  within_read (fun _ => quiet_same rfl)

theorem ask_within : (ask : Code nd nf nq Answer).Within Quiet := by
  apply within_call
  · intro s out hout
    cases hout
    exact quiet_same rfl
  · intro s _
    exact quiet_same rfl

theorem filterUpd_within {change : DmxdevFilter nf nq → DmxdevFilter nf nq}
    (hchange : ∀ flt, SameCore flt (change flt)) : (filterUpd i change).Within Quiet :=
  within_modify (fun s => quiet_none (.upd i change hchange s))

theorem demuxCall_within {α : Type} (f : Answer → DvbDemux nf nq → α × DvbDemux nf nq) :
    (demuxCall f : Code nd nf nq α).Within Quiet := by
  apply within_call
  · intro s out hout
    cases hout
    exact quiet_same rfl
  · intro s _
    exact quiet_same rfl

theorem demuxRelease_within {α : Type} (f : DvbDemux nf nq → Option (α × DvbDemux nf nq)) :
    (demuxRelease f : Code nd nf nq α).Within Quiet := by
  apply within_call
  · intro s out hout
    obtain ⟨out', -, rfl⟩ := Option.map_eq_some_iff.mp hout
    exact quiet_same rfl
  · intro s _
    exact quiet_same rfl

theorem stopFeeds_within (l : List (DmxdevFeed nf)) :
    (stopFeeds l : Code nd nf nq Unit).Within Quiet := by
  induction l with
  | nil => trivial
  | cons e rest ih =>
    unfold stopFeeds
    cases e.ts with
    | none => trivial
    | some ts => exact within_bind (demuxCall_within _) (fun _ => ih)

theorem stopByType_within : (stopByType i : Code nd nf nq Ret).Within Quiet := by
  apply within_bind (theFilter_within i)
  intro flt
  cases flt.type with
  | sec =>
    refine within_bind (filterUpd_within i (fun _ => ⟨rfl, rfl, rfl, rfl⟩)) ?_
    intro _
    cases flt.feedSec with
    | none => trivial
    | some sec => exact within_bind (demuxCall_within _) (fun _ => trivial)
  | pes => exact within_bind (stopFeeds_within _) (fun _ => trivial)
  | none => trivial

theorem releaseFeeds_within (l : List (DmxdevFeed nf)) :
    (releaseFeeds i l : Code nd nf nq Unit).Within Quiet := by
  induction l with
  | nil => trivial
  | cons e rest ih =>
    unfold releaseFeeds
    rcases e.ts with _ | ts
    · trivial
    apply within_bind (demuxRelease_within _)
    intro _
    refine within_bind (filterUpd_within i (fun _ => ⟨rfl, rfl, rfl, rfl⟩)) ?_
    intro _
    exact ih

theorem releaseSecfilter_within (sec : Fin nf) (q : Option (Fin nq)) :
    (releaseSecfilter sec q : Code nd nf nq Unit).Within Quiet := by
  cases q with
  | none => trivial
  | some q => exact within_bind (demuxRelease_within _) (fun _ => trivial)

theorem flushBuffer_within : (filterUpd i flushBuffer : Code nd nf nq Unit).Within Quiet :=
  filterUpd_within i (fun _ => ⟨rfl, rfl, rfl, rfl⟩)

theorem provideBuffer_within : (provideBuffer i : Code nd nf nq Bool).Within Quiet := by
  apply within_bind (theFilter_within i)
  intro flt
  cases flt.buffer.data with
  | some _ => exact within_bind (flushBuffer_within i) (fun _ => trivial)
  | none =>
    apply within_bind ask_within
    intro a
    cases a.noMemory with
    | true => trivial
    | false =>
      exact within_bind (filterUpd_within i (fun _ => ⟨rfl, rfl, rfl, rfl⟩)) (fun _ => trivial)

variable (pid : Nat)

theorem readActive_within (j : Fin nd) :
    (Prog.read (fun s => s.active pid j) : Code nd nf nq Bool).Within Quiet :=
  within_read (fun _ => quiet_same rfl)

theorem findFeed_within (l : List (Fin nd)) :
    (findFeed pid l : Code nd nf nq (Option (Fin nf))).Within Quiet := by
  induction l with
  | nil => trivial
  | cons j rest ih =>
    apply within_bind (readActive_within pid j)
    intro found
    cases found with
    | true => exact within_read (fun _ => quiet_same rfl)
    | false => exact ih

theorem giveBack_within (ts : Fin nf) (err : Errno) :
    (giveBack ts err : Code nd nf nq Ret).Within Quiet :=
  within_bind (demuxRelease_within _) (fun _ => trivial)

theorem setAndStart_within (ts : Fin nf) (pid tsType pesType : Nat) :
    (setAndStart ts pid tsType pesType : Code nd nf nq Ret).Within Quiet := by
  apply within_bind (demuxCall_within _)
  intro r
  rcases r with err | _
  · exact giveBack_within ts err
  apply within_bind (demuxCall_within _)
  intro r
  cases r with
  | error err => exact giveBack_within ts err
  | ok _ => trivial

theorem SameCores.tsAllocated (addr : Nat) (out : Ret × Option (Fin nf) × DvbDemux nf nq)
    (s : Dmxdev nd nf nq) : SameCores s (tsAllocated i addr out s) := by
  obtain ⟨r, ts, d⟩ := out
  cases ts with
  | none => exact .of_filter rfl
  | some ts => exact .upd i (setTs addr (some ts)) (fun _ => ⟨rfl, rfl, rfl, rfl⟩) s

theorem startFeed_within (addr : Nat) :
    (dvbDmxdevStartFeed i pid addr : Code nd nf nq Ret).Within Quiet := by
  apply within_bind (theFilter_within i)
  intro flt
  refine within_bind (filterUpd_within i (fun _ => ⟨rfl, rfl, rfl, rfl⟩)) ?_
  intro _
  apply within_bind
  · apply within_call
    · intro s out hout
      cases hout
      exact ⟨fun _ => nofun, .tsAllocated i addr _ s⟩
    · intro s _
      exact ⟨fun _ => nofun, .of_filter rfl⟩
  rintro ⟨r, ts⟩
  rcases r with err | _
  · trivial
  rcases ts with _ | ts
  · trivial
  refine within_bind ?_ (fun _ => setAndStart_within ts _ _ _)
  exact within_modify (fun _ => quiet_same rfl)

theorem addPid_within : (dvbDmxdevAddPid i pid : Code nd nf nq Ret).Within Quiet := by
  apply within_bind (theFilter_within i)
  intro flt
  split_ifs
  · trivial
  · trivial
  apply within_bind ask_within
  intro a
  cases a.noMemory with
  | true => trivial
  | false =>
    apply within_bind
    · apply within_call
      · intro s out hout
        cases hout
        exact quiet_none (.upd i (fun flt => { flt with
          feedTs := { pid := pid, ts := none, addr := s.fresh } :: flt.feedTs })
          (fun _ => ⟨rfl, rfl, rfl, rfl⟩) s)
      · intro s _
        exact quiet_same rfl
    intro addr
    apply within_bind (theFilter_within i)
    intro flt'
    split_ifs
    · exact startFeed_within i pid addr
    · trivial

theorem removeFeeds_within (l : List (DmxdevFeed nf)) :
    (removeFeeds i pid l : Code nd nf nq Unit).Within Quiet := by
  induction l with
  | nil => trivial
  | cons e rest ih =>
    unfold removeFeeds
    rcases e.ts with _ | ts
    · exact ih
    split_ifs
    · refine within_bind (demuxCall_within _) (fun _ => ?_)
      refine within_bind (demuxRelease_within _) (fun _ => ?_)
      exact within_bind (filterUpd_within i (fun _ => ⟨rfl, rfl, rfl, rfl⟩)) (fun _ => ih)
    · exact ih

theorem removePid_within : (dvbDmxdevRemovePid i pid : Code nd nf nq Ret).Within Quiet := by
  apply within_bind (theFilter_within i)
  intro flt
  split_ifs
  · trivial
  · exact within_bind (removeFeeds_within i pid _) (fun _ => trivial)

theorem setBufferSize_within (size : Nat) :
    (dvbDmxdevSetBufferSize i size : Code nd nf nq Ret).Within Quiet := by
  apply within_bind (theFilter_within i)
  intro flt
  split_ifs
  · trivial
  · trivial
  · trivial
  apply within_bind ask_within
  intro a
  cases a.noMemory with
  | true => trivial
  | false =>
    exact within_bind (filterUpd_within i (fun _ => ⟨rfl, rfl, rfl, rfl⟩)) (fun _ => trivial)

end TbsMedia.DvbCore
