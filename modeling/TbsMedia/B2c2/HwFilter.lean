import Mathlib
import TbsMedia.Lib.Run

/-!
The PID filters of a FlexCop (`flexcop-hw-filter.c`). What the device transfers is decided from
the feed that changes and two counters; the active feeds stand beside the device.
-/

namespace TbsMedia.B2c2

open Lib List Function

/-- What does not change of `struct flexcop_device`. -/
structure Card where
  pidFiltering : Bool
  has32HwPidFilter : Bool

def Card.maxPidFilter (card : Card) : Nat := 6 + if card.has32HwPidFilter then 32 else 0

/-- The rest of it, and the registers behind it: the PIDs of the filters that are enabled, and
whether the group filter is on with an empty mask, which passes everything. -/
structure Device where
  feedcount : Int
  extraFeedcount : Int
  fulltsStreamingState : Bool
  filter : Nat → Option Nat
  groupFilter : Bool
  rcvData : Bool

structure Feed where
  index : Nat
  pid : Nat
  deriving DecidableEq

variable (card : Card)

/-- `flexcop_pid_control`. -/
def pidControl (filter : Nat → Option Nat) (index pid : Nat) (onoff : Bool) : Nat → Option Nat :=
  if pid = 0x2000 then filter
  else if index < 6 ∨ card.has32HwPidFilter ∧ index < 38 then
    update filter index (if onoff then some pid else none)
  else filter

/-- `flexcop_toggle_fullts_streaming`. -/
def toggleFulltsStreaming (fc : Device) (onoff : Bool) : Device :=
  if fc.fulltsStreamingState ≠ onoff then
    { fc with groupFilter := onoff, fulltsStreamingState := onoff }
  else fc

/-- `flexcop_hw_filter_init`. -/
def hwFilterInit (fc : Device) : Device :=
  { fc with
    filter := (range card.maxPidFilter).foldl (pidControl card · · 0x1fff false) fc.filter
    groupFilter := false }

/-- The part of `flexcop_pid_feed_control` that switches the transfer of the whole stream. -/
def controlFullts (fc : Device) (feed : Feed) (onoff edge : Bool) : Device :=
  if card.pidFiltering then
    toggleFulltsStreaming
      { fc with filter := pidControl card fc.filter feed.index feed.pid onoff }
      (if 0 < fc.extraFeedcount then true else if feed.pid = 0x2000 then onoff else false)
  else if edge then toggleFulltsStreaming fc onoff else fc

/-- `flexcop_pid_feed_control`. -/
def pidFeedControl (fc : Device) (feed : Feed) (onoff : Bool) : Device :=
  let change : Int := if onoff then 1 else -1
  let fc := { fc with
    feedcount := fc.feedcount + change
    extraFeedcount := fc.extraFeedcount + if card.maxPidFilter ≤ feed.index then change else 0 }
  let edge : Bool := fc.feedcount = if onoff then 1 else 0
  let fc := controlFullts card fc feed onoff edge
  if edge then
    let fc := { fc with rcvData := onoff }
    if onoff then fc else hwFilterInit card fc
  else fc

structure World where
  fc : Device
  active : List Feed

/-- The demux starts feeds with other indices than the active ones, for PIDs of 13 bits or
0x2000, and stops active ones. -/
def feedStep (w : World) : Feed × Bool → Option World
  | (feed, true) =>
    if feed.pid ≤ 0x2000 ∧ ∀ f ∈ w.active, feed.index ≠ f.index then
      some ⟨pidFeedControl card w.fc feed true, feed :: w.active⟩
    else none
  | (feed, false) =>
    if feed ∈ w.active then some ⟨pidFeedControl card w.fc feed false, w.active.erase feed⟩
    else none

structure PassesNeeded (w : World) : Prop where
  reception : w.fc.rcvData = true ↔ w.active ≠ []
  fullTs : w.fc.groupFilter = true ↔ w.active ≠ [] ∧ (card.pidFiltering = false ∨
    ∃ f ∈ w.active, card.maxPidFilter ≤ f.index ∨ f.pid = 0x2000)
  filters : card.pidFiltering = true → ∀ f ∈ w.active, f.index < card.maxPidFilter →
    f.pid ≠ 0x2000 → w.fc.filter f.index = some f.pid

/-- With PID filtering, after a call a surplus feed is active, the call has started a feed of
the whole stream, or no such feed is active. -/
def SwitchRight (w : World) (call : Feed × Bool) : Prop :=
  card.pidFiltering = true → ∀ next ∈ feedStep card w call,
    (∃ f ∈ next.active, card.maxPidFilter ≤ f.index) ∨ call.1.pid = 0x2000 ∧ call.2 = true ∨
      ∀ f ∈ next.active, f.pid ≠ 0x2000

structure Inv (w : World) : Prop extends PassesNeeded card w where
  feedcount : w.fc.feedcount = w.active.length
  extra : w.fc.extraFeedcount = w.active.countP (card.maxPidFilter ≤ ·.index)
  apart : (w.active.map Feed.index).Nodup
  switch : w.fc.groupFilter = w.fc.fulltsStreamingState

variable {card}

theorem pidControl_self {filter : Nat → Option Nat} {feed : Feed}
    (hindex : feed.index < card.maxPidFilter) (hpid : feed.pid ≠ 0x2000) :
    pidControl card filter feed.index feed.pid true feed.index = some feed.pid := by
  have hplace : feed.index < 6 ∨ card.has32HwPidFilter ∧ feed.index < 38 := by
    unfold Card.maxPidFilter at hindex
    split_ifs at hindex with hmore
    · exact .inr ⟨hmore, hindex⟩
    · exact .inl hindex
  rw [pidControl, if_neg hpid, if_pos hplace, update_self, if_pos rfl]

theorem pidControl_other {filter : Nat → Option Nat} {index pid i : Nat} {onoff : Bool}
    (hi : i ≠ index) : pidControl card filter index pid onoff i = filter i := by
  unfold pidControl
  split_ifs <;> simp [hi]

theorem toggle_groupFilter {fc : Device} (hswitch : fc.groupFilter = fc.fulltsStreamingState)
    (onoff : Bool) : toggleFulltsStreaming fc onoff =
      { fc with groupFilter := onoff, fulltsStreamingState := onoff } := by
  unfold toggleFulltsStreaming
  split_ifs with hsame
  · rfl
  rw [← not_not.mp hsame, ← hswitch]
  nth_rewrite 1 [hswitch]
  rfl

variable {w : World} {feed : Feed} {onoff : Bool} {active : List Feed}

/-- The active feeds after a call. -/
structure Changes (card : Card) (w : World) (feed : Feed) (onoff : Bool) (active : List Feed) :
    Prop where
  length : w.active.length + (if onoff then 1 else -1) = (active.length : Int)
  extra : w.active.countP (card.maxPidFilter ≤ ·.index) +
      (if card.maxPidFilter ≤ feed.index then if onoff then 1 else -1 else 0) =
    (active.countP (card.maxPidFilter ≤ ·.index) : Int)
  apart : (active.map Feed.index).Nodup
  mem : ∀ f, f ∈ active ↔ f = feed ∧ onoff = true ∨ f ∈ w.active ∧ f.index ≠ feed.index

/-- The device after a call. -/
structure Controlled (card : Card) (w : World) (feed : Feed) (onoff : Bool)
    (active : List Feed) (fc : Device) : Prop where
  feedcount : fc.feedcount = active.length
  extra : fc.extraFeedcount = active.countP (card.maxPidFilter ≤ ·.index)
  switch : fc.groupFilter = fc.fulltsStreamingState
  reception : fc.rcvData = true ↔ active ≠ []
  fullTs : fc.groupFilter = true ↔ active ≠ [] ∧ (card.pidFiltering = false ∨
    (∃ f ∈ active, card.maxPidFilter ≤ f.index) ∨ feed.pid = 0x2000 ∧ onoff = true)
  filter : card.pidFiltering = true → active ≠ [] →
    fc.filter = pidControl card w.fc.filter feed.index feed.pid onoff

section

variable (hinv : Inv card w) (h : Changes card w feed onoff active)
include hinv h

theorem pidFeedControl_controlled :
    Controlled card w feed onoff active (pidFeedControl card w.fc feed onoff) := by
  obtain ⟨hlen, hextra, -, -⟩ := h
  obtain ⟨⟨hreception, hfull, -⟩, hcount, hsurplus, -, hswitch⟩ := hinv
  obtain ⟨⟨feedcount, extra, state, filter, groupFilter, rcvData⟩, before⟩ := w
  dsimp only at *
  subst hcount hsurplus hswitch
  unfold pidFeedControl controlFullts
  simp only [hlen, hextra]
  rw [toggle_groupFilter rfl, toggle_groupFilter rfl]
  by_cases hedge : (active.length : Int) = if onoff then 1 else 0
  · rw [decide_eq_true hedge]
    cases onoff
    · obtain rfl : active = [] := by simpa using hedge
      cases hon : card.pidFiltering <;> constructor <;> simp [hwFilterInit]
    have hne : active ≠ [] := by
      rintro rfl
      cases hedge
    cases hon : card.pidFiltering <;> constructor <;> simp [hne, hon]
  rw [decide_eq_false hedge]
  obtain ⟨hpre, hne⟩ : before ≠ [] ∧ active ≠ [] := by
    constructor <;> rintro rfl <;> cases onoff <;> simp at * <;> omega
  have hreceives := hreception.mpr hpre
  have hfullTs : card.pidFiltering = false → groupFilter = true :=
    fun hoff => hfull.mpr ⟨hpre, .inl hoff⟩
  cases hon : card.pidFiltering <;> constructor <;> simp [hne, hon, hreceives, hfullTs]

variable {fc : Device} (hc : Controlled card w feed onoff active fc)
include hc

theorem Controlled.filters (hon : card.pidFiltering = true) : ∀ f ∈ active,
    f.index < card.maxPidFilter → f.pid ≠ 0x2000 → fc.filter f.index = some f.pid := by
  intro f hf hindex hpid
  rw [hc.filter hon (ne_nil_of_mem hf)]
  rcases (h.mem f).mp hf with ⟨rfl, rfl⟩ | ⟨hold, hoth⟩
  · exact pidControl_self hindex hpid
  · rw [pidControl_other hoth]
    exact hinv.filters hon f hold hindex hpid

theorem Controlled.passes_iff : PassesNeeded card ⟨fc, active⟩ ↔ (card.pidFiltering = true →
    (∃ f ∈ active, card.maxPidFilter ≤ f.index) ∨ feed.pid = 0x2000 ∧ onoff = true ∨
      ∀ f ∈ active, f.pid ≠ 0x2000) := by
  have hstart : onoff = true → feed ∈ active := fun hon => (h.mem feed).mpr (.inl ⟨rfl, hon⟩)
  have hfull := hc.fullTs
  constructor
  · intro hpasses hon
    have hneeded := hpasses.fullTs
    grind
  · intro hright
    refine ⟨hc.reception, ?_, hc.filters hinv h⟩
    grind

end

theorem feedStep_changes (hinv : Inv card w) {next : World}
    (hnext : feedStep card w (feed, onoff) = some next) :
    Changes card w feed onoff next.active ∧ next.fc = pidFeedControl card w.fc feed onoff := by
  cases onoff with
  | true =>
    obtain ⟨⟨-, hoth⟩, ⟨⟩⟩ := Option.ite_none_right_eq_some.mp hnext
    refine ⟨⟨by simp, ?_, ?_, fun f => ?_⟩, rfl⟩
    · by_cases hmax : card.maxPidFilter ≤ feed.index <;> simp [hmax]
    · exact nodup_cons.mpr ⟨by simpa [eq_comm] using hoth, hinv.apart⟩
    · have := hoth f
      grind
  | false =>
    obtain ⟨hfeed, ⟨⟩⟩ := Option.ite_none_right_eq_some.mp hnext
    have hperm := perm_cons_erase hfeed
    obtain ⟨hoth, hapart⟩ := nodup_cons.mp ((hperm.map Feed.index).nodup_iff.mp hinv.apart)
    refine ⟨⟨?_, ?_, hapart, fun f => ?_⟩, rfl⟩
    · simp [hperm.length_eq]
    · by_cases hmax : card.maxPidFilter ≤ feed.index <;> simp [hperm.countP_eq, hmax]
    have hmem := hperm.mem_iff (a := f)
    have hindex : f ∈ w.active.erase feed → f.index ≠ feed.index :=
      fun hf heq => hoth (heq ▸ mem_map_of_mem hf)
    grind

def fresh : World := ⟨⟨0, 0, false, fun _ => none, false, false⟩, []⟩

/-- What the feeds need is passed all through a run if and only if the switch is right after
every call. -/
theorem needed_passed_iff (card : Card) (calls : List (Feed × Bool)) :
    Always (feedStep card) (PassesNeeded card) fresh calls ↔
      Along (feedStep card) (SwitchRight card) fresh calls := by
  have hstep (w : World) (call : Feed × Bool) (next : World) (hinv : Inv card w)
      (hnext : feedStep card w call = some next) : (PassesNeeded card next → Inv card next) ∧
        (PassesNeeded card next ↔ SwitchRight card w call) := by
    obtain ⟨fc, active⟩ := next
    obtain ⟨hchanges, rfl⟩ := feedStep_changes hinv hnext
    have hc := pidFeedControl_controlled hinv hchanges
    refine ⟨fun hpasses => ⟨hpasses, hc.feedcount, hc.extra, hchanges.apart, hc.switch⟩, ?_⟩
    rw [hc.passes_iff hinv hchanges]
    simp [SwitchRight, hnext]
  apply always_iff_along _ _ _ (Inv card) (fun _ hinv => hinv.toPassesNeeded)
  · intro w call next hinv hnext hright
    obtain ⟨hkept, hiff⟩ := hstep w call next hinv hnext
    exact hkept (hiff.mpr hright)
  · intro w call next hinv hnext
    exact mt (hstep w call next hinv hnext).2.mp
  · exact ⟨⟨by simp [fresh], by simp [fresh], nofun⟩, rfl, rfl, nodup_nil, rfl⟩

/-- A feed of the whole stream is started, and then one of a single PID. -/
theorem single_pid_stops_stream : ¬ Always (feedStep ⟨true, false⟩)
    (PassesNeeded ⟨true, false⟩) fresh [(⟨0, 0x2000⟩, true), (⟨1, 0x100⟩, true)] := by
  refine not_always_of_run (fun w => w.fc.groupFilter = false ∧ ⟨0, 0x2000⟩ ∈ w.active)
    (by decide) ?_
  rintro w ⟨hoff, hmem⟩ hpasses
  have hon := hpasses.fullTs.mpr ⟨ne_nil_of_mem hmem, .inr ⟨_, hmem, .inr rfl⟩⟩
  cases hoff.symm.trans hon

end TbsMedia.B2c2
