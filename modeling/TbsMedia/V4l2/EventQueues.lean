import TbsMedia.Lib.Run
import TbsMedia.Lib.ThreadedRings
import TbsMedia.V4l2.Event

/-!
The list of available events of a file handle and the rings of its
subscriptions agree in every run in which nothing is unsubscribed while events
of it are available. An unsubscription frees the ring and leaves its events on
the list.
-/

namespace TbsMedia.V4l2

open Lib Function List Fh Nat

def Fh.sequenceOf (fh : Fh) (x : Nat × Nat) : Nat := ((fh.sev x.1).events x.2).sequence.toNat

structure QueuesConsistent (fh : Fh) : Prop where
  owned : ∀ x ∈ fh.available, x.1 ∈ fh.subscribed
  counted : fh.navailable = fh.available.length
  summed : fh.navailable = (fh.subscribed.map (fun p => (fh.sev p).inUse)).sum
  fits : ∀ p ∈ fh.subscribed, (fh.sev p).inUse ≤ (fh.sev p).elems
  rings : ∀ p ∈ fh.subscribed,
    InRingOrder fh.available p (fh.sev p).elems (fh.sev p).first (fh.sev p).inUse
  increasing : fh.available.Pairwise (fun x y => fh.sequenceOf x < fh.sequenceOf y)

/-- A ring that `kzalloc` can have given, with its first event in it. -/
structure RingOk (sev : SubscribedEvent) : Prop where
  first_lt : sev.first < sev.elems
  elems_le : sev.elems ≤ 2 ^ 25
  inUse_le : sev.inUse ≤ sev.elems

structure QueueInv (fh : Fh) : Prop where
  nodup : fh.subscribed.Nodup
  owned : ∀ x ∈ fh.available, x.1 ∈ fh.subscribed
  counted : fh.navailable = fh.available.length
  ringOk : ∀ p ∈ fh.subscribed, RingOk (fh.sev p)
  rings : ∀ p ∈ fh.subscribed,
    InRingOrder fh.available p (fh.sev p).elems (fh.sev p).first (fh.sev p).inUse
  increasing : fh.available.Pairwise (fun x y => fh.sequenceOf x < fh.sequenceOf y)
  latest : ∀ x ∈ fh.available, fh.sequenceOf x ≤ fh.sequence.toNat

variable {fh : Fh}

theorem QueueInv.consistent (hinv : QueueInv fh) : QueuesConsistent fh := by
  refine ⟨hinv.owned, hinv.counted, ?_, fun p hp => (hinv.ringOk p hp).inUse_le, hinv.rings,
    hinv.increasing⟩
  have hsum : (fh.subscribed.map (fun p => (ofOwner fh.available p).length)) =
      fh.subscribed.map (fun p => (fh.sev p).inUse) := by
    apply map_congr_left
    intro p hp
    exact (hinv.rings p hp).length
  rw [hinv.counted, ← hsum, sum_length_ofOwner hinv.nodup hinv.owned]

variable {sev : SubscribedEvent} {fuel : Nat} {input : EventInput}

theorem sevPos_eq (hok : RingOk sev) {idx : Nat} (hidx : idx ≤ sev.elems) :
    sevPos sev idx = (sev.first + idx) % sev.elems := by
  have hfirst := hok.first_lt
  have helems := hok.elems_le
  have hsmall : (idx + sev.first) % 2 ^ 32 = idx + sev.first := mod_eq_of_lt (by omega)
  rw [Mem.add_mod_of_le hfirst hidx, sevPos, hsmall, add_comm idx]
  split_ifs <;> omega

variable {type id : UInt32} {p : Nat}

theorem subscribed_mem (hfound : v4l2EventSubscribed fh type id = some p) : p ∈ fh.subscribed :=
  List.mem_of_find?_eq_some hfound

/-- The oldest event of a ring goes off the list; its ring goes on by one and
keeps the sequence numbers of the events still on the list. -/
theorem QueueInv.drop (hinv : QueueInv fh) (hp : p ∈ fh.subscribed) (hused : 0 < (fh.sev p).inUse)
    (helems : sev.elems = (fh.sev p).elems) (hfirst : sev.first = sevPos (fh.sev p) 1)
    (hinUse : sev.inUse = (fh.sev p).inUse - 1)
    (hsequence : ∀ slot, (sev.events slot).sequence = ((fh.sev p).events slot).sequence) :
    QueueInv { fh.updSev p sev with
      available := fh.available.erase (p, (fh.sev p).first), navailable := fh.navailable - 1 } := by
  have hok := hinv.ringOk p hp
  have hfirst_lt := hok.first_lt
  have hinUse_le := hok.inUse_le
  have hring := hinv.rings p hp
  obtain ⟨n, hn⟩ := Nat.exists_eq_add_of_le' hused
  rw [hn] at hring hinUse
  have hhead := Nat.mod_eq_of_lt hfirst_lt
  have hmem := hring.first_mem
  rw [hhead] at hmem
  have hseq (x : Nat × Nat) : sequenceOf { fh.updSev p sev with
      available := fh.available.erase (p, (fh.sev p).first),
      navailable := fh.navailable - 1 } x = fh.sequenceOf x := by
    by_cases hx : x.1 = p
    · simp [sequenceOf, updSev, hx, hsequence]
    · simp [sequenceOf, updSev, hx]
  have hsub : (fh.available.erase (p, (fh.sev p).first)).Sublist fh.available := erase_sublist
  have hpos := sevPos_eq hok (show 1 ≤ (fh.sev p).elems by omega)
  refine ⟨hinv.nodup, ?_, ?_, ?_, ?_, ?_, ?_⟩
  · intro x hx
    exact hinv.owned x (hsub.subset hx)
  · simp [hinv.counted, length_erase_of_mem hmem]
  · intro q hq
    rcases eq_or_ne q p with rfl | hqp
    · simp only [updSev, update_self]
      refine ⟨?_, helems ▸ hok.elems_le, by omega⟩
      rw [hfirst, helems, hpos]
      exact Nat.mod_lt _ (by omega)
    · simp only [updSev, update_of_ne hqp]
      exact hinv.ringOk q hq
  · intro q hq
    rcases eq_or_ne q p with rfl | hqp
    · simp only [updSev, update_self]
      have hnext := hring.drop
      rw [hhead] at hnext
      rw [helems, hfirst, hinUse, hpos, InRingOrder, ringCells_mod]
      exact hnext
    · simp only [updSev, update_of_ne hqp]
      exact (hinv.rings q hq).drop_other (fun h => hqp h.symm) _
  · simp only [hseq]
    exact hinv.increasing.sublist hsub
  · intro x hx
    rw [hseq]
    exact hinv.latest x (hsub.subset hx)

theorem dropOldest_fields (sev : SubscribedEvent) (ev : Event) :
    (sev.dropOldest ev).1.elems = sev.elems ∧ (sev.dropOldest ev).1.first = sevPos sev 1 ∧
      (sev.dropOldest ev).1.inUse = sev.inUse - 1 ∧
      ∀ slot, ((sev.dropOldest ev).1.events slot).sequence = (sev.events slot).sequence := by
  have hpay (cell slot : Nat) (event : Event)
      (hsame : event.sequence = (sev.events cell).sequence) :
      (update sev.events cell event slot).sequence = (sev.events slot).sequence := by
    by_cases hslot : slot = cell
    · rw [hslot, update_self, hsame]
    · rw [update_of_ne hslot]
  rw [SubscribedEvent.dropOldest]
  split_ifs
  · exact ⟨rfl, rfl, rfl, fun slot => hpay _ slot _ rfl⟩
  · exact ⟨rfl, rfl, rfl, fun _ => rfl⟩
  · exact ⟨rfl, rfl, rfl, fun slot => hpay _ slot _ rfl⟩
  · exact ⟨rfl, rfl, rfl, fun _ => rfl⟩

def roomMade (fh : Fh) (p : Nat) (ev : Event) : Fh :=
  if (fh.sev p).inUse = (fh.sev p).elems then (dropOldest fh p ev).1 else fh

theorem QueueInv.roomMade (hinv : QueueInv fh) (hp : p ∈ fh.subscribed) (ev : Event) :
    QueueInv (roomMade fh p ev) ∧ p ∈ (roomMade fh p ev).subscribed ∧
      ((V4l2.roomMade fh p ev).sev p).inUse < ((V4l2.roomMade fh p ev).sev p).elems ∧
      (V4l2.roomMade fh p ev).available =
        if (fh.sev p).inUse = (fh.sev p).elems then fh.available.erase (p, (fh.sev p).first)
        else fh.available := by
  have hok := hinv.ringOk p hp
  have hfirst_lt := hok.first_lt
  have hinUse_le := hok.inUse_le
  unfold V4l2.roomMade
  by_cases hfull : (fh.sev p).inUse = (fh.sev p).elems
  · obtain ⟨helems, hfirst, hinUse, hsequence⟩ := dropOldest_fields (fh.sev p) ev
    have hslot : sevPos (fh.sev p) 0 = (fh.sev p).first := by
      rw [sevPos_eq hok (zero_le _), add_zero, mod_eq_of_lt hfirst_lt]
    rw [if_pos hfull, if_pos hfull]
    simp only [dropOldest, hslot]
    refine ⟨hinv.drop hp (by omega) helems hfirst hinUse hsequence, hp, ?_, trivial⟩
    simp only [updSev, update_self]
    omega
  · rw [if_neg hfull, if_neg hfull]
    exact ⟨hinv, hp, lt_of_le_of_ne hinUse_le hfull, rfl⟩

/-- The entry that a filling puts at the end of the list has the sequence number of the handle. -/
theorem fillEvent_entry (fh : Fh) (p : Nat) (copyPayload : Bool) (ev : Event) (timestamp : Nat) :
    (fillEvent fh p copyPayload ev timestamp).available =
        fh.available ++ [(p, sevPos (fh.sev p) (fh.sev p).inUse)] ∧
      (fillEvent fh p copyPayload ev timestamp).sequenceOf
        (p, sevPos (fh.sev p) (fh.sev p).inUse) = fh.sequence.toNat := by
  refine ⟨rfl, ?_⟩
  simp [fillEvent, sequenceOf, updSev]

/-- An event later than all available ones is filled in and put at the end of the list. -/
theorem QueueInv.fill (hinv : QueueInv fh) (hp : p ∈ fh.subscribed)
    (hroom : (fh.sev p).inUse < (fh.sev p).elems) {sequence : UInt32}
    (hlater : ∀ x ∈ fh.available, fh.sequenceOf x < sequence.toNat) (copyPayload : Bool)
    (ev : Event) (timestamp : Nat) :
    QueueInv (fillEvent { fh with sequence := sequence } p copyPayload ev timestamp) := by
  have hok := hinv.ringOk p hp
  have hring := hinv.rings p hp
  have hslot := sevPos_eq hok hroom.le
  have hout : (p, sevPos (fh.sev p) (fh.sev p).inUse) ∉ fh.available := by
    rw [hslot]
    exact hring.next_notMem hroom
  obtain ⟨havailable, hlast⟩ := fillEvent_entry { fh with sequence := sequence } p copyPayload ev
    timestamp
  set filled := fillEvent { fh with sequence := sequence } p copyPayload ev timestamp with hfilled
  have hseq (x : Nat × Nat) (hx : x ∈ fh.available) :
      filled.sequenceOf x = fh.sequenceOf x := by
    by_cases hxp : x.1 = p
    · have hne : x.2 ≠ sevPos (fh.sev p) (fh.sev p).inUse := by
        intro h
        exact hout (by rwa [← h, ← hxp])
      simp [hfilled, fillEvent, sequenceOf, updSev, hxp, update_of_ne hne]
    · simp [hfilled, fillEvent, sequenceOf, updSev, update_of_ne hxp]
  have hsevp : (filled.sev p).elems = (fh.sev p).elems ∧ (filled.sev p).first = (fh.sev p).first ∧
      (filled.sev p).inUse = (fh.sev p).inUse + 1 := by
    simp [hfilled, fillEvent, updSev]
  have hsevq (q : Nat) (hqp : q ≠ p) : filled.sev q = fh.sev q := by
    simp [hfilled, fillEvent, updSev, hqp]
  refine ⟨hinv.nodup, ?_, ?_, ?_, ?_, ?_, ?_⟩
  · intro x hx
    rcases mem_append.mp hx with hx | hx
    · exact hinv.owned x hx
    · rw [mem_singleton.mp hx]
      exact hp
  · rw [havailable, length_append]
    exact congrArg (· + 1) hinv.counted
  · intro q hq
    rcases eq_or_ne q p with rfl | hqp
    · obtain ⟨helems, hfirst, hinUse⟩ := hsevp
      refine ⟨?_, helems ▸ hok.elems_le, ?_⟩
      · rw [helems, hfirst]
        exact hok.first_lt
      · rw [helems, hinUse]
        exact hroom
    · rw [hsevq q hqp]
      exact hinv.ringOk q hq
  · intro q hq
    rw [havailable]
    rcases eq_or_ne q p with rfl | hqp
    · obtain ⟨helems, hfirst, hinUse⟩ := hsevp
      simp only [helems, hfirst, hinUse, hslot]
      exact hring.add
    · rw [hsevq q hqp]
      exact (hinv.rings q hq).add_other (fun h => hqp h.symm) _
  · apply pairwise_append.mpr
    refine ⟨?_, pairwise_singleton _ _, ?_⟩
    · apply hinv.increasing.imp_of_mem
      intro x y hx hy hlt
      rw [hseq x hx, hseq y hy]
      exact hlt
    · intro x hx y hy
      rw [mem_singleton.mp hy, hseq x hx]
      exact hlast ▸ hlater x hx
  · intro x hx
    rcases mem_append.mp hx with hx | hx
    · rw [hseq x hx]
      exact (hlater x hx).le
    · rw [mem_singleton.mp hx]
      exact hlast.le

variable {ev : Event}

theorem queueFh_eq (hfound : v4l2EventSubscribed fh ev.type ev.id = some p)
    (timestamp : Nat) :
    ∃ copyPayload, v4l2EventQueueFh fh ev timestamp =
      fillEvent { roomMade fh p ev with sequence := fh.sequence + 1 } p copyPayload ev
        timestamp := by
  simp only [v4l2EventQueueFh, hfound, roomMade]
  by_cases hfull : (fh.sev p).inUse = (fh.sev p).elems
  · simp only [hfull, if_true]
    refine ⟨(dropOldest { fh with sequence := fh.sequence + 1 } p ev).2, ?_⟩
    rfl
  · simp only [hfull, if_false]
    exact ⟨true, rfl⟩

def WrapsAlone (fh : Fh) (ev : Event) : Prop :=
  ∀ p, v4l2EventSubscribed fh ev.type ev.id = some p → fh.sequence = 0xffffffff →
    ∀ x ∈ fh.available, (fh.sev p).inUse = (fh.sev p).elems ∧ x = (p, (fh.sev p).first)

theorem QueueInv.queue (hinv : QueueInv fh) (hwrap : WrapsAlone fh ev) (timestamp : Nat) :
    QueueInv (v4l2EventQueueFh fh ev timestamp) := by
  rcases hfound : v4l2EventSubscribed fh ev.type ev.id with _ | p
  · simp only [v4l2EventQueueFh, hfound]
    exact hinv
  obtain ⟨copyPayload, hqueue⟩ := queueFh_eq hfound timestamp
  obtain ⟨hroomed, hp, hroom, havailable⟩ := hinv.roomMade (subscribed_mem hfound) ev
  rw [hqueue]
  apply hroomed.fill hp hroom
  intro x hx
  by_cases hmax : fh.sequence = 0xffffffff
  · rw [havailable] at hx
    have hnodup : fh.available.Nodup := by
      apply hinv.increasing.imp
      rintro x y hlt rfl
      exact absurd hlt (lt_irrefl _)
    split_ifs at hx with hfull
    · obtain ⟨hne, hmem⟩ := hnodup.mem_erase_iff.mp hx
      exact absurd (hwrap p hfound hmax x hmem).2 hne
    · exact absurd (hwrap p hfound hmax x hx).1 hfull
  · have hsequence : (V4l2.roomMade fh p ev).sequence = fh.sequence := by
      unfold V4l2.roomMade
      split <;> rfl
    have hlatest := hroomed.latest x hx
    rw [hsequence] at hlatest
    have hnext : (fh.sequence + 1).toNat = fh.sequence.toNat + 1 := by
      have hlt := fh.sequence.toNat_lt
      have hne : fh.sequence.toNat ≠ 4294967295 := fun h => hmax (UInt32.toNat_inj.mp h)
      rw [UInt32.toNat_add, UInt32.toNat_one]
      omega
    omega

/-- A sequence number that wraps while another event stays on the list breaks the order. -/
theorem not_consistent_of_wrap (hinv : QueueInv fh) (hwrap : ¬ WrapsAlone fh ev) (timestamp : Nat) :
    ¬ QueuesConsistent (v4l2EventQueueFh fh ev timestamp) := by
  simp only [WrapsAlone, not_forall] at hwrap
  obtain ⟨p, hfound, hmax, x, hx, hoth⟩ := hwrap
  obtain ⟨copyPayload, hqueue⟩ := queueFh_eq hfound timestamp
  obtain ⟨-, -, -, havailable⟩ := hinv.roomMade (subscribed_mem hfound) ev
  have hstays : x ∈ (roomMade fh p ev).available := by
    rw [havailable]
    split_ifs with hfull
    · exact (mem_erase_of_ne (fun h => hoth ⟨hfull, h⟩)).mpr hx
    · exact hx
  intro hcons
  have hincreasing := hcons.increasing
  rw [hqueue] at hincreasing
  obtain ⟨hlist, hlast⟩ := fillEvent_entry
    { roomMade fh p ev with sequence := fh.sequence + 1 } p copyPayload ev timestamp
  have hlt := (pairwise_append.mp hincreasing).2.2 x hstays _ mem_cons_self
  rw [hlast, hmax] at hlt
  exact absurd hlt (not_lt_zero _)

variable {next : Fh}

section

variable (hinv : QueueInv fh)
include hinv

theorem QueueInv.dequeue {result : Except Int Event}
    (hstep : v4l2EventDequeue fh = some (result, next)) : QueueInv next := by
  unfold v4l2EventDequeue at hstep
  split at hstep
  · cases hstep
    exact hinv
  rename_i p slot rest hlist
  have hp := hinv.owned (p, slot) (by simp [hlist])
  rw [if_pos hp] at hstep
  cases hstep
  have hring := hinv.rings p hp
  have hok := hinv.ringOk p hp
  have hfirst := hok.first_lt
  have hused : 0 < (fh.sev p).inUse := by
    rw [← hring.length]
    exact length_pos_of_mem (mem_ofOwner.mpr ⟨by simp [hlist], rfl⟩ : (p, slot) ∈ _)
  obtain ⟨n, hn⟩ := Nat.exists_eq_add_of_le' hused
  have hslot : slot = (fh.sev p).first := by
    rw [hn, InRingOrder, ringCells_succ, hlist, Nat.mod_eq_of_lt hfirst] at hring
    simp only [ofOwner, filter_cons, decide_true, if_true, map_cons] at hring
    exact (Prod.mk.inj (List.cons.inj hring).1).2
  have hrest : fh.available.erase (p, (fh.sev p).first) = rest := by
    rw [hlist, hslot, erase_cons_head]
  rw [← hrest]
  refine hinv.drop hp hused ?_ ?_ ?_ ?_
  · rfl
  · rfl
  · rfl
  intro cell
  by_cases hcell : cell = slot
  · rw [hcell]
    simp
  · simp [hcell]

variable {sub : EventSubscription} {elems : UInt32}

variable (sub) in
theorem QueueInv.addSubscription (hp : p ∉ fh.subscribed)
    (hbytes : sevSize + keventSize * ringElems elems ≤ kmallocMaxSize) :
    QueueInv (addSubscription fh sub elems p) := by
  have hcount : 0 < ringElems elems := by
    unfold ringElems
    split_ifs <;> omega
  have hoth (q : Nat) (hq : q ∈ fh.subscribed) : q ≠ p := fun h => hp (h ▸ hq)
  refine ⟨nodup_cons.mpr ⟨hp, hinv.nodup⟩, ?_, hinv.counted, ?_, ?_, ?_, ?_⟩
  · intro x hx
    exact mem_cons_of_mem p (hinv.owned x hx)
  · intro q hq
    rcases mem_cons.mp hq with rfl | hq
    · simp only [V4l2.addSubscription, updSev, update_self]
      unfold sevSize keventSize kmallocMaxSize at hbytes
      refine ⟨hcount, ?_, zero_le _⟩
      simp only
      omega
    · simp only [V4l2.addSubscription, updSev, update_of_ne (hoth q hq)]
      exact hinv.ringOk q hq
  · intro q hq
    rcases mem_cons.mp hq with rfl | hq
    · simp only [V4l2.addSubscription, updSev, update_self]
      have hnone : ofOwner fh.available q = [] := by
        apply filter_eq_nil_iff.mpr
        intro x hx
        simpa using hoth x.1 (hinv.owned x hx)
      exact hnone
    · simp only [V4l2.addSubscription, updSev, update_of_ne (hoth q hq)]
      exact hinv.rings q hq
  · apply hinv.increasing.imp_of_mem
    intro x y hx hy hlt
    simpa [V4l2.addSubscription, sequenceOf, updSev, update_of_ne (hoth _ (hinv.owned x hx)),
      update_of_ne (hoth _ (hinv.owned y hy))] using hlt
  · intro x hx
    have hlatest := hinv.latest x hx
    simpa [V4l2.addSubscription, sequenceOf, updSev, update_of_ne (hoth _ (hinv.owned x hx))]
      using hlatest

omit hinv in
/-- A call either leaves the handle as it is or adds a subscription, with the initial event
if it is for a control and asks for one. -/
theorem subscribe_cases {ctrl : Option EventSource} {alloc : Option Nat} {timestamp : Nat}
    {ret : Int}
    (hstep : v4l2EventSubscribe fh sub elems ctrl alloc timestamp = some (ret, next)) :
    (next = fh ∧ (alloc = none ∨ (sub.type = eventCtrl ∧ ctrl = none) ∨
      v4l2EventSubscribed fh sub.type sub.id ≠ none)) ∨
    ∃ p, alloc = some p ∧ p ∉ fh.subscribed ∧
      v4l2EventSubscribed fh sub.type sub.id = none ∧
      sevSize + keventSize * ringElems elems ≤ kmallocMaxSize ∧
      next = match if sub.type = eventCtrl then ctrl else none with
        | none => addSubscription fh sub elems p
        | some ctrl => v4l2CtrlAddEvent (addSubscription fh sub elems p) p ctrl timestamp := by
  unfold v4l2EventSubscribe at hstep
  split at hstep
  · rename_i hnone
    cases hstep
    exact .inl ⟨rfl, .inr (.inl (by simpa using hnone))⟩
  split at hstep
  · cases hstep
    exact .inl ⟨rfl, .inl rfl⟩
  rename_i p
  split at hstep
  · exact absurd hstep (by simp)
  rename_i hfresh
  split at hstep
  · rename_i hfound
    cases hstep
    exact .inl ⟨rfl, .inr (.inr (by simp [hfound]))⟩
  simp only [Bool.or_eq_true, decide_eq_true_eq, not_or, not_lt] at hfresh
  refine .inr ⟨p, rfl, hfresh.1, by assumption, hfresh.2, ?_⟩
  generalize (if sub.type = eventCtrl then ctrl else none) = found at hstep ⊢
  cases found <;> cases hstep <;> rfl

theorem QueueInv.unsubscribeOne
    (hidle : ∀ p, v4l2EventSubscribed fh type id = some p → (fh.sev p).inUse = 0) :
    QueueInv (unsubscribeOne fh type id) := by
  unfold V4l2.unsubscribeOne
  split
  · exact hinv
  rename_i p hfound
  have hp := subscribed_mem hfound
  have hempty : ofOwner fh.available p = [] := by
    apply length_eq_zero_iff.mp
    rw [(hinv.rings p hp).length, hidle p hfound]
  have hkept (q : Nat) (hq : q ∈ fh.subscribed.erase p) : q ∈ fh.subscribed := mem_of_mem_erase hq
  refine ⟨hinv.nodup.erase p, ?_, hinv.counted, fun q hq => hinv.ringOk q (hkept q hq),
    fun q hq => hinv.rings q (hkept q hq), hinv.increasing, hinv.latest⟩
  intro x hx
  have hne : x.1 ≠ p := by
    intro h
    have hmem := mem_ofOwner.mpr ⟨hx, h⟩
    simp [hempty] at hmem
  exact (mem_erase_of_ne hne).mpr (hinv.owned x hx)

/-- A subscription with events on the list goes, and the events stay. -/
theorem not_consistent_of_unsubscribe (hfound : v4l2EventSubscribed fh type id = some p)
    (hused : (fh.sev p).inUse ≠ 0) : ¬ QueuesConsistent (unsubscribeOne fh type id) := by
  have hp := subscribed_mem hfound
  intro hcons
  obtain ⟨n, hn⟩ := exists_eq_succ_of_ne_zero hused
  have hring := hinv.rings p hp
  rw [hn] at hring
  have howned := hcons.owned
  simp only [unsubscribeOne, hfound] at howned
  exact (hinv.nodup.mem_erase_iff.mp (howned _ hring.first_mem)).1 rfl

omit hinv in
/-- `v4l2_event_unsubscribe_all` leaves no subscription and the list as it was. -/
theorem unsubscribeLoop_result (hloop : unsubscribeLoop fuel fh = some next) :
    next.subscribed = [] ∧ next.available = fh.available := by
  induction fuel generalizing fh with
  | zero => exact absurd hloop (by simp [unsubscribeLoop])
  | succ fuel ih =>
    unfold unsubscribeLoop at hloop
    split at hloop
    · rename_i hnil
      cases hloop
      exact ⟨hnil, rfl⟩
    split at hloop
    · exact absurd hloop (by simp)
    obtain ⟨hnone, hsame⟩ := ih hloop
    refine ⟨hnone, hsame.trans ?_⟩
    unfold unsubscribeOne
    split <;> rfl

theorem QueueInv.unsubscribeLoop (hempty : fh.available = [])
    (hloop : unsubscribeLoop fuel fh = some next) : QueueInv next := by
  induction fuel generalizing fh with
  | zero => exact absurd hloop (by simp [V4l2.unsubscribeLoop])
  | succ fuel ih =>
    unfold V4l2.unsubscribeLoop at hloop
    split at hloop
    · cases hloop
      exact hinv
    split at hloop
    · exact absurd hloop (by simp)
    rename_i p _ _ _
    apply ih ?_ ?_ hloop
    · apply hinv.unsubscribeOne
      intro q hfound
      rw [← (hinv.rings q (subscribed_mem hfound)).length, hempty]
      rfl
    · unfold V4l2.unsubscribeOne
      split <;> exact hempty

/-- Nothing is unsubscribed while events of it are on the list, and the sequence
number does not wrap while an event stays there, also not with the initial event of a new
subscription. -/
def QuietStep (fh : Fh) : EventInput → Prop
  | .subscribe sub elems ctrl alloc _ => ∀ p ∈ alloc, ∀ c ∈ ctrl, sub.type = eventCtrl →
      v4l2EventSubscribed fh sub.type sub.id = none →
      c.isClass = false → sub.flags &&& subFlSendInitial ≠ 0 →
      WrapsAlone (addSubscription fh sub elems p) (initialEvent c)
  | .queue ev _ => WrapsAlone fh ev
  | .dequeue => True
  | .unsubscribe type id =>
    if type = eventAll then fh.available = []
    else ∀ p, v4l2EventSubscribed fh type id = some p → (fh.sev p).inUse = 0
  | .unsubscribeAll => fh.available = []

theorem QueueInv.subscribe {ctrl : Option EventSource} {alloc : Option Nat} {timestamp : Nat}
    {ret : Int} (hquiet : QuietStep fh (.subscribe sub elems ctrl alloc timestamp))
    (hstep : v4l2EventSubscribe fh sub elems ctrl alloc timestamp = some (ret, next)) :
    QueueInv next := by
  rcases subscribe_cases hstep with ⟨rfl, -⟩ | ⟨p, rfl, hfresh, hnone, hbytes, rfl⟩
  · exact hinv
  have hadded := hinv.addSubscription sub hfresh hbytes
  split
  · exact hadded
  rename_i c hc
  obtain ⟨htype, rfl⟩ := Option.ite_none_right_eq_some.mp hc
  unfold v4l2CtrlAddEvent
  split
  · rename_i hsends
    have hflag : sub.flags &&& subFlSendInitial ≠ 0 := by
      simpa [V4l2.addSubscription, updSev] using hsends.2
    exact hadded.queue (hquiet p rfl c rfl htype hnone hsends.1 hflag) timestamp
  · exact hadded

theorem QueueInv.step (hstep : eventStep fh input = some next) (hquiet : QuietStep fh input) :
    QueueInv next := by
  cases input with
  | subscribe sub elems ctrl alloc timestamp =>
    obtain ⟨⟨ret, _⟩, hcall, rfl⟩ := Option.map_eq_some_iff.mp hstep
    exact hinv.subscribe hquiet hcall
  | queue ev timestamp =>
    cases hstep
    exact hinv.queue hquiet timestamp
  | dequeue =>
    obtain ⟨⟨result, _⟩, hcall, rfl⟩ := Option.map_eq_some_iff.mp hstep
    exact hinv.dequeue hcall
  | unsubscribe type id =>
    simp only [eventStep, v4l2EventUnsubscribe] at hstep
    rw [QuietStep] at hquiet
    split_ifs at hstep hquiet with hall
    · exact hinv.unsubscribeLoop hquiet hstep
    · cases hstep
      exact hinv.unsubscribeOne hquiet
  | unsubscribeAll => exact hinv.unsubscribeLoop hquiet hstep

omit hinv in
theorem not_consistent_of_unsubscribeAll (hpend : fh.available ≠ [])
    (hstep : v4l2EventUnsubscribeAll fh = some next) : ¬ QueuesConsistent next := by
  obtain ⟨hnone, hsame⟩ := unsubscribeLoop_result hstep
  obtain ⟨x, hx⟩ := exists_mem_of_ne_nil fh.available hpend
  intro hcons
  have howned := hcons.owned x (hsame ▸ hx)
  simp [hnone] at howned

theorem not_consistent_of_step (hstep : eventStep fh input = some next)
    (hquiet : ¬ QuietStep fh input) : ¬ QueuesConsistent next := by
  cases input with
  | subscribe sub elems ctrl alloc timestamp =>
    obtain ⟨⟨ret, last⟩, hcall, rfl⟩ := Option.map_eq_some_iff.mp hstep
    simp only [QuietStep, not_forall] at hquiet
    obtain ⟨p, rfl, c, rfl, htype, hnone, hclass, hflag, hwrap⟩ := hquiet
    rcases subscribe_cases hcall with ⟨-, hidle⟩ | ⟨_, hp, hfresh, -, hbytes, hnext⟩
    · simp [hnone] at hidle
    cases hp
    have hadded := hinv.addSubscription sub hfresh hbytes
    have hsends : last = v4l2EventQueueFh (addSubscription fh sub elems p) (initialEvent c)
        timestamp := by
      simpa [htype, v4l2CtrlAddEvent, addSubscription, updSev, hclass, hflag] using hnext
    subst hsends
    exact not_consistent_of_wrap hadded hwrap timestamp
  | queue ev timestamp =>
    cases hstep
    exact not_consistent_of_wrap hinv hquiet timestamp
  | dequeue => exact absurd trivial hquiet
  | unsubscribe type id =>
    simp only [eventStep, v4l2EventUnsubscribe] at hstep
    simp only [QuietStep] at hquiet
    split_ifs at hstep hquiet with hall
    · exact not_consistent_of_unsubscribeAll hquiet hstep
    cases hstep
    simp only [not_forall] at hquiet
    obtain ⟨p, hfound, hused⟩ := hquiet
    exact not_consistent_of_unsubscribe hinv hfound hused
  | unsubscribeAll => exact not_consistent_of_unsubscribeAll hquiet hstep

end

theorem queueInv_init : QueueInv fhInit := by
  refine ⟨nodup_nil, ?_, rfl, ?_, ?_, List.Pairwise.nil, ?_⟩ <;> simp [fhInit]

/-- The queues of a file handle are consistent in every state of a run exactly
if every step of the run is quiet. -/
theorem queues_consistent_iff_quiet (inputs : List EventInput) :
    Always eventStep QueuesConsistent fhInit inputs ↔ Along eventStep QuietStep fhInit inputs := by
  apply always_iff_along eventStep QueuesConsistent QuietStep QueueInv
  · exact fun fh hinv => hinv.consistent
  · exact fun fh input next hinv hstep hquiet => hinv.step hstep hquiet
  · exact fun fh input next hinv hstep hquiet => not_consistent_of_step hinv hstep hquiet
  · exact queueInv_init

/-- A subscription is given up with an event of it on the list: the entry stays
there, and the next dequeueing goes through the freed subscription. -/
theorem unsubscribe_leaves_event :
    ([EventInput.subscribe { type := 1, id := 0, flags := 0 } 1 none (some 7) 0,
        .queue { zeroEvent with type := 1 } 0, .unsubscribe 1 0].foldlM eventStep fhInit).any
      (fun fh => fh.subscribed = [] && fh.available = [(7, 0)] && (v4l2EventDequeue fh).isNone) =
        true := by
  decide +kernel

end TbsMedia.V4l2
