import TbsMedia.Lib.Run
import TbsMedia.Uvc.Controls

/-!
Transactions keep the cached values of a chain and the values in the device in step, as long
as no control is loaded while it is dirty and at most the last `SET_CUR` of a commit fails.
-/

namespace TbsMedia.Uvc

open Lib List Option Control Bool

structure Tracks (ctrl : Control) : Prop where
  clean : ctrl.flags.getCur = true → ctrl.loaded = true → ctrl.dirty = false →
    ctrl.current = ctrl.device
  dirty : ctrl.flags.getCur = true → ctrl.loaded = true → ctrl.dirty = true →
    ctrl.backup = ctrl.device
  live : ctrl.initialized = false → ctrl.dirty = false

structure SameValue (ctrl next : Control) : Prop where
  flags : next.flags = ctrl.flags
  size : next.size = ctrl.size
  initialized : next.initialized = ctrl.initialized
  dirty : next.dirty = ctrl.dirty
  loaded : next.loaded = ctrl.loaded
  current : next.current = ctrl.current
  backup : next.backup = ctrl.backup
  device : next.device = ctrl.device

theorem SameValue.refl (ctrl : Control) : SameValue ctrl ctrl :=
  ⟨rfl, rfl, rfl, rfl, rfl, rfl, rfl, rfl⟩

variable {ctrl : Control}

theorem SameValue.trans {next last : Control} (h1 : SameValue ctrl next)
    (h2 : SameValue next last) : SameValue ctrl last :=
  ⟨h2.flags.trans h1.flags, h2.size.trans h1.size, h2.initialized.trans h1.initialized,
    h2.dirty.trans h1.dirty, h2.loaded.trans h1.loaded, h2.current.trans h1.current,
    h2.backup.trans h1.backup, h2.device.trans h1.device⟩

theorem Tracks.of_same {next : Control} (ht : Tracks ctrl) (hsame : SameValue ctrl next) :
    Tracks next := by
  obtain ⟨hflags, -, hinit, hdirty, hload, hcur, hbackup, hdevice⟩ := hsame
  constructor
  · rw [hflags, hload, hdirty, hcur, hdevice]
    exact ht.clean
  · rw [hflags, hload, hdirty, hbackup, hdevice]
    exact ht.dirty
  · rw [hinit, hdirty]
    exact ht.live

namespace Control

theorem query_same {slot : Control → Data → Control} (hslot : ∀ c data, SameValue c (slot c data))
    (supported : Bool) (reply : Reply) : SameValue ctrl (ctrl.query supported reply slot).2 := by
  cases supported with
  | false => exact .refl ctrl
  | true => exact hslot ctrl reply.data

theorem andThen_same {result : Int × Control} {next : Control → Int × Control}
    (hres : SameValue ctrl result.2) (hnext : ∀ c, SameValue c (next c).2) :
    SameValue ctrl (andThen result next).2 := by
  rw [andThen]
  split_ifs
  · exact hres
  · exact hres.trans (hnext result.2)

theorem populateCache_same (ctrl : Control) (replies : RangeReplies) :
    SameValue ctrl (ctrl.populateCache replies).2 := by
  have hslot : ∀ {c next : Control}, next = { c with default := next.default } ∨
      next = { c with minimum := next.minimum } ∨ next = { c with maximum := next.maximum } ∨
      next = { c with resolution := next.resolution } → SameValue c next := by
    rintro c next (h | h | h | h) <;> rw [h] <;> exact ⟨rfl, rfl, rfl, rfl, rfl, rfl, rfl, rfl⟩
  refine andThen_same (andThen_same (andThen_same (andThen_same ?_ ?_) ?_) ?_) ?_
  · exact query_same (fun c data => hslot (.inl rfl)) _ _
  · exact fun c => query_same (fun c data => hslot (.inr (.inl rfl))) _ _
  · exact fun c => query_same (fun c data => hslot (.inr (.inr (.inl rfl)))) _ _
  · exact fun c => query_same (fun c data => hslot (.inr (.inr (.inr rfl)))) _ _
  · exact fun c => ⟨rfl, rfl, rfl, rfl, rfl, rfl, rfl, rfl⟩

theorem cacheRange_same (ctrl : Control) (replies : RangeReplies) :
    SameValue ctrl (ctrl.cacheRange replies).2 := by
  rw [cacheRange]
  split_ifs
  · exact .refl ctrl
  · exact populateCache_same ctrl replies

theorem legalValue_same (ctrl : Control) (mapping : Mapping) (value : BitVec 32)
    (replies : RangeReplies) : SameValue ctrl (ctrl.legalValue mapping value replies).2 := by
  have hrange := cacheRange_same ctrl replies
  unfold legalValue
  split
  · dsimp only
    split_ifs <;> exact hrange
  · exact .refl ctrl
  · split
    · exact .refl ctrl
    split_ifs
    · dsimp only
      split_ifs <;> exact hrange
    · exact .refl ctrl
  all_goals exact .refl ctrl

theorem getCur_tracks (ht : Tracks ctrl) (hload : ctrl.loaded = false)
    (hdirty : ctrl.dirty = false) (reply : Reply) : Tracks (ctrl.getCur reply).2 := by
  rw [getCur]
  split_ifs
  · refine ⟨fun _ _ _ => rfl, fun _ _ hd => ?_, ht.live⟩
    exact absurd (hdirty.symm.trans hd) false_ne_true
  · refine ⟨fun _ hl => ?_, fun _ hl => ?_, ht.live⟩
    all_goals exact absurd (hload.symm.trans hl) false_ne_true

def LoadsClean (ctrl : Control) (mapping : Mapping) : Prop :=
  ctrl.dirty = true → ctrl.flags.getCur = true → ctrl.loaded = true ∨ ctrl.size * 8 = mapping.size

variable {mapping : Mapping}

theorem loadForSet_tracks (ht : Tracks ctrl) (hclean : ctrl.LoadsClean mapping) (reply : Reply) :
    Tracks (ctrl.loadForSet mapping reply).2 := by
  rw [loadForSet]
  split_ifs with hload hget
  · obtain ⟨hloaded, hsize⟩ := (and_eq_true _ _).mp hload
    have hloaded : ctrl.loaded = false := by simpa using hloaded
    refine getCur_tracks ht hloaded (eq_false_iff.mpr fun hdirty => ?_) reply
    rcases hclean hdirty hget with hl | hs
    · exact false_ne_true (hloaded.symm.trans hl)
    · exact absurd hs (by simpa using hsize)
  · exact ⟨fun hg => absurd hg hget, fun hg => absurd hg hget, ht.live⟩
  · exact ht

theorem loadForSet_initialized (ctrl : Control) (mapping : Mapping) (reply : Reply) :
    (ctrl.loadForSet mapping reply).2.initialized = ctrl.initialized := by
  rw [loadForSet]
  split_ifs
  · rw [getCur]
    split_ifs <;> rfl
  · rfl
  · rfl

theorem store_tracks (ht : Tracks ctrl) (hinit : ctrl.initialized = true) (mapping : Mapping)
    (value : BitVec 32) : Tracks (ctrl.store mapping value) := by
  refine ⟨fun _ _ hd => absurd hd nofun, fun hget hload _ => ?_, fun hi => ?_⟩
  · change (if ctrl.dirty then ctrl.backup else ctrl.current) = ctrl.device
    split_ifs with hdirty
    · exact ht.dirty hget hload hdirty
    · exact ht.clean hget hload (eq_false_iff.mpr hdirty)
  · exact absurd (hinit.symm.trans hi) nofun

theorem set_tracks (ht : Tracks ctrl) (hinit : ctrl.initialized = true)
    (hclean : ctrl.LoadsClean mapping) (value : BitVec 32) (range : RangeReplies) (reply : Reply) :
    Tracks (ctrl.set mapping value range reply).2 := by
  have hsame := legalValue_same ctrl mapping value range
  rw [set]
  split_ifs
  · exact ht
  rcases hlegal : ctrl.legalValue mapping value range with ⟨result, next⟩
  rw [hlegal] at hsame
  have hnext := ht.of_same hsame
  rcases result with ret | values
  · exact hnext
  have hloads : next.LoadsClean mapping := by
    rw [LoadsClean, hsame.dirty, hsame.flags, hsame.loaded, hsame.size]
    exact hclean
  have hload := loadForSet_tracks hnext hloads reply
  dsimp only
  split_ifs
  · exact hload
  apply store_tracks hload
  rw [loadForSet_initialized, hsame.initialized]
  exact hinit

theorem get_tracks (ht : Tracks ctrl) (mapping : Mapping)
    (hclean : ctrl.dirty = true → ctrl.flags.getCur = true → ctrl.loaded = true) (reply : Reply) :
    Tracks (ctrl.get mapping reply).2 := by
  rw [get]
  by_cases hget : ctrl.flags.getCur = true
  · by_cases hloaded : ctrl.loaded = true
    · simp only [hget, hloaded, Bool.not_true, Bool.false_eq_true, if_false, if_true]
      split_ifs <;> exact ht
    have hdirty := Bool.eq_false_iff.mpr fun hd => hloaded (hclean hd hget)
    have hload := getCur_tracks ht (Bool.eq_false_iff.mpr hloaded) hdirty reply
    simp only [hget, hloaded, Bool.not_true, Bool.false_eq_true, if_false]
    split_ifs <;> exact hload
  · simp only [hget, Bool.not_false, if_true]
    exact ht

theorem get_value (ht : Tracks ctrl) (hdirty : ctrl.dirty = false) {reply : Reply}
    {value : BitVec 32} (hvalue : (ctrl.get mapping reply).1 = .ok value) :
    value = decode mapping ctrl.device := by
  rw [get] at hvalue
  by_cases hget : ctrl.flags.getCur = true
  · by_cases hload : ctrl.loaded = true
    · simp only [hget, hload, Bool.not_true, Bool.false_eq_true, if_false, if_true,
        Int.lt_irrefl] at hvalue
      rw [← Except.ok.inj hvalue, ht.clean hget hload hdirty]
    by_cases hok : reply.ok = true
    · simp only [hget, hload, getCur, hok, Bool.not_true, Bool.false_eq_true, if_false,
        if_true, Int.lt_irrefl] at hvalue
      exact (Except.ok.inj hvalue).symm
    have heio : eio < 0 := by decide
    simp only [hget, hload, getCur, hok, Bool.not_true, Bool.false_eq_true, if_false, heio,
      if_true] at hvalue
    cases hvalue
  · simp only [hget, Bool.not_false, if_true] at hvalue
    cases hvalue

end Control

section Lookup

variable {entities : List (List Control)} {found : Found}

theorem candidates_initialized (hmem : found ∈ candidates entities)
    (hctrl : controlAt entities found = some ctrl) : ctrl.initialized = true := by
  obtain ⟨⟨controls, entity⟩, hentity, hmem⟩ := mem_flatMap.mp hmem
  obtain ⟨⟨ctrl', index⟩, hindex, hmem⟩ := mem_flatMap.mp hmem
  have hctrls := mem_zipIdx_iff_getElem?.mp hentity
  have hat := mem_zipIdx_iff_getElem?.mp hindex
  simp only at hmem
  split_ifs at hmem with hinit
  · obtain ⟨mapping, -, rfl⟩ := List.mem_map.mp hmem
    have heq : controlAt entities ⟨entity, index, mapping⟩ = some ctrl' := by
      simp [controlAt, hctrls, hat]
    rw [heq] at hctrl
    exact Option.some.inj hctrl ▸ hinit
  · cases hmem

theorem foldl_mem {list : List Found} {p : Option Found → Found → Prop}
    [∀ best found, Decidable (p best found)] {best : Option Found}
    (hfound : list.foldl (fun best found => if p best found then some found else best) best =
      some found) : best = some found ∨ found ∈ list := by
  induction list generalizing best with
  | nil => exact .inl hfound
  | cons first rest ih =>
    rcases ih hfound with hbest | hmem
    · dsimp only at hbest
      split_ifs at hbest
      · exact .inr (Option.some.inj hbest ▸ mem_cons_self)
      · exact .inl hbest
    · exact .inr (mem_cons_of_mem _ hmem)

theorem findControl_mem {id : BitVec 32} (hfound : uvcFindControl entities id = some found) :
    found ∈ candidates entities := by
  rw [uvcFindControl] at hfound
  split_ifs at hfound
  · exact (foldl_mem hfound).resolve_left nofun
  · exact List.mem_of_find?_eq_some hfound

theorem lookup_some {id : BitVec 32} (hlook : lookup entities id = some (found, ctrl)) :
    ctrl ∈ entities.flatten ∧ ctrl.initialized = true := by
  obtain ⟨found', hfound, hmap⟩ := bind_eq_some_iff.mp hlook
  obtain ⟨ctrl', hctrl, heq⟩ := map_eq_some_iff.mp hmap
  cases heq
  refine ⟨?_, candidates_initialized (findControl_mem hfound) hctrl⟩
  obtain ⟨controls, hctrls, hat⟩ := bind_eq_some_iff.mp hctrl
  exact mem_flatten.mpr ⟨controls, mem_of_getElem? hctrls, mem_of_getElem? hat⟩

theorem mem_replaceAt {next : Control} (hmem : ctrl ∈ (replaceAt entities found next).flatten) :
    ctrl ∈ entities.flatten ∨ ctrl = next := by
  obtain ⟨controls, hctrls, hctrl⟩ := mem_flatten.mp hmem
  obtain ⟨i, hi⟩ := mem_iff_getElem?.mp hctrls
  rw [replaceAt, List.getElem?_modify] at hi
  obtain ⟨before, hpre, heq⟩ := map_eq_some_iff.mp hi
  have hold : ∀ c ∈ before, c ∈ entities.flatten := fun c hc =>
    mem_flatten.mpr ⟨before, mem_of_getElem? hpre, hc⟩
  split_ifs at heq
  · rw [← heq] at hctrl
    exact (mem_or_eq_of_mem_set hctrl).imp_left (hold ctrl)
  · rw [← heq] at hctrl
    exact .inl (hold ctrl hctrl)

end Lookup

section Commit

variable {rollback : Bool} {answers : Nat → Bool}

theorem Control.resetLoaded_tracks (ht : Tracks ctrl) : Tracks ctrl.resetLoaded := by
  rw [resetLoaded]
  split_ifs
  · exact ⟨fun _ hl => absurd hl nofun, fun _ hl => absurd hl nofun, ht.live⟩
  · exact ht

theorem Control.resetLoaded_dirty (ctrl : Control) : ctrl.resetLoaded.dirty = ctrl.dirty := by
  rw [resetLoaded]
  split_ifs <;> rfl

theorem Control.resetLoaded_initialized (ctrl : Control) :
    ctrl.resetLoaded.initialized = ctrl.initialized := by
  rw [resetLoaded]
  split_ifs <;> rfl

theorem Tracks.restored (ht : Tracks ctrl) (hdirty : ctrl.dirty = true) :
    Tracks { ctrl with current := ctrl.backup, dirty := false } :=
  ⟨fun hget hload _ => ht.dirty hget hload hdirty, fun _ _ hd => absurd hd nofun, fun _ => rfl⟩

theorem Tracks.sent (ctrl : Control) :
    Tracks { ctrl with device := ctrl.current, dirty := false } :=
  ⟨fun _ _ _ => rfl, fun _ _ hd => absurd hd nofun, fun _ => rfl⟩

def dirtyCount (controls : List Control) : Nat := controls.countP Control.dirty

/-- What one entity, or the rest of one, is after a commit of which `k` requests were sent
before: its controls still track the device, and if only the last request may fail then none
of them is dirty. -/
theorem commitEntity_spec (controls : List Control) (k : Nat)
    (ht : ∀ ctrl ∈ controls, Tracks ctrl) :
    (∀ ctrl ∈ (uvcCtrlCommitEntity rollback answers k controls).2.2, Tracks ctrl) ∧
      ((rollback = false → ∀ j, k ≤ j → j + 1 < k + dirtyCount controls → answers j = true) →
        ∀ ctrl ∈ (uvcCtrlCommitEntity rollback answers k controls).2.2, ctrl.dirty = false) := by
  induction controls generalizing k with
  | nil => exact ⟨fun ctrl hmem => absurd hmem not_mem_nil,
      fun _ ctrl hmem => absurd hmem not_mem_nil⟩
  | cons ctrl rest ih =>
    have hctrl := resetLoaded_tracks (ht ctrl mem_cons_self)
    have hrest : ∀ c ∈ rest, Tracks c := fun c hc => ht c (mem_cons_of_mem _ hc)
    rw [uvcCtrlCommitEntity]
    by_cases hdirty : ctrl.dirty = true
    · have hinit : ctrl.initialized = true := by
        by_contra hinit
        have hclean := (ht ctrl mem_cons_self).live (Bool.eq_false_iff.mpr hinit)
        exact Bool.false_ne_true (hclean.symm.trans hdirty)
      have hreset : ctrl.resetLoaded.dirty = true := (resetLoaded_dirty ctrl).trans hdirty
      have hcount : dirtyCount (ctrl :: rest) = dirtyCount rest + 1 := by
        rw [dirtyCount, countP_cons_of_pos hdirty]
        rfl
      have hsends : (!ctrl.resetLoaded.initialized || !ctrl.resetLoaded.dirty) = false := by
        rw [resetLoaded_initialized, hinit, hreset]
        rfl
      simp only [hsends, Bool.false_eq_true, if_false]
      split_ifs with hrollback hans
      · obtain ⟨htrack, hclean⟩ := ih k hrest
        refine ⟨forall_mem_cons.mpr ⟨hctrl.restored hreset, htrack⟩, fun _ => ?_⟩
        refine forall_mem_cons.mpr ⟨rfl, hclean fun hfalse => ?_⟩
        exact absurd (hrollback.symm.trans hfalse) nofun
      · obtain ⟨htrack, hclean⟩ := ih (k + 1) hrest
        refine ⟨forall_mem_cons.mpr ⟨.sent _, htrack⟩, fun hlast => ?_⟩
        refine forall_mem_cons.mpr ⟨rfl, hclean fun hfalse j hj hlt => ?_⟩
        exact hlast hfalse j (by omega) (by omega)
      refine ⟨forall_mem_cons.mpr ⟨hctrl.restored hreset, hrest⟩, fun hlast => ?_⟩
      refine forall_mem_cons.mpr ⟨rfl, fun c hc => ?_⟩
      by_contra hc'
      have hpos : 0 < dirtyCount rest := countP_pos_iff.mpr ⟨c, hc, by simpa using hc'⟩
      exact hans (hlast (Bool.eq_false_iff.mpr hrollback) k le_rfl (by omega))
    · have hreset : ctrl.resetLoaded.dirty = false :=
        (resetLoaded_dirty ctrl).trans (Bool.eq_false_iff.mpr hdirty)
      have hcount : dirtyCount (ctrl :: rest) = dirtyCount rest := by
        rw [dirtyCount, countP_cons_of_neg hdirty]
        rfl
      obtain ⟨htrack, hclean⟩ := ih k hrest
      simp only [hreset, Bool.not_false, Bool.or_true, if_true]
      refine ⟨forall_mem_cons.mpr ⟨hctrl, htrack⟩, fun hlast => ?_⟩
      refine forall_mem_cons.mpr ⟨hreset, hclean fun hfalse j hj hlt => ?_⟩
      exact hlast hfalse j hj (by omega)

theorem commitEntity_append (first second : List Control) (k : Nat) :
    uvcCtrlCommitEntity rollback answers k (first ++ second) =
      let result := uvcCtrlCommitEntity rollback answers k first
      if result.1 < 0 then (result.1, result.2.1, result.2.2 ++ second)
      else
        let next := uvcCtrlCommitEntity rollback answers result.2.1 second
        (next.1, next.2.1, result.2.2 ++ next.2.2) := by
  induction first generalizing k with
  | nil => rfl
  | cons ctrl rest ih =>
    have heio : eio < 0 := by decide
    simp only [cons_append, uvcCtrlCommitEntity]
    by_cases hskip : (!ctrl.resetLoaded.initialized || !ctrl.resetLoaded.dirty) = true
    · simp only [hskip, if_true, ih]
      split_ifs <;> rfl
    cases rollback with
    | true =>
      simp only [hskip, if_true, ih]
      split_ifs <;> rfl
    | false =>
      by_cases hans : answers k = true
      · simp only [hskip, hans, false_eq_true, if_true, if_false, ih]
        split_ifs <;> rfl
      · simp [hskip, hans, heio]

theorem commit_flatten (entities : List (List Control)) (k : Nat) :
    (uvcCtrlCommit rollback answers k entities).2.2.flatten =
        (uvcCtrlCommitEntity rollback answers k entities.flatten).2.2 ∧
      (uvcCtrlCommit rollback answers k entities).2.1 =
        (uvcCtrlCommitEntity rollback answers k entities.flatten).2.1 := by
  induction entities generalizing k with
  | nil => exact ⟨rfl, rfl⟩
  | cons entity rest ih =>
    simp only [uvcCtrlCommit, flatten_cons, commitEntity_append]
    split_ifs
    · exact ⟨rfl, rfl⟩
    · obtain ⟨hflat, hk⟩ := ih (uvcCtrlCommitEntity rollback answers k entity).2.1
      simp [hflat, hk]

theorem rollback_sent (controls : List Control) (k : Nat) :
    (uvcCtrlCommitEntity true answers k controls).2.1 = k := by
  induction controls generalizing k with
  | nil => rfl
  | cons ctrl rest ih =>
    simp only [uvcCtrlCommitEntity, if_true]
    split_ifs <;> exact ih k

end Commit

/-- No call loads a dirty control from the device, and of the `SET_CUR` requests of a commit
at most the last one fails. -/
def KeepsInStep (w : Chain) : Op → Prop
  | .set id _ _ _ => ∀ pair ∈ lookup w.entities id, pair.2.LoadsClean pair.1.mapping
  | .get id _ => ∀ pair ∈ lookup w.entities id,
      pair.2.dirty = true → pair.2.flags.getCur = true → pair.2.loaded = true
  | .commit answers => ∀ k < dirtyCount w.entities.flatten - 1, answers k = true
  | .begin | .rollback => True

instance (ctrl : Control) (mapping : Mapping) : Decidable (ctrl.LoadsClean mapping) :=
  inferInstanceAs (Decidable (ctrl.dirty = true → ctrl.flags.getCur = true →
    ctrl.loaded = true ∨ ctrl.size * 8 = mapping.size))

instance (w : Chain) : (op : Op) → Decidable (KeepsInStep w op)
  | .set id _ _ _ => inferInstanceAs (Decidable
      (∀ pair ∈ lookup w.entities id, pair.2.LoadsClean pair.1.mapping))
  | .get id _ => inferInstanceAs (Decidable (∀ pair ∈ lookup w.entities id,
      pair.2.dirty = true → pair.2.flags.getCur = true → pair.2.loaded = true))
  | .commit answers => inferInstanceAs (Decidable
      (∀ k < dirtyCount w.entities.flatten - 1, answers k = true))
  | .begin | .rollback => isTrue trivial

structure ChainInv (w : Chain) : Prop where
  tracks : ∀ ctrl ∈ w.entities.flatten, Tracks ctrl
  clean : w.locked = false → ∀ ctrl ∈ w.entities.flatten, ctrl.dirty = false
  unsent : w.locked = true ∨ w.rolledBack = true → w.sent = 0

namespace ChainInv

variable {w next : Chain} {op : Op}

theorem replaced (hw : ChainInv w) (hlocked : w.locked = true) {found : Found} (hctrl : Tracks ctrl)
    : ChainInv { w with entities := replaceAt w.entities found ctrl } := by
  refine ⟨?_, fun hopen => absurd (hlocked.symm.trans hopen) nofun, hw.unsent⟩
  intro c hmem
  rcases mem_replaceAt hmem with hmem | rfl
  · exact hw.tracks c hmem
  · exact hctrl

theorem committed (hw : ChainInv w) (rollback : Bool) {answers : Nat → Bool} (k : Nat)
    (hlast : rollback = false → ∀ j, k ≤ j → j + 1 < k + dirtyCount w.entities.flatten →
      answers j = true) :
    (∀ ctrl ∈ (uvcCtrlCommit rollback answers k w.entities).2.2.flatten, Tracks ctrl) ∧
      ∀ ctrl ∈ (uvcCtrlCommit rollback answers k w.entities).2.2.flatten, ctrl.dirty = false := by
  rw [(commit_flatten w.entities k).1]
  obtain ⟨htrack, hclean⟩ := commitEntity_spec w.entities.flatten k hw.tracks
  exact ⟨htrack, hclean hlast⟩

theorem step (hw : ChainInv w) (hkeeps : KeepsInStep w op) (hnext : opStep w op = some next) :
    ChainInv next := by
  cases op with (
    rw [opStep] at hnext
    split_ifs at hnext with hlocked
    cases hnext)
  | begin => exact ⟨hw.tracks, fun hopen => absurd hopen nofun, fun _ => rfl⟩
  | set id value range reply =>
    rw [uvcCtrlSet]
    rcases hlook : lookup w.entities id with _ | pair
    · exact hw
    obtain ⟨hmem, hinit⟩ := lookup_some hlook
    exact hw.replaced hlocked (set_tracks (hw.tracks pair.2 hmem) hinit
      (hkeeps pair hlook) value range reply)
  | get id reply =>
    rw [uvcCtrlGet]
    rcases hlook : lookup w.entities id with _ | pair
    · exact hw
    obtain ⟨hmem, hinit⟩ := lookup_some hlook
    exact hw.replaced hlocked (get_tracks (hw.tracks pair.2 hmem) pair.1.mapping
      (hkeeps pair hlook) reply)
  | commit answers =>
    obtain ⟨htrack, hclean⟩ := hw.committed false 0 fun _ j _ hj => hkeeps j (by omega)
    exact ⟨htrack, fun _ => hclean, fun hor => absurd hor (by simp)⟩
  | rollback =>
    obtain ⟨htrack, hclean⟩ := hw.committed true w.sent nofun
    refine ⟨htrack, fun _ => hclean, fun _ => ?_⟩
    rw [(commit_flatten w.entities w.sent).2, rollback_sent]
    exact hw.unsent (.inl hlocked)

end ChainInv

/-- What holds between transactions: no control is dirty, what is loaded is what the device
holds, and `uvc_ctrl_get` reads that; a rollback has sent nothing. -/
structure InStep (w : Chain) : Prop where
  clean : w.locked = false → ∀ ctrl ∈ w.entities.flatten, ctrl.dirty = false
  cached : w.locked = false → ∀ ctrl ∈ w.entities.flatten, ctrl.loaded = true →
    ctrl.flags.getCur = true → ctrl.current = ctrl.device
  unsent : w.rolledBack = true → w.sent = 0
  reads : w.locked = false → ∀ id reply found ctrl value,
    lookup w.entities id = some (found, ctrl) → (uvcCtrlGet w.entities id reply).1 = .ok value →
    value = Control.decode found.mapping ctrl.device

theorem ChainInv.inStep {w : Chain} (hw : ChainInv w) : InStep w where
  clean := hw.clean
  cached := fun hopen ctrl hmem hload hget =>
    (hw.tracks ctrl hmem).clean hget hload (hw.clean hopen ctrl hmem)
  unsent := fun hrolled => hw.unsent (.inr hrolled)
  reads := by
    intro hopen id reply found ctrl value hlook hvalue
    obtain ⟨hmem, -⟩ := lookup_some hlook
    rw [uvcCtrlGet, hlook] at hvalue
    exact get_value (hw.tracks ctrl hmem) (hw.clean hopen ctrl hmem) hvalue

def freshChain (entities : List (List Control)) : Chain := ⟨entities, false, 0, false⟩

/-- Driver and device are in step along every run whose calls keep them so. -/
theorem transactions_in_step (entities : List (List Control))
    (hfresh : ∀ ctrl ∈ entities.flatten, ctrl.loaded = false ∧ ctrl.dirty = false) (ops : List Op)
    (hkeeps : Along opStep KeepsInStep (freshChain entities) ops) :
    Always opStep InStep (freshChain entities) ops := by
  have hstart : ChainInv (freshChain entities) := by
    refine ⟨fun ctrl hmem => ?_, fun _ ctrl hmem => (hfresh ctrl hmem).2, fun _ => rfl⟩
    have hunloaded := eq_false_iff.mp (hfresh ctrl hmem).1
    exact ⟨fun _ hl => absurd hl hunloaded, fun _ hl => absurd hl hunloaded,
      fun _ => (hfresh ctrl hmem).2⟩
  refine Along.always ChainInv ?_ (fun w hw => hw.inStep) hstart hkeeps
  intro w op next hw hnext hcond
  exact hw.step hcond hnext

def byteControl (id : BitVec 32) : Control where
  flags := ⟨true, true, false, false, false, false, false⟩
  size := 1
  mappings := [{ id := id, size := 8, v4l2Type := .other, menu := [],
                 get := fun _ data => BitVec.ofNat 32 (data.headD 0).toNat,
                 set := fun value _ => [UInt8.ofNat value.toNat] }]
  initialized := true
  dirty := false
  loaded := false
  modified := false
  cached := false
  current := [0]
  backup := [0]
  minimum := [0]
  maximum := [0]
  resolution := [0]
  default := [0]
  device := [7]

def twoBytes : Chain := freshChain [[byteControl 1], [byteControl 2]]

def noRange : RangeReplies := ⟨⟨false, []⟩, ⟨false, []⟩, ⟨false, []⟩, ⟨false, []⟩⟩

def setByte (id value : BitVec 32) : Op := .set id value noRange ⟨true, []⟩

def getByte (id : BitVec 32) : Op := .get id ⟨true, []⟩

/-- Both controls are set; the second `SET_CUR` fails, so that the first value is in the
device and the second is not. -/
theorem transactions_in_step_two :
    let ops := [.begin, getByte 1, getByte 2, setByte 1 5, setByte 2 6, .commit fun k => k == 0,
      .begin, setByte 2 9, .rollback]
    ((ops.foldlM opStep twoBytes).any fun w =>
        w.entities.flatten.map device == [[5], [7]]) = true ∧
      Always opStep InStep twoBytes ops := by
  intro ops
  have hrun : ((ops.foldlM opStep twoBytes).any fun w =>
      w.entities.flatten.map device == [[5], [7]]) = true := by decide +kernel
  have hfresh : ∀ ctrl ∈ [[byteControl 1], [byteControl 2]].flatten,
      ctrl.loaded = false ∧ ctrl.dirty = false := by decide
  have hkeeps : Along opStep KeepsInStep twoBytes ops := by decide +kernel
  exact ⟨hrun, transactions_in_step [[byteControl 1], [byteControl 2]] hfresh ops hkeeps⟩

/-- The first `SET_CUR` of a commit fails: the second control stays dirty. And a control is
set before it was ever loaded, loaded by a get, and rolled back: it counts as loaded and holds
what was in its slot before, and a later get returns that and not what the device holds. -/
theorem transactions_out_of_step :
    (∃ w, [Op.begin, setByte 1 5, setByte 2 6, .commit fun _ => false].foldlM opStep twoBytes =
        some w ∧ w.locked = false ∧ ∃ ctrl ∈ w.entities.flatten, ctrl.dirty = true) ∧
      ∃ w, [Op.begin, setByte 1 5, getByte 1, .rollback].foldlM opStep twoBytes = some w ∧
        w.locked = false ∧
        (∃ ctrl ∈ w.entities.flatten, ctrl.loaded = true ∧ ctrl.flags.getCur = true ∧
          ctrl.flags.autoUpdate = false ∧ ctrl.current = [0] ∧ ctrl.device = [7]) ∧
        (uvcCtrlGet w.entities 1 ⟨true, []⟩).1.toOption = some 0 := by
  constructor
  · exact exists_of_run _ (by decide +kernel) fun _ hdirty => hdirty
  · exact exists_of_run _ (by decide +kernel) fun _ hstale => hstale

end TbsMedia.Uvc
