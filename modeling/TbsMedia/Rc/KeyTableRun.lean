import TbsMedia.Rc.KeymapLoad

/-!
Every sequence of `ir_setkeycode` calls on a loaded table, by scancode or by
index and with every answer of the allocations, is a sequence of assignments to
a finite map, and the lookups of the table read that map. The keys of the table
are those that the input device advertises.
-/

namespace TbsMedia.Rc

open Lib List

def IsNth (m : KeyMapping) (place : Nat) (scancode : UInt32) : Prop :=
  m scancode ≠ keyReserved ∧ {s | s < scancode ∧ m s ≠ keyReserved}.ncard = place

inductive MapStep (scanmask : UInt32) (m : KeyMapping) (ke : InputKeymapEntry) :
    Except Int UInt32 → KeyMapping → Prop
  | scancode (scancode : UInt32) (hkind : ke.byIndex = false) (hs : ke.scalar = some scancode) :
      MapStep scanmask m ke (.ok (m (maskScancode scanmask scancode)))
        (assign m (maskScancode scanmask scancode) ke.keycode)
  | index (scancode : UInt32) (hkind : ke.byIndex = true)
      (hnth : IsNth m ke.index.toNat scancode) :
      MapStep scanmask m ke (.ok (m scancode)) (assign m scancode ke.keycode)
  | badIndex (hkind : ke.byIndex = true) (hnone : ∀ scancode, ¬ IsNth m ke.index.toNat scancode) :
      MapStep scanmask m ke (.error einval) m
  | badLength (hkind : ke.byIndex = false) (hs : ke.scalar = none) :
      MapStep scanmask m ke (.error einval) m
  | noRoom (scancode : UInt32) (hkind : ke.byIndex = false) (hs : ke.scalar = some scancode)
      (habsent : m (maskScancode scanmask scancode) = keyReserved) :
      MapStep scanmask m ke (.error enomem) m

variable {t : RcMap} {dev : RcDev}

/-- The entries in front of one of them are the scancodes with a key below it. -/
theorem isNth_of_entries (hord : Ordered t) {before after : List RcMapTable} {e : RcMapTable}
    (hlist : t.entries = before ++ e :: after) : IsNth t.mapping before.length e.scancode := by
  have hasc := hord.ascending
  have hmem : e ∈ t.entries := by simp [hlist]
  have hkey : t.mapping e.scancode = e.keycode := mappingOf_of_mem hasc hmem
  have hsplit := hasc
  rw [hlist] at hsplit
  obtain ⟨-, hbelow, habove⟩ := hsplit.split
  refine ⟨hkey ▸ hord.keycode_ne hmem, ?_⟩
  have hset : {s | s < e.scancode ∧ t.mapping s ≠ keyReserved} =
      ((before.map RcMapTable.scancode).toFinset : Set UInt32) := by
    ext s
    simp only [Set.mem_ofPred_eq, coe_toFinset, List.mem_map]
    constructor
    · rintro ⟨hlt, hlive⟩
      obtain ⟨x, hx, rfl⟩ := mem_of_mappingOf hlive
      rw [hlist, mem_append, mem_cons] at hx
      rcases hx with hx | rfl | hx
      · exact ⟨x, hx, rfl⟩
      · exact absurd hlt (UInt32.lt_irrefl _)
      · exact absurd hlt (UInt32.lt_asymm (habove x hx))
    · rintro ⟨x, hx, rfl⟩
      have hx' : x ∈ t.entries := by simp [hlist, hx]
      refine ⟨hbelow x hx, ?_⟩
      rw [RcMap.mapping, mappingOf_of_mem hasc hx']
      exact hord.keycode_ne hx'
  have hnodup : (before.map RcMapTable.scancode).Nodup := by
    apply pairwise_map.mpr
    apply (pairwise_append.mp (hlist ▸ hasc)).1.imp
    intro a b hlt
    exact UInt32.ne_of_lt hlt
  rw [hset, Set.ncard_coe_finset, toFinset_card_of_nodup hnodup, length_map]

theorem not_isNth_of_len_le (hord : Ordered t) {place : Nat} (hplace : t.len ≤ place)
    (scancode : UInt32) : ¬ IsNth t.mapping place scancode := by
  rintro ⟨hlive, hcount⟩
  obtain ⟨e, hmem, rfl⟩ := mem_of_mappingOf hlive
  obtain ⟨before, after, hlist⟩ := append_of_mem hmem
  have hnth := (isNth_of_entries hord hlist).2
  have hlen := hord.length_entries
  simp only [hlist, length_append, length_cons] at hlen
  omega

theorem entries_at (hord : Ordered t) {index : Nat} (hlt : index < t.len) :
    ∃ before e after, t.entries = before ++ e :: after ∧ before.length = index := by
  have hi := hord.length_entries ▸ hlt
  refine ⟨t.entries.take index, t.entries[index], t.entries.drop (index + 1), ?_, ?_⟩
  · rw [← drop_eq_getElem_cons hi, take_append_drop]
  · rw [length_take, min_eq_left hi.le]

structure InUse (t : RcMap) : Prop extends Ordered t where
  size_pos : 0 < t.size

/-- One call is one step of the map; a call that answers an error changes nothing. -/
theorem irSetkeycode_mapStep (huse : InUse dev.rcMap) (ke : InputKeymapEntry)
    (room shrink : Kmalloc) :
    ∃ answer dev', irSetkeycode dev ke room shrink = some (answer, dev') ∧
      InUse dev'.rcMap ∧ dev'.scanmask = dev.scanmask ∧ (Advertised dev → Advertised dev') ∧
      MapStep dev.scanmask dev.rcMap.mapping ke answer dev'.rcMap.mapping := by
  have hord := huse.toOrdered
  cases hkind : ke.byIndex with
  | true =>
    rcases lt_or_ge ke.index.toNat dev.rcMap.len with hlt | hge
    · obtain ⟨before, e, after, hlist, hplace⟩ := entries_at hord hlt
      obtain ⟨dev', hupd, hassign, -⟩ := update_assigned hord hlist ke.keycode shrink
      have hnth := isNth_of_entries hord hlist
      rw [hplace] at hupd hnth
      refine ⟨.ok (dev.rcMap.mapping e.scancode), dev', ?_,
        ⟨hassign.ordered, hassign.size_pos⟩, hassign.scanmask, hassign.advertised, ?_⟩
      · simp [irSetkeycode, hkind, Nat.not_le.mpr hlt, hupd]
      · rw [hassign.mapping]
        exact .index e.scancode hkind hnth
    · refine ⟨.error einval, dev, ?_, huse, rfl, id, ?_⟩
      · simp [irSetkeycode, hkind, hge]
      · exact .badIndex hkind (not_isNth_of_len_le hord hge)
  | false =>
    rcases hs : ke.scalar with _ | scancode
    · refine ⟨.error einval, dev, ?_, huse, rfl, id, .badLength hkind hs⟩
      simp [irSetkeycode, hkind, hs]
    obtain ⟨index, dev1, hestablish, hcases⟩ := establish_assigned hord scancode true
      (fun _ => huse.size_pos) room ke.keycode shrink
    rcases hcases with ⟨rfl, hout, -, habs⟩ | ⟨hlt, dev', hupd, hassign, -⟩
    · refine ⟨.error enomem, dev1, ?_, huse, rfl, id, .noRoom scancode hkind hs habs⟩
      simp [irSetkeycode, hkind, hs, hestablish, hout]
    refine ⟨.ok (dev.rcMap.mapping (maskScancode dev.scanmask scancode)), dev', ?_,
      ⟨hassign.ordered, hassign.size_pos⟩, hassign.scanmask, hassign.advertised, ?_⟩
    · simp [irSetkeycode, hkind, hs, hestablish, Nat.not_le.mpr hlt, hupd]
    · rw [hassign.mapping]
      exact .scancode scancode hkind hs

theorem loaded_inUse (hfresh : dev.rcMap.len = 0) {keymap : List RcMapTable} {scan : Kmalloc}
    {shrinks : Nat → Kmalloc} {loaded : RcDev}
    (hload : irSetkeytable dev keymap scan shrinks = some (0, loaded)) :
    InUse loaded.rcMap ∧ loaded.scanmask = dev.scanmask ∧
      ((∀ keycode, dev.keybit keycode = false) → Advertised loaded) ∧
      loaded.rcMap.mapping = keymapMeaning dev.scanmask keymap := by
  have hkeymap : keymap ≠ [] := by
    rintro rfl
    simp [irSetkeytable, irCreateTable, roundupPowOfTwo] at hload
  have hsize : keymap.length ≠ 0 := fun h => hkeymap (length_eq_zero_iff.mp h)
  rcases scan with _ | cells
  · simp [irSetkeytable, irCreateTable_eq hsize, enomem] at hload
  obtain ⟨created, rc, dev', hmask, hcreated, -, -, hloaded, hset⟩ :=
    irSetkeytable_loaded hfresh hkeymap cells shrinks
  rw [hload] at hset
  obtain ⟨rfl, hdev⟩ := Prod.mk.inj (Option.some.inj hset)
  subst hdev
  refine ⟨⟨hloaded.ordered, hloaded.filled rfl hkeymap⟩, hloaded.scanmask.trans hmask,
    fun hbits => hloaded.advertised (hcreated hbits), ?_⟩
  rw [hloaded.mapping rfl, hmask, nil_append]

structure SetCall where
  ke : InputKeymapEntry
  room : Kmalloc
  shrink : Kmalloc

def setRun : RcDev → List SetCall → Option (List (Except Int UInt32) × RcDev)
  | dev, [] => some ([], dev)
  | dev, call :: rest => do
    let (answer, dev) ← irSetkeycode dev call.ke call.room call.shrink
    let (answers, dev) ← setRun dev rest
    some (answer :: answers, dev)

inductive MapRun (scanmask : UInt32) :
    KeyMapping → List SetCall → List (Except Int UInt32) → KeyMapping → Prop
  | nil (m : KeyMapping) : MapRun scanmask m [] [] m
  | cons {m m' m'' : KeyMapping} {call : SetCall} {rest : List SetCall}
      {answer : Except Int UInt32} {answers : List (Except Int UInt32)}
      (hstep : MapStep scanmask m call.ke answer m')
      (hrest : MapRun scanmask m' rest answers m'') :
      MapRun scanmask m (call :: rest) (answer :: answers) m''

theorem setRun_mapRun (huse : InUse dev.rcMap) (calls : List SetCall) :
    ∃ answers final, setRun dev calls = some (answers, final) ∧ InUse final.rcMap ∧
      final.scanmask = dev.scanmask ∧ (Advertised dev → Advertised final) ∧
      MapRun dev.scanmask dev.rcMap.mapping calls answers final.rcMap.mapping := by
  induction calls generalizing dev with
  | nil => exact ⟨[], dev, rfl, huse, rfl, id, .nil _⟩
  | cons call rest ih =>
    obtain ⟨answer, dev', hcall, huse', hmask', hkeep, hstep⟩ :=
      irSetkeycode_mapStep huse call.ke call.room call.shrink
    obtain ⟨answers, final, hrun, hfinal, hmask, hkeeps, hmaps⟩ := ih huse'
    rw [hmask'] at hmask hmaps
    refine ⟨answer :: answers, final, ?_, hfinal, hmask, fun h => hkeeps (hkeep h),
      MapRun.cons hstep hmaps⟩
    simp [setRun, hcall, hrun]

/-- The table of a device is well formed and its lookups read the map `m`. -/
structure HoldsMap (dev : RcDev) (m : KeyMapping) : Prop where
  ascending : dev.rcMap.entries.Pairwise (fun a b => a.scancode < b.scancode)
  len_le : dev.rcMap.len ≤ dev.rcMap.size
  size_eq : dev.rcMap.size = dev.rcMap.alloc / 8
  mapped : ∀ e ∈ dev.rcMap.entries, e.keycode ≠ keyReserved ∧ e.keycode ≠ keyUnknown
  keycode : ∀ scancode, rcGKeycodeFromTable dev scancode = some (m scancode)
  absent : ∀ scancode, m scancode = keyReserved →
    irLookupByScancode dev.rcMap scancode = some notFound
  present : ∀ scancode, m scancode ≠ keyReserved → ∃ index < dev.rcMap.len,
    irLookupByScancode dev.rcMap scancode = some index ∧
      dev.rcMap.entry index = some { scancode := scancode, keycode := m scancode }

theorem holdsMap_mapping (hord : Ordered dev.rcMap) : HoldsMap dev dev.rcMap.mapping where
  ascending := hord.ascending
  len_le := hord.len_le
  size_eq := hord.size_eq
  mapped := by
    intro e he
    have hkept := hord.mapped e he
    simpa [removes] using hkept
  keycode := rcGKeycodeFromTable_mapping hord
  absent := fun scancode => (irLookupByScancode_mapping hord scancode).1
  present := fun scancode => (irLookupByScancode_mapping hord scancode).2

/-- From a loaded keymap on, every sequence of calls runs through and leaves the
table of the map that the calls make of the keymap's meaning, whatever a resize
of the storage answers. -/
theorem key_table_is_map (dev : RcDev) (hfresh : dev.rcMap.len = 0) (keymap : List RcMapTable)
    (scan : Kmalloc) (shrinks : Nat → Kmalloc) (loaded : RcDev)
    (hload : irSetkeytable dev keymap scan shrinks = some (0, loaded)) (calls : List SetCall) :
    ∃ answers final m, setRun loaded calls = some (answers, final) ∧
      MapRun dev.scanmask (keymapMeaning dev.scanmask keymap) calls answers m ∧
      HoldsMap final m ∧
      ∀ newscan, ∃ ret t, irResizeTable final.rcMap newscan = some (ret, t) ∧
        HoldsMap { final with rcMap := t } m := by
  obtain ⟨huse, hmask, -, hmap⟩ := loaded_inUse hfresh hload
  obtain ⟨answers, final, hrun, hfinal, -, -, hmaps⟩ := setRun_mapRun huse calls
  rw [hmask, hmap] at hmaps
  refine ⟨answers, final, final.rcMap.mapping, hrun, hmaps, holdsMap_mapping hfinal.toOrdered, ?_⟩
  intro newscan
  obtain ⟨ret, t, hresize, hresized⟩ := irResizeTable_resized hfinal.toStored newscan
  have hentries := hresized.entries
  have hordered : Ordered t :=
    ⟨hresized.stored, hentries ▸ hfinal.ascending, hentries ▸ hfinal.mapped⟩
  refine ⟨ret, t, hresize, ?_⟩
  have hsame : t.mapping = final.rcMap.mapping := by rw [RcMap.mapping, RcMap.mapping, hentries]
  rw [← hsame]
  exact holdsMap_mapping hordered

/-- To scancodes 5 and 7 scancode 9 is added, in a larger table. Then 5 is removed by its
place, and a third place is asked for. -/
def sampleCalls : List SetCall :=
  [{ ke := { byIndex := false, index := 0, scalar := some 9, keycode := 30 },
     room := some zeroCells, shrink := none },
   { ke := { byIndex := true, index := 0, scalar := none, keycode := keyReserved },
     room := none, shrink := none },
   { ke := { byIndex := true, index := 2, scalar := none, keycode := 31 },
     room := none, shrink := none }]

theorem sample_calls_map :
    ∃ loaded, irSetkeytable (newDevice 0) [⟨5, 28⟩, ⟨7, 29⟩] (some zeroCells) (fun _ => none) =
        some (0, loaded) ∧
      ∃ answers final m, setRun loaded sampleCalls = some (answers, final) ∧
        MapRun 0 (keymapMeaning 0 [⟨5, 28⟩, ⟨7, 29⟩]) sampleCalls answers m ∧
        HoldsMap final m ∧
        ∀ newscan, ∃ ret t, irResizeTable final.rcMap newscan = some (ret, t) ∧
          HoldsMap { final with rcMap := t } m :=
  ⟨_, rfl, key_table_is_map (newDevice 0) rfl [⟨5, 28⟩, ⟨7, 29⟩] (some zeroCells) (fun _ => none)
    _ rfl sampleCalls⟩

/-- From an empty set of bits and a loaded keymap on, every sequence of calls runs through, and
the bit of a key is set exactly if an entry of the table has it. -/
theorem keybit_iff_mapped (dev : RcDev) (hfresh : dev.rcMap.len = 0)
    (hempty : ∀ keycode, dev.keybit keycode = false) (keymap : List RcMapTable) (scan : Kmalloc)
    (shrinks : Nat → Kmalloc) (loaded : RcDev)
    (hload : irSetkeytable dev keymap scan shrinks = some (0, loaded)) (calls : List SetCall) :
    ∃ answers final, setRun loaded calls = some (answers, final) ∧
      ∀ keycode ≠ keyReserved,
        final.keybit keycode = true ↔ ∃ e ∈ final.rcMap.entries, e.keycode = keycode := by
  obtain ⟨huse, -, hloaded, -⟩ := loaded_inUse hfresh hload
  obtain ⟨answers, final, hrun, -, -, hkeeps, -⟩ := setRun_mapRun huse calls
  refine ⟨answers, final, hrun, fun keycode hkey => ?_⟩
  rw [hkeeps (hloaded hempty) keycode hkey, List.mem_map]

theorem keybit_iff_mapped_sample :
    ∃ loaded, irSetkeytable (newDevice 0) [⟨5, 28⟩, ⟨7, 29⟩] (some zeroCells) (fun _ => none) =
        some (0, loaded) ∧
      ∃ answers final, setRun loaded sampleCalls = some (answers, final) ∧
        ∀ keycode ≠ keyReserved,
          final.keybit keycode = true ↔ ∃ e ∈ final.rcMap.entries, e.keycode = keycode :=
  ⟨_, rfl, keybit_iff_mapped (newDevice 0) rfl (fun _ => rfl) [⟨5, 28⟩, ⟨7, 29⟩] (some zeroCells)
    (fun _ => none) _ rfl sampleCalls⟩

section

variable {ke : InputKeymapEntry} {scancode : UInt32} (hkind : ke.byIndex = false)
  (hs : ke.scalar = some scancode)
include hkind hs

theorem irGetkeycode_keycode (hord : Ordered dev.rcMap) : ∃ answer,
    irGetkeycode dev ke = some (.ok answer) ∧ answer.keycode = dev.rcMap.mapping scancode := by
  obtain ⟨habs, hpresent⟩ := irLookupByScancode_mapping hord scancode
  by_cases hkey : dev.rcMap.mapping scancode = keyReserved
  · have hout := hord.len_le_notFound.not_gt
    refine ⟨⟨notFound, keyReserved, none⟩, ?_, hkey.symm⟩
    simp [irGetkeycode, hkind, hs, habs hkey, hout]
  obtain ⟨index, hlt, hloop, hentry⟩ := hpresent hkey
  refine ⟨⟨index, dev.rcMap.mapping scancode, some scancode⟩, ?_, rfl⟩
  simp [irGetkeycode, hkind, hs, hloop, hlt, hentry]

/-- A set masks the scancode and a read does not, so not every key is read back. -/
theorem key_read_back_iff (dev : RcDev) (huse : InUse dev.rcMap)
    (hkey : removes ke.keycode = false) (room shrink : Kmalloc) :
    ∃ ret next answer, irSetkeycode dev ke room shrink = some (ret, next) ∧
      irGetkeycode next ke = some (.ok answer) ∧ (answer.keycode = ke.keycode ↔
        ret.isOk ∧ maskScancode dev.scanmask scancode = scancode ∨
          dev.rcMap.mapping scancode = ke.keycode) := by
  obtain ⟨ret, next, hset, hnext, -, -, hstep⟩ := irSetkeycode_mapStep huse ke room shrink
  obtain ⟨answer, hget, hread⟩ := irGetkeycode_keycode hkind hs hnext.toOrdered
  refine ⟨ret, next, answer, hset, hget, ?_⟩
  rw [hread]
  generalize next.rcMap.mapping = m at hstep
  cases hstep with
  | scancode s _ hs' =>
    cases hs.symm.trans hs'
    rcases eq_or_ne (maskScancode dev.scanmask scancode) scancode with hsame | hmoved
    · simp [assign, hsame, hkey, Except.isOk, Except.toBool]
    · simp [assign, hmoved, hmoved.symm]
  | noRoom => simp [Except.isOk, Except.toBool]
  | _ => simp_all

end

theorem key_set_not_read_back : ∃ dev ke ret next answer,
    irSetkeycode dev ke none none = some (ret, next) ∧
      irGetkeycode next ke = some (.ok answer) ∧ answer.keycode ≠ ke.keycode := by
  obtain ⟨_, _, _, hset, hget, hiff⟩ := @key_read_back_iff ⟨false, 0, some 0x109, 30⟩ 0x109 rfl rfl
    ⟨⟨some zeroCells, 1, 0, 8⟩, 0xff, fun _ => false⟩
    ⟨⟨⟨⟨_, rfl⟩, by decide, rfl, by decide⟩, .nil, nofun⟩, by decide⟩ rfl none none
  refine ⟨_, _, _, _, _, hset, hget, fun hback => ?_⟩
  rcases hiff.mp hback with ⟨-, h⟩ | h <;> cases h

end TbsMedia.Rc
