import TbsMedia.Rc.KeyTableMap

/-!
Loading a keymap (`ir_setkeytable`) and freeing the table again. The table is
created with room for the whole keymap and filled without leave to grow, but an
entry that repeats a scancode runs the code that resizes the storage, so the
room can be gone before the keymap ends. A freed table keeps its number of
entries.
-/

namespace TbsMedia.Rc

open Lib List Option

/-- What a keymap means: the keycode of the last entry for a scancode, after masking. -/
def keymapMeaning (scanmask : UInt32) (keymap : List RcMapTable) : KeyMapping := fun scancode =>
  match keymap.reverse.find? (fun e => maskScancode scanmask e.scancode = scancode) with
  | none => keyReserved
  | some e => if removes e.keycode then keyReserved else e.keycode

theorem keymapMeaning_concat (scanmask : UInt32) (keymap : List RcMapTable) (e : RcMapTable) :
    keymapMeaning scanmask (keymap ++ [e]) =
      assign (keymapMeaning scanmask keymap) (maskScancode scanmask e.scancode) e.keycode := by
  funext scancode
  simp only [keymapMeaning, reverse_append, reverse_cons, reverse_nil,
    nil_append, cons_append, List.find?_cons, assign, Function.update_apply]
  by_cases hs : maskScancode scanmask e.scancode = scancode
  · simp [hs]
  · simp [hs, eq_comm (a := scancode)]

def liveScancodes (scanmask : UInt32) (keymap : List RcMapTable) : List UInt32 :=
  (keymap.map (fun e => maskScancode scanmask e.scancode)).dedup.filter
    (fun scancode => keymapMeaning scanmask keymap scancode ≠ keyReserved)

/-- Whether a table of `alloc` bytes that has taken in `past` has room for every
further entry: one for a scancode without a key needs a free slot, one for a
scancode with a key resizes the storage. -/
def roomFor (scanmask : UInt32) : Nat → List RcMapTable → List RcMapTable → Bool
  | _, _, [] => true
  | alloc, past, e :: rest =>
    if keymapMeaning scanmask past (maskScancode scanmask e.scancode) = keyReserved then
      decide ((liveScancodes scanmask past).length < alloc / entrySize) &&
        roomFor scanmask alloc (past ++ [e]) rest
    else
      roomFor scanmask (nextAlloc alloc (liveScancodes scanmask (past ++ [e])).length)
        (past ++ [e]) rest

variable {keymap : List RcMapTable}

theorem mem_liveScancodes {scanmask : UInt32} {scancode : UInt32} :
    scancode ∈ liveScancodes scanmask keymap ↔
      keymapMeaning scanmask keymap scancode ≠ keyReserved := by
  simp only [liveScancodes, mem_filter, mem_dedup, decide_eq_true_eq, and_iff_right_iff_imp]
  intro hlive
  rw [keymapMeaning] at hlive
  rcases hfound : keymap.reverse.find? (fun e => maskScancode scanmask e.scancode = scancode)
    with _ | e
  · simp [hfound] at hlive
  · have hkey := List.find?_some hfound
    exact List.mem_map.mpr ⟨e, mem_reverse.mp (List.mem_of_find?_eq_some hfound),
      by simpa using hkey⟩

variable {t : RcMap}

/-- A table that holds the meaning of a keymap has one entry for each live scancode. -/
theorem Ordered.len_eq (hord : Ordered t) {scanmask : UInt32}
    (hmap : t.mapping = keymapMeaning scanmask keymap) :
    t.len = (liveScancodes scanmask keymap).length := by
  have hperm : (t.entries.map RcMapTable.scancode).Perm (liveScancodes scanmask keymap) := by
    apply (perm_ext_iff_of_nodup ?_ ?_).mpr
    · intro scancode
      rw [mem_liveScancodes, ← hmap]
      constructor
      · intro hmem
        obtain ⟨e, he, rfl⟩ := List.mem_map.mp hmem
        rw [RcMap.mapping, mappingOf_of_mem hord.ascending he]
        exact hord.keycode_ne he
      · intro hlive
        obtain ⟨e, he, hs⟩ := mem_of_mappingOf hlive
        exact List.mem_map.mpr ⟨e, he, hs⟩
    · apply pairwise_map.mpr
      apply hord.ascending.imp
      intro a b hlt
      exact UInt32.ne_of_lt hlt
    · exact (nodup_dedup _).filter _
  rw [← hperm.length_eq, length_map, hord.length_entries]

structure Loaded (dev : RcDev) (past rest : List RcMapTable) (shrinks : Nat → Kmalloc)
    (rc : Int) (dev' : RcDev) : Prop where
  ordered : Ordered dev'.rcMap
  scanmask : dev'.scanmask = dev.scanmask
  advertised : Advertised dev → Advertised dev'
  mapping : rc = 0 → dev'.rcMap.mapping = keymapMeaning dev.scanmask (past ++ rest)
  filled : rc = 0 → rest ≠ [] → 0 < dev'.rcMap.size
  full : rc ≠ 0 → rc = enomem ∧ dev'.rcMap.size = dev'.rcMap.len
  size_pos : 0 < dev.rcMap.size → 0 < dev'.rcMap.size
  empty : dev.rcMap.size = 0 → rc ≠ 0 → dev'.rcMap.len = 0
  room : (∀ i, (shrinks i).isSome) →
    (rc = 0 ↔ roomFor dev.scanmask dev.rcMap.alloc past rest = true)

variable {dev : RcDev}

theorem setkeytableLoop_loaded (hord : Ordered dev.rcMap) {past : List RcMapTable}
    (hmap : dev.rcMap.mapping = keymapMeaning dev.scanmask past) (shrinks : Nat → Kmalloc) (i : Nat)
    (rest : List RcMapTable) :
    ∃ rc dev', setkeytableLoop shrinks dev i rest = some (rc, dev') ∧
      Loaded dev past rest shrinks rc dev' := by
  induction rest generalizing dev past i with
  | nil =>
    refine ⟨0, dev, rfl, hord, rfl, id, fun _ => ?_, by simp, by simp, fun h => h, by simp, ?_⟩
    · rw [append_nil, hmap]
    · simp [roomFor]
  | cons e rest ih =>
    obtain ⟨index, dev1, hestablish, hcases⟩ := establish_assigned hord e.scancode false
      (by simp) none e.keycode (shrinks i)
    rcases hcases with ⟨rfl, hout, hfull, habs⟩ | ⟨hlt, dev2, hupd, hassign, halloc⟩
    · refine ⟨enomem, dev1, ?_, hord, rfl, id, by simp [enomem], by simp [enomem],
        fun _ => ⟨rfl, hfull⟩, fun h => h, fun hzero _ => by omega, ?_⟩
      · simp [setkeytableLoop, hestablish, hout]
      intro _
      have hlen := hord.len_eq hmap
      have hsize := hord.size_eq
      rw [hmap] at habs
      have hno : ¬ (liveScancodes dev1.scanmask past).length <
          dev1.rcMap.alloc / entrySize := by omega
      simp [enomem, roomFor, habs, hno]
    · have hmap2 : dev2.rcMap.mapping = keymapMeaning dev2.scanmask (past ++ [e]) := by
        rw [hassign.mapping, hassign.scanmask, hmap, keymapMeaning_concat]
      obtain ⟨rc, dev', hloop, hload⟩ := ih hassign.ordered hmap2 (i + 1)
      refine ⟨rc, dev', ?_, hload.ordered, hload.scanmask.trans hassign.scanmask,
        fun h => hload.advertised (hassign.advertised h), ?_,
        fun _ _ => hload.size_pos hassign.size_pos, hload.full,
        fun _ => hload.size_pos hassign.size_pos,
        fun hzero => absurd hassign.had_size (by omega), ?_⟩
      · simp [setkeytableLoop, hestablish, Nat.not_le.mpr hlt, hupd, hloop]
      · intro hzero
        rw [hload.mapping hzero, hassign.scanmask, append_assoc]
        rfl
      · intro hshrinks
        have hstorage := halloc rfl (hshrinks i)
        have hlen := hord.len_eq hmap
        have hlen2 := hassign.ordered.len_eq hmap2
        have hsize := hord.size_eq
        rw [hassign.scanmask] at hlen2
        rw [hload.room hshrinks, hassign.scanmask, roomFor, ← hmap]
        split_ifs at hstorage ⊢ with habs
        · have hfree : (liveScancodes dev.scanmask past).length <
              dev.rcMap.alloc / entrySize := by omega
          rw [hstorage.2, decide_eq_true hfree, Bool.true_and]
        · rw [hstorage, hlen2]

/-! Creating and freeing the storage -/

/-- The bytes `ir_create_table` asks for; a keymap of more than `2 ^ 28` entries
overflows the `unsigned int`. -/
def createdAlloc (size : Nat) : Nat := 2 ^ Nat.clog 2 (size * entrySize) % 2 ^ 32

variable {size : Nat}

theorem createdAlloc_eq_zero_iff : createdAlloc size = 0 ↔ 2 ^ 28 < size := by
  have hclog : Nat.clog 2 (size * entrySize) ≤ 31 ↔ size ≤ 2 ^ 28 := by
    rw [Nat.clog_le_iff_le_pow (by norm_num), entrySize]
    omega
  unfold createdAlloc
  rcases lt_or_ge (2 ^ 28) size with hlarge | hsmall
  · have hge : 32 ≤ Nat.clog 2 (size * entrySize) := by omega
    simp only [hlarge, iff_true]
    exact Nat.mod_eq_zero_of_dvd (Nat.pow_dvd_pow 2 hge)
  have hle : Nat.clog 2 (size * entrySize) ≤ 31 := by omega
  have hlt : 2 ^ Nat.clog 2 (size * entrySize) < 2 ^ 32 :=
    Nat.pow_lt_pow_right (by norm_num) (by omega)
  rw [Nat.mod_eq_of_lt hlt]
  have hpos : 0 < 2 ^ Nat.clog 2 (size * entrySize) := Nat.two_pow_pos _
  omega

theorem createdAlloc_div_pos (hsize : size ≠ 0) (hpos : createdAlloc size ≠ 0) :
    0 < createdAlloc size / entrySize := by
  have hsmall : size ≤ 2 ^ 28 := by
    by_contra hlarge
    exact hpos (createdAlloc_eq_zero_iff.mpr (by omega))
  have hlt : 2 ^ Nat.clog 2 (size * entrySize) < 2 ^ 32 := by
    apply Nat.pow_lt_pow_right (by norm_num)
    apply Nat.lt_succ_of_le
    rw [Nat.clog_le_iff_le_pow (by norm_num), entrySize]
    omega
  have hle := Nat.le_pow_clog (b := 2) (by norm_num) (size * entrySize)
  unfold createdAlloc
  rw [Nat.mod_eq_of_lt hlt]
  simp only [entrySize] at hle ⊢
  omega

/-- The table `ir_create_table` leaves behind. -/
def createdTable (t : RcMap) (size : Nat) (scan : Kmalloc) : RcMap :=
  { t with alloc := createdAlloc size, size := createdAlloc size / entrySize, scan := scan }

theorem irCreateTable_eq (hsize : size ≠ 0) (scan : Kmalloc) :
    irCreateTable t size scan =
      some (if scan.isNone then enomem else 0, createdTable t size scan) := by
  have hbytes : roundupPowOfTwo (size * entrySize) = some (2 ^ Nat.clog 2 (size * entrySize)) := by
    simp [roundupPowOfTwo, entrySize, hsize]
  simp only [irCreateTable, hbytes, bind_eq_bind, bind_some, createdTable, createdAlloc]
  split <;> rfl

theorem entries_created (hfresh : t.len = 0) (size : Nat) (cells : Mem RcMapTable) :
    (createdTable t size (some cells)).entries = [] := by
  simp [RcMap.entries, createdTable, hfresh]

theorem ordered_created (hfresh : t.len = 0) (size : Nat) (cells : Mem RcMapTable) :
    Ordered (createdTable t size (some cells)) := by
  have hempty := entries_created hfresh size cells
  have hlen : t.len ≤ createdAlloc size / entrySize := hfresh ▸ Nat.zero_le _
  refine ⟨⟨⟨cells, rfl⟩, hlen, rfl, Nat.mod_lt _ (by norm_num)⟩, ?_, ?_⟩
  · rw [hempty]
    exact List.Pairwise.nil
  · simp [hempty]

theorem irSetkeytable_loaded (hfresh : dev.rcMap.len = 0) (hkeymap : keymap ≠ [])
    (cells : Mem RcMapTable) (shrinks : Nat → Kmalloc) :
    ∃ created rc dev', created.scanmask = dev.scanmask ∧
      ((∀ keycode, dev.keybit keycode = false) → Advertised created) ∧
      created.rcMap.alloc = createdAlloc keymap.length ∧
      created.rcMap.size = createdAlloc keymap.length / entrySize ∧
      Loaded created [] keymap shrinks rc dev' ∧
      irSetkeytable dev keymap (some cells) shrinks =
        some (rc, if rc ≠ 0 then { dev' with rcMap := irFreeTable dev'.rcMap } else dev') := by
  have hsize : keymap.length ≠ 0 := fun h => hkeymap (length_eq_zero_iff.mp h)
  let table := createdTable dev.rcMap keymap.length (some cells)
  let created : RcDev := { dev with rcMap := table }
  have hcreate : irCreateTable dev.rcMap keymap.length (some cells) = some (0, table) :=
    irCreateTable_eq hsize (some cells)
  have hord := ordered_created hfresh keymap.length cells
  have hempty : created.rcMap.entries = [] := entries_created hfresh keymap.length cells
  have hmap : created.rcMap.mapping = keymapMeaning created.scanmask [] := by
    funext scancode
    apply mappingOf_absent
    simp [hempty]
  obtain ⟨rc, dev', hloop, hload⟩ := setkeytableLoop_loaded hord hmap shrinks 0 keymap
  refine ⟨created, rc, dev', rfl, fun hbits keycode _ => ?_, rfl, rfl, hload, ?_⟩
  · rw [hempty]
    simpa using hbits keycode
  have hloop' : setkeytableLoop shrinks { dev with rcMap := table } 0 keymap =
      some (rc, dev') := hloop
  simp only [irSetkeytable, hcreate, bind_eq_bind, bind_some, ne_eq,
    not_true_eq_false, if_false, hloop']
  split <;> rfl

def NoneFound (dev : RcDev) : Prop :=
  ∀ scancode, irLookupByScancode dev.rcMap scancode = some notFound ∧
    rcGKeycodeFromTable dev scancode = some keyReserved

/-- A table that has counted entries and no storage is searched through NULL. -/
theorem noneFound_without_storage (hscan : dev.rcMap.scan = none) :
    NoneFound dev ↔ dev.rcMap.len = 0 := by
  constructor
  · intro hnone
    by_contra hlen
    have hread : irLookupByScancode dev.rcMap 0 = none := by
      have hwindow : (0 : Int) ≤ (dev.rcMap.len : Int) - 1 := by omega
      simp only [irLookupByScancode, lookupLoop, hwindow, if_true, RcMap.entry, hscan,
        map_none, bind_eq_bind, bind_none]
    have hfound := (hnone 0).1
    simp [hread] at hfound
  · intro hlen scancode
    have hlook : irLookupByScancode dev.rcMap scancode = some notFound := by
      simp [irLookupByScancode, lookupLoop, hlen]
    exact ⟨hlook, by simp [rcGKeycodeFromTable, hlook, hlen]⟩

def LoadMeans (dev : RcDev) (keymap : List RcMapTable) (scan : Kmalloc)
    (shrinks : Nat → Kmalloc) : Prop :=
  ∃ loaded, irSetkeytable dev keymap scan shrinks = some (0, loaded) ∧
    ∀ scancode,
      rcGKeycodeFromTable loaded scancode = some (keymapMeaning dev.scanmask keymap scancode) ∧
      (keymapMeaning dev.scanmask keymap scancode = keyReserved →
        irLookupByScancode loaded.rcMap scancode = some notFound)

theorem loadMeans_iff_roomFor (hfresh : dev.rcMap.len = 0) (hkeymap : keymap ≠ [])
    (cells : Mem RcMapTable) (shrinks : Nat → Mem RcMapTable) :
    LoadMeans dev keymap (some cells) (fun i => some (shrinks i)) ↔
      roomFor dev.scanmask (createdAlloc keymap.length) [] keymap = true := by
  obtain ⟨created, rc, dev', hmask, -, halloc, -, hload, hset⟩ :=
    irSetkeytable_loaded hfresh hkeymap cells (fun i => some (shrinks i))
  rw [← hmask, ← halloc, ← hload.room (fun _ => rfl)]
  constructor
  · rintro ⟨loaded, hzero, -⟩
    rw [hset] at hzero
    exact congrArg Prod.fst (Option.some.inj hzero)
  intro hzero
  rw [hzero] at hset
  refine ⟨dev', hset, ?_⟩
  intro scancode
  have hmap := hload.mapping hzero
  rw [nil_append, hmask] at hmap
  rw [← hmap]
  exact ⟨rcGKeycodeFromTable_mapping hload.ordered scancode,
    (irLookupByScancode_mapping hload.ordered scancode).1⟩

/-- After a failed load the table is gone and its entries are still counted,
unless it never had one. -/
theorem noneFound_of_failed_load_iff (hfresh : dev.rcMap.len = 0) (hkeymap : keymap ≠ [])
    {scan : Kmalloc} {shrinks : Nat → Kmalloc} {rc : Int} {failed : RcDev}
    (hset : irSetkeytable dev keymap scan shrinks = some (rc, failed)) (hrc : rc ≠ 0) :
    NoneFound failed ↔ scan = none ∨ 2 ^ 28 < keymap.length := by
  have hsize : keymap.length ≠ 0 := fun h => hkeymap (length_eq_zero_iff.mp h)
  cases scan with
  | none =>
    have hcreate := irCreateTable_eq (t := dev.rcMap) hsize none
    simp only [irSetkeytable, hcreate, isNone_none, if_true, bind_eq_bind,
      bind_some, enomem, ne_eq, Int.reduceNeg, Int.reduceEq, not_false_eq_true,
      Option.some.injEq, Prod.mk.injEq] at hset
    obtain ⟨-, rfl⟩ := hset
    rw [noneFound_without_storage rfl]
    simp [createdTable, hfresh]
  | some cells =>
    obtain ⟨created, rc', dev', -, -, -, hcreated, hload, hset'⟩ :=
      irSetkeytable_loaded hfresh hkeymap cells shrinks
    rw [hset] at hset'
    obtain ⟨rfl, hfail⟩ := Prod.mk.inj (Option.some.inj hset')
    rw [if_pos hrc] at hfail
    subst hfail
    have hfull := (hload.full hrc).2
    rw [noneFound_without_storage rfl, ← createdAlloc_eq_zero_iff]
    simp only [irFreeTable, reduceCtorEq, false_or]
    constructor
    · intro hlen
      by_contra hpos
      have hroom := hload.size_pos (hcreated ▸ createdAlloc_div_pos hsize hpos)
      omega
    · intro hzero
      exact hload.empty (by rw [hcreated, hzero, Nat.zero_div]) hrc

/-- A keymap is loaded with its meaning exactly when the storage always has room
for it. A table that is freed, by a failed load or later, answers lookups
exactly when it counts no entry. -/
theorem load_and_free_iff (dev : RcDev) (hfresh : dev.rcMap.len = 0) (keymap : List RcMapTable)
    (hkeymap : keymap ≠ []) :
    (∀ (cells : Mem RcMapTable) (shrinks : Nat → Mem RcMapTable),
        LoadMeans dev keymap (some cells) (fun i => some (shrinks i)) ↔
          roomFor dev.scanmask (createdAlloc keymap.length) [] keymap = true) ∧
      (∀ scan shrinks rc failed, irSetkeytable dev keymap scan shrinks = some (rc, failed) →
        rc ≠ 0 → (NoneFound failed ↔ scan = none ∨ 2 ^ 28 < keymap.length)) ∧
      ∀ freed : RcDev, NoneFound { freed with rcMap := irFreeTable freed.rcMap } ↔
        freed.rcMap.len = 0 := by
  refine ⟨?_, ?_, ?_⟩
  · intro cells shrinks
    exact loadMeans_iff_roomFor hfresh hkeymap cells shrinks
  · intro scan shrinks rc failed hset hrc
    exact noneFound_of_failed_load_iff hfresh hkeymap hset hrc
  intro freed
  rw [noneFound_without_storage rfl]
  rfl

/-- A new device: everything zero, as `kzalloc` leaves it. -/
def newDevice (scanmask : UInt32) : RcDev where
  rcMap := { scan := none, size := 0, len := 0, alloc := 0 }
  scanmask := scanmask
  keybit := fun _ => false

def zeroCells : Mem RcMapTable := fun _ => { scancode := 0, keycode := 0 }

def keymapOf (scancodes : List UInt32) : List RcMapTable :=
  scancodes.map (fun scancode => { scancode := scancode, keycode := 2 })

theorem three_scancodes_load :
    LoadMeans (newDevice 0) (keymapOf [3, 1, 2]) (some zeroCells) (fun _ => some zeroCells) ∧
      (∃ failed, irSetkeytable (newDevice 0) (keymapOf [3, 1, 2]) none (fun _ => none) =
        some (enomem, failed) ∧ NoneFound failed) ∧
      NoneFound { newDevice 0 with rcMap := irFreeTable (newDevice 0).rcMap } := by
  obtain ⟨hload, hfail, hfree⟩ :=
    load_and_free_iff (newDevice 0) rfl (keymapOf [3, 1, 2]) (by decide)
  refine ⟨(hload zeroCells (fun _ => zeroCells)).mpr (by decide +kernel), ⟨_, rfl, ?_⟩,
    (hfree (newDevice 0)).mpr rfl⟩
  exact (hfail none (fun _ => none) enomem _ rfl (by decide)).mpr (.inl rfl)

/-- Scancode 1 twice and then 2 to 33: the repetition halves the storage of 64
entries and the last scancode finds it full. -/
def repeatingKeymap : List RcMapTable :=
  keymapOf (1 :: (List.range 33).map (fun i => .ofNat (i + 1)))

/-- The load fails, and the lookups behind it read through NULL. -/
theorem repeating_keymap_fails :
    ∃ failed, irSetkeytable (newDevice 0) repeatingKeymap (some zeroCells)
        (fun _ => some zeroCells) = some (enomem, failed) ∧ ¬ NoneFound failed := by
  have hfresh : (newDevice 0).rcMap.len = 0 := rfl
  have hne : repeatingKeymap ≠ [] := by decide
  have hlen : ¬ (some zeroCells = none ∨ 2 ^ 28 < repeatingKeymap.length) := by decide
  have hroom : roomFor 0 (createdAlloc repeatingKeymap.length) [] repeatingKeymap = false := by
    decide +kernel
  obtain ⟨created, rc, dev', hmask, -, halloc, -, hloaded, hset⟩ :=
    irSetkeytable_loaded hfresh hne zeroCells (fun _ => some zeroCells)
  have hrc : rc ≠ 0 := by
    intro hzero
    have hfits := (hloaded.room (fun _ => rfl)).mp hzero
    rw [hmask, halloc] at hfits
    exact absurd (hroom.symm.trans hfits) (by decide)
  obtain ⟨rfl, -⟩ := hloaded.full hrc
  have hfailed := noneFound_of_failed_load_iff hfresh hne hset hrc
  exact ⟨_, hset, fun hnone => hlen (hfailed.mp hnone)⟩

end TbsMedia.Rc
