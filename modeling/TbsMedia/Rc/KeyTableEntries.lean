import TbsMedia.Rc.KeyTable

/-!
What the operations of the scancode table do to its list of entries. The
storage is grown, shrunk and moved behind it, whatever the allocations of a
resize answer.
-/

namespace TbsMedia.Rc

open Lib List Option RcMap Mem Function Nat

def RcMapTable.key (e : RcMapTable) : Nat := e.scancode.toNat

def RcMap.entries (t : RcMap) : List RcMapTable :=
  match t.scan with
  | none => []
  | some cells => cells.read 0 t.len

structure Stored (t : RcMap) : Prop where
  scan : ∃ cells, t.scan = some cells
  len_le : t.len ≤ t.size
  size_eq : t.size = t.alloc / entrySize
  alloc_lt : t.alloc < 2 ^ 32

variable {t : RcMap} {cells : Mem RcMapTable}

theorem RcMap.entries_of_scan (hscan : t.scan = some cells) : t.entries = cells.read 0 t.len := by
  simp [entries, hscan]

theorem Stored.length_entries (hstore : Stored t) : t.entries.length = t.len := by
  obtain ⟨cells, hscan⟩ := hstore.scan
  rw [entries_of_scan hscan, length_read]

variable {before after : List RcMapTable} {e : RcMapTable}

theorem cells_split (hscan : t.scan = some cells) (hlist : t.entries = before ++ after) :
    before.length ≤ t.len ∧ before = cells.read 0 before.length ∧
      after = cells.read before.length (t.len - before.length) := by
  rw [entries_of_scan hscan] at hlist
  have hlen := congrArg List.length hlist
  rw [length_read, length_append] at hlen
  have hi : before.length ≤ t.len := by omega
  have hcut := read_add cells 0 before.length (t.len - before.length)
  rw [Nat.add_sub_cancel' hi, zero_add] at hcut
  rw [hcut] at hlist
  have hparts := append_inj hlist (by simp)
  exact ⟨hi, hparts.1.symm, hparts.2.symm⟩

theorem cells_around (hscan : t.scan = some cells) (hlist : t.entries = before ++ e :: after) :
    before.length < t.len ∧ before = cells.read 0 before.length ∧ e = cells before.length ∧
      after = cells.read (before.length + 1) (t.len - 1 - before.length) := by
  obtain ⟨-, hpre, hafter⟩ := cells_split hscan hlist
  have hlen := congrArg List.length hafter
  rw [length_cons, length_read] at hlen
  rw [show t.len - before.length = t.len - 1 - before.length + 1 by omega, read_cons_cell] at hafter
  exact ⟨by omega, hpre, List.cons.inj hafter⟩

/-! Resizing -/

/-- The size in bytes that a resize of a table with `len` entries aims at. -/
def nextAlloc (alloc len : Nat) : Nat :=
  if alloc / entrySize = len then if irTabMaxSize ≤ alloc then alloc else alloc * 2
  else if len * 3 < alloc / entrySize ∧ irTabMinSize < alloc then alloc / 2 else alloc

structure Resized (t : RcMap) (newscan : Kmalloc) (ret : Int) (t' : RcMap) : Prop where
  stored : Stored t'
  entries : t'.entries = t.entries
  fails : ret ≠ 0 → t' = t
  room : ret = 0 → t.size = t.len → 0 < t.size → t'.len < t'.size
  size_pos : 0 < t.size → 0 < t'.size
  alloc : newscan.isSome → t'.alloc = nextAlloc t.alloc t.len

theorem nextAlloc_bounds {alloc len : Nat} (hroom : len ≤ alloc / entrySize)
    (halloc : alloc < 2 ^ 32) :
    nextAlloc alloc len < 2 ^ 32 ∧ len ≤ nextAlloc alloc len / entrySize ∧
      (0 < alloc / entrySize → 0 < nextAlloc alloc len / entrySize) ∧
      (alloc / entrySize = len → alloc < irTabMaxSize → 0 < alloc / entrySize →
        len < nextAlloc alloc len / entrySize) := by
  unfold nextAlloc
  split_ifs <;> simp only [entrySize, irTabMaxSize, irTabMinSize] at * <;>
    refine ⟨?_, ?_, ?_, ?_⟩ <;> omega

theorem entries_moved (hstore : Stored t) (cells : Mem RcMapTable) (alloc size : Nat) :
    ∃ old, t.readScan 0 t.len = some old ∧
      RcMap.entries { t with scan := some (cells.memcpy 0 old), alloc := alloc, size := size } =
        t.entries := by
  obtain ⟨oldcells, hscan⟩ := hstore.scan
  have hlist := entries_of_scan hscan
  refine ⟨t.entries, ?_, ?_⟩
  · by_cases hlen : t.len = 0
    · simp [readScan, hlist, hlen]
    · simp [readScan, hlist, hlen, hscan]
  · have hcopy := read_memcpy_self cells 0 t.entries
    rw [hstore.length_entries] at hcopy
    exact hcopy

theorem irResizeTable_resized (hstore : Stored t) (newscan : Kmalloc) :
    ∃ ret t', irResizeTable t newscan = some (ret, t') ∧ Resized t newscan ret t' := by
  have hsize := hstore.size_eq
  have hlen := hstore.len_le
  have halloc := hstore.alloc_lt
  have hbounds := nextAlloc_bounds (hsize ▸ hlen) halloc
  have hmod : t.len * 3 % 2 ^ 32 = t.len * 3 := by
    apply mod_eq_of_lt
    rw [entrySize] at hsize
    omega
  have hsame (ret : Int) (hfull : ret = 0 → t.size = t.len → 0 < t.size → t.len < t.size)
      (hnext : newscan.isSome → t.alloc = nextAlloc t.alloc t.len) : Resized t newscan ret t :=
    ⟨hstore, rfl, fun _ => rfl, hfull, fun h => h, hnext⟩
  by_cases hmax : t.size = t.len ∧ irTabMaxSize ≤ t.alloc
  · refine ⟨enomem, t, by simp [irResizeTable, hmax], hsame enomem (by simp [enomem]) ?_⟩
    intro _
    rw [nextAlloc, if_pos (hsize ▸ hmax.1), if_pos hmax.2]
  have hnew : (if t.len * 3 % 2 ^ 32 < t.size ∧ irTabMinSize < t.alloc then
      (if t.size = t.len then t.alloc * 2 else t.alloc) / 2
      else if t.size = t.len then t.alloc * 2 else t.alloc) = nextAlloc t.alloc t.len := by
    rw [hmod, nextAlloc, ← hsize]
    by_cases hfull : t.size = t.len
    · rw [if_pos hfull, if_pos hfull, if_neg (fun h => hmax ⟨hfull, h⟩), if_neg (by omega)]
    · rw [if_neg hfull, if_neg hfull]
  by_cases hkeep : nextAlloc t.alloc t.len = t.alloc
  · refine ⟨0, t, by simp only [irResizeTable, hmax, hnew, hkeep, if_false, if_true], ?_⟩
    apply hsame 0
    · intro _ hfull hpos
      have hgrow := hbounds.2.2.2 (hsize ▸ hfull) (by omega) (hsize ▸ hpos)
      rwa [hkeep, ← hsize] at hgrow
    · intro _
      exact hkeep.symm
  · rcases newscan with _ | cells
    · refine ⟨enomem, t, by simp only [irResizeTable, hmax, hnew, hkeep, if_false], ?_⟩
      exact hsame enomem (by simp [enomem]) (by simp)
    obtain ⟨old, hold, hlist⟩ := entries_moved hstore cells
      (nextAlloc t.alloc t.len) (nextAlloc t.alloc t.len / entrySize)
    refine ⟨0, _, by simp only [irResizeTable, hmax, hnew, hkeep, if_false, hold]; rfl,
      ⟨⟨_, rfl⟩, hbounds.2.1, rfl, hbounds.1⟩, hlist, by simp, ?_, ?_, fun _ => rfl⟩
    · intro _ hfull hpos
      exact hbounds.2.2.2 (hsize ▸ hfull) (by omega) (hsize ▸ hpos)
    · intro hpos
      exact hbounds.2.2.1 (hsize ▸ hpos)

/-! Updating one mapping -/

theorem keycodeUsed_eq (hscan : t.scan = some cells) (keycode : UInt32) (left i : Nat) :
    keycodeUsed t keycode left i =
      some (decide (keycode ∈ (cells.read i left).map RcMapTable.keycode)) := by
  induction left generalizing i with
  | zero => rfl
  | succ left ih =>
    rw [read_cons_cell]
    simp only [keycodeUsed, entry, hscan, map_some, bind_eq_bind, bind_some]
    split_ifs with hfound
    · simp [hfound]
    · rw [ih, map_cons]
      simp [Ne.symm hfound]

/-- The entries once the one between `before` and `after` has been given a keycode. -/
def updated (before after : List RcMapTable) (e : RcMapTable) (keycode : UInt32) :
    List RcMapTable :=
  if removes keycode then before ++ after else before ++ { e with keycode := keycode } :: after

variable {dev : RcDev}

theorem storeMapping_entries (hscan : dev.rcMap.scan = some cells)
    (hlist : dev.rcMap.entries = before ++ e :: after) (keycode : UInt32) :
    (storeMapping dev cells before.length keycode).rcMap.entries =
      updated before after e keycode := by
  obtain ⟨hi, hpre, he, hafter⟩ := cells_around hscan hlist
  unfold storeMapping updated
  by_cases hrem : removes keycode = true
  · rw [if_pos hrem, if_pos hrem]
    simp only [entries]
    rw [read_move_down cells dev.rcMap.len before.length hi, ← hpre, ← hafter]
  · rw [if_neg hrem, if_neg hrem]
    simp only [entries]
    rw [read_update cells dev.rcMap.len before.length _ hi, ← hpre, ← hafter, ← he]

theorem storeMapping_stored (hstore : Stored dev.rcMap) (cells : Mem RcMapTable) (index : Nat)
    (keycode : UInt32) : Stored (storeMapping dev cells index keycode).rcMap := by
  unfold storeMapping
  split
  · exact ⟨⟨_, rfl⟩, (sub_le _ _).trans hstore.len_le, hstore.size_eq, hstore.alloc_lt⟩
  · exact ⟨⟨_, rfl⟩, hstore.len_le, hstore.size_eq, hstore.alloc_lt⟩

theorem storeMapping_frame (dev : RcDev) (cells : Mem RcMapTable) (index : Nat) (keycode : UInt32) :
    (storeMapping dev cells index keycode).scanmask = dev.scanmask ∧
      (storeMapping dev cells index keycode).rcMap.alloc = dev.rcMap.alloc ∧
      (storeMapping dev cells index keycode).rcMap.size = dev.rcMap.size := by
  unfold storeMapping
  split <;> exact ⟨rfl, rfl, rfl⟩

/-- The input device advertises the keys of the table. -/
def Advertised (dev : RcDev) : Prop :=
  ∀ keycode ≠ keyReserved,
    dev.keybit keycode = true ↔ keycode ∈ dev.rcMap.entries.map RcMapTable.keycode

/-- Where the bit of the old keycode is right, those of the others follow. -/
theorem Advertised.updated (hadvertised : Advertised dev)
    (hlist : dev.rcMap.entries = before ++ e :: after) {keycode : UInt32} {dev' : RcDev}
    (hnew : dev'.rcMap.entries = updated before after e keycode) (hold : e.keycode ≠ keyReserved →
      (dev'.keybit e.keycode = true ↔ e.keycode ∈ dev'.rcMap.entries.map RcMapTable.keycode))
    (hbits : ∀ k ≠ e.keycode,
      dev'.keybit k = (storeMapping dev cells before.length keycode).keybit k) :
    Advertised dev' := by
  intro k hk
  rcases eq_or_ne k e.keycode with rfl | hsame
  · exact hold hk
  have hiff := hadvertised k hk
  rw [hlist, map_append, map_cons, mem_append, mem_cons,
    or_iff_right hsame, ← mem_append, ← map_append] at hiff
  rw [hbits k hsame, hnew]
  unfold storeMapping Rc.updated
  split_ifs with hrem
  · exact hiff
  · rw [(perm_middle.map _).mem_iff, map_cons, mem_cons, ← hiff]
    by_cases hkey : k = keycode <;> simp [hkey]

/-- What `ir_update_mapping` leaves behind. -/
structure Updated (dev : RcDev) (before after : List RcMapTable) (e : RcMapTable)
    (keycode : UInt32) (newscan : Kmalloc) (dev' : RcDev) : Prop where
  stored : Stored dev'.rcMap
  entries : dev'.rcMap.entries = updated before after e keycode
  scanmask : dev'.scanmask = dev.scanmask
  advertised : Advertised dev → Advertised dev'
  size_pos : 0 < dev.rcMap.size → 0 < dev'.rcMap.size
  alloc_new : e.keycode = keyReserved → dev'.rcMap.alloc = dev.rcMap.alloc
  alloc_old : e.keycode ≠ keyReserved → newscan.isSome →
    dev'.rcMap.alloc = nextAlloc dev.rcMap.alloc (updated before after e keycode).length

theorem irUpdateMapping_updated (hstored : Stored dev.rcMap)
    (hlist : dev.rcMap.entries = before ++ e :: after) (keycode : UInt32) (newscan : Kmalloc) :
    ∃ dev', irUpdateMapping dev before.length keycode newscan = some (e.keycode, dev') ∧
      Updated dev before after e keycode newscan dev' := by
  obtain ⟨cells, hscan⟩ := hstored.scan
  obtain ⟨-, -, he, -⟩ := cells_around hscan hlist
  have hstore := storeMapping_stored hstored cells before.length keycode
  have hnew := storeMapping_entries hscan hlist keycode
  obtain ⟨hmask, halloc, hsize⟩ := storeMapping_frame dev cells before.length keycode
  by_cases hold : e.keycode = keyReserved
  · refine ⟨storeMapping dev cells before.length keycode, ?_, hstore, hnew, hmask,
      fun h => h.updated hlist hnew (absurd hold) fun _ _ => rfl, ?_, ?_, ?_⟩
    · simp [irUpdateMapping, hscan, ← he, hold]
    · rw [hsize]
      exact fun hpos => hpos
    · exact fun _ => halloc
    · exact fun hne => absurd hold hne
  · obtain ⟨stored, hstoredscan⟩ := hstore.scan
    have hused := keycodeUsed_eq hstoredscan e.keycode
      (storeMapping dev cells before.length keycode).rcMap.len 0
    rw [← entries_of_scan hstoredscan, hnew] at hused
    obtain ⟨ret, t, hresize, hresized⟩ := irResizeTable_resized hstore newscan
    let resized : RcDev :=
      { storeMapping dev cells before.length keycode with
        rcMap := t
        keybit := update (storeMapping dev cells before.length keycode).keybit
          e.keycode (decide (e.keycode ∈ (updated before after e keycode).map RcMapTable.keycode)) }
    have hres := hresized.entries.trans hnew
    refine ⟨resized, ?_, hresized.stored, hres, hmask, fun h => h.updated hlist hres ?_
      fun k hk => update_of_ne hk _ _, ?_, ?_, ?_⟩
    · simp only [irUpdateMapping, hscan, ← he, hold, bind_eq_bind, bind_some,
        if_false, hused, hresize]
      rfl
    · rw [hres]
      simp only [resized, update_self, decide_eq_true_eq, implies_true]
    · intro hpos
      exact hresized.size_pos (hsize ▸ hpos)
    · exact fun h => absurd h hold
    · intro _ hsome
      rw [← hnew, hstore.length_entries, ← halloc]
      exact hresized.alloc hsome

/-! Finding or making the place of a scancode -/

/-- The loop stops in front of the first entry that is not below the scancode. -/
theorem establishLoop_split (hscan : t.scan = some cells) (scancode : UInt32) (left i : Nat) :
    ∃ k ≤ left, (∀ x ∈ cells.read i k, x.scancode < scancode) ∧
      ((establishLoop t scancode left i = some (i + k, true) ∧ k < left ∧
          (cells (i + k)).scancode = scancode) ∨
        (establishLoop t scancode left i = some (i + k, false) ∧
          (k < left → scancode < (cells (i + k)).scancode))) := by
  induction left generalizing i with
  | zero => exact ⟨0, le_refl 0, by simp, .inr ⟨rfl, by omega⟩⟩
  | succ left ih =>
    have hstep : establishLoop t scancode (left + 1) i =
        if (cells i).scancode = scancode then some (i, true)
        else if scancode ≤ (cells i).scancode then some (i, false)
        else establishLoop t scancode left (i + 1) := by
      simp [establishLoop, entry, hscan]
    split at hstep
    · rename_i heq
      exact ⟨0, zero_le _, by simp, .inl ⟨hstep, succ_pos left, heq⟩⟩
    rename_i heq
    split at hstep
    · rename_i hle
      refine ⟨0, zero_le _, by simp, .inr ⟨hstep, fun _ => ?_⟩⟩
      exact UInt32.lt_of_le_of_ne hle (fun h => heq h.symm)
    rename_i hle
    obtain ⟨k, hk, hbelow, hend⟩ := ih (i + 1)
    have hshift : i + 1 + k = i + (k + 1) := by omega
    rw [hshift, ← hstep] at hend
    refine ⟨k + 1, by omega, ?_, ?_⟩
    · intro x hx
      rw [read_cons_cell] at hx
      rcases mem_cons.mp hx with rfl | hx
      · exact UInt32.not_le.mp hle
      · exact hbelow x hx
    · rcases hend with ⟨hloop, hlt, hfound⟩ | ⟨hloop, habove⟩
      · exact .inl ⟨hloop, by omega, hfound⟩
      · exact .inr ⟨hloop, fun hlt => habove (by omega)⟩

theorem makeRoom_room (hstore : Stored t) (resize : Bool) (hpos : resize = true → 0 < t.size)
    (newscan : Kmalloc) :
    ∃ ret t', makeRoom t resize newscan = some (ret, t') ∧ Stored t' ∧
      t'.entries = t.entries ∧ (ret ≠ 0 → t' = t ∧ t.size = t.len) ∧
      (ret = 0 → t'.len < t'.size) ∧ (resize = false → t' = t) := by
  unfold makeRoom
  split
  · rename_i hfull
    rcases resize with _ | _
    · refine ⟨enomem, t, rfl, hstore, rfl, fun _ => ⟨rfl, hfull⟩, ?_, fun _ => rfl⟩
      simp [enomem]
    obtain ⟨ret, t', hresize, hresized⟩ := irResizeTable_resized hstore newscan
    refine ⟨ret, t', hresize, hresized.stored, hresized.entries, ?_, ?_, by simp⟩
    · exact fun hne => ⟨hresized.fails hne, hfull⟩
    · exact fun hzero => hresized.room hzero hfull (hpos rfl)
  · rename_i hfull
    refine ⟨0, t, rfl, hstore, rfl, by simp, ?_, fun _ => rfl⟩
    intro _
    exact lt_of_le_of_ne hstore.len_le (fun h => hfull h.symm)

theorem insertScancode_entries (hstore : Stored t) (hroom : t.len < t.size)
    (hlist : t.entries = before ++ after) (scancode : UInt32) :
    ∃ t', insertScancode t before.length scancode = some t' ∧ Stored t' ∧
      t'.entries = before ++ { scancode := scancode, keycode := keyReserved } :: after ∧
      t'.alloc = t.alloc ∧ t'.size = t.size ∧ t'.len = t.len + 1 := by
  obtain ⟨cells, hscan⟩ := hstore.scan
  obtain ⟨hi, hpre, hafter⟩ := cells_split hscan hlist
  have hmoved : (if before.length < t.len then
      cells.memcpy (before.length + 1) (cells.read before.length (t.len - before.length))
      else cells) =
      cells.memcpy (before.length + 1) (cells.read before.length (t.len - before.length)) := by
    split
    · rfl
    · have hend : t.len - before.length = 0 := by omega
      rw [hend, read_zero, memcpy_nil]
  let written := update
    (cells.memcpy (before.length + 1) (cells.read before.length (t.len - before.length)))
    before.length { scancode := scancode, keycode := keyReserved }
  refine ⟨{ t with scan := some written, len := t.len + 1 }, ?_,
    ⟨⟨written, rfl⟩, hroom, hstore.size_eq, hstore.alloc_lt⟩, ?_, rfl, rfl, rfl⟩
  · simp only [insertScancode, hscan, bind_eq_bind, bind_some, hmoved]
    rfl
  · simp only [entries]
    rw [read_move_up cells t.len before.length _ hi, ← hpre, ← hafter]

/-- What `ir_establish_scancode` does for a masked scancode: it is there, or the
table stays full without it, or it has become an entry without a key. -/
inductive Established (dev : RcDev) (scancode : UInt32) (resize : Bool) : Nat → RcDev → Prop
  | found (before after : List RcMapTable) (e : RcMapTable)
      (hentries : dev.rcMap.entries = before ++ e :: after) (he : e.scancode = scancode) :
      Established dev scancode resize before.length dev
  | full (hfull : dev.rcMap.size = dev.rcMap.len)
      (habsent : ∀ x ∈ dev.rcMap.entries, x.scancode ≠ scancode) :
      Established dev scancode resize notFound dev
  | inserted (before after : List RcMapTable) (t : RcMap) (hstored : Stored t)
      (hold : dev.rcMap.entries = before ++ after)
      (hnew : t.entries = before ++ { scancode := scancode, keycode := keyReserved } :: after)
      (hbelow : ∀ x ∈ before, x.scancode < scancode) (habove : ∀ x ∈ after, scancode < x.scancode)
      (hroom : resize = false → dev.rcMap.len < dev.rcMap.size ∧ t.alloc = dev.rcMap.alloc) :
      Established dev scancode resize before.length { dev with rcMap := t }

/-- The entries around the place where the loop of `ir_establish_scancode` ends. -/
theorem establishLoop_entries (hstore : Stored t) (hasc : Ascending RcMapTable.key t.entries)
    (scancode : UInt32) :
    ∃ before after, t.entries = before ++ after ∧ (∀ x ∈ before, x.scancode < scancode) ∧
      ((∃ e rest, after = e :: rest ∧ e.scancode = scancode ∧
          establishLoop t scancode t.len 0 = some (before.length, true)) ∨
        ((∀ x ∈ after, scancode < x.scancode) ∧
          establishLoop t scancode t.len 0 = some (before.length, false))) := by
  obtain ⟨cells, hscan⟩ := hstore.scan
  obtain ⟨k, hk, hbelow, hend⟩ := establishLoop_split hscan scancode t.len 0
  rw [zero_add] at hend
  have hlist : t.entries = cells.read 0 k ++ cells.read k (t.len - k) := by
    have hcut := read_add cells 0 k (t.len - k)
    rw [Nat.add_sub_cancel' hk, zero_add] at hcut
    rw [entries_of_scan hscan, hcut]
  have hlen := length_read cells 0 k
  have hcons (hlt : k < t.len) :
      cells.read k (t.len - k) = cells k :: cells.read (k + 1) (t.len - 1 - k) := by
    have hcount : t.len - k = t.len - 1 - k + 1 := by omega
    rw [hcount, read_cons_cell]
  refine ⟨cells.read 0 k, cells.read k (t.len - k), hlist, hbelow, ?_⟩
  rw [hlen]
  rcases hend with ⟨hloop, hlt, hfound⟩ | ⟨hloop, habove⟩
  · exact .inl ⟨cells k, _, hcons hlt, hfound, hloop⟩
  refine .inr ⟨?_, hloop⟩
  rcases lt_or_ge k t.len with hlt | hge
  · intro x hx
    rw [hcons hlt] at hx hlist
    have hfirst := habove hlt
    rcases mem_cons.mp hx with rfl | hx
    · exact hfirst
    rw [hlist] at hasc
    have hnext := hasc.split.2.2 x hx
    exact UInt32.lt_trans hfirst hnext
  · have hempty : t.len - k = 0 := by omega
    simp [hempty]

theorem irEstablishScancode_established (hstore : Stored dev.rcMap)
    (hasc : Ascending RcMapTable.key dev.rcMap.entries) (scancode : UInt32) (resize : Bool)
    (hpos : resize = true → 0 < dev.rcMap.size) (newscan : Kmalloc) :
    ∃ index dev', irEstablishScancode dev scancode resize newscan = some (index, dev') ∧
      Established dev (maskScancode dev.scanmask scancode) resize index dev' := by
  obtain ⟨before, after, hlist, hbelow, hend⟩ :=
    establishLoop_entries hstore hasc (maskScancode dev.scanmask scancode)
  rcases hend with ⟨e, rest, rfl, he, hloop⟩ | ⟨habove, hloop⟩
  · refine ⟨before.length, dev, ?_, .found before rest e hlist he⟩
    simp [irEstablishScancode, hloop]
  obtain ⟨ret, t, hmake, hroomed, hsame, hfail, hroom, hfix⟩ :=
    makeRoom_room hstore resize hpos newscan
  by_cases hret : ret = 0
  · obtain ⟨t', hinsert, hstore', hnew, halloc, -, -⟩ :=
      insertScancode_entries hroomed (hroom hret) (hsame.trans hlist)
        (maskScancode dev.scanmask scancode)
    refine ⟨before.length, { dev with rcMap := t' }, ?_,
      Established.inserted before after t' hstore' hlist hnew hbelow habove ?_⟩
    · simp [irEstablishScancode, hloop, hmake, hret, hinsert]
    · intro hno
      have ht := hfix hno
      subst ht
      exact ⟨hroom hret, halloc⟩
  · obtain ⟨ht, hfull⟩ := hfail hret
    subst ht
    refine ⟨notFound, dev, ?_, .full hfull ?_⟩
    · simp [irEstablishScancode, hloop, hmake, hret]
    intro x hx
    rw [hlist] at hx
    rcases mem_append.mp hx with hx | hx
    · exact UInt32.ne_of_lt (hbelow x hx)
    · exact (UInt32.ne_of_lt (habove x hx)).symm

end TbsMedia.Rc
