import TbsMedia.Rc.KeyTableEntries

/-!
The scancode table is a finite map. Its entries stay in ascending order within
the storage, and a search finds for every scancode the keycode that the calls
so far have given it.
-/

namespace TbsMedia.Rc

open Lib RcMapTable RcMap

/-- The keycode of every scancode, `KEY_RESERVED` for one without a key. -/
abbrev KeyMapping := UInt32 → UInt32

def assign (m : KeyMapping) (scancode keycode : UInt32) : KeyMapping :=
  Function.update m scancode (if removes keycode then keyReserved else keycode)

def mappingOf (entries : List RcMapTable) : KeyMapping := fun scancode =>
  ((lookup RcMapTable.key entries scancode.toNat).map RcMapTable.keycode).getD keyReserved

theorem key_eq_iff (e : RcMapTable) (scancode : UInt32) :
    e.key = scancode.toNat ↔ e.scancode = scancode :=
  UInt32.toNat_inj

variable {before after : List RcMapTable} {scancode : UInt32}

theorem mappingOf_insert (hbelow : ∀ x ∈ before, x.scancode < scancode)
    (habove : ∀ x ∈ after, scancode < x.scancode) :
    mappingOf (before ++ { scancode := scancode, keycode := keyReserved } :: after) =
      mappingOf (before ++ after) := by
  funext s
  have hinsert : lookup key (before ++ ⟨scancode, keyReserved⟩ :: after) s.toNat =
      if scancode.toNat = s.toNat then some ⟨scancode, keyReserved⟩
      else lookup key (before ++ after) s.toNat := lookup_insert hbelow s.toNat
  simp only [mappingOf, hinsert, UInt32.toNat_inj]
  by_cases hs : scancode = s
  · have habs : lookup key (before ++ after) s.toNat = none := by
      apply lookup_eq_none_iff.mpr
      intro x hx hkey
      have hscan := (key_eq_iff x s).mp hkey
      rw [hs] at hbelow habove
      rcases List.mem_append.mp hx with hx | hx
      · exact UInt32.ne_of_lt (hbelow x hx) hscan
      · exact UInt32.ne_of_lt (habove x hx) hscan.symm
    rw [if_pos hs, habs]
    rfl
  · rw [if_neg hs]

variable {e : RcMapTable}

theorem mappingOf_updated (hasc : Ascending RcMapTable.key (before ++ e :: after))
    (keycode : UInt32) :
    mappingOf (updated before after e keycode) =
      assign (mappingOf (before ++ e :: after)) e.scancode keycode := by
  funext s
  unfold updated assign
  rw [Function.update_apply]
  by_cases hrem : removes keycode = true
  · rw [if_pos hrem, if_pos hrem]
    simp only [mappingOf, lookup_erase hasc, key_eq_iff, eq_comm (a := s)]
    split_ifs <;> rfl
  rw [if_neg hrem, if_neg hrem]
  have hkey : key { e with keycode := keycode } = e.key := rfl
  simp only [mappingOf, lookup_replace hasc hkey, key_eq_iff, eq_comm (a := s)]
  split_ifs <;> rfl

variable {entries : List RcMapTable}

theorem mappingOf_of_mem (hasc : Ascending RcMapTable.key entries) (hmem : e ∈ entries) :
    mappingOf entries e.scancode = e.keycode := by
  have hfound := lookup_of_mem hasc hmem
  rw [key] at hfound
  simp [mappingOf, hfound]

theorem mem_of_mappingOf (hkey : mappingOf entries scancode ≠ keyReserved) :
    ∃ e ∈ entries, e.scancode = scancode := by
  rcases hfound : lookup key entries scancode.toNat with _ | e
  · exact absurd (by simp [mappingOf, hfound]) hkey
  · obtain ⟨hmem, he⟩ := lookup_some hfound
    exact ⟨e, hmem, (key_eq_iff e scancode).mp he⟩

theorem mappingOf_absent (habs : ∀ x ∈ entries, x.scancode ≠ scancode) :
    mappingOf entries scancode = keyReserved := by
  by_contra hkey
  obtain ⟨e, hmem, he⟩ := mem_of_mappingOf hkey
  exact habs e hmem he

structure Ordered (t : RcMap) : Prop extends Stored t where
  ascending : Ascending RcMapTable.key t.entries
  mapped : ∀ e ∈ t.entries, removes e.keycode = false

def RcMap.mapping (t : RcMap) : KeyMapping := mappingOf t.entries

variable {t : RcMap}

theorem Ordered.keycode_ne (hord : Ordered t) (hmem : e ∈ t.entries) : e.keycode ≠ keyReserved := by
  intro hzero
  have hkept := hord.mapped e hmem
  simp [hzero, removes] at hkept

theorem Ordered.len_le_notFound (hord : Ordered t) : t.len ≤ notFound := by
  have hlen := hord.len_le
  have hsize := hord.size_eq
  have hbytes := hord.alloc_lt
  rw [entrySize] at hsize
  unfold notFound
  omega

variable {dev : RcDev}

/-- A mapping is updated in place. The entry may be a new one without a key. -/
theorem update_ordered (hlist : dev.rcMap.entries = before ++ e :: after)
    (hasc : Ascending RcMapTable.key (before ++ e :: after))
    (hmapped : ∀ x ∈ before ++ after, removes x.keycode = false) {keycode : UInt32}
    {newscan : Kmalloc} {dev' : RcDev} (hupd : Updated dev before after e keycode newscan dev')
    : Ordered dev'.rcMap ∧ dev'.rcMap.mapping = assign dev.rcMap.mapping e.scancode keycode := by
  refine ⟨⟨hupd.stored, ?_, ?_⟩, ?_⟩
  · rw [hupd.entries, updated]
    split
    · exact hasc.split.1
    · exact hasc.replace rfl
  · rw [hupd.entries, updated]
    split
    · exact hmapped
    intro x hx
    have hparts : x ∈ before ++ after ∨ x = { e with keycode := keycode } := by
      simp only [List.mem_append, List.mem_cons] at hx ⊢
      tauto
    rcases hparts with hx | rfl
    · exact hmapped x hx
    · simpa using ‹¬removes keycode = true›
  · rw [mapping, mapping, hupd.entries, hlist, mappingOf_updated hasc]

structure Assigned (dev : RcDev) (scancode keycode : UInt32) (dev' : RcDev) : Prop where
  ordered : Ordered dev'.rcMap
  mapping : dev'.rcMap.mapping = assign dev.rcMap.mapping scancode keycode
  scanmask : dev'.scanmask = dev.scanmask
  advertised : Advertised dev → Advertised dev'
  had_size : 0 < dev.rcMap.size
  size_pos : 0 < dev'.rcMap.size

theorem update_assigned (hord : Ordered dev.rcMap)
    (hlist : dev.rcMap.entries = before ++ e :: after) (keycode : UInt32) (newscan : Kmalloc) :
    ∃ dev', irUpdateMapping dev before.length keycode newscan =
        some (dev.rcMap.mapping e.scancode, dev') ∧
      Assigned dev e.scancode keycode dev' ∧
      (newscan.isSome → dev'.rcMap.alloc = nextAlloc dev.rcMap.alloc dev'.rcMap.len) := by
  have hmem : e ∈ dev.rcMap.entries := by simp [hlist]
  have hasc := hord.ascending
  have hmapped : ∀ x ∈ before ++ after, removes x.keycode = false := by
    intro x hx
    apply hord.mapped
    simp only [hlist, List.mem_append, List.mem_cons] at hx ⊢
    tauto
  obtain ⟨dev', hupd, hupdated⟩ :=
    irUpdateMapping_updated hord.toStored hlist keycode newscan
  have hnew := update_ordered hlist (hlist ▸ hasc) hmapped hupdated
  have hpos : 0 < dev.rcMap.size := by
    have hlen := hord.length_entries
    have hfit := hord.len_le
    simp only [hlist, List.length_append, List.length_cons] at hlen
    omega
  refine ⟨dev', ?_, ⟨hnew.1, hnew.2, hupdated.scanmask, hupdated.advertised, hpos,
    hupdated.size_pos hpos⟩, ?_⟩
  · rw [hupd, mapping, mappingOf_of_mem hasc hmem]
  · intro hsome
    rw [hupdated.alloc_old (hord.keycode_ne hmem) hsome, ← hupdated.entries,
      hupdated.stored.length_entries]

/-- Giving a keycode to a scancode that need not be in the table yet. Without
leave to resize the storage changes only behind an update of an old mapping. -/
theorem establish_assigned (hord : Ordered dev.rcMap) (scancode : UInt32) (resize : Bool)
    (hpos : resize = true → 0 < dev.rcMap.size) (room : Kmalloc) (keycode : UInt32)
    (shrink : Kmalloc) :
    ∃ index dev1, irEstablishScancode dev scancode resize room = some (index, dev1) ∧
      ((dev1 = dev ∧ dev.rcMap.len ≤ index ∧ dev.rcMap.size = dev.rcMap.len ∧
          dev.rcMap.mapping (maskScancode dev.scanmask scancode) = keyReserved) ∨
        (index < dev1.rcMap.len ∧ ∃ dev2, irUpdateMapping dev1 index keycode shrink =
            some (dev.rcMap.mapping (maskScancode dev.scanmask scancode), dev2) ∧
          Assigned dev (maskScancode dev.scanmask scancode) keycode dev2 ∧
          (resize = false → shrink.isSome →
            if dev.rcMap.mapping (maskScancode dev.scanmask scancode) = keyReserved then
              dev.rcMap.len < dev.rcMap.size ∧ dev2.rcMap.alloc = dev.rcMap.alloc
            else dev2.rcMap.alloc = nextAlloc dev.rcMap.alloc dev2.rcMap.len))) := by
  have hasc := hord.ascending
  obtain ⟨index, dev1, hestablish, hcases⟩ :=
    irEstablishScancode_established hord.toStored hasc scancode resize hpos room
  refine ⟨index, dev1, hestablish, ?_⟩
  cases hcases with
  | found before after e hlist he =>
    have hmem : e ∈ dev.rcMap.entries := by simp [hlist]
    have hlen := hord.length_entries
    obtain ⟨dev2, hupd, hassign, halloc⟩ := update_assigned hord hlist keycode shrink
    rw [he] at hupd hassign
    refine .inr ⟨?_, dev2, hupd, hassign, ?_⟩
    · simp only [hlist, List.length_append, List.length_cons] at hlen
      omega
    intro _ hsome
    have hkey := mappingOf_of_mem hasc hmem
    rw [he] at hkey
    rw [if_neg (by rw [mapping, hkey]; exact hord.keycode_ne hmem)]
    exact halloc hsome
  | full hfull habs =>
    exact .inl ⟨rfl, hord.len_le_notFound, hfull, mappingOf_absent habs⟩
  | inserted before after t hstore hold hnew hbelow habove hroom =>
    have hlen := hstore.length_entries
    rw [hold] at hasc
    have hasc' : Ascending key
        (before ++ ⟨maskScancode dev.scanmask scancode, keyReserved⟩ :: after) :=
      hasc.insert hbelow habove
    have hmapped : ∀ x ∈ before ++ after, removes x.keycode = false := by
      intro x hx
      exact hord.mapped x (hold ▸ hx)
    have hsame : dev.rcMap.mapping = mappingOf t.entries := by
      rw [mapping, hold, hnew, mappingOf_insert hbelow habove]
    have habs : dev.rcMap.mapping (maskScancode dev.scanmask scancode) = keyReserved := by
      have hmem : (⟨maskScancode dev.scanmask scancode, keyReserved⟩ : RcMapTable) ∈
          before ++ ⟨maskScancode dev.scanmask scancode, keyReserved⟩ :: after := by simp
      rw [hsame, hnew]
      exact mappingOf_of_mem hasc' hmem
    let inserted : RcDev := { dev with rcMap := t }
    have hstore' : Stored inserted.rcMap := hstore
    obtain ⟨dev2, hupd, hupdated⟩ := irUpdateMapping_updated hstore' hnew keycode shrink
    have hres := update_ordered hnew hasc' hmapped hupdated
    have hreserved : Advertised dev → Advertised inserted := by
      intro hadvertised k hk
      have hiff := hadvertised k hk
      rw [hold] at hiff
      rw [hnew]
      simpa [hk] using hiff
    refine .inr ⟨?_, dev2, ?_, ⟨hres.1, ?_, hupdated.scanmask,
      fun h => hupdated.advertised (hreserved h), ?_, ?_⟩, ?_⟩
    · simp only [hnew, List.length_append, List.length_cons] at hlen
      simp only
      omega
    · rw [hupd, habs]
    · rw [hres.2, hsame]
      rfl
    · cases resize with
      | false => exact (Nat.zero_le _).trans_lt (hroom rfl).1
      | true => exact hpos rfl
    · apply hupdated.size_pos
      have hfit := hstore.len_le
      simp only [hnew, List.length_append, List.length_cons] at hlen
      change 0 < t.size
      omega
    · intro hno _
      rw [if_pos habs, hupdated.alloc_new rfl]
      exact hroom hno

/-! Searching -/

section

variable {cells : Mem RcMapTable} (hscan : t.scan = some cells)
  (hasc : Ascending RcMapTable.key t.entries)
include hscan hasc

theorem cells_ascending {i j : Nat} (hij : i < j) (hj : j < t.len) :
    (cells i).scancode < (cells j).scancode := by
  rw [entries_of_scan hscan] at hasc
  have hpair := List.pairwise_iff_getElem.mp hasc i j (by simp; omega) (by simpa using hj) hij
  simpa [Mem.read, key, UInt32.lt_iff_toNat_lt] using hpair

/-- The binary search keeps every entry outside its window on the right side of the scancode. -/
theorem lookupLoop_finds (scancode : UInt32) (fuel : Nat) (start stop : Int) (hstart : 0 ≤ start)
    (hstop : stop < t.len) (hwindow : start ≤ stop + 1) (hfuel : stop + 1 - start < fuel)
    (hbelow : ∀ i : Nat, (i : Int) < start → (cells i).scancode < scancode)
    (habove : ∀ i : Nat, stop < i → i < t.len → scancode < (cells i).scancode) :
    ∃ index, lookupLoop t scancode fuel start stop = some index ∧
      ((index < t.len ∧ (cells index).scancode = scancode) ∨
        (index = notFound ∧ ∀ i < t.len, (cells i).scancode ≠ scancode)) := by
  induction fuel generalizing start stop with
  | zero => omega
  | succ fuel ih =>
    by_cases hle : start ≤ stop
    · obtain ⟨mid, hmid⟩ : ∃ mid : Nat, (start + stop) / 2 = mid :=
        Int.eq_ofNat_of_zero_le (by omega)
      have hstep : lookupLoop t scancode (fuel + 1) start stop =
          if (cells mid).scancode < scancode then lookupLoop t scancode fuel (mid + 1) stop
          else if scancode < (cells mid).scancode then lookupLoop t scancode fuel start (mid - 1)
          else some mid := by
        simp [lookupLoop, hle, hmid, entry, hscan]
      rw [hstep]
      split
      · rename_i hlow
        apply ih _ _ (by omega) hstop (by omega) (by omega)
        · intro i hi
          rcases lt_or_ge i mid with hlt | hge
          · exact UInt32.lt_trans (cells_ascending hscan hasc hlt (by omega)) hlow
          have heq : i = mid := by omega
          rw [heq]
          exact hlow
        · exact habove
      · rename_i hlow
        split
        · rename_i hhigh
          apply ih _ _ hstart (by omega) (by omega) (by omega) hbelow
          intro i hi hlen
          rcases lt_or_ge mid i with hlt | hge
          · exact UInt32.lt_trans hhigh (cells_ascending hscan hasc hlt hlen)
          have heq : i = mid := by omega
          rw [heq]
          exact hhigh
        · rename_i hhigh
          refine ⟨mid, rfl, .inl ⟨by omega, ?_⟩⟩
          exact UInt32.le_antisymm (UInt32.not_lt.mp hhigh) (UInt32.not_lt.mp hlow)
    · refine ⟨notFound, by simp only [lookupLoop, hle, if_false], .inr ⟨rfl, ?_⟩⟩
      intro i hi
      rcases lt_or_ge (i : Int) start with hlt | hge
      · exact UInt32.ne_of_lt (hbelow i hlt)
      · exact (UInt32.ne_of_lt (habove i (by omega) hi)).symm

end

/-- The search answers the entry of a scancode that has a key, and `-1U` for any other. -/
theorem irLookupByScancode_mapping (hord : Ordered t) (scancode : UInt32) :
    (t.mapping scancode = keyReserved → irLookupByScancode t scancode = some notFound) ∧
      (t.mapping scancode ≠ keyReserved → ∃ index < t.len,
        irLookupByScancode t scancode = some index ∧
          t.entry index = some { scancode := scancode, keycode := t.mapping scancode }) := by
  obtain ⟨cells, hscan⟩ := hord.scan
  have hasc := hord.ascending
  have hmem (i : Nat) (hi : i < t.len) : cells i ∈ t.entries := by
    rw [entries_of_scan hscan]
    exact List.mem_map.mpr ⟨i, List.mem_range.mpr hi, by rw [zero_add]⟩
  obtain ⟨index, hloop, hres⟩ := lookupLoop_finds hscan hasc scancode (t.len + 1) 0
    ((t.len : Int) - 1) (by omega) (by omega) (by omega) (by omega) (by omega) (by omega)
  rcases hres with ⟨hlt, hfound⟩ | ⟨rfl, habs⟩
  · have hkey := mappingOf_of_mem hasc (hmem index hlt)
    rw [hfound] at hkey
    have hne := hord.keycode_ne (hmem index hlt)
    rw [← hkey] at hne
    refine ⟨fun hzero => absurd hzero hne, fun _ => ⟨index, hlt, hloop, ?_⟩⟩
    rw [entry, hscan, Option.map_some, mapping, hkey, ← hfound]
  have hzero : t.mapping scancode = keyReserved := by
    apply mappingOf_absent
    intro x hx
    rw [entries_of_scan hscan] at hx
    obtain ⟨i, hi, rfl⟩ := List.mem_map.mp hx
    rw [zero_add]
    exact habs i (List.mem_range.mp hi)
  exact ⟨fun _ => hloop, fun hne => absurd hzero hne⟩

theorem rcGKeycodeFromTable_mapping (hord : Ordered dev.rcMap) (scancode : UInt32) :
    rcGKeycodeFromTable dev scancode = some (dev.rcMap.mapping scancode) := by
  obtain ⟨habs, hpresent⟩ := irLookupByScancode_mapping hord scancode
  by_cases hkey : dev.rcMap.mapping scancode = keyReserved
  · have hout := hord.len_le_notFound.not_gt
    simp [rcGKeycodeFromTable, habs hkey, hout, hkey]
  · obtain ⟨index, hlt, hloop, hentry⟩ := hpresent hkey
    simp [rcGKeycodeFromTable, hloop, hlt, hentry]

end TbsMedia.Rc
