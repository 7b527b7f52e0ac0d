import TbsMedia.Lib.SortedTable

/-!
The scancode table of a remote control (`rc-main.c`): an array of entries that
is filled from a keymap, changed one mapping at a time through the input
device, and searched for every received scancode. `none` is a read or a write
through the NULL pointer of a table that has no storage. The answers of
`kmalloc` are arguments: NULL, or memory with any content.
-/

namespace TbsMedia.Rc

open Lib Function

def keyReserved : UInt32 := 0

def keyUnknown : UInt32 := 240

def enomem : Int := -12

def einval : Int := -22

def irTabMinSize : Nat := 256

def irTabMaxSize : Nat := 8192

/-- `sizeof(struct rc_map_table)`. -/
def entrySize : Nat := 8

/-- `-1U`, the index of no entry. -/
def notFound : Nat := 4294967295

structure RcMapTable where
  scancode : UInt32
  keycode : UInt32
  deriving DecidableEq, Repr

abbrev Kmalloc := Option (Mem RcMapTable)

structure RcMap where
  scan : Kmalloc
  /-- Max number of entries. -/
  size : Nat
  /-- Used number of entries. -/
  len : Nat
  /-- Size of `scan` in bytes. -/
  alloc : Nat

/-- The fields of `struct rc_dev` that the key table needs, with the key bits
of its input device. -/
structure RcDev where
  rcMap : RcMap
  scanmask : UInt32
  keybit : UInt32 → Bool

namespace RcMap

/-- `scan[i]`. -/
def entry (t : RcMap) (i : Nat) : Option RcMapTable :=
  t.scan.map (fun cells => cells i)

/-- The `len` entries from `scan[start]` on, read for a copy. -/
def readScan (t : RcMap) (start len : Nat) : Option (List RcMapTable) :=
  if len = 0 then some [] else t.scan.map (fun cells => cells.read start len)

end RcMap

/-- `roundup_pow_of_two`; its result for zero is undefined. -/
def roundupPowOfTwo (n : Nat) : Option Nat :=
  if n = 0 then none else some (2 ^ Nat.clog 2 n)

/-- The byte count is computed as `size_t` and stored as `unsigned int`. -/
def irCreateTable (t : RcMap) (size : Nat) (scan : Kmalloc) : Option (Int × RcMap) := do
  let bytes ← roundupPowOfTwo (size * entrySize)
  let alloc := bytes % 2 ^ 32
  let created := { t with alloc := alloc, size := alloc / entrySize, scan := scan }
  if scan.isNone then some (enomem, created) else some (0, created)

def irFreeTable (t : RcMap) : RcMap :=
  { t with size := 0, scan := none }

def irResizeTable (t : RcMap) (newscan : Kmalloc) : Option (Int × RcMap) :=
  if t.size = t.len ∧ irTabMaxSize ≤ t.alloc then some (enomem, t)
  else
    let grown := if t.size = t.len then t.alloc * 2 else t.alloc
    let newalloc :=
      if t.len * 3 % 2 ^ 32 < t.size ∧ irTabMinSize < t.alloc then grown / 2 else grown
    if newalloc = t.alloc then some (0, t)
    else
      match newscan with
      | none => some (enomem, t)
      | some cells => do
        let old ← t.readScan 0 t.len
        some (0, { t with scan := some (cells.memcpy 0 old), alloc := newalloc,
                          size := newalloc / entrySize })

def removes (keycode : UInt32) : Bool :=
  keycode = keyReserved || keycode = keyUnknown

/-- The first half of `ir_update_mapping`: the entry is removed or gets its keycode. -/
def storeMapping (dev : RcDev) (cells : Mem RcMapTable) (index : Nat) (keycode : UInt32) : RcDev :=
  let t := dev.rcMap
  if removes keycode then
    let len := t.len - 1
    let moved := cells.memcpy index (cells.read (index + 1) (len - index))
    { dev with rcMap := { t with len := len, scan := some moved } }
  else
    let written := update cells index { cells index with keycode := keycode }
    { dev with rcMap := { t with scan := some written },
               keybit := update dev.keybit keycode true }

def keycodeUsed (t : RcMap) (keycode : UInt32) : Nat → Nat → Option Bool
  | 0, _ => some false
  | left + 1, i => do
    let e ← t.entry i
    if e.keycode = keycode then some true else keycodeUsed t keycode left (i + 1)

/-- Answers the previous keycode. The caller has checked that `index` is below `len`. -/
def irUpdateMapping (dev : RcDev) (index : Nat) (newKeycode : UInt32) (newscan : Kmalloc) :
    Option (UInt32 × RcDev) := do
  let cells ← dev.rcMap.scan
  let oldKeycode := (cells index).keycode
  let stored := storeMapping dev cells index newKeycode
  if oldKeycode = keyReserved then some (oldKeycode, stored)
  else
    let used ← keycodeUsed stored.rcMap oldKeycode stored.rcMap.len 0
    -- possibly shrink the table, failure is not a problem
    let resized ← irResizeTable stored.rcMap newscan
    some (oldKeycode,
      { stored with rcMap := resized.2, keybit := update stored.keybit oldKeycode used })

/-- The loop of `ir_establish_scancode`: where it ends, and whether it returns there. -/
def establishLoop (t : RcMap) (scancode : UInt32) : Nat → Nat → Option (Nat × Bool)
  | 0, i => some (i, false)
  | left + 1, i => do
    let e ← t.entry i
    if e.scancode = scancode then some (i, true)
    else if scancode ≤ e.scancode then some (i, false)
    else establishLoop t scancode left (i + 1)

/-- A new entry at `i`, with the entries from there on moved up. -/
def insertScancode (t : RcMap) (i : Nat) (scancode : UInt32) : Option RcMap := do
  let cells ← t.scan
  let moved := if i < t.len then cells.memcpy (i + 1) (cells.read i (t.len - i)) else cells
  let written := update moved i { scancode := scancode, keycode := keyReserved }
  some { t with scan := some written, len := t.len + 1 }

/-- A full table is resized if that is allowed; the answer is not zero if it stays full. -/
def makeRoom (t : RcMap) (resize : Bool) (newscan : Kmalloc) : Option (Int × RcMap) :=
  if t.size = t.len then
    if resize then irResizeTable t newscan else some (enomem, t)
  else some (0, t)

def maskScancode (scanmask scancode : UInt32) : UInt32 :=
  if scanmask ≠ 0 then scancode &&& scanmask else scancode

def irEstablishScancode (dev : RcDev) (scancode : UInt32) (resize : Bool) (newscan : Kmalloc) :
    Option (Nat × RcDev) := do
  let scancode := maskScancode dev.scanmask scancode
  let (i, found) ← establishLoop dev.rcMap scancode dev.rcMap.len 0
  if found then some (i, dev)
  else
    let (ret, t) ← makeRoom dev.rcMap resize newscan
    if ret ≠ 0 then some (notFound, { dev with rcMap := t })
    else
      let inserted ← insertScancode t i scancode
      some (i, { dev with rcMap := inserted })

/-- The request of `EVIOCSKEYCODE` and `EVIOCGKEYCODE`. `scalar` is what
`input_scancode_to_scalar` makes of the length and the bytes of the scancode. -/
structure InputKeymapEntry where
  byIndex : Bool
  index : UInt16
  scalar : Option UInt32
  keycode : UInt32

/-- Answers the previous keycode or an error. A request can resize the table
twice: to make room for its scancode and behind the update. -/
def irSetkeycode (dev : RcDev) (ke : InputKeymapEntry) (room shrink : Kmalloc) :
    Option (Except Int UInt32 × RcDev) := do
  if ke.byIndex then
    let index := ke.index.toNat
    if dev.rcMap.len ≤ index then some (.error einval, dev)
    else
      let (old, dev) ← irUpdateMapping dev index ke.keycode shrink
      some (.ok old, dev)
  else
    match ke.scalar with
    | none => some (.error einval, dev)
    | some scancode =>
      let (index, dev) ← irEstablishScancode dev scancode true room
      if dev.rcMap.len ≤ index then some (.error enomem, dev)
      else
        let (old, dev) ← irUpdateMapping dev index ke.keycode shrink
        some (.ok old, dev)

/-- The loop of `ir_setkeytable` from entry `i` of the keymap on. -/
def setkeytableLoop (shrinks : Nat → Kmalloc) : RcDev → Nat → List RcMapTable → Option (Int × RcDev)
  | dev, _, [] => some (0, dev)
  | dev, i, e :: rest => do
    let (index, dev) ← irEstablishScancode dev e.scancode false none
    if dev.rcMap.len ≤ index then some (enomem, dev)
    else
      let (_, dev) ← irUpdateMapping dev index e.keycode (shrinks i)
      setkeytableLoop shrinks dev (i + 1) rest

/-- `keymap` is the array `from->scan` with `from->size` entries. -/
def irSetkeytable (dev : RcDev) (keymap : List RcMapTable) (scan : Kmalloc)
    (shrinks : Nat → Kmalloc) : Option (Int × RcDev) := do
  let (rc, t) ← irCreateTable dev.rcMap keymap.length scan
  let dev := { dev with rcMap := t }
  if rc ≠ 0 then some (rc, dev)
  else
    let (rc, dev) ← setkeytableLoop shrinks dev 0 keymap
    if rc ≠ 0 then some (rc, { dev with rcMap := irFreeTable dev.rcMap }) else some (rc, dev)

/-- The loop of `ir_lookup_by_scancode` over `scan[start..stop]`. -/
def lookupLoop (t : RcMap) (scancode : UInt32) : Nat → Int → Int → Option Nat
  | 0, _, _ => none
  | fuel + 1, start, stop =>
    if start ≤ stop then do
      let mid := (start + stop) / 2
      let e ← t.entry mid.toNat
      if e.scancode < scancode then lookupLoop t scancode fuel (mid + 1) stop
      else if scancode < e.scancode then lookupLoop t scancode fuel start (mid - 1)
      else some mid.toNat
    else some notFound

def irLookupByScancode (t : RcMap) (scancode : UInt32) : Option Nat :=
  lookupLoop t scancode (t.len + 1) 0 ((t.len : Int) - 1)

def rcGKeycodeFromTable (dev : RcDev) (scancode : UInt32) : Option UInt32 := do
  let index ← irLookupByScancode dev.rcMap scancode
  if index < dev.rcMap.len then
    let e ← dev.rcMap.entry index
    some e.keycode
  else some keyReserved

/-- What `ir_getkeycode` fills in: index, keycode and, for an entry of the table, its scancode. -/
structure KeymapAnswer where
  index : Nat
  keycode : UInt32
  scancode : Option UInt32
  deriving DecidableEq, Repr

def irGetkeycode (dev : RcDev) (ke : InputKeymapEntry) : Option (Except Int KeymapAnswer) :=
  let answer (index : Nat) : Option (Except Int KeymapAnswer) := do
    if index < dev.rcMap.len then
      let e ← dev.rcMap.entry index
      some (.ok { index := index, keycode := e.keycode, scancode := some e.scancode })
    else if ke.byIndex then some (.error einval)
    else some (.ok { index := index, keycode := keyReserved, scancode := none })
  if ke.byIndex then answer ke.index.toNat
  else
    match ke.scalar with
    | none => some (.error einval)
    | some scancode => do
      let index ← irLookupByScancode dev.rcMap scancode
      answer index

end TbsMedia.Rc
