import Mathlib.Tactic

/-!
Control handlers of V4L2 (`v4l2-ctrls.c`): how controls are made, added to
handlers and clustered, how a control is found and enumerated. Controls,
references and cluster arrays are known by the number of their allocation.
The tables of standard controls (names, types, menus) are an argument, and so
are the answers of `kzalloc`.
-/

namespace TbsMedia.Ctrls

open Function

def enomem : Int := -12

def einval : Int := -22

def erange : Int := -34

theorem erange_ne : erange ≠ 0 := by decide

def idMask : UInt32 := 0x0fffffff

def privateBase : UInt32 := 0x08000000

def flagNextCtrl : UInt32 := 0x80000000

def classUser : UInt32 := 0x00980000

def id2Class (id : UInt32) : UInt32 := id &&& 0x0fff0000

def classCtrl (id : UInt32) : UInt32 := id2Class id ||| 1

def driverPriv (id : UInt32) : Bool := 0x1000 ≤ id &&& 0xffff

def flagDisabled : UInt32 := 0x0001

def flagGrabbed : UInt32 := 0x0002

def flagReadOnly : UInt32 := 0x0004

def flagUpdate : UInt32 := 0x0008

def flagInactive : UInt32 := 0x0010

def flagWriteOnly : UInt32 := 0x0040

def hasFlag (flags flag : UInt32) : Bool := flags &&& flag ≠ 0

inductive CtrlType
  | integer | boolean | menu | button | integer64 | ctrlClass | string | bitmask
  deriving DecidableEq

def typeIsInt : CtrlType → Bool
  | .integer64 | .string => false
  | _ => true

structure CtrlOps where
  gVolatileCtrl : Bool
  tryCtrl : Bool
  sCtrl : Bool

/-- The union of `val`, `val64` and `string`. -/
inductive Value
  | num (n : Int)
  | str (s : List UInt8)
  deriving DecidableEq

def Value.val : Value → Int
  | num n => n
  | str _ => 0

/-- The field `cluster`: the `ctrl` field of a reference, taken as an array of
one element, or an array of the driver. -/
inductive ClusterPtr
  | null
  | ref (r : Nat)
  | array (a : Nat)
  deriving DecidableEq

/-- `struct v4l2_ctrl`. `step` is also `menu_skip_mask`. -/
structure Ctrl where
  handler : Nat
  ops : CtrlOps
  id : UInt32
  name : String
  type : CtrlType
  minimum : Int
  maximum : Int
  step : UInt32
  defaultValue : Int
  flags : UInt32
  qmenu : Option (Int → String)
  isPrivate : Bool
  isVolatile : Bool
  isAuto : Bool
  manualModeValue : UInt8
  cluster : ClusterPtr
  ncontrols : Nat
  isNew : Bool
  done : Bool
  cur : Value
  new : Value

/-- `struct v4l2_ctrl_ref`. `helper` is an index into the array of helpers. -/
structure CtrlRef where
  ctrl : Nat
  helper : Option Nat
  freed : Bool

/-- `struct v4l2_ctrl_handler`. The hash chains are lists of references. -/
structure CtrlHandler where
  ctrls : List Nat
  ctrlRefs : List Nat
  cached : Option Nat
  buckets : Option (Nat → List Nat)
  nrOfBuckets : Nat
  error : Int

structure World where
  hdl : Nat → CtrlHandler
  ctrl : Nat → Ctrl
  ref : Nat → CtrlRef
  array : Nat → List (Option Nat)
  freshCtrl : Nat
  freshRef : Nat
  freshArray : Nat

def World.setHdl (w : World) (h : Nat) (hdl : CtrlHandler) : World :=
  { w with hdl := update w.hdl h hdl }

def World.setCtrl (w : World) (c : Nat) (ctrl : Ctrl) : World :=
  { w with ctrl := update w.ctrl c ctrl }

def World.refId (w : World) (r : Nat) : UInt32 := (w.ctrl (w.ref r).ctrl).id

/-- `v4l2_ctrl_handler_init`; `nr_of_buckets` has 16 bits. -/
def v4l2CtrlHandlerInit (nrOfControlsHint : Nat) (kzalloc : Bool) : CtrlHandler where
  ctrls := []
  ctrlRefs := []
  cached := none
  buckets := if kzalloc then some fun _ => [] else none
  nrOfBuckets := (1 + nrOfControlsHint / 8) % 2 ^ 16
  error := if kzalloc then 0 else enomem

def handlerSetErr (w : World) (h : Nat) (err : Int) : World :=
  if (w.hdl h).error = 0 then w.setHdl h { w.hdl h with error := err } else w

section Find

def findPrivateRef (w : World) : List Nat → UInt32 → Option Nat
  | [], _ => none
  | r :: rest, id =>
    let ctrl := w.ctrl (w.ref r).ctrl
    if id2Class ctrl.id = classUser ∧ driverPriv ctrl.id then
      if typeIsInt ctrl.type = false then findPrivateRef w rest id
      else if id = 0 then some r
      else findPrivateRef w rest (id - 1)
    else findPrivateRef w rest id

def findRef (w : World) (h : Nat) (id : UInt32) : Option Nat × World :=
  let id := id &&& idMask
  let hdl := w.hdl h
  if privateBase ≤ id then (findPrivateRef w hdl.ctrlRefs (id - privateBase), w)
  else
    match hdl.cached.filter (fun r => w.refId r = id) with
    | some r => (some r, w)
    | none =>
      match hdl.buckets with
      | none => (none, w)
      | some buckets =>
        match (buckets (id.toNat % hdl.nrOfBuckets)).find? (fun r => w.refId r = id) with
        | none => (none, w)
        | some r => (some r, w.setHdl h { hdl with cached := some r })

end Find

section New

/-- Where a new reference goes in the list: `none` if the id is there already.
The loop ends without a place if all ids are smaller. -/
def insertLoop (refId : Nat → UInt32) (id : UInt32) (new : Nat) : List Nat → Option (List Nat)
  | [] => some []
  | r :: rest =>
    if refId r < id then (insertLoop refId id new rest).map (r :: ·)
    else if refId r = id then none
    else some (new :: r :: rest)

def insertInOrder (refId : Nat → UInt32) (id : UInt32) (new : Nat) (refs : List Nat) :
    Option (List Nat) :=
  match refs.getLast? with
  | none => some [new]
  | some last => if refId last < id then some (refs ++ [new]) else insertLoop refId id new refs

/-- `v4l2_ctrl_handler_init` makes one bucket at least, so the modulus is not zero. -/
def chainInsert (nrOfBuckets : Nat) (id : UInt32) (new : Nat) (buckets : Nat → List Nat) :
    Nat → List Nat :=
  let bucket := id.toNat % nrOfBuckets
  update buckets bucket (new :: buckets bucket)

/-- The part of `handler_new_ref` after the class control is there. -/
def insertRef (w : World) (h c : Nat) (kzalloc : Bool) : Int × World :=
  let hdl := w.hdl h
  if hdl.error ≠ 0 then (hdl.error, w)
  else if kzalloc = false then (enomem, handlerSetErr w h enomem)
  else
    let r := w.freshRef
    let id := (w.ctrl c).id
    let w := { w with ref := update w.ref r ⟨c, none, false⟩, freshRef := r + 1 }
    let w := if (w.ctrl c).handler = h then
        w.setCtrl c { w.ctrl c with cluster := .ref r, ncontrols := 1 } else w
    match insertInOrder w.refId id r hdl.ctrlRefs with
    | none => (0, { w with ref := update w.ref r { w.ref r with freed := true } })
    | some refs =>
      (0, w.setHdl h { hdl with ctrlRefs := refs,
                                buckets := hdl.buckets.map (chainInsert hdl.nrOfBuckets id r) })

structure CtrlRange where
  min : Int
  max : Int
  step : UInt32
  dflt : Int

structure CtrlParams where
  ops : CtrlOps
  id : UInt32
  name : Option String
  type : CtrlType
  range : CtrlRange
  flags : UInt32
  qmenu : Option (Int → String)

/-- The sanity checks of `v4l2_ctrl_new`. -/
def ctrlSane (p : CtrlParams) : Bool :=
  let ⟨min, max, step, dflt⟩ := p.range
  !((p.id = 0 || p.name.isNone || privateBase ≤ p.id ||
      (p.type = .integer && step = 0) || (p.type = .bitmask && max = 0) ||
      (p.type = .menu && p.qmenu.isNone) || (p.type = .string && max = 0)) ||
    (p.type ≠ .bitmask && max < min) ||
    ((p.type = .integer || p.type = .menu || p.type = .boolean) && (dflt < min || max < dflt)) ||
    (p.type = .bitmask &&
      ((BitVec.ofInt 32 dflt &&& ~~~ BitVec.ofInt 32 max) ≠ 0 || min ≠ 0 || step ≠ 0)))

/-- A control as `v4l2_ctrl_new` fills it in. -/
def freshlyMade (h : Nat) (p : CtrlParams) : Ctrl where
  handler := h
  ops := p.ops
  id := p.id
  name := p.name.getD ""
  type := p.type
  minimum := p.range.min
  maximum := p.range.max
  step := p.range.step
  defaultValue := p.range.dflt
  flags := match p.type with
    | .button => p.flags ||| flagWriteOnly
    | .ctrlClass => p.flags ||| flagReadOnly
    | _ => p.flags
  qmenu := p.qmenu
  isPrivate := false
  isVolatile := false
  isAuto := false
  manualModeValue := 0
  cluster := .null
  ncontrols := 0
  isNew := false
  done := false
  cur := match p.type with
    | .string => .str (List.replicate p.range.min.toNat 0x20)
    | _ => .num p.range.dflt
  new := match p.type with
    | .string => .str []
    | _ => .num p.range.dflt

/-- `v4l2_ctrl_new`, with `handler_new_ref` as an argument. -/
def ctrlNewWith (newRef : World → Nat → Int × World) (w : World) (h : Nat) (p : CtrlParams)
    (kzalloc : Bool) : Option Nat × World :=
  if (w.hdl h).error ≠ 0 then (none, w)
  else if ctrlSane p = false then (none, handlerSetErr w h erange)
  else if kzalloc = false then (none, handlerSetErr w h enomem)
  else
    let c := w.freshCtrl
    let (ret, w) := newRef { w.setCtrl c (freshlyMade h p) with freshCtrl := c + 1 } c
    if ret ≠ 0 then (none, w)
    else (some c, w.setHdl h { w.hdl h with ctrls := (w.hdl h).ctrls ++ [c] })

structure CtrlFill where
  type : CtrlType
  flags : UInt32
  range : CtrlRange

/-- `v4l2_ctrl_get_name`, the rest of `v4l2_ctrl_fill`, and `v4l2_ctrl_get_menu`. -/
structure Tables where
  getName : UInt32 → Option String
  fill : UInt32 → CtrlRange → CtrlFill
  getMenu : UInt32 → Option (Int → String)

structure Allocs where
  ctrl : Bool
  classCtrl : Bool
  classRef : Bool
  ref : Bool

def noOps : CtrlOps := ⟨false, false, false⟩

/-- `v4l2_ctrl_new_std`, with `handler_new_ref` as an argument. -/
def ctrlNewStdWith (newRef : World → Nat → Int × World) (tables : Tables) (w : World) (h : Nat)
    (ops : CtrlOps) (id : UInt32) (range : CtrlRange) (kzalloc : Bool) : Option Nat × World :=
  let fill := tables.fill id range
  if fill.type = .menu then (none, handlerSetErr w h einval)
  else ctrlNewWith newRef w h ⟨ops, id, tables.getName id, fill.type, fill.range, fill.flags, none⟩
    kzalloc

variable (tables : Tables) (allocs : Allocs) (w : World) (h : Nat)

/-- `handler_new_ref`. The class control is its own class control, so that adding
it only inserts its reference. -/
def handlerNewRef (c : Nat) : Int × World :=
  let id := (w.ctrl c).id
  if id = classCtrl id then insertRef w h c allocs.ref
  else
    match findRef w h (classCtrl id) with
    | (some _, w) => insertRef w h c allocs.ref
    | (none, w) =>
      match ctrlNewStdWith (fun w c => insertRef w h c allocs.classRef) tables w h noOps
        (classCtrl id) ⟨0, 0, 0, 0⟩ allocs.classCtrl with
      | (none, w) => ((w.hdl h).error, w)
      | (some _, w) => insertRef w h c allocs.ref

def v4l2CtrlNew (p : CtrlParams) : Option Nat × World :=
  ctrlNewWith (fun w c => handlerNewRef tables allocs w h c) w h p allocs.ctrl

structure CtrlConfig where
  ops : CtrlOps
  id : UInt32
  name : Option String
  type : CtrlType
  range : CtrlRange
  flags : UInt32
  menuSkipMask : UInt32
  qmenu : Option (Int → String)
  isPrivate : Bool
  isVolatile : Bool

def customParams (cfg : CtrlConfig) : CtrlParams :=
  let fill := tables.fill cfg.id cfg.range
  let isMenu := cfg.type = .menu
  let range := if cfg.name.isNone then fill.range else cfg.range
  { ops := cfg.ops
    id := cfg.id
    name := if cfg.name.isNone then tables.getName cfg.id else cfg.name
    type := if cfg.name.isNone then fill.type else cfg.type
    range := { range with step := if isMenu then cfg.menuSkipMask else range.step }
    flags := if cfg.name.isNone then fill.flags else cfg.flags
    qmenu := if isMenu ∧ cfg.qmenu.isNone then tables.getMenu cfg.id else cfg.qmenu }

def v4l2CtrlNewCustom (cfg : CtrlConfig) : Option Nat × World :=
  match v4l2CtrlNew tables allocs w h (customParams tables cfg) with
  | (none, w) => (none, w)
  | (some c, w) => (some c, w.setCtrl c { w.ctrl c with isPrivate := cfg.isPrivate,
                                                        isVolatile := cfg.isVolatile })

def v4l2CtrlNewStd (ops : CtrlOps) (id : UInt32) (range : CtrlRange) : Option Nat × World :=
  ctrlNewStdWith (fun w c => handlerNewRef tables allocs w h c) tables w h ops id range allocs.ctrl

def v4l2CtrlNewStdMenu (ops : CtrlOps) (id : UInt32) (range : CtrlRange) (mask : UInt32) :
    Option Nat × World :=
  let fill := tables.fill id range
  if fill.type ≠ .menu then (none, handlerSetErr w h einval)
  else v4l2CtrlNew tables allocs w h
    ⟨ops, id, tables.getName id, fill.type, ⟨0, fill.range.max, mask, fill.range.dflt⟩, fill.flags,
      tables.getMenu id⟩

end New

section Add

def v4l2CtrlAddCtrl (tables : Tables) (allocs : Allocs) (w : World) (h c : Option Nat) :
    Option Nat × World :=
  match h with
  | none => (none, w)
  | some h =>
    if (w.hdl h).error ≠ 0 then (none, w)
    else
      match c with
      | none => (none, handlerSetErr w h einval)
      | some c =>
        if (w.ctrl c).handler = h then (some c, w)
        else
          let (ret, w) := handlerNewRef tables allocs w h c
          (if ret ≠ 0 then none else some c, w)

/-- The loop of `v4l2_ctrl_add_handler` over the controls of the other handler. -/
def addHandlerLoop (tables : Tables) (allocs : Nat → Allocs) (h : Nat) :
    List Nat → Nat → World → Int × World
  | [], _, w => (0, w)
  | c :: rest, i, w =>
    if (w.ctrl c).isPrivate then addHandlerLoop tables allocs h rest (i + 1) w
    else if (w.ctrl c).type = .ctrlClass then addHandlerLoop tables allocs h rest (i + 1) w
    else
      let (ret, w) := handlerNewRef tables (allocs i) w h c
      if ret ≠ 0 then (ret, w) else addHandlerLoop tables allocs h rest (i + 1) w

def v4l2CtrlAddHandler (tables : Tables) (allocs : Nat → Allocs) (w : World)
    (h add : Option Nat) : Int × World :=
  match h, add with
  | some h, some add =>
    if h = add then (0, w)
    else if (w.hdl h).error ≠ 0 then ((w.hdl h).error, w)
    else addHandlerLoop tables allocs h (w.hdl add).ctrls 0 w
  | _, _ => (0, w)

end Add

section Clusters

/-- `v4l2_ctrl_cluster`; `none` is its `BUG_ON`. -/
def v4l2CtrlCluster (w : World) (controls : List (Option Nat)) : Option World :=
  match controls with
  | some _ :: _ =>
    some { w with
           array := update w.array w.freshArray controls
           freshArray := w.freshArray + 1
           ctrl := fun c => if some c ∈ controls then
             { w.ctrl c with cluster := .array w.freshArray, ncontrols := controls.length }
             else w.ctrl c }
  | _ => none

/-- The field `val` of a value: of one with 64 bits the lower half. -/
def Ctrl.valOf (ctrl : Ctrl) (value : Value) : Int :=
  if ctrl.type = .integer64 then (BitVec.ofInt 32 value.val).toInt else value.val

def isCurManual (master : Ctrl) : Bool :=
  master.isAuto && master.valOf master.cur = master.manualModeValue.toNat

def isNewManual (master : Ctrl) : Bool :=
  master.isAuto && master.valOf master.new = master.manualModeValue.toNat

def v4l2CtrlAutoCluster (w : World) (controls : List (Option Nat)) (manualVal : UInt8)
    (setVolatile : Bool) : Option World :=
  match v4l2CtrlCluster w controls, controls with
  | some w, some m :: rest =>
    let w := w.setCtrl m { w.ctrl m with isAuto := true, manualModeValue := manualVal,
                                         flags := (w.ctrl m).flags ||| flagUpdate }
    let flag := if isCurManual (w.ctrl m) then 0 else flagInactive
    some { w with
           ctrl := fun c => if some c ∈ rest then
             { w.ctrl c with isVolatile := setVolatile, flags := (w.ctrl c).flags ||| flag }
             else w.ctrl c }
  | _, _ => none

/-- The array that a control's cluster pointer leads to; `none` is an access
through a null pointer or to a reference that has been freed. -/
def clusterOf (w : World) (c : Nat) : Option (List (Option Nat)) :=
  match (w.ctrl c).cluster with
  | .null => none
  | .ref r => if (w.ref r).freed then none else some [some (w.ref r).ctrl]
  | .array a => some (w.array a)

/-- `ctrl->cluster[0]`, which is then followed. -/
def masterOf (w : World) (c : Nat) : Option Nat :=
  (clusterOf w c).bind fun cluster => cluster.head?.join

/-- The members of `master->cluster[0 .. master->ncontrols)` that are not null. -/
def membersOf (w : World) (master : Nat) : Option (List Nat) :=
  (clusterOf w master).map fun cluster => (cluster.take (w.ctrl master).ncontrols).filterMap id

def curToNew (ctrl : Ctrl) : Ctrl := { ctrl with new := ctrl.cur }

/-- The loop of `v4l2_ctrl_handler_setup`. `sCtrl` answers the calls of `s_ctrl`
by their number; the masters whose `s_ctrl` is called are listed. -/
def setupLoop (sCtrl : Nat → Int) : List Nat → List Nat → World → Option (Int × List Nat × World)
  | [], calls, w => some (0, calls, w)
  | c :: rest, calls, w =>
    match masterOf w c with
    | none => none
    | some master =>
      let ctrl := w.ctrl c
      if ctrl.done || ctrl.type = .button || hasFlag ctrl.flags flagReadOnly then
        setupLoop sCtrl rest calls w
      else
        match membersOf w master with
        | none => none
        | some members =>
          let w := { w with ctrl := fun c => if c ∈ members then
            { curToNew (w.ctrl c) with isNew := true, done := true } else w.ctrl c }
          if (w.ctrl master).ops.sCtrl then
            let ret := sCtrl calls.length
            if ret ≠ 0 then some (ret, calls ++ [master], w)
            else setupLoop sCtrl rest (calls ++ [master]) w
          else setupLoop sCtrl rest calls w

def v4l2CtrlHandlerSetup (w : World) (h : Nat) (sCtrl : Nat → Int) :
    Option (Int × List Nat × World) :=
  let ctrls := (w.hdl h).ctrls
  setupLoop sCtrl ctrls []
    { w with ctrl := fun c => if c ∈ ctrls then { w.ctrl c with done := false } else w.ctrl c }

end Clusters

section Query

structure QueryCtrl where
  id : UInt32
  name : String
  minimum : Int
  maximum : Int
  defaultValue : Int
  step : UInt32
  flags : UInt32
  type : CtrlType

/-- The reference that `v4l2_queryctrl` answers with. -/
def queryRef (w : World) (h : Nat) (qcId : UInt32) : Option Nat × World :=
  let id := qcId &&& idMask
  let refs := (w.hdl h).ctrlRefs
  let (ref, w) := findRef w h id
  match hasFlag qcId flagNextCtrl, refs.getLast? with
  | true, some last =>
    if w.refId last ≤ id then (none, w)
    else
      match ref with
      | some r => ((refs.dropWhile (· ≠ r))[1]?, w)
      | none => (refs.find? (fun r => id < w.refId r), w)
  | _, _ => (ref, w)

def v4l2Queryctrl (w : World) (h : Nat) (qcId : UInt32) : Except Int QueryCtrl × World :=
  let id := qcId &&& idMask
  match queryRef w h qcId with
  | (none, w) => (.error einval, w)
  | (some r, w) =>
    let ctrl := w.ctrl (w.ref r).ctrl
    (.ok { id := if privateBase ≤ id then id else ctrl.id
           name := String.ofList (ctrl.name.toList.take 31)
           minimum := ctrl.minimum
           maximum := ctrl.maximum
           defaultValue := ctrl.defaultValue
           step := if ctrl.type = .menu then 1 else ctrl.step
           flags := ctrl.flags
           type := ctrl.type }, w)

end Query

inductive Call
  | newCustom (h : Nat) (cfg : CtrlConfig) (allocs : Allocs)
  | newStd (h : Nat) (ops : CtrlOps) (id : UInt32) (range : CtrlRange) (allocs : Allocs)
  | newStdMenu (h : Nat) (ops : CtrlOps) (id : UInt32) (range : CtrlRange) (mask : UInt32)
      (allocs : Allocs)
  | addCtrl (h c : Option Nat) (allocs : Allocs)
  | addHandler (h add : Option Nat) (allocs : Nat → Allocs)
  | cluster (controls : List (Option Nat))
  | autoCluster (controls : List (Option Nat)) (manualVal : UInt8) (setVolatile : Bool)
  | find (h : Nat) (id : UInt32)

/-- A control that a driver has got from one of the `v4l2_ctrl_new` functions. -/
def World.owned (w : World) (c : Nat) : Prop := c ∈ (w.hdl (w.ctrl c).handler).ctrls

instance (w : World) (c : Nat) : Decidable (w.owned c) :=
  inferInstanceAs (Decidable (c ∈ (w.hdl (w.ctrl c).handler).ctrls))

/-- `none` is a call that stops in `BUG_ON`, or one with a pointer to no control. -/
def callStep (tables : Tables) (w : World) : Call → Option World
  | .newCustom h cfg allocs => some (v4l2CtrlNewCustom tables allocs w h cfg).2
  | .newStd h ops id range allocs => some (v4l2CtrlNewStd tables allocs w h ops id range).2
  | .newStdMenu h ops id range mask allocs =>
    some (v4l2CtrlNewStdMenu tables allocs w h ops id range mask).2
  | .addCtrl h c allocs =>
    if c.all (fun c => w.owned c) then some (v4l2CtrlAddCtrl tables allocs w h c).2 else none
  | .addHandler h add allocs => some (v4l2CtrlAddHandler tables allocs w h add).2
  | .cluster controls =>
    if controls.all (fun c => c.all fun c => w.owned c) then v4l2CtrlCluster w controls else none
  | .autoCluster controls manualVal setVolatile =>
    if controls.all (fun c => c.all fun c => w.owned c) then
      v4l2CtrlAutoCluster w controls manualVal setVolatile else none
  | .find h id => some (findRef w h id).2

/-- Handlers after `v4l2_ctrl_handler_init`, and no control yet. -/
def initWorld (hints : Nat → Nat) (kzalloc : Nat → Bool) : World where
  hdl := fun h => v4l2CtrlHandlerInit (hints h) (kzalloc h)
  ctrl := fun _ => freshlyMade 0 ⟨noOps, 0, none, .integer, ⟨0, 0, 0, 0⟩, 0, none⟩
  ref := fun _ => ⟨0, none, true⟩
  array := fun _ => []
  freshCtrl := 0
  freshRef := 0
  freshArray := 0

end TbsMedia.Ctrls
