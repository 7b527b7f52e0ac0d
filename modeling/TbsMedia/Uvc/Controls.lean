import Mathlib.Data.List.Basic

/-!
Controls of a UVC video chain (`uvc_ctrl.c`) and the transactions on them. Beside each
control stands the value the device holds for it, which only a successful `SET_CUR` changes.
How USB requests end is given with each call.
-/

namespace TbsMedia.Uvc

def eio : Int := -5

def einval : Int := -22

def erange : Int := -34

abbrev Data := List UInt8

inductive Query where
  | getCur | getMin | getMax | getRes | getDef
  deriving DecidableEq, Repr

/-- `V4L2_CTRL_TYPE_*`; `other` are those that no function here tells apart. -/
inductive CtrlType where
  | integer | boolean | menu | button | other
  deriving DecidableEq, Repr

/-- `struct uvc_control_mapping`: a V4L2 control as `size` bits of a UVC control. `menu` lists
the values of `menu_info`; `get` and `set` are the mapping's own functions. -/
structure Mapping where
  id : BitVec 32
  size : Nat
  v4l2Type : CtrlType
  menu : List (BitVec 32)
  get : Query → Data → BitVec 32
  set : BitVec 32 → Data → Data

/-- `info.flags`. -/
structure CtrlFlags where
  setCur : Bool
  getCur : Bool
  getMin : Bool
  getMax : Bool
  getRes : Bool
  getDef : Bool
  autoUpdate : Bool
  deriving DecidableEq, Repr

/-- `struct uvc_control`, with the slots of `uvc_data`, and the value in the device. -/
structure Control where
  flags : CtrlFlags
  size : Nat
  mappings : List Mapping
  initialized : Bool
  dirty : Bool
  loaded : Bool
  modified : Bool
  cached : Bool
  current : Data
  backup : Data
  minimum : Data
  maximum : Data
  resolution : Data
  default : Data
  device : Data

structure Reply where
  ok : Bool
  data : Data

structure RangeReplies where
  getDef : Reply
  getMin : Reply
  getMax : Reply
  getRes : Reply

namespace Control

def query (ctrl : Control) (supported : Bool) (reply : Reply) (slot : Control → Data → Control) :
    Int × Control :=
  if supported then (if reply.ok then 0 else eio, slot ctrl reply.data) else (0, ctrl)

def andThen (result : Int × Control) (next : Control → Int × Control) : Int × Control :=
  if result.1 < 0 then result else next result.2

/-- `uvc_ctrl_populate_cache`. -/
def populateCache (ctrl : Control) (replies : RangeReplies) : Int × Control :=
  let flags := ctrl.flags
  let result := ctrl.query flags.getDef replies.getDef fun c data => { c with default := data }
  let result := andThen result fun ctrl =>
    ctrl.query flags.getMin replies.getMin fun c data => { c with minimum := data }
  let result := andThen result fun ctrl =>
    ctrl.query flags.getMax replies.getMax fun c data => { c with maximum := data }
  let result := andThen result fun ctrl =>
    ctrl.query flags.getRes replies.getRes fun c data => { c with resolution := data }
  andThen result fun ctrl => (0, { ctrl with cached := true })

def cacheRange (ctrl : Control) (replies : RangeReplies) : Int × Control :=
  if ctrl.cached then (0, ctrl) else ctrl.populateCache replies

/-- `clamp` of signed values. -/
def clamp (value low high : BitVec 32) : BitVec 32 :=
  let value := if value.slt low then low else value
  if high.slt value then high else value

/-- The value of an integer mapping: `step` is unsigned, and with it the whole sum. -/
def roundToStep (value low high step : BitVec 32) : BitVec 32 :=
  let step := if step = 0 then 1 else step
  clamp (low + (value - low + step / 2) / step * step) low high

/-- What `uvc_ctrl_set` makes of the requested value: the value for the mapping, and what it
leaves in `xctrl`. -/
def legalValue (ctrl : Control) (mapping : Mapping) (value : BitVec 32)
    (replies : RangeReplies) : Except Int (BitVec 32 × BitVec 32) × Control :=
  match mapping.v4l2Type with
  | .integer =>
    let (ret, ctrl) := ctrl.cacheRange replies
    if ret < 0 then (.error ret, ctrl)
    else
      let value := roundToStep value (mapping.get .getMin ctrl.minimum)
        (mapping.get .getMax ctrl.maximum) (mapping.get .getRes ctrl.resolution)
      (.ok (value, value), ctrl)
  | .boolean => (.ok (clamp value 0 1, clamp value 0 1), ctrl)
  | .menu =>
    match if value.slt 0 then none else mapping.menu[value.toNat]? with
    | none => (.error erange, ctrl)
    | some entry =>
      if ctrl.flags.getRes then
        let (ret, ctrl) := ctrl.cacheRange replies
        if ret < 0 then (.error ret, ctrl)
        else if mapping.get .getRes ctrl.resolution &&& entry = 0 then (.error erange, ctrl)
        else (.ok (entry, value), ctrl)
      else (.ok (entry, value), ctrl)
  | .button | .other => (.ok (value, value), ctrl)

/-- `UVC_GET_CUR` into the current slot. -/
def getCur (ctrl : Control) (reply : Reply) : Int × Control :=
  if reply.ok then (0, { ctrl with current := ctrl.device, loaded := true })
  else (eio, { ctrl with current := reply.data })

/-- The part of `uvc_ctrl_set` that loads a control which the mapping does not span. -/
def loadForSet (ctrl : Control) (mapping : Mapping) (reply : Reply) : Int × Control :=
  if !ctrl.loaded && ctrl.size * 8 != mapping.size then
    if ctrl.flags.getCur then ctrl.getCur reply
    else (0, { ctrl with current := List.replicate ctrl.size 0, loaded := true })
  else (0, ctrl)

/-- The end of `uvc_ctrl_set`. -/
def store (ctrl : Control) (mapping : Mapping) (value : BitVec 32) : Control :=
  { ctrl with
    backup := if ctrl.dirty then ctrl.backup else ctrl.current
    current := mapping.set value ctrl.current
    dirty := true
    modified := true }

/-- `uvc_ctrl_set` once the control is found; the value is what it leaves in `xctrl`. -/
def set (ctrl : Control) (mapping : Mapping) (value : BitVec 32) (range : RangeReplies)
    (reply : Reply) : Except Int (BitVec 32) × Control :=
  if !ctrl.flags.setCur then (.error einval, ctrl)
  else
    match ctrl.legalValue mapping value range with
    | (.error ret, ctrl) => (.error ret, ctrl)
    | (.ok (value, shown), ctrl) =>
      let (ret, ctrl) := ctrl.loadForSet mapping reply
      if ret < 0 then (.error ret, ctrl) else (.ok shown, ctrl.store mapping value)

def decode (mapping : Mapping) (data : Data) : BitVec 32 :=
  let value := mapping.get .getCur data
  if mapping.v4l2Type = .menu then
    match mapping.menu.findIdx? (· == value) with
    | some i => BitVec.ofNat 32 i
    | none => value
  else value

/-- `uvc_ctrl_get` once the control is found. -/
def get (ctrl : Control) (mapping : Mapping) (reply : Reply) : Except Int (BitVec 32) × Control :=
  if !ctrl.flags.getCur then (.error einval, ctrl)
  else
    let (ret, ctrl) := if ctrl.loaded then (0, ctrl) else ctrl.getCur reply
    if ret < 0 then (.error ret, ctrl) else (.ok (decode mapping ctrl.current), ctrl)

end Control

structure Found where
  entity : Nat
  index : Nat
  mapping : Mapping

section

variable (entities : List (List Control))

/-- The mappings that `uvc_find_control` looks at, in its order. -/
def candidates : List Found :=
  entities.zipIdx.flatMap fun (controls, entity) =>
    controls.zipIdx.flatMap fun (ctrl, index) =>
      if ctrl.initialized then ctrl.mappings.map (⟨entity, index, ·⟩) else []

/-- `uvc_find_control`; with `V4L2_CTRL_FLAG_NEXT_CTRL` the mapping with the next higher id. -/
def uvcFindControl (id : BitVec 32) : Option Found :=
  let next := id &&& 0x80000000#32 ≠ 0
  let id := id &&& 0x0fffffff#32
  if next then
    (candidates entities).foldl (fun best found =>
      if (best.all fun b => found.mapping.id < b.mapping.id) ∧ id < found.mapping.id then some found
      else best) none
  else (candidates entities).find? fun found => found.mapping.id == id

def controlAt (found : Found) : Option Control :=
  entities[found.entity]?.bind (·[found.index]?)

def replaceAt (found : Found) (ctrl : Control) : List (List Control) :=
  entities.modify found.entity (·.set found.index ctrl)

def lookup (id : BitVec 32) : Option (Found × Control) :=
  (uvcFindControl entities id).bind fun found =>
    (controlAt entities found).map fun ctrl => (found, ctrl)

def uvcCtrlSet (id value : BitVec 32) (range : RangeReplies)
    (reply : Reply) : Except Int (BitVec 32) × List (List Control) :=
  match lookup entities id with
  | none => (.error einval, entities)
  | some (found, ctrl) =>
    let (result, ctrl) := ctrl.set found.mapping value range reply
    (result, replaceAt entities found ctrl)

def uvcCtrlGet (id : BitVec 32) (reply : Reply) : Except Int (BitVec 32) × List (List Control) :=
  match lookup entities id with
  | none => (.error einval, entities)
  | some (found, ctrl) =>
    let (result, ctrl) := ctrl.get found.mapping reply
    (result, replaceAt entities found ctrl)

end

/-- What a commit does to every control it comes to: the cached value of an auto-update
control is not used again. -/
def Control.resetLoaded (ctrl : Control) : Control :=
  if ctrl.initialized && ctrl.flags.autoUpdate then { ctrl with loaded := false } else ctrl

/-- `uvc_ctrl_commit_entity`; `answers` says which of the `SET_CUR` requests of the commit
succeed, `k` of them were sent before. -/
def uvcCtrlCommitEntity (rollback : Bool) (answers : Nat → Bool) :
    Nat → List Control → Int × Nat × List Control
  | k, [] => (0, k, [])
  | k, ctrl :: rest =>
    let ctrl := ctrl.resetLoaded
    if !ctrl.initialized || !ctrl.dirty then
      let (ret, k, rest) := uvcCtrlCommitEntity rollback answers k rest
      (ret, k, ctrl :: rest)
    else if rollback then
      let (ret, k, rest) := uvcCtrlCommitEntity rollback answers k rest
      (ret, k, { ctrl with current := ctrl.backup, dirty := false } :: rest)
    else if answers k then
      let (ret, k, rest) := uvcCtrlCommitEntity rollback answers (k + 1) rest
      (ret, k, { ctrl with device := ctrl.current, dirty := false } :: rest)
    else (eio, k + 1, { ctrl with current := ctrl.backup, dirty := false } :: rest)

/-- `__uvc_ctrl_commit`. -/
def uvcCtrlCommit (rollback : Bool) (answers : Nat → Bool) :
    Nat → List (List Control) → Int × Nat × List (List Control)
  | k, [] => (0, k, [])
  | k, entity :: rest =>
    let (ret, k, entity) := uvcCtrlCommitEntity rollback answers k entity
    if ret < 0 then (ret, k, entity :: rest)
    else
      let (ret, k, rest) := uvcCtrlCommit rollback answers k rest
      (ret, k, entity :: rest)

/-- A chain with its lock. `sent` counts the `SET_CUR` requests of the last transaction, and
`rolledBack` tells whether that one ended with a rollback. -/
structure Chain where
  entities : List (List Control)
  locked : Bool
  sent : Nat
  rolledBack : Bool

inductive Op where
  | begin
  | set (id value : BitVec 32) (range : RangeReplies) (reply : Reply)
  | get (id : BitVec 32) (reply : Reply)
  | commit (answers : Nat → Bool)
  | rollback

/-- Transactions: all calls but `uvc_ctrl_begin` are made with the lock held. -/
def opStep (w : Chain) : Op → Option Chain
  | .begin => if w.locked then none else some ⟨w.entities, true, 0, false⟩
  | .set id value range reply =>
    if w.locked then some { w with entities := (uvcCtrlSet w.entities id value range reply).2 }
    else none
  | .get id reply =>
    if w.locked then some { w with entities := (uvcCtrlGet w.entities id reply).2 } else none
  | .commit answers =>
    if w.locked then
      let (_, sent, entities) := uvcCtrlCommit false answers 0 w.entities
      some ⟨entities, false, sent, false⟩
    else none
  | .rollback =>
    if w.locked then
      let (_, sent, entities) := uvcCtrlCommit true (fun _ => true) w.sent w.entities
      some ⟨entities, false, sent, true⟩
    else none

end TbsMedia.Uvc
