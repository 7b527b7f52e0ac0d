import TbsMedia.Ctrls.Handler

/-!
Extended controls (`prepare_ext_ctrls`, `v4l2_g_ext_ctrls` and
`try_set_ext_ctrls` of `v4l2-ctrls.c`), and the simple interface for one control
at a time. Arrays of the caller and of helpers are memories by index. What the
driver's operations answer is an argument, by the index at which a cluster is
worked on; they may change the new values of the cluster. `none` is an access
through a bad pointer or a division by zero.
-/

namespace TbsMedia.Ctrls

open Function

def eacces : Int := -13

def efault : Int := -14

def ebusy : Int := -16

def enospc : Int := -28

def toS32 (n : Int) : Int := (BitVec.ofInt 32 n).toInt

def toU32 (n : Int) : Nat := (BitVec.ofInt 32 n).toNat

/-- `struct v4l2_ext_control`. `string` has the bytes that can be read at the
pointer; `writable` says whether they can be written too. -/
structure ExtControl where
  id : UInt32
  size : UInt32
  value : Int
  value64 : Int
  string : List UInt8
  writable : Bool

/-- `struct v4l2_ctrl_helper`. -/
structure Helper where
  mref : Option Nat
  ctrl : Nat
  next : Nat

/-- `struct v4l2_ext_controls`. -/
structure ExtControls where
  ctrlClass : UInt32
  count : Nat
  controls : Nat → ExtControl

section Values

/-- The text up to the terminator; `strlen` is its length. -/
def cString (bytes : List UInt8) : List UInt8 := bytes.takeWhile (· ≠ 0)

/-- `cur_to_user` and `new_to_user`. Of a string that does not fit the size that
would do is told. -/
def valueToUser (value : Value) (sizeNeeded : Nat) (c : ExtControl) (ctrl : Ctrl) :
    Int × ExtControl :=
  match ctrl.type, value with
  | .string, .str s =>
    if c.size.toNat < s.length + 1 then (enospc, { c with size := UInt32.ofNat sizeNeeded })
    else if c.writable = false ∨ c.string.length < s.length + 1 then (efault, c)
    else (0, { c with string := s ++ 0 :: c.string.drop (s.length + 1) })
  | .integer64, value => (0, { c with value64 := value.val })
  | _, value => (0, { c with value := value.val })

def curToUser (c : ExtControl) (ctrl : Ctrl) : Int × ExtControl :=
  valueToUser ctrl.cur (match ctrl.cur with | .str s => s.length + 1 | .num _ => 0) c ctrl

def newToUser (c : ExtControl) (ctrl : Ctrl) : Int × ExtControl :=
  valueToUser ctrl.new (toU32 (ctrl.maximum + 1)) c ctrl

def userToNew (c : ExtControl) (ctrl : Ctrl) : Int × Ctrl :=
  let ctrl := { ctrl with isNew := true }
  match ctrl.type with
  | .integer64 => (0, { ctrl with new := .num c.value64 })
  | .string =>
    if c.size = 0 then (erange, ctrl)
    else
      let size := min c.size.toNat (toU32 (ctrl.maximum + 1))
      if c.string.length < size then (efault, ctrl)
      else
        let last := c.string.getD (size - 1) 0
        let s := cString (c.string.take (size - 1))
        (if s.length = ctrl.maximum ∧ last ≠ 0 then erange else 0, { ctrl with new := .str s })
  | _ => (0, { ctrl with new := .num c.value })

def validateNewInt (ctrl : Ctrl) (val : Int) : Except Int Int :=
  match ctrl.type with
  | .integer =>
    let val := toS32 (val + ctrl.step.toNat / 2)
    let val := if val < ctrl.minimum then ctrl.minimum else val
    let val := if ctrl.maximum < val then ctrl.maximum else val
    let offset := toU32 (val - ctrl.minimum)
    let offset : Nat := ctrl.step.toNat * (offset / ctrl.step.toNat) % 2 ^ 32
    .ok (toS32 (ctrl.minimum + offset))
  | .boolean => .ok (if val ≠ 0 then 1 else 0)
  | .menu =>
    if val < ctrl.minimum ∨ ctrl.maximum < val then .error erange
    else if (ctrl.qmenu.map (· val)).getD "" = "" ∨
        hasFlag ctrl.step (1 <<< UInt32.ofNat (toU32 val)) then .error einval
    else .ok val
  | .bitmask => .ok (BitVec.ofInt 32 val &&& BitVec.ofInt 32 ctrl.maximum).toInt
  | .button | .ctrlClass => .ok 0
  | _ => .error einval

/-- `strlen` reads at the caller's pointer. -/
def validateNew (ctrl : Ctrl) (c : ExtControl) : Option (Int × ExtControl) :=
  match ctrl.type with
  | .integer64 => some (0, c)
  | .string =>
    if 0 ∉ c.string then none
    else
      let len := (cString c.string).length
      let minimum := (BitVec.ofInt 64 ctrl.minimum).toNat
      if len < minimum then some (erange, c)
      else if ctrl.step = 0 then none
      else if (len - minimum) % ctrl.step.toNat ≠ 0 then some (erange, c)
      else some (0, c)
  | _ =>
    match validateNewInt ctrl c.value with
    | .error err => some (err, c)
    | .ok value => some (0, { c with value := value })

/-- `new_to_cur`; the event is left out. -/
def newToCur (w : World) (c : Nat) (updateInactive : Bool) : World :=
  let ctrl := w.ctrl c
  let ctrl := if ctrl.type = .button then ctrl else { ctrl with cur := ctrl.new }
  let w := w.setCtrl c ctrl
  if updateInactive then
    let master := w.ctrl ((masterOf w c).getD c)
    let flags := ctrl.flags &&& ~~~ flagInactive
    w.setCtrl c { ctrl with flags := if isCurManual master then flags else flags ||| flagInactive }
  else w

def clusterChanged (w : World) (members : List Nat) : Bool :=
  members.any fun c => (w.ctrl c).type = .button || (w.ctrl c).new ≠ (w.ctrl c).cur

end Values

section Prepare

/-- One round of the first loop of `prepare_ext_ctrls`: an error, or the helper and
whether the control is in a cluster of several. -/
def prepareEntry (w : World) (h : Nat) (ctrlClass id : UInt32) :
    Option (Except Int (Helper × Bool) × World) :=
  let id := id &&& idMask
  if ctrlClass ≠ 0 ∧ id2Class id ≠ ctrlClass then some (.error einval, w)
  else if privateBase ≤ id then some (.error einval, w)
  else
    match findRef w h id with
    | (none, w) => some (.error einval, w)
    | (some r, w) =>
      let c := (w.ref r).ctrl
      if hasFlag (w.ctrl c).flags flagDisabled then some (.error einval, w)
      else
        match masterOf w c with
        | none => none
        | some m =>
          let many := decide (1 < (w.ctrl m).ncontrols)
          if m = c then some (.ok (⟨some r, c, 0⟩, many), w)
          else
            let (mref, w) := findRef w h (w.ctrl m).id
            some (.ok (⟨mref, c, 0⟩, many), w)

/-- The first loop of `prepare_ext_ctrls`, from index `i` on: the error code, the
index reached, the helpers and whether there are clusters of several controls. -/
def prepareLoop (h : Nat) (cs : ExtControls) :
    Nat → Nat → (Nat → Helper) → Bool → World → Option (Int × Nat × (Nat → Helper) × Bool × World)
  | 0, i, helpers, haveClusters, w => some (0, i, helpers, haveClusters, w)
  | left + 1, i, helpers, haveClusters, w =>
    match prepareEntry w h cs.ctrlClass (cs.controls i).id with
    | none => none
    | some (.error err, w) => some (err, i, helpers, haveClusters, w)
    | some (.ok (helper, many), w) =>
      prepareLoop h cs left (i + 1) (update helpers i helper) (haveClusters || many) w

def World.setHelper (w : World) (r : Nat) (helper : Option Nat) : World :=
  { w with ref := update w.ref r { w.ref r with helper := helper } }

def zeroLoop (helpers : Nat → Helper) : Nat → Nat → World → Option World
  | 0, _, w => some w
  | left + 1, i, w =>
    match (helpers i).mref with
    | none => none
    | some r => zeroLoop helpers left (i + 1) (w.setHelper r none)

/-- Helpers of one cluster are linked by their `next` fields. -/
def groupLoop : Nat → Nat → (Nat → Helper) → World → Option ((Nat → Helper) × World)
  | 0, _, helpers, w => some (helpers, w)
  | left + 1, i, helpers, w =>
    match (helpers i).mref with
    | none => none
    | some r =>
      let linked := match (w.ref r).helper with
        | none => helpers
        | some j =>
          let helpers := update helpers j { helpers j with next := i }
          update helpers i { helpers i with mref := none }
      groupLoop left (i + 1) linked (w.setHelper r (some i))

/-- `prepare_ext_ctrls`: the error code, `error_idx`, and the helpers. -/
def prepareExtCtrls (w : World) (h : Nat) (cs : ExtControls) (helpers : Nat → Helper) :
    Option (Int × Nat × (Nat → Helper) × World) :=
  match prepareLoop h cs cs.count 0 helpers false w with
  | none => none
  | some (ret, i, helpers, haveClusters, w) =>
    if ret ≠ 0 then some (ret, i, helpers, w)
    else if haveClusters = false then some (0, i - 1, helpers, w)
    else do
      let w ← zeroLoop helpers cs.count 0 w
      let (helpers, w) ← groupLoop cs.count 0 helpers w
      pure (0, i - 1, helpers, w)

/-- The indices that a loop over the `next` fields goes through. The fuel is never
used up: `next` is 0 or larger than the index. -/
def chain (helpers : Nat → Helper) : Nat → Nat → List Nat
  | 0, _ => []
  | fuel + 1, i =>
    i :: if (helpers i).next = 0 then [] else chain helpers fuel (helpers i).next

end Prepare

section Clusters

/-- What one call of a driver's operation answers, and what it makes of the new
values of the cluster's controls. -/
structure Answer where
  ret : Int
  num : Nat → Int → Int
  str : Nat → List UInt8 → List UInt8

def Answer.value (answer : Answer) (c : Nat) : Value → Value
  | .num n => .num (answer.num c n)
  | .str s => .str (cString (answer.str c s))

/-- The answers to `try_ctrl`, `s_ctrl` and `g_volatile_ctrl` for one cluster, and which
controls are grabbed when it is locked: others may have grabbed or released some
while no cluster was. -/
structure Answers where
  tryCtrl : Answer
  sCtrl : Answer
  gVolatileCtrl : Answer
  grabbed : Nat → Bool

/-- `v4l2_ctrl_grab`; the event is left out. -/
def v4l2CtrlGrab (ctrl : Ctrl) (grabbed : Bool) : Ctrl :=
  { ctrl with flags := if grabbed then ctrl.flags ||| flagGrabbed
                       else ctrl.flags &&& ~~~ flagGrabbed }

def World.grab (w : World) (grabbed : Nat → Bool) : World :=
  { w with ctrl := fun c => v4l2CtrlGrab (w.ctrl c) (grabbed c) }

/-- `call_op`. -/
def callOp (w : World) (members : List Nat) (hasOp : Bool) (answer : Answer) : Int × World :=
  if hasOp then
    (answer.ret, { w with ctrl := fun c => if c ∈ members then
      { w.ctrl c with new := answer.value c (w.ctrl c).new } else w.ctrl c })
  else (0, w)

/-- The first loop of `try_or_set_cluster`. -/
def checkLoop (set : Bool) : List Nat → World → Int × World
  | [], w => (0, w)
  | c :: rest, w =>
    if (w.ctrl c).isNew = false then checkLoop set rest (w.setCtrl c (curToNew (w.ctrl c)))
    else if set && hasFlag (w.ctrl c).flags flagGrabbed then (ebusy, w)
    else checkLoop set rest w

inductive Refusal
  | prepareExtCtrls | accessCheck | validateNew | userToNew | grabbedCheck | tryCtrl | sCtrl
  | newToUser
  deriving DecidableEq

/-- The work on a cluster ends with an error code, and where it comes from if it is
not 0; `called` says whether `s_ctrl` was called. -/
structure ClusterResult where
  ret : Int
  refusal : Option Refusal
  called : Bool
  world : World

/-- The end of `try_or_set_cluster`. -/
def makePermanent (w : World) (master : Nat) (members : List Nat) : World :=
  let updateFlag := isCurManual (w.ctrl master) != isNewManual (w.ctrl master)
  match members with
  | [] => w
  | first :: others => others.foldl (newToCur · · updateFlag) (newToCur w first false)

def tryOrSetCluster (w : World) (master : Nat) (members : List Nat) (set : Bool)
    (answers : Answers) : ClusterResult :=
  match checkLoop set members w with
  | (ret, w) =>
    if ret ≠ 0 then ⟨ret, some .grabbedCheck, false, w⟩
    else
      match callOp w members (w.ctrl master).ops.tryCtrl answers.tryCtrl with
      | (ret, w) =>
        if ret ≠ 0 then ⟨ret, some .tryCtrl, false, w⟩
        else if set = false ∨ clusterChanged w members = false then ⟨0, none, false, w⟩
        else
          let called := (w.ctrl master).ops.sCtrl
          match callOp w members called answers.sCtrl with
          | (ret, w) =>
            if ret ≠ 0 then ⟨ret, some .sCtrl, called, w⟩
            else ⟨0, none, called, makePermanent w master members⟩

/-- The loop with `user_to_new` over a chain. -/
def userLoop (helpers : Nat → Helper) (controls : Nat → ExtControl) : List Nat → World → Int × World
  | [], w => (0, w)
  | idx :: rest, w =>
    let c := (helpers idx).ctrl
    let (ret, ctrl) := userToNew (controls idx) (w.ctrl c)
    if ret ≠ 0 then (ret, w.setCtrl c ctrl)
    else userLoop helpers controls rest (w.setCtrl c ctrl)

def toUserLoop (toUser : ExtControl → Ctrl → Int × ExtControl) (helpers : Nat → Helper)
    (w : World) : List Nat → (Nat → ExtControl) → Int × (Nat → ExtControl)
  | [], controls => (0, controls)
  | idx :: rest, controls =>
    let (ret, entry) := toUser (controls idx) (w.ctrl (helpers idx).ctrl)
    let controls := update controls idx entry
    if ret ≠ 0 then (ret, controls) else toUserLoop toUser helpers w rest controls

end Clusters

section Requests

/-- What a request leaves behind. `calls` lists the masters whose `s_ctrl` was called;
`refusal` is told of failed try and set requests. -/
structure Outcome where
  ret : Int
  refusal : Option Refusal
  errorIdx : Nat
  calls : List Nat
  controls : Nat → ExtControl
  world : World

def classCheck (w : World) (h : Nat) (ctrlClass : UInt32) : Int × World :=
  if ctrlClass = 0 then (if (w.hdl h).ctrlRefs = [] then einval else 0, w)
  else
    match findRef w h (ctrlClass ||| 1) with
    | (some _, w) => (0, w)
    | (none, w) => (einval, w)

/-- `validate_ctrls` from index `i` on: the error code, what it comes from, `error_idx`,
and the values that are legal now. -/
def validateLoop (w : World) (helpers : Nat → Helper) (set : Bool) :
    Nat → Nat → (Nat → ExtControl) → Option (Int × Option Refusal × Nat × (Nat → ExtControl))
  | 0, i, controls => some (0, none, i - 1, controls)
  | left + 1, i, controls =>
    let ctrl := w.ctrl (helpers i).ctrl
    if hasFlag ctrl.flags flagReadOnly then some (eacces, some .accessCheck, i, controls)
    else if set && hasFlag ctrl.flags flagGrabbed then
      some (ebusy, some .accessCheck, i, controls)
    else
      match validateNew ctrl (controls i) with
      | none => none
      | some (ret, entry) =>
        let controls := update controls i entry
        if ret ≠ 0 then some (ret, some .validateNew, i, controls)
        else validateLoop w helpers set left (i + 1) controls

/-- The `is_new` flags of a cluster are reset. -/
def resetNew (w : World) (members : List Nat) : World :=
  { w with ctrl := fun c => if c ∈ members then { w.ctrl c with isNew := false } else w.ctrl c }

/-- The work of `try_set_ext_ctrls` on one cluster. -/
def trySetCluster (set : Bool) (answers : Answers) (helpers : Nat → Helper) (indices : List Nat)
    (master : Nat) (members : List Nat) (w : World) (controls : Nat → ExtControl) :
    ClusterResult × (Nat → ExtControl) :=
  match userLoop helpers controls indices (resetNew w members) with
  | (ret, w) =>
    if ret ≠ 0 then (⟨ret, some .userToNew, false, w⟩, controls)
    else
      let result := tryOrSetCluster w master members set answers
      if result.ret ≠ 0 then (result, controls)
      else
        match toUserLoop newToUser helpers result.world indices controls with
        | (ret, controls) =>
          ({ result with ret := ret, refusal := if ret ≠ 0 then some .newToUser else none },
            controls)

/-- The main loop of `try_set_ext_ctrls`, from index `i` on. -/
def trySetLoop (set : Bool) (answers : Nat → Answers) (helpers : Nat → Helper) (count : Nat) :
    Nat → Nat → Outcome → Option Outcome
  | 0, _, out => some out
  | left + 1, i, out =>
    match (helpers i).mref with
    | none => trySetLoop set answers helpers count left (i + 1) out
    | some r =>
      let master := (out.world.ref r).ctrl
      match membersOf out.world master with
      | none => none
      | some members =>
        let (result, controls) := trySetCluster set (answers i) helpers
          (chain helpers count i) master members (out.world.grab (answers i).grabbed)
          out.controls
        let out := ⟨result.ret, result.refusal, i,
          if result.called then out.calls ++ [master] else out.calls, controls, result.world⟩
        if result.ret ≠ 0 then some out
        else trySetLoop set answers helpers count left (i + 1) out

def trySetExtCtrls (w : World) (h : Option Nat) (cs : ExtControls) (set : Bool)
    (answers : Nat → Answers) (kmalloc : Bool) (helpers : Nat → Helper) : Option Outcome :=
  let ctrlClass := id2Class cs.ctrlClass
  match h with
  | none => some ⟨einval, some .prepareExtCtrls, cs.count, [], cs.controls, w⟩
  | some h =>
    if cs.count = 0 then
      let (ret, w) := classCheck w h ctrlClass
      some ⟨ret, if ret ≠ 0 then some .prepareExtCtrls else none, 0, [], cs.controls, w⟩
    else if 4 < cs.count ∧ kmalloc = false then
      some ⟨enomem, some .prepareExtCtrls, cs.count, [], cs.controls, w⟩
    else
      match prepareExtCtrls w h { cs with ctrlClass := ctrlClass } helpers with
      | none => none
      | some (ret, errorIdx, helpers, w) =>
        if ret ≠ 0 then
          some ⟨ret, some .prepareExtCtrls, if set then cs.count else errorIdx, [],
            cs.controls, w⟩
        else
          match validateLoop w helpers set cs.count 0 cs.controls with
          | none => none
          | some (ret, refusal, errorIdx, controls) =>
            if ret ≠ 0 then
              some ⟨ret, refusal, if set then cs.count else errorIdx, [], controls, w⟩
            else
              trySetLoop set answers helpers cs.count cs.count 0
                ⟨0, none, errorIdx, [], controls, w⟩

def v4l2TryExtCtrls (w : World) (h : Option Nat) (cs : ExtControls) (answers : Nat → Answers)
    (kmalloc : Bool) (helpers : Nat → Helper) : Option Outcome :=
  trySetExtCtrls w h cs false answers kmalloc helpers

def v4l2SExtCtrls (w : World) (h : Option Nat) (cs : ExtControls) (answers : Nat → Answers)
    (kmalloc : Bool) (helpers : Nat → Helper) : Option Outcome :=
  trySetExtCtrls w h cs true answers kmalloc helpers

def askVolatile (w : World) (master : Nat) (answer : Answer) : Option (Int × World) :=
  (membersOf w master).map fun members =>
    callOp { w with ctrl := fun c => if c ∈ members then curToNew (w.ctrl c) else w.ctrl c }
      members true answer

/-- The main loop of `v4l2_g_ext_ctrls`, from index `i` on. -/
def getLoop (answers : Nat → Answers) (helpers : Nat → Helper) (count : Nat) :
    Nat → Nat → Outcome → Option Outcome
  | 0, _, out => some out
  | left + 1, i, out =>
    match (helpers i).mref with
    | none => getLoop answers helpers count left (i + 1) out
    | some r =>
      let master := (out.world.ref r).ctrl
      let ask := (out.world.ctrl master).ops.gVolatileCtrl && !isCurManual (out.world.ctrl master)
      match if ask then askVolatile out.world master (answers i).gVolatileCtrl
          else some (0, out.world) with
      | none => none
      | some (ret, w) =>
        if ret ≠ 0 then some ⟨ret, none, i, [], out.controls, w⟩
        else
          let (ret, controls) := toUserLoop (if ask then newToUser else curToUser) helpers w
            (chain helpers count i) out.controls
          if ret ≠ 0 then some ⟨ret, none, i, [], controls, w⟩
          else getLoop answers helpers count left (i + 1) ⟨0, none, i, [], controls, w⟩

def v4l2GExtCtrls (w : World) (h : Option Nat) (cs : ExtControls) (answers : Nat → Answers)
    (kmalloc : Bool) (helpers : Nat → Helper) : Option Outcome :=
  let ctrlClass := id2Class cs.ctrlClass
  match h with
  | none => some ⟨einval, none, cs.count, [], cs.controls, w⟩
  | some h =>
    if cs.count = 0 then
      let (ret, w) := classCheck w h ctrlClass
      some ⟨ret, none, 0, [], cs.controls, w⟩
    else if 4 < cs.count ∧ kmalloc = false then some ⟨enomem, none, cs.count, [], cs.controls, w⟩
    else
      match prepareExtCtrls w h { cs with ctrlClass := ctrlClass } helpers with
      | none => none
      | some (ret, _, helpers, w) =>
        if ret ≠ 0 then some ⟨ret, none, cs.count, [], cs.controls, w⟩
        else if (List.range cs.count).any
            (fun i => hasFlag (w.ctrl (helpers i).ctrl).flags flagWriteOnly) then
          some ⟨eacces, none, cs.count, [], cs.controls, w⟩
        else getLoop answers helpers cs.count cs.count 0 ⟨0, none, cs.count, [], cs.controls, w⟩

end Requests

/-- `get_ctrl`: the error code and the value, which was `val` before. -/
def getCtrl (w : World) (c : Nat) (val : Int) (answers : Answers) : Option (Int × Int × World) :=
  match masterOf w c with
  | none => none
  | some master =>
    if hasFlag (w.ctrl c).flags flagWriteOnly then some (eacces, val, w)
    else if (w.ctrl c).isVolatile && !isCurManual (w.ctrl master) then
      match membersOf w master with
      | none => none
      | some members =>
        let w := { w with ctrl := fun c =>
          if c ∈ members then curToNew (w.ctrl c) else w.ctrl c }
        let (ret, w) := callOp w members (w.ctrl master).ops.gVolatileCtrl answers.gVolatileCtrl
        some (ret, (w.ctrl c).valOf (w.ctrl c).new, w)
    else some (0, (w.ctrl c).valOf (w.ctrl c).cur, w)

/-- `set_ctrl`: the error code and the value that the control has then. -/
def setCtrl (w : World) (c : Nat) (val : Int) (answers : Answers) : Option (Int × Int × World) :=
  match masterOf w c with
  | none => none
  | some master =>
    match validateNewInt (w.ctrl c) val with
    | .error err => some (err, val, w)
    | .ok val =>
      let w := w.grab answers.grabbed
      match membersOf w master with
      | none => none
      | some members =>
        let w := resetNew w members
        let w := w.setCtrl c { w.ctrl c with new := .num val, isNew := true }
        let result := tryOrSetCluster w master members true answers
        some (result.ret, (result.world.ctrl c).valOf (result.world.ctrl c).cur, result.world)

/-- `v4l2_ctrl_find`, with a test of the type. -/
def findInt (w : World) (h : Nat) (id : UInt32) : Option Nat × World :=
  match findRef w h id with
  | (none, w) => (none, w)
  | (some r, w) =>
    (if typeIsInt (w.ctrl (w.ref r).ctrl).type then some (w.ref r).ctrl else none, w)

def v4l2GCtrl (w : World) (h : Nat) (id : UInt32) (val : Int) (answers : Answers) :
    Option (Int × Int × World) :=
  match findInt w h id with
  | (none, w) => some (einval, val, w)
  | (some c, w) => getCtrl w c val answers

def v4l2SCtrl (w : World) (h : Nat) (id : UInt32) (val : Int) (answers : Answers) :
    Option (Int × Int × World) :=
  match findInt w h id with
  | (none, w) => some (einval, val, w)
  | (some c, w) =>
    if hasFlag (w.ctrl c).flags flagReadOnly then some (eacces, val, w)
    else setCtrl w c val answers

/-- `v4l2_ctrl_g_ctrl`. -/
def v4l2CtrlGCtrl (w : World) (c : Nat) (answers : Answers) : Option (Int × World) :=
  (getCtrl w c 0 answers).map fun (_, val, w) => (val, w)

/-- `v4l2_ctrl_s_ctrl`. -/
def v4l2CtrlSCtrl (w : World) (c : Nat) (val : Int) (answers : Answers) : Option (Int × World) :=
  (setCtrl w c val answers).map fun (ret, _, w) => (ret, w)

end TbsMedia.Ctrls
