import TbsMedia.Lib.Memory

/-!
Events of a V4L2 file handle (`v4l2-event.c`). A subscription owns a ring of
events that is allocated with it; the rings of all subscriptions are threaded
onto one list of available events. Subscriptions are known by their address.
`none` is an access to the memory of a subscription that has been freed, or a
call that does not return.
-/

namespace TbsMedia.V4l2

open Lib Function

def eventAll : UInt32 := 0

def eventCtrl : UInt32 := 3

/-- `V4L2_EVENT_SUB_FL_SEND_INITIAL`. -/
def subFlSendInitial : UInt32 := 1

/-- `V4L2_EVENT_CTRL_CH_VALUE` and `V4L2_EVENT_CTRL_CH_FLAGS`. -/
def ctrlChValue : UInt32 := 1

def ctrlChFlags : UInt32 := 2

def enoent : Int := -2

def enomem : Int := -12

def einval : Int := -22

/-- The union `u` of an event: the field `changes` of a control event, and its other fields. -/
structure EventPayload where
  changes : UInt32
  body : Bytes
  deriving DecidableEq

structure Event where
  type : UInt32
  id : UInt32
  u : EventPayload
  pending : Nat
  sequence : UInt32
  timestamp : Nat
  deriving DecidableEq

/-- `struct v4l2_subscribed_event`. `ctrl` stands for the callbacks `replace`
and `merge`, which are set for control events and only there. -/
structure SubscribedEvent where
  type : UInt32
  id : UInt32
  flags : UInt32
  ctrl : Bool
  elems : Nat
  first : Nat
  inUse : Nat
  events : Mem Event

/-- `struct v4l2_fh` and the memory of its subscriptions. An entry of
`available` is the address of a subscription and an index into its ring. -/
structure Fh where
  subscribed : List Nat
  available : List (Nat × Nat)
  navailable : Nat
  sequence : UInt32
  sev : Nat → SubscribedEvent

def Fh.updSev (fh : Fh) (p : Nat) (sev : SubscribedEvent) : Fh :=
  { fh with sev := update fh.sev p sev }

def sevPos (sev : SubscribedEvent) (idx : Nat) : Nat :=
  let idx := (idx + sev.first) % 2 ^ 32
  if sev.elems ≤ idx then idx - sev.elems else idx

def v4l2EventSubscribed (fh : Fh) (type id : UInt32) : Option Nat :=
  fh.subscribed.find? (fun p => (fh.sev p).type = type && (fh.sev p).id = id)

/-- `__v4l2_event_dequeue`. -/
def v4l2EventDequeue (fh : Fh) : Option (Except Int Event × Fh) :=
  match fh.available with
  | [] => some (.error enoent, fh)
  | (p, slot) :: rest =>
    if p ∈ fh.subscribed then
      let sev := fh.sev p
      let navailable := fh.navailable - 1
      let event := { sev.events slot with pending := navailable }
      let sev := { sev with events := update sev.events slot event,
                            first := sevPos sev 1, inUse := sev.inUse - 1 }
      some (.ok event, { fh.updSev p sev with available := rest, navailable := navailable })
    else none

def ctrlsReplace (old new : Event) : Event :=
  { old with u := { new.u with changes := new.u.changes ||| old.u.changes } }

def ctrlsMerge (old new : Event) : Event :=
  { new with u := { new.u with changes := new.u.changes ||| old.u.changes } }

/-- The ring of a full subscription without its oldest event, whose payload goes
into the new one (a ring of one event) or the second oldest. The answer says
whether the payload of the new event is still to be copied. -/
def SubscribedEvent.dropOldest (sev : SubscribedEvent) (ev : Event) : SubscribedEvent × Bool :=
  let slot := sevPos sev 0
  let kev := sev.events slot
  let dropped := { sev with inUse := sev.inUse - 1, first := sevPos sev 1 }
  if sev.elems = 1 then
    if sev.ctrl then
      ({ dropped with events := update sev.events slot (ctrlsReplace kev ev) }, false)
    else (dropped, true)
  else if sev.ctrl then
    let second := sevPos dropped 0
    ({ dropped with
       events := update sev.events second (ctrlsMerge kev (sev.events second)) }, true)
  else (dropped, true)

def dropOldest (fh : Fh) (p : Nat) (ev : Event) : Fh × Bool :=
  let (sev, copyPayload) := (fh.sev p).dropOldest ev
  ({ fh.updSev p sev with available := fh.available.erase (p, sevPos (fh.sev p) 0),
                          navailable := fh.navailable - 1 }, copyPayload)

def fillEvent (fh : Fh) (p : Nat) (copyPayload : Bool) (ev : Event) (timestamp : Nat) : Fh :=
  let sev := fh.sev p
  let slot := sevPos sev sev.inUse
  let kev := sev.events slot
  let event := { kev with type := ev.type, u := if copyPayload then ev.u else kev.u, id := ev.id,
                          timestamp := timestamp, sequence := fh.sequence }
  let sev := { sev with events := update sev.events slot event, inUse := sev.inUse + 1 }
  { fh.updSev p sev with available := fh.available ++ [(p, slot)],
                         navailable := fh.navailable + 1 }

/-- `__v4l2_event_queue_fh`. -/
def v4l2EventQueueFh (fh : Fh) (ev : Event) (timestamp : Nat) : Fh :=
  match v4l2EventSubscribed fh ev.type ev.id with
  | none => fh
  | some p =>
    let fh := { fh with sequence := fh.sequence + 1 }
    if (fh.sev p).inUse = (fh.sev p).elems then
      let (fh, copyPayload) := dropOldest fh p ev
      fillEvent fh p copyPayload ev timestamp
    else fillEvent fh p true ev timestamp

structure EventSubscription where
  type : UInt32
  id : UInt32
  flags : UInt32

/-- `sizeof(struct v4l2_subscribed_event)` and `sizeof(struct v4l2_kevent)`. -/
def sevSize : Nat := 88

def keventSize : Nat := 160

/-- No `kmalloc` is larger. -/
def kmallocMaxSize : Nat := 2 ^ 25

/-- The events of memory that `kzalloc` has cleared. -/
def zeroEvent : Event where
  type := 0
  id := 0
  u := { changes := 0, body := [] }
  pending := 0
  sequence := 0
  timestamp := 0

/-- What the events read of a control. Found under a private id, it has another `id` than the
one asked for; `body` stands for the fields that `fill_event` copies. -/
structure EventSource where
  id : UInt32
  isClass : Bool
  writeOnly : Bool
  body : Bytes

/-- The event of `v4l2_ctrl_add_event`. -/
def initialEvent (ctrl : EventSource) : Event :=
  let changes := if ctrl.writeOnly then ctrlChFlags else ctrlChFlags ||| ctrlChValue
  { zeroEvent with type := eventCtrl, id := ctrl.id, u := ⟨changes, ctrl.body⟩ }

/-- `v4l2_ctrl_add_event` for the subscription at `p`. The list that it puts it on is the
control's. -/
def v4l2CtrlAddEvent (fh : Fh) (p : Nat) (ctrl : EventSource) (timestamp : Nat) : Fh :=
  if ctrl.isClass = false ∧ (fh.sev p).flags &&& subFlSendInitial ≠ 0 then
    v4l2EventQueueFh fh (initialEvent ctrl) timestamp
  else fh

def ringElems (elems : UInt32) : Nat :=
  if elems.toNat < 1 then 1 else elems.toNat

/-- The handle with the new subscription on its list. -/
def addSubscription (fh : Fh) (sub : EventSubscription) (elems : UInt32) (p : Nat) : Fh :=
  let sev := { type := sub.type, id := sub.id, flags := sub.flags, ctrl := sub.type = eventCtrl,
               elems := ringElems elems, first := 0, inUse := 0, events := fun _ => zeroEvent }
  { fh.updSev p sev with subscribed := p :: fh.subscribed }

/-- `ctrl` is the answer of `v4l2_ctrl_find`, `alloc` the one of `kzalloc`: NULL, or the
address of memory that no subscription uses. -/
def v4l2EventSubscribe (fh : Fh) (sub : EventSubscription) (elems : UInt32)
    (ctrl : Option EventSource) (alloc : Option Nat) (timestamp : Nat) : Option (Int × Fh) :=
  if sub.type = eventCtrl && ctrl.isNone then some (einval, fh)
  else
    match alloc with
    | none => some (enomem, fh)
    | some p =>
      if p ∈ fh.subscribed || kmallocMaxSize < sevSize + keventSize * ringElems elems then none
      else
        match v4l2EventSubscribed fh sub.type sub.id with
        | some _ => some (0, fh)
        | none =>
          let fh := addSubscription fh sub elems p
          match if sub.type = eventCtrl then ctrl else none with
          | none => some (0, fh)
          | some ctrl => some (0, v4l2CtrlAddEvent fh p ctrl timestamp)

/-- The branch of `v4l2_event_unsubscribe` for one type of events. -/
def unsubscribeOne (fh : Fh) (type id : UInt32) : Fh :=
  match v4l2EventSubscribed fh type id with
  | none => fh
  | some p => { fh with subscribed := fh.subscribed.erase p }

/-- The loop of `v4l2_event_unsubscribe_all`. A subscription to `V4L2_EVENT_ALL`
makes the two functions call each other for ever. -/
def unsubscribeLoop : Nat → Fh → Option Fh
  | 0, _ => none
  | fuel + 1, fh =>
    match fh.subscribed with
    | [] => some fh
    | p :: _ =>
      if (fh.sev p).type = eventAll then none
      else unsubscribeLoop fuel (unsubscribeOne fh (fh.sev p).type (fh.sev p).id)

def v4l2EventUnsubscribeAll (fh : Fh) : Option Fh :=
  unsubscribeLoop (fh.subscribed.length + 1) fh

def v4l2EventUnsubscribe (fh : Fh) (type id : UInt32) : Option Fh :=
  if type = eventAll then v4l2EventUnsubscribeAll fh else some (unsubscribeOne fh type id)

inductive EventInput
  | subscribe (sub : EventSubscription) (elems : UInt32) (ctrl : Option EventSource)
    (alloc : Option Nat) (timestamp : Nat)
  | queue (ev : Event) (timestamp : Nat)
  | dequeue
  | unsubscribe (type id : UInt32)
  | unsubscribeAll

def eventStep (fh : Fh) : EventInput → Option Fh
  | .subscribe sub elems ctrl alloc timestamp =>
    (v4l2EventSubscribe fh sub elems ctrl alloc timestamp).map Prod.snd
  | .queue ev timestamp => some (v4l2EventQueueFh fh ev timestamp)
  | .dequeue => (v4l2EventDequeue fh).map Prod.snd
  | .unsubscribe type id => v4l2EventUnsubscribe fh type id
  | .unsubscribeAll => v4l2EventUnsubscribeAll fh

/-- `v4l2_fh_init` on a handle that was allocated with zeros; the sequence number starts at -1. -/
def fhInit : Fh where
  subscribed := []
  available := []
  navailable := 0
  sequence := 0xffffffff
  sev := fun _ => { type := 0, id := 0, flags := 0, ctrl := false, elems := 0, first := 0,
                    inUse := 0, events := fun _ => zeroEvent }

end TbsMedia.V4l2
