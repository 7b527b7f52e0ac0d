import TbsMedia.Vb2.QueueLists

/-!
What `vb2_dqbuf` tells about a buffer, and what it leaves behind when it fails. The buffer is
off the done list before the driver finishes it, and nobody looks whether its description
has found room in the user's array of planes.
-/

namespace TbsMedia.Vb2

/-- The flags that tell the state of a buffer. `__fill_vb2_buffer` keeps them out of
`v4l2_buf`, so there they are all clear. -/
structure StateFlags where
  mapped : Bool
  queued : Bool
  done : Bool
  error : Bool

/-- `struct v4l2_buffer` in full; `used` are `bytesused` and `data_offset` of each plane, and
`fields` are those that are copied as they are. -/
structure UserBuffer (ρ : Type) extends V4l2Buffer where
  bytesused : Nat
  flags : StateFlags
  fields : ρ
  used : Nat → Nat × Nat

/-- What `v4l2_buf` and `v4l2_planes` of a buffer hold beside its planes. -/
structure BufferInfo (ρ : Type) where
  bytesused : Nat
  fields : ρ
  used : Nat → Nat × Nat
  numPlanesMapped : Nat

variable {ρ : Type}

def stateFlags (vb : Vb2Buffer) (info : BufferInfo ρ) : StateFlags where
  mapped := info.numPlanesMapped = vb.numPlanes
  queued := vb.state = .queued ∨ vb.state = .active
  done := vb.state = .done ∨ vb.state = .error
  error := vb.state = .error

/-- `__fill_v4l2_buffer`. -/
def fillV4l2Buffer (q : Vb2Queue) (p : Nat) (info : BufferInfo ρ) (b : UserBuffer ρ) :
    Int × UserBuffer ρ :=
  let vb := q.vb p
  let b := { b with
    index := q.bufs.idxOf p, type := q.type, memory := q.memory
    bytesused := info.bytesused, flags := ⟨false, false, false, false⟩, fields := info.fields }
  if q.type.isMultiplanar then
    match verifyPlanesArray vb b.toV4l2Buffer with
    | .error ret => (ret, b)
    | .ok planes => (0, { b with
        planes := some fun i => if i < b.length then (vb.planes i).v4l2 else planes i
        used := fun i => if i < b.length then info.used i else b.used i
        flags := stateFlags vb info })
  else (0, { b with
    length := (vb.planes 0).v4l2.length
    bytesused := (info.used 0).1
    userptr := if q.memory = .mmap ∨ q.memory = .userptr then (vb.planes 0).v4l2.m else b.userptr
    flags := stateFlags vb info })

/-- `vb2_dqbuf` and the user's structure; what `__fill_v4l2_buffer` returns is dropped. -/
def vb2DqbufUser (q : Vb2Queue) (b : UserBuffer ρ) (info : Nat → BufferInfo ρ)
    (nonblocking : Bool) (bufFinish : Int) : Option (Int × Vb2Queue × UserBuffer ρ) :=
  (vb2Dqbuf q b.type nonblocking bufFinish).map fun (ret, r) =>
    match q.doneList with
    | p :: _ => (ret, r, if ret = 0 then (fillV4l2Buffer q p (info p) b).2 else b)
    | [] => (ret, r, b)

structure Describes (q : Vb2Queue) (p : Nat) (info : BufferInfo ρ) (b : UserBuffer ρ) : Prop where
  index : b.index = q.bufs.idxOf p
  copied : b.type = q.type ∧ b.memory = q.memory ∧ b.fields = info.fields
  flags : b.flags = stateFlags (q.vb p) info
  single : q.type.isMultiplanar = false → b.length = ((q.vb p).planes 0).v4l2.length ∧
    b.bytesused = (info.used 0).1 ∧
    (q.memory = .mmap ∨ q.memory = .userptr → b.userptr = ((q.vb p).planes 0).v4l2.m)
  planes : q.type.isMultiplanar = true → ∃ planes, b.planes = some planes ∧
    ∀ i, i < (q.vb p).numPlanes → i < b.length ∧ planes i = ((q.vb p).planes i).v4l2 ∧
      b.used i = info.used i

structure AllOrNothing (q : Vb2Queue) (info : Nat → BufferInfo ρ) (ret : Int) (r : Vb2Queue)
    (b : UserBuffer ρ) : Prop where
  all : ret = 0 → ∃ p, q.doneList = p :: r.doneList ∧ r.queuedList = q.queuedList.erase p ∧
    (r.vb p).state = .dequeued ∧ Describes q p (info p) b
  nothing : ret ≠ 0 → r.doneList = q.doneList ∧ r.queuedList = q.queuedList ∧
    ∀ p, (r.vb p).state = (q.vb p).state

def PlanesFit (vb : Vb2Buffer) (b : UserBuffer ρ) : Prop :=
  b.planes ≠ none ∧ vb.numPlanes ≤ b.length ∧ b.length ≤ videoMaxPlanes

theorem describes_iff {q : Vb2Queue} {p : Nat} (info : BufferInfo ρ) (b : UserBuffer ρ)
    (hstate : (q.vb p).state = .done ∨ (q.vb p).state = .error) :
    Describes q p info (fillV4l2Buffer q p info b).2 ↔
      (q.type.isMultiplanar = true → PlanesFit (q.vb p) b) := by
  rcases hmulti : q.type.isMultiplanar with _ | _
  · refine iff_of_true ?_ nofun
    constructor <;> simp +contextual [fillV4l2Buffer, hmulti]
  have hclear : ∀ b' : UserBuffer ρ, b'.flags.done = false → ¬ Describes q p info b' := by
    intro b' hclear hdescribes
    have hflags := congrArg StateFlags.done hdescribes.flags
    simp [hclear, stateFlags, hstate] at hflags
  rw [forall_prop_of_true rfl]
  simp only [fillV4l2Buffer, verifyPlanesArray, hmulti, if_true]
  rcases hplane : b.planes with _ | planes
  · exact iff_of_false (hclear _ rfl) fun hfit => hfit.1 hplane
  dsimp only
  split_ifs with hlen
  · refine iff_of_false (hclear _ rfl) fun hfit => ?_
    have hroom := hfit.2
    omega
  refine iff_of_true ⟨rfl, ⟨rfl, rfl, rfl⟩, rfl, ?_, fun _ => ⟨_, rfl, fun i hi => ?_⟩⟩
    ⟨by simp [hplane], by omega⟩
  · simp [hmulti]
  · have hin : i < b.length := by omega
    simp [hin]

/-- A call that returns is all or nothing if and only if it finds no buffer, or the driver
finishes the first done one, its state is a final one and the user's array has room. -/
theorem dqbuf_all_or_nothing_iff (q : Vb2Queue) (b : UserBuffer ρ) (info : Nat → BufferInfo ρ)
    (nonblocking : Bool) (bufFinish ret : Int) (r : Vb2Queue) (b' : UserBuffer ρ)
    (heq : vb2DqbufUser q b info nonblocking bufFinish = some (ret, r, b')) :
    AllOrNothing q info ret r b' ↔
      (b.type = q.type → q.streaming = true → ∀ p rest, q.doneList = p :: rest →
        bufFinish = 0 ∧ ((q.vb p).state = .done ∨ (q.vb p).state = .error) ∧
          (q.type.isMultiplanar = true → PlanesFit (q.vb p) b)) := by
  obtain ⟨⟨ret', r'⟩, hdqbuf, hout⟩ := Option.map_eq_some_iff.mp heq
  rcases dqbuf_cases hdqbuf with
    ⟨hnone, hret, rfl⟩ | ⟨p, rest, hlist, htype, hstreaming, -, hcases⟩
  · obtain ⟨rfl, rfl⟩ : ret' = ret ∧ r' = r := by cases hlist : r'.doneList <;> simp_all
    refine iff_of_true ⟨fun hzero => absurd hzero hret, fun _ => ⟨rfl, rfl, fun _ => rfl⟩⟩ ?_
    intro htype hstreaming p rest hlist
    simp [htype, hstreaming, hlist] at hnone
  · rw [hlist] at hout
    cases hout
    rcases hcases with ⟨hbad, hret, rfl⟩ | ⟨hfinish, hstate, rfl, rfl⟩
    · refine iff_of_false (fun hdone => ?_) fun hcond => ?_
      · have hsame := (hdone.nothing hret).1
        simp [hlist] at hsame
      · obtain ⟨hfinish, hstate, -⟩ := hcond htype hstreaming p rest hlist
        exact hbad.elim (absurd hfinish) (absurd hstate)
    have hiff := describes_iff (info p) b hstate
    constructor
    · intro hdone _ _ p' rest' hlist'
      obtain ⟨rfl, rfl⟩ := List.cons.inj (hlist.symm.trans hlist')
      obtain ⟨p', hlist', -, -, hdescribes⟩ := hdone.all rfl
      obtain ⟨rfl, -⟩ := List.cons.inj (hlist.symm.trans hlist')
      exact ⟨hfinish, hstate, hiff.mp hdescribes⟩
    · intro hcond
      have hfit := (hcond htype hstreaming p rest hlist).2.2
      exact ⟨fun _ => ⟨p, hlist, rfl, setState_same q p _, hiff.mpr hfit⟩,
        fun hret => absurd rfl hret⟩

/-- One buffer, which the driver has filled. -/
def oneDone : Option Vb2Queue :=
  [grantedRequest 1, grantedQbuf, .streamon .videoCapture 0, .bufferDone 0 .done].foldlM callStep
    (vb2QueueInit .videoCapture true true)

def filledInfo : Nat → BufferInfo Unit := fun _ => ⟨0, (), fun _ => (4096, 0), 1⟩

def blankBuffer : UserBuffer Unit :=
  ⟨⟨7, .videoCapture, .mmap, 0, 0, none⟩, 0, ⟨false, false, false, false⟩, (), fun _ => (0, 0)⟩

theorem dqbuf_all_or_nothing_iff_done :
    ∃ q r b, oneDone = some q ∧ vb2DqbufUser q blankBuffer filledInfo true 0 = some (0, r, b) ∧
      AllOrNothing q filledInfo 0 r b := by
  obtain ⟨q, hq, htype, hlist, hstate, ⟨ret, r, b⟩, heq, rfl⟩ : ∃ q ∈ oneDone,
      q.type = .videoCapture ∧ q.doneList = [0] ∧ (q.vb 0).state = .done ∧
        ∃ out ∈ vb2DqbufUser q blankBuffer filledInfo true 0, out.1 = 0 := by decide +kernel
  refine ⟨q, r, b, hq, heq, (dqbuf_all_or_nothing_iff q _ _ _ _ _ r b heq).mpr ?_⟩
  intro _ _ p rest hfirst
  obtain ⟨rfl, -⟩ := List.cons.inj (hlist.symm.trans hfirst)
  exact ⟨rfl, .inl hstate, fun hmulti => by simp [htype, BufType.isMultiplanar] at hmulti⟩

/-- The driver fails to finish the buffer, and it can be dequeued no more. -/
theorem unfinished_buffer_lost :
    ∃ q r b, oneDone = some q ∧
      vb2DqbufUser q blankBuffer filledInfo true (-5) = some (-5, r, b) ∧
      q.doneList = [0] ∧ r.doneList = [] ∧ r.queuedList = [0] ∧
      ¬ AllOrNothing q filledInfo (-5) r b := by
  obtain ⟨q, hq, hlist, ⟨ret, r, b⟩, heq, rfl, hdone, hqueued⟩ : ∃ q ∈ oneDone, q.doneList = [0] ∧
      ∃ out ∈ vb2DqbufUser q blankBuffer filledInfo true (-5),
        out.1 = -5 ∧ out.2.1.doneList = [] ∧ out.2.1.queuedList = [0] := by decide +kernel
  refine ⟨q, r, b, hq, heq, hlist, hdone, hqueued, fun hall => ?_⟩
  have hsame := (hall.nothing (by decide)).1
  exact absurd (hdone.symm.trans (hsame.trans hlist)) (by decide)

end TbsMedia.Vb2
