import TbsMedia.Ctrls.ExtCtrls

/-!
What a set request does to one cluster, in terms of values: what is asked for,
what the driver makes of it, what becomes permanent and what is told back. The
work of `try_set_ext_ctrls` on a cluster is shown to do just this.
-/

namespace TbsMedia.Ctrls

open Function List

theorem efault_ne_zero : efault ≠ 0 := by decide

theorem ebusy_ne_zero : ebusy ≠ 0 := by decide

section Jobs

structure Request where
  index : Nat
  ctrl : Nat
  entry : ExtControl

structure Job where
  master : Nat
  members : List Nat
  requests : List Request
  hasTry : Bool
  hasSet : Bool
  answers : Answers

open Job

inductive Fate
  | refused (cause : Refusal) (err : Int)
  | unchanged
  | set
  deriving DecidableEq

def firstError : List Int → Int
  | [] => 0
  | err :: rest => if err ≠ 0 then err else firstError rest

def tell (back : Request → Int × ExtControl) :
    List Request → (Nat → ExtControl) → (Nat → ExtControl)
  | [], entries => entries
  | request :: rest, entries =>
    let entries := update entries request.index (back request).2
    if (back request).1 ≠ 0 then entries else tell back rest entries

variable (info : Nat → Ctrl) (job : Job) (values : Nat → Value)

def taken : List Request → (Nat → Value) → (Nat → Value)
  | [], news => news
  | request :: rest, news => taken rest (update news request.ctrl
      (userToNew request.entry (info request.ctrl)).2.new)

def Job.copyError : Int :=
  firstError (job.requests.map fun request => (userToNew request.entry (info request.ctrl)).1)

def Job.requested (c : Nat) : Prop := c ∈ job.requests.map Request.ctrl

instance (c : Nat) : Decidable (job.requested c) :=
  inferInstanceAs (Decidable (c ∈ job.requests.map Request.ctrl))

def Job.busy : Bool := job.members.any fun c => decide (job.requested c) && job.answers.grabbed c

def Job.asked : Nat → Value := taken info job.requests values

/-- The new values after `try_ctrl`. -/
def Job.tried (c : Nat) : Value :=
  if job.hasTry = true ∧ c ∈ job.members then
    job.answers.tryCtrl.value c (job.asked info values c)
  else job.asked info values c

def Job.changed : Bool :=
  job.members.any fun c => (info c).type = .button || job.tried info values c ≠ values c

def Job.fate : Fate :=
  if job.copyError info ≠ 0 then .refused .userToNew (job.copyError info)
  else if job.busy = true then .refused .grabbedCheck ebusy
  else if job.hasTry = true ∧ job.answers.tryCtrl.ret ≠ 0 then
    .refused .tryCtrl job.answers.tryCtrl.ret
  else if job.changed info values = false then .unchanged
  else if job.hasSet = true ∧ job.answers.sCtrl.ret ≠ 0 then
    .refused .sCtrl job.answers.sCtrl.ret
  else .set

def Job.settled (c : Nat) : Value :=
  if job.fate info values = .set ∧ job.hasSet = true ∧ c ∈ job.members then
    job.answers.sCtrl.value c (job.tried info values c)
  else job.tried info values c

def Job.valuesAfter (c : Nat) : Value :=
  if job.fate info values = .set ∧ c ∈ job.members ∧ (info c).type ≠ .button then
    job.settled info values c
  else values c

/-- `s_ctrl` is called. -/
def Job.calls : Bool :=
  match job.fate info values with
  | .set => job.hasSet
  | .refused .sCtrl _ => true
  | _ => false

def Job.toldBack (request : Request) : Int × ExtControl :=
  newToUser request.entry { info request.ctrl with new := job.settled info values request.ctrl }

def Job.backError : Int :=
  firstError (job.requests.map fun request => (job.toldBack info values request).1)

def Job.ret : Int :=
  match job.fate info values with
  | .refused _ err => err
  | _ => job.backError info values

def Job.refusal : Option Refusal :=
  match job.fate info values with
  | .refused cause _ => some cause
  | _ => if job.backError info values ≠ 0 then some .newToUser else none

def Job.entriesAfter (entries : Nat → ExtControl) : Nat → ExtControl :=
  match job.fate info values with
  | .refused _ _ => entries
  | _ => tell (job.toldBack info values) job.requests entries

end Jobs

/-- A world that differs from `w0` in the dynamic fields of controls only. -/
structure Shows (w₀ w : World) (values news : Nat → Value) (isNew : Nat → Bool)
    (flags : Nat → UInt32) : Prop where
  ctrl : ∀ c, w.ctrl c = { w₀.ctrl c with
    cur := values c, new := news c, isNew := isNew c, flags := flags c }
  ref : w.ref = w₀.ref
  array : w.array = w₀.array

variable {w0 w : World} {values news : Nat → Value} {isNew : Nat → Bool} {flags : Nat → UInt32}

theorem Shows.refl (w : World) : Shows w w (fun c => (w.ctrl c).cur) (fun c => (w.ctrl c).new)
    (fun c => (w.ctrl c).isNew) (fun c => (w.ctrl c).flags) :=
  ⟨fun _ => rfl, rfl, rfl⟩

section

variable (hshows : Shows w0 w values news isNew flags)
include hshows

theorem Shows.clusterOf (c : Nat) : clusterOf w c = Ctrls.clusterOf w0 c := by
  unfold Ctrls.clusterOf
  rw [hshows.ctrl c, hshows.ref, hshows.array]

theorem Shows.membersOf (m : Nat) : membersOf w m = Ctrls.membersOf w0 m := by
  rw [Ctrls.membersOf, hshows.clusterOf, hshows.ctrl m, Ctrls.membersOf]

theorem Shows.setCtrl (c : Nat) (cur new : Value) (mark : Bool) (flag : UInt32) :
    Shows w0 (w.setCtrl c { w.ctrl c with cur := cur, new := new, isNew := mark, flags := flag })
      (update values c cur) (update news c new) (update isNew c mark)
      (update flags c flag) := by
  refine ⟨fun c' => ?_, hshows.ref, hshows.array⟩
  rcases eq_or_ne c' c with rfl | hne
  · simp [World.setCtrl, hshows.ctrl c']
  · simp [World.setCtrl, update_of_ne hne, hshows.ctrl c']

end

theorem or_and_self_right (f g : UInt32) : (f ||| g) &&& g = g := by
  apply UInt32.toBitVec_inj.mp
  ext i hi
  simp only [UInt32.toBitVec_and, UInt32.toBitVec_or, BitVec.getElem_and, BitVec.getElem_or]
  cases f.toBitVec[i] <;> cases g.toBitVec[i] <;> rfl

theorem v4l2CtrlGrab_grabbed (ctrl : Ctrl) (grabbed : Bool) :
    hasFlag (v4l2CtrlGrab ctrl grabbed).flags flagGrabbed = grabbed := by
  cases grabbed with
  | false =>
    have hzero : (ctrl.flags &&& ~~~ flagGrabbed) &&& flagGrabbed = 0 := by
      rw [UInt32.and_assoc]
      exact UInt32.and_zero
    change decide ((ctrl.flags &&& ~~~ flagGrabbed) &&& flagGrabbed ≠ 0) = false
    rw [hzero]
    rfl
  | true =>
    change decide ((ctrl.flags ||| flagGrabbed) &&& flagGrabbed ≠ 0) = true
    rw [or_and_self_right]
    rfl

variable (members : List Nat)

section

variable (hshows : Shows w0 w values news isNew flags)
include hshows

theorem Shows.grab (grabbed : Nat → Bool) :
    ∃ flags', Shows w0 (w.grab grabbed) values news isNew flags' ∧
      ∀ c, hasFlag (flags' c) flagGrabbed = grabbed c := by
  refine ⟨fun c => (v4l2CtrlGrab (w.ctrl c) (grabbed c)).flags,
    ⟨fun c => ?_, hshows.ref, hshows.array⟩, fun c => v4l2CtrlGrab_grabbed ..⟩
  simp [World.grab, v4l2CtrlGrab, hshows.ctrl c]

theorem Shows.resetNew :
    Shows w0 (resetNew w members) values news
      (fun c => if c ∈ members then false else isNew c) flags := by
  refine ⟨fun c => ?_, hshows.ref, hshows.array⟩
  simp only [Ctrls.resetNew, hshows.ctrl c]
  split_ifs <;> rfl

theorem Shows.callOp (hasOp : Bool) (answer : Answer) :
    (callOp w members hasOp answer).1 = (if hasOp = true then answer.ret else 0) ∧
      Shows w0 (callOp w members hasOp answer).2 values
        (fun c => if hasOp = true ∧ c ∈ members then answer.value c (news c) else news c)
        isNew flags := by
  rcases hasOp with _ | _
  · simpa [Ctrls.callOp] using hshows
  refine ⟨rfl, fun c => ?_, hshows.ref, hshows.array⟩
  simp only [Ctrls.callOp, if_true, hshows.ctrl c, true_and]
  split_ifs <;> rfl

theorem Shows.clusterChanged :
    clusterChanged w members =
      members.any fun c => (w0.ctrl c).type = .button || news c ≠ values c := by
  unfold Ctrls.clusterChanged
  congr 1
  funext c
  rw [hshows.ctrl c]

end

/-- What `user_to_new` takes depends on the type and the maximum of the control. -/
theorem userToNew_dynamic (entry : ExtControl) (ctrl : Ctrl) (cur new : Value) (mark : Bool)
    (flag : UInt32) :
    ∃ new', userToNew entry { ctrl with cur := cur, new := new, isNew := mark, flags := flag } =
        ((userToNew entry ctrl).1,
          { ctrl with cur := cur, new := new', isNew := true, flags := flag }) ∧
      ((userToNew entry ctrl).1 = 0 → new' = (userToNew entry ctrl).2.new) := by
  unfold userToNew
  cases htype : ctrl.type with
  | string =>
    simp only
    split_ifs with hsize hfault hlong
    · exact ⟨new, rfl, fun hzero => absurd hzero erange_ne⟩
    · exact ⟨new, rfl, fun hzero => absurd hzero efault_ne_zero⟩
    all_goals exact ⟨_, rfl, fun _ => rfl⟩
  | _ => exact ⟨_, rfl, fun _ => rfl⟩

variable {controls : Nat → ExtControl} {requests : List Request} {helpers : Nat → Helper}
  {idx c : Nat} {info : Nat → Ctrl} {err : Int} {cause : Refusal}

section

variable (hshows : Shows w0 w values news isNew flags)
include hshows

theorem Shows.userLoop (indices : List Nat)
    (hreqs : requests = indices.map fun idx => ⟨idx, (helpers idx).ctrl, controls idx⟩) :
    (userLoop helpers controls indices w).1 =
        firstError (requests.map fun request =>
          (userToNew request.entry (w0.ctrl request.ctrl)).1) ∧
      ∃ news' isNew', Shows w0 (userLoop helpers controls indices w).2 values news' isNew' flags ∧
        ((userLoop helpers controls indices w).1 = 0 → news' = taken w0.ctrl requests news ∧
          ∀ c, isNew' c = (isNew c || decide (c ∈ requests.map Request.ctrl))) := by
  subst hreqs
  induction indices generalizing w news isNew with
  | nil => exact ⟨rfl, news, isNew, hshows, fun _ => ⟨rfl, fun c => by simp⟩⟩
  | cons idx rest ih =>
    let c := (helpers idx).ctrl
    obtain ⟨new', heq, hnew⟩ := userToNew_dynamic (controls idx) (w0.ctrl c) (values c) (news c)
      (isNew c) (flags c)
    rw [← hshows.ctrl c] at heq
    have hset := hshows.setCtrl c (values c) new' true (flags c)
    rw [update_eq_self, update_eq_self, hshows.ctrl c] at hset
    rw [Ctrls.userLoop]
    simp only [map_cons, firstError, c, heq]
    split_ifs with herr
    · exact ⟨rfl, _, _, hset, fun hzero => absurd hzero herr⟩
    have herr := not_not.mp herr
    obtain ⟨hret, news', isNew', hshows', htaken⟩ := ih hset
    refine ⟨hret, news', isNew', hshows', fun hzero => ?_⟩
    obtain ⟨rfl, hmarks⟩ := htaken hzero
    refine ⟨by rw [taken, hnew herr], fun c' => ?_⟩
    rw [hmarks c']
    rcases eq_or_ne c' c with rfl | hne
    · simp [c]
    · simp [c, hne]

/-- The first loop of `try_or_set_cluster`: what is not new is taken from the current
values. -/
theorem Shows.checkLoop :
    (checkLoop true members w).1 =
        (if members.any (fun c => isNew c && hasFlag (flags c) flagGrabbed) = true then ebusy
          else 0) ∧
      ∃ news', Shows w0 (checkLoop true members w).2 values news' isNew flags ∧
        ((checkLoop true members w).1 = 0 →
          news' = fun c => if c ∈ members ∧ isNew c = false then values c else news c) := by
  induction members generalizing w news with
  | nil => exact ⟨rfl, news, hshows, fun _ => by simp⟩
  | cons c rest ih =>
    have hmark : (w.ctrl c).isNew = isNew c := by rw [hshows.ctrl c]
    have hflags : (w.ctrl c).flags = flags c := by rw [hshows.ctrl c]
    rw [Ctrls.checkLoop, hmark, hflags, any_cons]
    cases hnew : isNew c with
    | false =>
      have hset := hshows.setCtrl c (values c) (values c) (isNew c) (flags c)
      rw [update_eq_self, update_eq_self, update_eq_self] at hset
      have hcur : curToNew (w.ctrl c) = { w.ctrl c with
          cur := values c, new := values c, isNew := isNew c, flags := flags c } := by
        rw [hshows.ctrl c, curToNew]
      rw [← hcur] at hset
      obtain ⟨hret, news', hshows', htaken⟩ := ih hset
      refine ⟨by simpa using hret, news', by simpa using hshows', fun hzero => ?_⟩
      rw [htaken (by simpa using hzero)]
      funext c'
      rcases eq_or_ne c' c with rfl | hne
      · simp [hnew]
      · simp [hne]
    | true =>
      cases hgrab : hasFlag (flags c) flagGrabbed with
      | true => exact ⟨rfl, news, hshows, fun hzero => absurd hzero ebusy_ne_zero⟩
      | false =>
        obtain ⟨hret, news', hshows', htaken⟩ := ih hshows
        refine ⟨by simpa using hret, news', by simpa using hshows', fun hzero => ?_⟩
        rw [htaken (by simpa using hzero)]
        funext c'
        rcases eq_or_ne c' c with rfl | hne
        · simp [hnew]
        · simp [hne]

omit hshows in
theorem setCtrl_setCtrl (w : World) (c : Nat) (first second : Ctrl) :
    (w.setCtrl c first).setCtrl c second = w.setCtrl c second := by
  simp [World.setCtrl]

omit hshows in
theorem newToCur_eq (w : World) (c : Nat) (updateInactive : Bool) :
    ∃ flag, newToCur w c updateInactive = w.setCtrl c { w.ctrl c with
      cur := if (w.ctrl c).type = .button then (w.ctrl c).cur else (w.ctrl c).new
      flags := flag } := by
  have hctrl : (if (w.ctrl c).type = .button then w.ctrl c
      else { w.ctrl c with cur := (w.ctrl c).new }) = { w.ctrl c with
        cur := if (w.ctrl c).type = .button then (w.ctrl c).cur else (w.ctrl c).new } := by
    split_ifs <;> rfl
  unfold newToCur
  simp only [hctrl]
  cases updateInactive with
  | false => exact ⟨(w.ctrl c).flags, rfl⟩
  | true => exact ⟨_, setCtrl_setCtrl ..⟩

theorem Shows.newToCur (c : Nat) (updateInactive : Bool) :
    ∃ flags', Shows w0 (newToCur w c updateInactive)
      (update values c (if (w0.ctrl c).type = .button then values c else news c))
      news isNew flags' := by
  obtain ⟨flag, heq⟩ := newToCur_eq w c updateInactive
  have hset := hshows.setCtrl c (if (w0.ctrl c).type = .button then values c else news c)
    (news c) (isNew c) flag
  rw [update_eq_self, update_eq_self, hshows.ctrl c] at hset
  rw [heq, hshows.ctrl c]
  exact ⟨_, hset⟩

omit hshows in
theorem permanent_cons (info : Nat → Ctrl) (values news : Nat → Value) (c : Nat) (rest : List Nat) :
    (fun c' => if c' ∈ rest ∧ (info c').type ≠ .button then news c'
      else update values c (if (info c).type = .button then values c else news c) c') =
    fun c' => if c' ∈ c :: rest ∧ (info c').type ≠ .button then news c' else values c' := by
  funext c'
  rcases eq_or_ne c' c with rfl | hne
  · by_cases hbtn : (info c').type = .button <;> simp [hbtn]
  · simp [hne]

theorem Shows.newToCurs (updateInactive : Bool) (members : List Nat) :
    ∃ flags', Shows w0 (members.foldl (Ctrls.newToCur · · updateInactive) w)
      (fun c => if c ∈ members ∧ (w0.ctrl c).type ≠ .button then news c else values c)
      news isNew flags' := by
  induction members generalizing w values flags with
  | nil => exact ⟨flags, by simpa using hshows⟩
  | cons c rest ih =>
    obtain ⟨flags1, hshows1⟩ := hshows.newToCur c updateInactive
    rw [← permanent_cons]
    exact ih hshows1

theorem Shows.makePermanent (master : Nat) (members : List Nat) :
    ∃ flags', Shows w0 (makePermanent w master members)
      (fun c => if c ∈ members ∧ (w0.ctrl c).type ≠ .button then news c else values c)
      news isNew flags' := by
  rcases members with _ | ⟨first, others⟩
  · exact ⟨flags, by simpa [Ctrls.makePermanent] using hshows⟩
  obtain ⟨flags1, hshows1⟩ := hshows.newToCur first false
  rw [← permanent_cons]
  exact hshows1.newToCurs _ others

omit hshows in
theorem tell_other (back : Request → Int × ExtControl) (requests : List Request)
    (entries : Nat → ExtControl) (hidx : idx ∉ requests.map Request.index) :
    tell back requests entries idx = entries idx := by
  induction requests generalizing entries with
  | nil => rfl
  | cons request rest ih =>
    obtain ⟨hne, hrest⟩ := not_or.mp (mt mem_cons.mpr hidx)
    have hself : update entries request.index (back request).2 idx = entries idx :=
      update_of_ne hne ..
    rw [tell]
    split_ifs
    · exact hself
    · rw [ih _ hrest, hself]

omit hshows in
theorem Job.entriesAfter_other {job : Job} {entries : Nat → ExtControl}
    (hidx : idx ∉ job.requests.map Request.index) :
    job.entriesAfter info values entries idx = entries idx := by
  unfold entriesAfter
  cases job.fate info values with
  | refused => rfl
  | unchanged => exact tell_other _ _ _ hidx
  | set => exact tell_other _ _ _ hidx

theorem Shows.toUserLoop {indices : List Nat} (hnodup : indices.Nodup)
    {controls' : Nat → ExtControl} (hsame : ∀ idx ∈ indices, controls' idx = controls idx)
    {back : Request → Int × ExtControl}
    (hback : ∀ idx ∈ indices, back ⟨idx, (helpers idx).ctrl, controls idx⟩ =
      newToUser (controls idx) { w0.ctrl (helpers idx).ctrl with new := news (helpers idx).ctrl })
    (hreqs : requests = indices.map fun idx => ⟨idx, (helpers idx).ctrl, controls idx⟩) :
    toUserLoop newToUser helpers w indices controls' =
      (firstError (requests.map fun request => (back request).1),
        tell back requests controls') := by
  subst hreqs
  induction indices generalizing controls' with
  | nil => rfl
  | cons idx rest ih =>
    obtain ⟨hnew, hnodup⟩ := nodup_cons.mp hnodup
    obtain ⟨hidx, hrest⟩ := forall_mem_cons.mp hsame
    obtain ⟨hbackIdx, hbackRest⟩ := forall_mem_cons.mp hback
    have hto : newToUser (controls' idx) (w.ctrl (helpers idx).ctrl) =
        back ⟨idx, (helpers idx).ctrl, controls idx⟩ := by
      rw [hidx, hbackIdx, hshows.ctrl]
      rfl
    rw [Ctrls.toUserLoop, hto]
    simp only [map_cons, firstError, tell]
    split_ifs with herr
    · rfl
    refine ih hnodup (fun idx' hidx' => ?_) hbackRest
    have hne : idx' ≠ idx := by
      rintro rfl
      exact hnew hidx'
    rw [update_of_ne hne]
    exact hrest idx' hidx'

end

theorem taken_other (info : Nat → Ctrl) (requests : List Request) (news : Nat → Value)
    (hc : c ∉ requests.map Request.ctrl) : taken info requests news c = news c := by
  induction requests generalizing news with
  | nil => rfl
  | cons request rest ih =>
    obtain ⟨hne, hrest⟩ := not_or.mp (mt mem_cons.mpr hc)
    rw [taken, ih _ hrest, update_of_ne hne]

theorem taken_requested (info : Nat → Ctrl) (requests : List Request) (news news' : Nat → Value)
    (hc : c ∈ requests.map Request.ctrl) :
    taken info requests news c = taken info requests news' c := by
  induction requests generalizing news news' with
  | nil => simp at hc
  | cons request rest ih =>
    rw [taken, taken]
    by_cases hrest : c ∈ rest.map Request.ctrl
    · exact ih _ _ hrest
    · obtain rfl : c = request.ctrl := (mem_cons.mp hc).resolve_right hrest
      rw [taken_other _ _ _ hrest, taken_other _ _ _ hrest, update_self, update_self]

variable {job : Job}

/-- What `try_or_set_cluster` answers is the job's fate, and it leaves the job's values. -/
structure Carried (info : Nat → Ctrl) (job : Job) (values : Nat → Value) (w₀ : World)
    (result : ClusterResult) : Prop where
  ret : result.ret = match job.fate info values with
    | .refused _ err => err
    | _ => 0
  refusal : result.refusal = match job.fate info values with
    | .refused cause _ => some cause
    | _ => none
  called : result.called = job.calls info values
  world : ∃ news isNew flags, Shows w₀ result.world (job.valuesAfter info values) news isNew flags ∧
    (result.ret = 0 → ∀ c, c ∈ job.members ∨ job.requested c → news c = job.settled info values c)

theorem Job.valuesAfter_of_not_set (hfate : job.fate info values ≠ .set) :
    job.valuesAfter info values = values := by
  funext c
  exact if_neg fun hand => hfate hand.1

theorem Job.fate_refused (hfate : job.fate info values = .refused cause err) : err ≠ 0 := by
  unfold fate at hfate
  split_ifs at hfate with hcopy hbusy htry hchange hset
  · exact (Fate.refused.inj hfate).2 ▸ hcopy
  · exact (Fate.refused.inj hfate).2 ▸ ebusy_ne_zero
  · exact (Fate.refused.inj hfate).2 ▸ htry.2
  · exact (Fate.refused.inj hfate).2 ▸ hset.2

/-- A job that is not refused tells the new values back. -/
structure Job.Told (info : Nat → Ctrl) (job : Job) (values : Nat → Value) : Prop where
  copied : job.copyError info = 0
  fate : (job.fate info values = .unchanged ∧ job.changed info values = false) ∨
    (job.fate info values = .set ∧ job.changed info values = true)
  ret : job.ret info values = job.backError info values
  refusal : job.refusal info values =
    if job.backError info values ≠ 0 then some .newToUser else none
  entries : ∀ entries, job.entriesAfter info values entries =
    tell (job.toldBack info values) job.requests entries

theorem Job.refused_or_told (job : Job) (values : Nat → Value) :
    (∃ cause err, job.fate info values = .refused cause err ∧ err ≠ 0) ∨ job.Told info values := by
  have hsplit := fate.eq_def info job values
  cases hfate : job.fate info values with
  | refused cause err => exact .inl ⟨cause, err, rfl, fate_refused hfate⟩
  | unchanged =>
    rw [hfate] at hsplit
    split_ifs at hsplit with hcopy _ _ hchange
    exact .inr ⟨not_not.mp hcopy, .inl ⟨hfate, hchange⟩, by rw [ret, hfate],
      by rw [refusal, hfate], fun _ => by rw [entriesAfter, hfate]⟩
  | set =>
    rw [hfate] at hsplit
    split_ifs at hsplit with hcopy _ _ hchange
    exact .inr ⟨not_not.mp hcopy, .inr ⟨hfate, eq_true_of_ne_false hchange⟩,
      by rw [ret, hfate], by rw [refusal, hfate],
      fun _ => by rw [entriesAfter, hfate]⟩

theorem Job.told_of_through (hret : job.ret info values = 0) :
    job.Told info values ∧ job.backError info values = 0 := by
  rcases job.refused_or_told values with ⟨cause, err, hfate, herr⟩ | htold
  · rw [ret, hfate] at hret
    exact absurd hret herr
  · exact ⟨htold, htold.ret.symm.trans hret⟩

theorem Carried.of_refused {result : ClusterResult}
    (hfate : job.fate w0.ctrl values = .refused cause err) (herr : err ≠ 0)
    (hret : result.ret = err) (href : result.refusal = some cause)
    (hcalled : result.called = decide (cause = .sCtrl))
    (hshows : Shows w0 result.world values news isNew flags) :
    Carried w0.ctrl job values w0 result := by
  refine ⟨by rw [hfate]; exact hret, by rw [hfate]; exact href, ?_, news, isNew, flags, ?_, ?_⟩
  · rw [hcalled, Job.calls, hfate]
    cases cause <;> rfl
  · rw [Job.valuesAfter_of_not_set (by simp [hfate])]
    exact hshows
  · intro hzero
    exact absurd (hret.symm.trans hzero) herr

/-- The values in front of `try_ctrl` are the ones asked for. -/
theorem Job.asked_eq (hnew : job.requested c → news c = job.asked info values c)
    (hmark : c ∈ job.members → isNew c = decide (job.requested c))
    (hc : c ∈ job.members ∨ job.requested c) :
    (if c ∈ job.members ∧ isNew c = false then values c else news c) = job.asked info values c := by
  by_cases hrequested : job.requested c
  · rw [if_neg, hnew hrequested]
    rintro ⟨hin, hfalse⟩
    rw [hmark hin] at hfalse
    simp [hrequested] at hfalse
  · have hin := hc.resolve_right hrequested
    rw [if_pos ⟨hin, by simp [hmark hin, hrequested]⟩]
    exact (taken_other _ _ _ hrequested).symm

variable (hshows : Shows w0 w values news isNew flags)
include hshows

/-- What is left when `try_ctrl` has let the values through. -/
theorem Shows.setCluster (hasSet : job.hasSet = (w0.ctrl job.master).ops.sCtrl)
    (hfate : job.fate w0.ctrl values = if job.changed w0.ctrl values = false then .unchanged
      else if job.hasSet = true ∧ job.answers.sCtrl.ret ≠ 0 then
        .refused .sCtrl job.answers.sCtrl.ret
      else .set)
    (htried : ∀ c, c ∈ job.members ∨ job.requested c → news c = job.tried w0.ctrl values c) :
    Carried w0.ctrl job values w0
      (if true = false ∨ Ctrls.clusterChanged w job.members = false then ⟨0, none, false, w⟩
      else
        let called := (w.ctrl job.master).ops.sCtrl
        match Ctrls.callOp w job.members called job.answers.sCtrl with
        | (ret, w) =>
          if ret ≠ 0 then ⟨ret, some .sCtrl, called, w⟩
          else ⟨0, none, called, Ctrls.makePermanent w job.master job.members⟩) := by
  have hchange : Ctrls.clusterChanged w job.members = job.changed w0.ctrl values := by
    rw [hshows.clusterChanged, Job.changed, Bool.eq_iff_iff, List.any_eq_true, List.any_eq_true]
    refine exists_congr fun c => and_congr_right fun hc => ?_
    rw [htried c (.inl hc)]
  have hop : (w.ctrl job.master).ops.sCtrl = job.hasSet := by rw [hshows.ctrl, hasSet]
  simp only [hchange, hop, Bool.true_eq_false, false_or]
  by_cases hc : job.changed w0.ctrl values = false
  · rw [if_pos hc] at hfate ⊢
    refine ⟨by rw [hfate], by rw [hfate], by rw [Job.calls, hfate], news, isNew, flags, ?_, ?_⟩
    · rw [Job.valuesAfter_of_not_set (by simp [hfate])]
      exact hshows
    · intro _ c hc
      rw [htried c hc, Job.settled, if_neg (by simp [hfate])]
  rw [if_neg hc] at hfate ⊢
  obtain ⟨hsetRet, hshows1⟩ := hshows.callOp job.members job.hasSet job.answers.sCtrl
  generalize Ctrls.callOp w job.members job.hasSet job.answers.sCtrl = called at hsetRet hshows1
  obtain ⟨ret1, w1⟩ := called
  dsimp only at hsetRet hshows1 ⊢
  split_ifs at hfate with hs
  · rw [if_pos hs.1] at hsetRet
    rw [if_pos (hsetRet ▸ hs.2)]
    exact .of_refused hfate hs.2 hsetRet rfl hs.1 hshows1
  have hzero : ret1 = 0 := by
    rw [hsetRet]
    split_ifs with hop
    · exact not_not.mp fun hne => hs ⟨hop, hne⟩
    · rfl
  have hsettle : ∀ c, c ∈ job.members ∨ job.requested c →
      (if job.hasSet = true ∧ c ∈ job.members then job.answers.sCtrl.value c (news c)
        else news c) = job.settled w0.ctrl values c := by
    intro c hc
    rw [htried c hc, Job.settled, hfate]
    simp
  obtain ⟨flags2, hshows2⟩ := hshows1.makePermanent job.master job.members
  have hvalues : (fun c => if c ∈ job.members ∧ (w0.ctrl c).type ≠ .button then
      (if job.hasSet = true ∧ c ∈ job.members then job.answers.sCtrl.value c (news c)
        else news c) else values c) = job.valuesAfter w0.ctrl values := by
    funext c
    rw [Job.valuesAfter, hfate]
    simp only [true_and]
    by_cases hand : c ∈ job.members ∧ (w0.ctrl c).type ≠ .button
    · rw [if_pos hand, if_pos hand]
      exact hsettle c (.inl hand.1)
    · rw [if_neg hand, if_neg hand]
  rw [hvalues] at hshows2
  rw [if_neg (not_not.mpr hzero)]
  exact ⟨by rw [hfate], by rw [hfate], by rw [Job.calls, hfate], _, isNew, flags2, hshows2,
    fun _ => hsettle⟩

theorem Shows.tryOrSetCluster (hasTry : job.hasTry = (w0.ctrl job.master).ops.tryCtrl)
    (hasSet : job.hasSet = (w0.ctrl job.master).ops.sCtrl) (hcopy : job.copyError w0.ctrl = 0)
    (hmarks : ∀ c ∈ job.members, isNew c = decide (job.requested c))
    (hgrab : ∀ c, hasFlag (flags c) flagGrabbed = job.answers.grabbed c)
    (hnews : ∀ c, job.requested c → news c = job.asked w0.ctrl values c) :
    Carried w0.ctrl job values w0 (tryOrSetCluster w job.master job.members true job.answers) := by
  obtain ⟨hcheck, news1, hshows1, hnews1⟩ := hshows.checkLoop job.members
  have hbusy : job.members.any (fun c => isNew c && hasFlag (flags c) flagGrabbed) = job.busy := by
    unfold Job.busy
    rw [Bool.eq_iff_iff, List.any_eq_true, List.any_eq_true]
    refine exists_congr fun c => and_congr_right fun hc => ?_
    rw [hmarks c hc, hgrab c]
  rw [hbusy] at hcheck
  have hfate : job.fate w0.ctrl values =
      if job.busy = true then .refused .grabbedCheck ebusy
      else if job.hasTry = true ∧ job.answers.tryCtrl.ret ≠ 0 then
        .refused .tryCtrl job.answers.tryCtrl.ret
      else if job.changed w0.ctrl values = false then .unchanged
      else if job.hasSet = true ∧ job.answers.sCtrl.ret ≠ 0 then
        .refused .sCtrl job.answers.sCtrl.ret
      else .set := by
    rw [Job.fate, if_neg (not_not.mpr hcopy)]
  unfold Ctrls.tryOrSetCluster
  generalize Ctrls.checkLoop true job.members w = checked at hcheck hshows1 hnews1
  obtain ⟨ret1, w1⟩ := checked
  dsimp only at hcheck hshows1 hnews1 ⊢
  by_cases hb : job.busy = true
  · rw [if_pos hb] at hcheck hfate
    rw [if_pos (hcheck ▸ ebusy_ne_zero)]
    exact .of_refused hfate ebusy_ne_zero hcheck rfl rfl hshows1
  rw [if_neg hb] at hcheck hfate
  obtain rfl := hnews1 hcheck
  rw [if_neg (not_not.mpr hcheck), hshows1.ctrl job.master, ← hasTry]
  obtain ⟨htryRet, hshows2⟩ := hshows1.callOp job.members job.hasTry job.answers.tryCtrl
  have htried : ∀ c, c ∈ job.members ∨ job.requested c →
      (if job.hasTry = true ∧ c ∈ job.members then job.answers.tryCtrl.value c
        (if c ∈ job.members ∧ isNew c = false then values c else news c)
        else if c ∈ job.members ∧ isNew c = false then values c else news c) =
      job.tried w0.ctrl values c := by
    intro c hc
    rw [Job.asked_eq (hnews c) (hmarks c) hc]
    rfl
  generalize Ctrls.callOp w1 job.members job.hasTry job.answers.tryCtrl = called at htryRet hshows2
  obtain ⟨ret2, w2⟩ := called
  dsimp only at htryRet hshows2 ⊢
  split at hfate
  · rename_i ht
    rw [if_pos ht.1] at htryRet
    rw [if_pos (htryRet ▸ ht.2)]
    exact .of_refused hfate ht.2 htryRet rfl rfl hshows2
  rename_i ht
  have hzero : ret2 = 0 := by
    rw [htryRet]
    split_ifs with hop
    · exact not_not.mp fun hne => ht ⟨hop, hne⟩
    · rfl
  rw [if_neg (not_not.mpr hzero)]
  exact hshows2.setCluster hasSet hfate htried

/-- The work of `try_set_ext_ctrls` on a cluster is the job. -/
theorem Shows.trySetCluster (master : Nat)
    (members : List Nat) {helpers : Nat → Helper} {indices : List Nat} (hnodup : indices.Nodup)
    {controls : Nat → ExtControl} (answers : Answers) (hjob : job = ⟨master, members,
      indices.map fun idx => ⟨idx, (helpers idx).ctrl, controls idx⟩,
      (w0.ctrl master).ops.tryCtrl, (w0.ctrl master).ops.sCtrl, answers⟩)
    {result : ClusterResult} {controls' : Nat → ExtControl}
    (heq : Ctrls.trySetCluster true answers helpers indices master members
      (w.grab answers.grabbed) controls = (result, controls')) :
    result.ret = job.ret w0.ctrl values ∧ result.refusal = job.refusal w0.ctrl values ∧
      result.called = job.calls w0.ctrl values ∧
      controls' = job.entriesAfter w0.ctrl values controls ∧
      ∃ news' isNew' flags', Shows w0 result.world (job.valuesAfter w0.ctrl values) news' isNew'
        flags' := by
  obtain ⟨flags1, hshows1, hgrab⟩ := hshows.grab answers.grabbed
  have hreqs : job.requests = indices.map fun idx => ⟨idx, (helpers idx).ctrl, controls idx⟩ := by
    rw [hjob]
  obtain ⟨hcopy, news2, isNew2, hshows2, htaken⟩ :=
    (hshows1.resetNew members).userLoop indices hreqs
  have hcopied : (Ctrls.userLoop helpers controls indices
      (Ctrls.resetNew (w.grab answers.grabbed) members)).1 = job.copyError w0.ctrl := hcopy
  unfold Ctrls.trySetCluster at heq
  generalize Ctrls.userLoop helpers controls indices
    (Ctrls.resetNew (w.grab answers.grabbed) members) = copied at hcopied hshows2 htaken heq
  obtain ⟨ret2, w2⟩ := copied
  dsimp only at hcopied hshows2 htaken heq
  by_cases herr : job.copyError w0.ctrl ≠ 0
  · have hfate : job.fate w0.ctrl values = .refused .userToNew (job.copyError w0.ctrl) := by
      rw [Job.fate, if_pos herr]
    rw [if_pos (hcopied ▸ herr)] at heq
    cases heq
    refine ⟨by rw [Job.ret, hfate]; exact hcopied, by rw [Job.refusal, hfate],
      by rw [Job.calls, hfate], by rw [Job.entriesAfter, hfate], news2, isNew2, flags1, ?_⟩
    rw [Job.valuesAfter_of_not_set (by simp [hfate])]
    exact hshows2
  · have herr := not_not.mp herr
    rw [if_neg (not_not.mpr (hcopied.trans herr))] at heq
    obtain ⟨rfl, hmarks⟩ := htaken (hcopied.trans herr)
    have hcarry : Carried w0.ctrl job values w0
        (Ctrls.tryOrSetCluster w2 job.master job.members true job.answers) := by
      refine hshows2.tryOrSetCluster (by rw [hjob]) (by rw [hjob]) herr ?_ ?_ ?_
      · intro c hc
        have hin : c ∈ members := by rwa [hjob] at hc
        rw [hmarks c, if_pos hin]
        rfl
      · intro c
        rw [hgrab c, hjob]
      · intro c hc
        exact taken_requested _ _ _ _ hc
    have hsame : Ctrls.tryOrSetCluster w2 master members true answers =
        Ctrls.tryOrSetCluster w2 job.master job.members true job.answers := by rw [hjob]
    rw [hsame] at heq
    generalize Ctrls.tryOrSetCluster w2 job.master job.members true job.answers = tried
      at hcarry heq
    obtain ⟨news3, isNew3, flags3, hshows3, hsettle⟩ := hcarry.world
    by_cases hret : tried.ret ≠ 0
    · rw [if_pos hret] at heq
      cases heq
      have hretEq := hcarry.ret
      have href := hcarry.refusal
      cases hfate : job.fate w0.ctrl values with
      | refused cause err =>
        rw [hfate] at hretEq href
        exact ⟨by rw [Job.ret, hfate]; exact hretEq, by rw [Job.refusal, hfate]; exact href,
          hcarry.called, by rw [Job.entriesAfter, hfate], news3, isNew3, flags3, hshows3⟩
      | unchanged => exact absurd (by rw [hretEq, hfate]) hret
      | set => exact absurd (by rw [hretEq, hfate]) hret
    · have hzero := not_not.mp hret
      have hback : ∀ idx ∈ indices,
          job.toldBack w0.ctrl values ⟨idx, (helpers idx).ctrl, controls idx⟩ =
            newToUser (controls idx)
              { w0.ctrl (helpers idx).ctrl with new := news3 (helpers idx).ctrl } := by
        intro idx hidx
        have hin : job.requested (helpers idx).ctrl := by
          rw [Job.requested, hreqs, List.map_map]
          exact List.mem_map.mpr ⟨idx, hidx, rfl⟩
        rw [hsettle hzero _ (.inr hin)]
        rfl
      rw [if_neg hret, hshows3.toUserLoop hnodup (fun _ _ => rfl) hback hreqs] at heq
      cases heq
      have hret3 := hcarry.ret
      rcases job.refused_or_told values with ⟨cause, err, hfate, herr⟩ | htold
      · rw [hfate] at hret3
        exact absurd (hret3.symm.trans hzero) herr
      · rw [htold.ret, htold.refusal, htold.entries]
        exact ⟨rfl, rfl, hcarry.called, rfl, news3, isNew3, flags3, hshows3⟩

end TbsMedia.Ctrls
