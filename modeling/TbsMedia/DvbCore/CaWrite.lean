import TbsMedia.DvbCore.CaInterface

/-!
`write()` of a CA device: the message is cut into fragments of the link buffer's size,
which the module was asked for when the link was set up. The functions below work on one
slot; what the module answers and how time goes by are arguments.
-/

namespace TbsMedia.DvbCore

open Lib List Option

def CaErrno.code : CaErrno → Int
  | .einval => 22
  | .efault => 14
  | .eio => 5
  | .eagain => 11
  | .ewouldblock => 11
  | .erestartsys => 512

def hostLinkBufSize : Nat := 0x200

def statusregDa : Nat := 0x80

def statusregFr : Nat := 0x40

def statusregRe : Nat := 1

def statusregWe : Nat := 2

/-- What the module's control interface answers in the course of `write_data`: the three
looks at its status, and the writes of command, size and data. -/
structure CamAnswers where
  status : Int
  setHc : Int
  statusFree : Int
  sizeHigh : Int
  sizeLow : Int
  data : Nat → Int
  statusEnd : Int

/-- The status that comes back, and the state in which the slot is left. -/
def dvbCaEn50221WriteData (slot : DvbCaSlot) (cam : CamAnswers) (buf : Bytes) : Int × CaSlotState :=
  if (buf.length : Int) > slot.linkBufSize then (-CaErrno.einval.code, slot.slotState)
  else if cam.status < 0 then (cam.status, slot.slotState)
  else if cam.status.toNat &&& (statusregDa ||| statusregRe) ≠ 0 then
    (-CaErrno.eagain.code, slot.slotState)
  else if cam.setHc ≠ 0 then (cam.setHc, slot.slotState)
  else if cam.statusFree < 0 then (cam.statusFree, slot.slotState)
  else if cam.statusFree.toNat &&& statusregFr = 0 then (-CaErrno.eagain.code, slot.slotState)
  else if cam.sizeHigh ≠ 0 then (cam.sizeHigh, slot.slotState)
  else if cam.sizeLow ≠ 0 then (cam.sizeLow, slot.slotState)
  else
    match (List.range buf.length).find? (fun i => cam.data i ≠ 0) with
    | some i => (cam.data i, slot.slotState)
    | none =>
      if cam.statusEnd < 0 then (cam.statusEnd, slot.slotState)
      else if cam.statusEnd.toNat &&& statusregWe ≠ 0 then (-CaErrno.eio.code, .linkinit)
      else (buf.length, slot.slotState)

/-- The answers in the course of `link_init`; `size` is what `read_data` reads, if it reads
two bytes. -/
structure LinkAnswers where
  setSr : Int
  waitDa : Int
  size : Option (UInt8 × UInt8)
  clearSr : Int
  setSw : Int
  waitFr : Int
  cam : CamAnswers
  clearSw : Int

def negotiatedSize (high low : UInt8) : Nat :=
  let bufSize := high.toNat <<< 8 ||| low.toNat
  if bufSize > hostLinkBufSize then hostLinkBufSize else bufSize

def dvbCaEn50221LinkInit (slot : DvbCaSlot) (answers : LinkAnswers) : Int × DvbCaSlot :=
  let slot := { slot with linkBufSize := 2 }
  if answers.setSr ≠ 0 then (answers.setSr, slot)
  else if answers.waitDa ≠ 0 then (answers.waitDa, slot)
  else
    match answers.size with
    | none => (-CaErrno.eio.code, slot)
    | some (high, low) =>
      if answers.clearSr ≠ 0 then (answers.clearSr, slot)
      else
        let bufSize := negotiatedSize high low
        let slot := { slot with linkBufSize := bufSize }
        if answers.setSw ≠ 0 then (answers.setSw, slot)
        else if answers.waitFr ≠ 0 then (answers.waitFr, slot)
        else
          let sent := dvbCaEn50221WriteData slot answers.cam
            [UInt8.ofNat (bufSize >>> 8), UInt8.ofNat (bufSize &&& 0xff)]
          let slot := { slot with slotState := sent.2 }
          if sent.1 ≠ 2 then (-CaErrno.eio.code, slot)
          else if answers.clearSw ≠ 0 then (answers.clearSw, slot)
          else (0, slot)

/-- One round of the loop around `write_data`: whether its time is over, the slot's state
and the module's answers. -/
structure WriteAttempt where
  late : Bool
  slotState : CaSlotState
  cam : CamAnswers

/-- The loop around `write_data` for one fragment, from the `n`-th attempt on: the number of
the next attempt or the status to return, and the buffers that were passed to `write_data`. -/
def writeAttempts (slot : DvbCaSlot) (attempt : Nat → WriteAttempt) (fragbuf : Bytes) :
    Nat → Nat → Option (Except Int Nat × List Bytes)
  | 0, _ => none
  | fuel + 1, n =>
    if (attempt n).late then some (.error (-CaErrno.eio.code), [])
    else if (attempt n).slotState ≠ .running then some (.error (-CaErrno.eio.code), [])
    else
      let status := (dvbCaEn50221WriteData slot (attempt n).cam fragbuf).1
      if status = fragbuf.length then some (.ok (n + 1), [fragbuf])
      else if status ≠ -CaErrno.eagain.code then some (.error status, [fragbuf])
      else
        (writeAttempts slot attempt fragbuf fuel (n + 1)).map (fun out => (out.1, fragbuf :: out.2))

/-- The loop over the fragments from `fragpos` on. -/
def ioWriteLoop (slot : DvbCaSlot) (userOk : Nat → Nat → Bool) (attempt : Nat → WriteAttempt)
    (connectionId : UInt8) (payload : Bytes) :
    Nat → Nat → Nat → Option (Int × List Bytes)
  | 0, _, _ => none
  | fuel + 1, fragpos, n =>
    if fragpos < payload.length then
      let fraglen := slot.linkBufSize - 2
      if fraglen < 0 then some (payload.length + 2, [])
      else
        let fraglen :=
          if fraglen > hostLinkBufSize - 2 then (hostLinkBufSize - 2 : Int) else fraglen
        let fraglen :=
          if (payload.length - fragpos : Int) < fraglen then (payload.length - fragpos : Int)
          else fraglen
        let fraglen := fraglen.toNat
        let fragbuf :=
          [connectionId, if fragpos + fraglen < payload.length then 0x80 else 0x00] ++
            (payload.drop fragpos).take fraglen
        if userOk (fragpos + 2) fraglen then
          match writeAttempts slot attempt fragbuf fuel n with
          | none => none
          | some (.error status, calls) => some (status, calls)
          | some (.ok n, calls) =>
            (ioWriteLoop slot userOk attempt connectionId payload fuel (fragpos + fraglen) n).map
              (fun out => (out.1, calls ++ out.2))
        else some (-CaErrno.efault.code, [])
    else some (payload.length + 2, [])

/-- The status and the buffers that were passed to `write_data`; `buf` is what the user
passes. `none` stands for a call that has not come back within `fuel` rounds of its loops. -/
def dvbCaEn50221IoWrite (ca : DvbCaPrivate) (userOk : Nat → Nat → Bool)
    (attempt : Nat → WriteAttempt) (fuel : Nat) (buf : Bytes) :
    Option (Int × List Bytes) :=
  match buf with
  | slot :: connectionId :: payload =>
    if !userOk 0 1 then some (-CaErrno.efault.code, [])
    else if !userOk 1 1 then some (-CaErrno.efault.code, [])
    else if (ca.slotInfo slot.toNat).slotState ≠ .running then some (-CaErrno.einval.code, [])
    else ioWriteLoop (ca.slotInfo slot.toNat) userOk attempt connectionId payload fuel 0 0
  | _ => some (-CaErrno.einval.code, [])

def WritesSucceed (slot : DvbCaSlot) (attempt : Nat → WriteAttempt) : Prop :=
  ∀ n (buf : Bytes), (buf.length : Int) ≤ slot.linkBufSize →
    (dvbCaEn50221WriteData slot (attempt n).cam buf).1 = buf.length

/-- The message in fragments: each fits, carries the connection and says whether more
follow. -/
structure Fragments (size : Int) (c : UInt8) (payload : Bytes)
    (frags : List Bytes) : Prop where
  fit : ∀ f ∈ frags, (f.length : Int) ≤ size
  connection : ∀ f ∈ frags, f.head? = some c
  more : ∀ init last, frags = init ++ [last] →
    last[1]? = some 0x00 ∧ ∀ f ∈ init, f[1]? = some 0x80
  data : (frags.map (List.drop 2)).flatten = payload

theorem Fragments.nil (size : Int) (c : UInt8) : Fragments size c [] [] := by
  refine ⟨?_, ?_, ?_, rfl⟩
  · intro f hf
    cases hf
  · intro f hf
    cases hf
  · intro init last hnil
    simp at hnil

theorem Fragments.cons {size : Int} {c flag : UInt8} {data payload : Bytes}
    {frags : List Bytes} (hrest : Fragments size c payload frags)
    (hfit : (data.length + 2 : Int) ≤ size) (hflag : flag = if frags = [] then 0x00 else 0x80) :
    Fragments size c (data ++ payload) ((c :: flag :: data) :: frags) := by
  constructor
  · intro f hf
    rcases mem_cons.mp hf with rfl | hold
    · simp only [length_cons]
      omega
    · exact hrest.fit f hold
  · intro f hf
    rcases mem_cons.mp hf with rfl | hold
    · rfl
    · exact hrest.connection f hold
  · intro init last hsplit
    rcases init with _ | ⟨first, init⟩
    · obtain ⟨rfl, rfl⟩ := List.cons.inj hsplit
      refine ⟨by simp [hflag], ?_⟩
      intro f hf
      cases hf
    obtain ⟨rfl, rfl⟩ := List.cons.inj hsplit
    obtain ⟨hlast, hinit⟩ := hrest.more init last rfl
    refine ⟨hlast, ?_⟩
    intro f hf
    rcases mem_cons.mp hf with rfl | hold
    · simp [hflag]
    · exact hinit f hold
  · simp [hrest.data]

theorem writeAttempts_cases {slot : DvbCaSlot} {attempt : Nat → WriteAttempt}
    (hsucc : WritesSucceed slot attempt) {fragbuf : Bytes}
    (hfit : (fragbuf.length : Int) ≤ slot.linkBufSize) (fuel n : Nat) :
    writeAttempts slot attempt fragbuf (fuel + 1) n = some (.error (-CaErrno.eio.code), []) ∨
      writeAttempts slot attempt fragbuf (fuel + 1) n = some (.ok (n + 1), [fragbuf]) := by
  rw [writeAttempts]
  split_ifs with hlate hstate
  · exact .inl rfl
  · exact .inl rfl
  · rw [hsucc n fragbuf hfit, if_pos rfl]
    exact .inr rfl

/-- The length of the fragment at `fragpos`, as the loop computes it. -/
def fragLength (size fragpos total : Nat) : Nat :=
  min (min (size - 2) (hostLinkBufSize - 2)) (total - fragpos)

/-- The fragment at `fragpos`. -/
def fragment (c : UInt8) (payload : Bytes) (size fragpos : Nat) : Bytes :=
  let fraglen := fragLength size fragpos payload.length
  [c, if fragpos + fraglen < payload.length then 0x80 else 0x00] ++
    (payload.drop fragpos).take fraglen

theorem length_fragment (c : UInt8) (payload : Bytes) {size : Nat} (fragpos : Nat)
    (hsize : 2 ≤ size) : (fragment c payload size fragpos).length ≤ size := by
  simp only [fragment, fragLength, length_append, length_cons, length_nil, length_take, length_drop]
  omega

variable {fragpos : Nat}

theorem fragment_cons {c : UInt8} {payload : Bytes} {size : Nat} {rest : List Bytes}
    (hsize : 2 ≤ size) (hrest : Fragments size c
      (payload.drop (fragpos + fragLength size fragpos payload.length)) rest)
    (hlast : payload.length ≤ fragpos + fragLength size fragpos payload.length → rest = []) :
    Fragments size c (payload.drop fragpos) (fragment c payload size fragpos :: rest) := by
  have hsplit : payload.drop fragpos =
      (payload.drop fragpos).take (fragLength size fragpos payload.length) ++
        payload.drop (fragpos + fragLength size fragpos payload.length) := by
    rw [← drop_drop, take_append_drop]
  have hlen : (((payload.drop fragpos).take (fragLength size fragpos payload.length)).length
      + 2 : Int) ≤ size := by
    have hfit := length_fragment c payload fragpos hsize
    simp only [fragment, length_append, length_cons, length_nil] at hfit
    omega
  rw [hsplit]
  apply hrest.cons hlen
  split_ifs with hmore hnil hnil
  · have hempty := hrest.data
    rw [hnil] at hempty
    have := drop_eq_nil_iff.mp hempty.symm
    omega
  · rfl
  · rfl
  · exact absurd (hlast (not_lt.mp hmore)) hnil

section Loop

variable {slot : DvbCaSlot} {size : Nat} {userOk : Nat → Nat → Bool} {attempt : Nat → WriteAttempt}
  {c : UInt8} {payload : Bytes} {fuel n : Nat}

theorem ioWriteLoop_step (hlink : slot.linkBufSize = size) (hsize : 2 ≤ size)
    (hpos : fragpos < payload.length) :
    ioWriteLoop slot userOk attempt c payload (fuel + 1) fragpos n =
      if userOk (fragpos + 2) (fragLength size fragpos payload.length) then
        match writeAttempts slot attempt (fragment c payload size fragpos) fuel n with
        | none => none
        | some (.error status, calls) => some (status, calls)
        | some (.ok n, calls) =>
          (ioWriteLoop slot userOk attempt c payload fuel
            (fragpos + fragLength size fragpos payload.length) n).map
            (fun out => (out.1, calls ++ out.2))
      else some (-CaErrno.efault.code, []) := by
  have hnonneg : ¬ slot.linkBufSize - 2 < 0 := by omega
  have hlen : (if (payload.length - fragpos : Int) <
        (if slot.linkBufSize - 2 > hostLinkBufSize - 2 then (hostLinkBufSize - 2 : Int)
          else slot.linkBufSize - 2)
      then (payload.length - fragpos : Int)
      else if slot.linkBufSize - 2 > hostLinkBufSize - 2 then (hostLinkBufSize - 2 : Int)
        else slot.linkBufSize - 2).toNat = fragLength size fragpos payload.length := by
    simp only [hlink, fragLength, hostLinkBufSize]
    split_ifs <;> omega
  rw [ioWriteLoop, if_pos hpos]
  simp only [if_neg hnonneg, hlen, fragment]

theorem ioWriteLoop_done (hpos : payload.length ≤ fragpos) :
    ioWriteLoop slot userOk attempt c payload (fuel + 1) fragpos n =
      some ((payload.length + 2 : Int), []) := by
  rw [ioWriteLoop, if_neg hpos.not_gt]

variable (userOk c payload) in
/-- A round moves on by at least a byte, so the loop ends. -/
theorem ioWriteLoop_returns (hlink : slot.linkBufSize = size) (hsize : 3 ≤ size)
    (hsucc : WritesSucceed slot attempt) (hfuel : payload.length - fragpos < fuel) :
    ∃ out, ioWriteLoop slot userOk attempt c payload fuel fragpos n = some out := by
  induction fuel generalizing fragpos n with
  | zero => omega
  | succ fuel ih =>
    rcases lt_or_ge fragpos payload.length with hpos | hend
    · have hmoves : 0 < fragLength size fragpos payload.length := by
        simp only [fragLength, hostLinkBufSize]
        omega
      have hfit : ((fragment c payload size fragpos).length : Int) ≤ slot.linkBufSize := by
        rw [hlink]
        exact_mod_cast length_fragment c payload fragpos (by omega)
      obtain ⟨round, rfl⟩ : ∃ round, fuel = round + 1 := ⟨fuel - 1, by omega⟩
      rw [ioWriteLoop_step hlink (by omega) hpos]
      split_ifs with huser
      · rcases writeAttempts_cases hsucc hfit round n with herror | hok
        · rw [herror]
          exact ⟨_, rfl⟩
        have hless : payload.length - (fragpos + fragLength size fragpos payload.length) <
            round + 1 := by omega
        obtain ⟨out, hout⟩ := ih (n := n + 1) hless
        rw [hok]
        simp only [hout]
        exact ⟨_, rfl⟩
      · exact ⟨_, rfl⟩
    · exact ⟨_, ioWriteLoop_done hend⟩

/-- A loop that returns the whole length has passed on the rest of the payload. -/
theorem ioWriteLoop_fragments (hlink : slot.linkBufSize = size) (hsize : 2 ≤ size)
    (hsucc : WritesSucceed slot attempt) {frags : List Bytes}
    (hdone : ioWriteLoop slot userOk attempt c payload fuel fragpos n =
      some ((payload.length + 2 : Int), frags)) :
    Fragments size c (payload.drop fragpos) frags := by
  induction fuel generalizing fragpos n frags with
  | zero => cases hdone
  | succ fuel ih =>
    rcases lt_or_ge fragpos payload.length with hpos | hend
    · have hfit : ((fragment c payload size fragpos).length : Int) ≤ slot.linkBufSize := by
        rw [hlink]
        exact_mod_cast length_fragment c payload fragpos hsize
      rw [ioWriteLoop_step hlink hsize hpos] at hdone
      split_ifs at hdone with huser
      · rcases fuel with _ | round
        · cases hdone
        rcases writeAttempts_cases hsucc hfit round n with herror | hok
        · rw [herror] at hdone
          simp only [some.injEq, Prod.mk.injEq, CaErrno.code] at hdone
          omega
        rw [hok] at hdone
        obtain ⟨⟨status, rest⟩, hout, hpair⟩ := map_eq_some_iff.mp hdone
        cases hpair
        exact fragment_cons hsize (ih hout) (fun hend => by
          rw [ioWriteLoop_done hend] at hout
          exact (Prod.mk.inj (some.inj hout)).2.symm)
      · simp only [some.injEq, Prod.mk.injEq, CaErrno.code] at hdone
        omega
    · rw [ioWriteLoop_done hend] at hdone
      cases hdone
      rw [drop_eq_nil_of_le hend]
      exact .nil size c

/-- With no room behind the header the loop sends the same empty fragment forever. -/
theorem ioWriteLoop_stuck (hlink : slot.linkBufSize = 2) (hrest : payload ≠ [])
    (huser : ∀ start len, userOk start len = true)
    (hattempt : ∀ n, (attempt n).late = false ∧ (attempt n).slotState = .running)
    (hsucc : WritesSucceed slot attempt) (fuel n : Nat) :
    ioWriteLoop slot userOk attempt c payload fuel 0 n = none := by
  induction fuel generalizing n with
  | zero => rfl
  | succ fuel ih =>
    have hlen : fragLength 2 0 payload.length = 0 := by simp [fragLength]
    have hfit : ((fragment c payload 2 0).length : Int) ≤ slot.linkBufSize := by
      rw [hlink]
      exact_mod_cast length_fragment c payload 0 (le_refl 2)
    rw [ioWriteLoop_step (by exact_mod_cast hlink) (le_refl 2)
      (length_pos_iff.mpr hrest), hlen, if_pos (huser _ _)]
    rcases fuel with _ | round
    · rfl
    obtain ⟨hlate, hstate⟩ := hattempt n
    rw [writeAttempts, if_neg (by simp [hlate]), if_neg (by simp [hstate]),
      hsucc n _ hfit, if_pos rfl]
    simp [ih]

end Loop

/-- What a write of `payload` to a slot promises, whatever the user's memory and the time do,
once no call of `write_data` fails. -/
def WriteRight (ca : DvbCaPrivate) (slot c : UInt8) (payload : Bytes) : Prop :=
  ∀ userOk attempt, WritesSucceed (ca.slotInfo slot.toNat) attempt →
    (∃ fuel out,
      dvbCaEn50221IoWrite ca userOk attempt fuel (slot :: c :: payload) = some out) ∧
    ∀ fuel frags,
      dvbCaEn50221IoWrite ca userOk attempt fuel (slot :: c :: payload) =
        some ((payload.length + 2 : Int), frags) →
      Fragments (ca.slotInfo slot.toNat).linkBufSize c payload frags

def promptAttempt : WriteAttempt :=
  { late := false
    slotState := .running
    cam := ⟨0, 0, statusregFr, 0, 0, fun _ => 0, 0⟩ }

theorem writesSucceed_prompt (slot : DvbCaSlot) : WritesSucceed slot (fun _ => promptAttempt) := by
  intro n buf hfit
  have hnone : (List.range buf.length).find? (fun _ => false) = none :=
    List.find?_eq_none.mpr (by simp)
  rw [dvbCaEn50221WriteData, if_neg (not_lt.mpr hfit)]
  simp [promptAttempt, statusregFr, hnone]

variable {ca : DvbCaPrivate} {c slot : UInt8} {payload : Bytes} {size : Nat}

section

variable (hrunning : (ca.slotInfo slot.toNat).slotState = .running)
include hrunning

theorem ioWrite_running {userOk : Nat → Nat → Bool} {attempt : Nat → WriteAttempt} (fuel : Nat)
    (hslot : userOk 0 1 = true) (hconn : userOk 1 1 = true) :
    dvbCaEn50221IoWrite ca userOk attempt fuel (slot :: c :: payload) =
      ioWriteLoop (ca.slotInfo slot.toNat) userOk attempt c payload fuel 0 0 := by
  simp [dvbCaEn50221IoWrite, hrunning, hslot, hconn]

/-- Either the loop runs, or the call ends with an error before it. -/
theorem ioWrite_cases (userOk : Nat → Nat → Bool) (attempt : Nat → WriteAttempt) (c : UInt8)
    (payload : Bytes) :
    (∀ fuel, dvbCaEn50221IoWrite ca userOk attempt fuel (slot :: c :: payload) =
      some (-CaErrno.efault.code, [])) ∨
    ∀ fuel, dvbCaEn50221IoWrite ca userOk attempt fuel (slot :: c :: payload) =
      ioWriteLoop (ca.slotInfo slot.toNat) userOk attempt c payload fuel 0 0 := by
  by_cases hslot : userOk 0 1 = true
  · by_cases hconn : userOk 1 1 = true
    · right
      intro fuel
      exact ioWrite_running hrunning fuel hslot hconn
    · left
      intro fuel
      simp [dvbCaEn50221IoWrite, hconn]
  · left
    intro fuel
    simp [dvbCaEn50221IoWrite, hslot]

omit hrunning in
theorem three_le_negotiatedSize (high low : UInt8) :
    3 ≤ negotiatedSize high low ↔ 3 ≤ (high.toNat <<< 8 ||| low.toNat) := by
  have hhost : hostLinkBufSize = 0x200 := rfl
  rw [negotiatedSize]
  split_ifs <;> omega

theorem writeRight_of_room (hlink : (ca.slotInfo slot.toNat).linkBufSize = size) (hsize : 3 ≤ size)
    : WriteRight ca slot c payload := by
  intro userOk attempt hsucc
  rcases ioWrite_cases hrunning userOk attempt c payload with hfault | hloop
  · refine ⟨⟨0, _, hfault 0⟩, ?_⟩
    intro fuel frags hdone
    rw [hfault] at hdone
    simp only [some.injEq, Prod.mk.injEq, CaErrno.code] at hdone
    omega
  constructor
  · obtain ⟨out, hout⟩ := ioWriteLoop_returns userOk c payload (n := 0) hlink hsize hsucc
      (Nat.lt_succ_self (payload.length - 0))
    exact ⟨_, out, (hloop _).trans hout⟩
  intro fuel frags hdone
  rw [hloop] at hdone
  rw [hlink]
  exact ioWriteLoop_fragments hlink (by omega) hsucc hdone

theorem writeRight_nil : WriteRight ca slot c [] := by
  intro userOk attempt hsucc
  rcases ioWrite_cases hrunning userOk attempt c [] with hfault | hloop
  · refine ⟨⟨0, _, hfault 0⟩, ?_⟩
    intro fuel frags hdone
    rw [hfault] at hdone
    cases hdone
  refine ⟨⟨1, _, (hloop 1).trans (ioWriteLoop_done (le_refl 0))⟩, ?_⟩
  intro fuel frags hdone
  rw [hloop] at hdone
  rcases fuel with _ | fuel
  · cases hdone
  cases hdone
  exact .nil _ c

/-- Without room for data, a write of data is either never done or done with nothing sent. -/
theorem not_writeRight_of_small (hlink : (ca.slotInfo slot.toNat).linkBufSize = size)
    (hsize : size < 3) (hrest : payload ≠ []) : ¬ WriteRight ca slot c payload := by
  intro hright
  obtain ⟨⟨fuel, out, hout⟩, hfrags⟩ :=
    hright (fun _ _ => true) (fun _ => promptAttempt) (writesSucceed_prompt _)
  rcases lt_or_ge size 2 with hbelow | htwo
  · have hbreak : dvbCaEn50221IoWrite ca (fun _ _ => true) (fun _ => promptAttempt) 1
        (slot :: c :: payload) = some ((payload.length + 2 : Int), []) := by
      rw [ioWrite_running hrunning 1 rfl rfl, ioWriteLoop, if_pos (length_pos_iff.mpr hrest)]
      rw [if_pos (by omega)]
    exact hrest (hfrags 1 [] hbreak).data.symm
  · have htwo : (ca.slotInfo slot.toNat).linkBufSize = 2 := by omega
    rw [ioWrite_running hrunning fuel rfl rfl, ioWriteLoop_stuck htwo hrest (fun _ _ => rfl)
      (fun _ => ⟨rfl, rfl⟩) (writesSucceed_prompt _)] at hout
    cases hout

end

/-- The write does what it should exactly when there is nothing to send or the module offers
room for a byte behind the two of the header. -/
theorem write_right_iff_room (ca : DvbCaPrivate) (slot c : UInt8) (payload : Bytes)
    (high low : UInt8) (hrunning : (ca.slotInfo slot.toNat).slotState = .running)
    (hlink : (ca.slotInfo slot.toNat).linkBufSize = negotiatedSize high low) :
    WriteRight ca slot c payload ↔ payload = [] ∨ 3 ≤ (high.toNat <<< 8 ||| low.toNat) := by
  rw [← three_le_negotiatedSize]
  constructor
  · intro hright
    by_contra hsmall
    push Not at hsmall
    exact not_writeRight_of_small hrunning hlink hsmall.2 hsmall.1 hright
  · rintro (rfl | hsize)
    · exact writeRight_nil hrunning
    · exact writeRight_of_room hrunning hlink hsize

/-- A running slot whose module has offered a link buffer of `size` bytes. -/
def linkedSlot (size : Int) : DvbCaPrivate :=
  { slotCount := 1
    slotInfo := fun _ =>
      { slotState := .running, linkBufSize := size, rxBuffer := dvbRingbufferInit none 0 }
    nextReadSlot := 0 }

def promptLink (high low : UInt8) : LinkAnswers :=
  ⟨0, 0, some (high, low), 0, 0, 0, promptAttempt.cam, 0⟩

/-- Three bytes over a link of four, two in a fragment. -/
theorem three_bytes_write_right :
    WriteRight (linkedSlot 4) 0 7 [1, 2, 3] ∧
      dvbCaEn50221IoWrite (linkedSlot 4) (fun _ _ => true) (fun _ => promptAttempt) 4
        [0, 7, 1, 2, 3] = some (5, [[7, 0x80, 1, 2], [7, 0x00, 3]]) :=
  ⟨(write_right_iff_room (linkedSlot 4) 0 7 [1, 2, 3] 0 4 rfl rfl).mpr (.inr (by decide)),
    by decide⟩

/-- A module that offers two bytes gets its link, and the write of one byte is never done
though every fragment is taken. -/
theorem two_byte_link_never_returns :
    (dvbCaEn50221LinkInit ((linkedSlot 2).slotInfo 0) (promptLink 0 2)).1 = 0 ∧
      (dvbCaEn50221LinkInit ((linkedSlot 2).slotInfo 0) (promptLink 0 2)).2.linkBufSize =
        negotiatedSize 0 2 ∧
      WritesSucceed ((linkedSlot (negotiatedSize 0 2)).slotInfo 0) (fun _ => promptAttempt) ∧
      (∀ fuel, dvbCaEn50221IoWrite (linkedSlot (negotiatedSize 0 2)) (fun _ _ => true)
        (fun _ => promptAttempt) fuel [0, 7, 1] = none) ∧
      ¬ WriteRight (linkedSlot (negotiatedSize 0 2)) 0 7 [1] := by
  refine ⟨rfl, rfl, writesSucceed_prompt _, ?_, ?_⟩
  · intro fuel
    exact (ioWrite_running rfl fuel rfl rfl).trans
      (ioWriteLoop_stuck rfl (cons_ne_nil 1 []) (fun _ _ => rfl) (fun _ => ⟨rfl, rfl⟩)
        (writesSucceed_prompt _) fuel 0)
  · exact not_writeRight_of_small rfl rfl (by decide) (cons_ne_nil 1 [])

end TbsMedia.DvbCore
