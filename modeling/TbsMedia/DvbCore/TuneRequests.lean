import Mathlib.Tactic

/-!
Tune requests of `dvb_frontend.c`: `FE_SET_FRONTEND`, and `DTV_TUNE`, which writes the property
cache into the parameters in use before they are checked.
-/

namespace TbsMedia.DvbCore

inductive FeType
  | qpsk | qam | ofdm | atsc
deriving DecidableEq

/-- `fe->ops.info` and the limits of `fe->ops.tuner_ops.info`. -/
structure FeInfo where
  type : FeType
  (frequencyMin frequencyMax tunerMin tunerMax frequencyStepsize : UInt32)
  (symbolRateMin symbolRateMax caps : UInt32)

/-- `struct dvb_frontend_parameters`; the members of the union `u` share its seven words. -/
structure FeParameters where
  frequency : UInt32
  inversion : UInt32
  u : Fin 7 → UInt32

/-- `struct dtv_frontend_properties`. -/
structure DtvProperties where
  (state frequency inversion modulation symbolRate fecInner bandwidthHz : UInt32)
  (codeRateHP codeRateLP transmissionMode guardInterval hierarchy : UInt32)
  (rolloff deliverySystem : UInt32)

/-- The tuning part of `struct dvb_frontend_private`. -/
structure FePriv where
  parametersIn : FeParameters
  (minDelay stepSize maxDrift state status algoStatus : UInt32)

structure Frontend where
  cache : DtvProperties
  priv : FePriv

/-- What the driver's operations answer, and the parameters of the module. `settings` are
`min_delay_ms`, `step_size` and `max_drift`. -/
structure TuneEnv where
  setProperty : Int
  ioctlOverride : Int
  settings : Option (UInt32 × UInt32 × UInt32)
  forceAutoInversion : Bool
  overrideTuneDelay : UInt32
  hz : UInt32

def einvalRet : Int := -22

section

variable (info : FeInfo)

def dvbFrontendGetFrequencyLimits : UInt32 × UInt32 :=
  (max info.frequencyMin info.tunerMin,
    if info.frequencyMax = 0 then info.tunerMax
    else if info.tunerMax = 0 then info.frequencyMax
    else min info.frequencyMax info.tunerMax)

def dvbFrontendCheckParameters (parms : FeParameters) : Int :=
  let (freqMin, freqMax) := dvbFrontendGetFrequencyLimits info
  let rate := parms.u 0
  if freqMin ≠ 0 ∧ parms.frequency < freqMin ∨ freqMax ≠ 0 ∧ parms.frequency > freqMax then
    einvalRet
  else if (info.type = .qpsk ∨ info.type = .qam) ∧
      (info.symbolRateMin ≠ 0 ∧ rate < info.symbolRateMin ∨
        info.symbolRateMax ≠ 0 ∧ rate > info.symbolRateMax) then einvalRet
  else if info.type = .qam ∧ (parms.u 2 > 6 ∨ (1 <<< (parms.u 2 + 10)) &&& info.caps = 0) then
    einvalRet
  else 0

/-- The first words of the union are written. -/
def overwrite (words : List UInt32) (u : Fin 7 → UInt32) : Fin 7 → UInt32 :=
  fun i => words.getD i (u i)

/-- `BANDWIDTH_8_MHZ` to `BANDWIDTH_AUTO` are 0 to 3. -/
def bandwidthOf (hz : UInt32) : UInt32 :=
  if hz = 6000000 then 2 else if hz = 7000000 then 1 else if hz = 8000000 then 0 else 3

def legacyWords (type : FeType) (c : DtvProperties) : List UInt32 :=
  match type with
  | .qpsk => [c.symbolRate, c.fecInner]
  | .qam => [c.symbolRate, c.fecInner, c.modulation]
  | .ofdm => [bandwidthOf c.bandwidthHz, c.codeRateHP, c.codeRateLP, c.modulation,
      c.transmissionMode, c.guardInterval, c.hierarchy]
  | .atsc => [c.modulation]

def dtvPropertyLegacyParamsSync (type : FeType) (c : DtvProperties) (p : FeParameters) :
    FeParameters :=
  ⟨c.frequency, c.inversion, overwrite (legacyWords type c) p.u⟩

/-- `PSK_8`, `APSK_16`, `APSK_32` and `QPSK`. -/
def isPsk (modulation : UInt32) : Bool := modulation ∈ [9, 10, 11, 0]

/-- `SYS_ISDBT` and `SYS_DVBT2`. -/
def isFakedDvbt (system : UInt32) : Bool := system = 8 || system = 16

/-- The generic DVB-T request: everything but the bandwidth is automatic. -/
def fakedWords (c : DtvProperties) : List UInt32 := [bandwidthOf c.bandwidthHz, 9, 9, 6, 2, 4, 4]

def dtvPropertyAdvParamsSync (c : DtvProperties) (p : FeParameters) : FeParameters :=
  let u := if isPsk c.modulation then overwrite [c.symbolRate, c.fecInner] p.u else p.u
  ⟨c.frequency, c.inversion,
    if isFakedDvbt c.deliverySystem then overwrite (fakedWords c) u else u⟩

/-- `SYS_UNDEFINED`, `SYS_DVBC_ANNEX_AC`, `SYS_DVBC_ANNEX_B`, `SYS_DVBT`, `SYS_DVBS` and
`SYS_ATSC`. -/
def isLegacyDeliverySystem (system : UInt32) : Bool := system ∈ [0, 1, 2, 3, 5, 11]

def dtvPropertyCacheSubmit (type : FeType) (c : DtvProperties) (p : FeParameters) : FeParameters :=
  if isLegacyDeliverySystem c.deliverySystem then dtvPropertyLegacyParamsSync type c p
  else dtvPropertyAdvParamsSync c p

def dtvPropertyCacheSync (type : FeType) (c : DtvProperties) (p : FeParameters) : DtvProperties :=
  let c := { c with frequency := p.frequency, inversion := p.inversion }
  match type with
  | .qpsk => { c with modulation := 0, rolloff := 0, symbolRate := p.u 0, fecInner := p.u 1
                      deliverySystem := 5 }
  | .qam => { c with symbolRate := p.u 0, fecInner := p.u 1, modulation := p.u 2
                     deliverySystem := 1 }
  | .ofdm => { c with bandwidthHz := if p.u 0 = 2 then 6000000 else if p.u 0 = 1 then 7000000
                        else if p.u 0 = 0 then 8000000 else 0
                      codeRateHP := p.u 1, codeRateLP := p.u 2, modulation := p.u 3
                      transmissionMode := p.u 4, guardInterval := p.u 5, hierarchy := p.u 6
                      deliverySystem := 3 }
  | .atsc => { c with modulation := p.u 0
                      deliverySystem := if p.u 0 = 7 ∨ p.u 0 = 8 then 11 else 2 }

/-- The default `min_delay`, `step_size` and `max_drift`. -/
def defaultSettings (env : TuneEnv) (p : FeParameters) : UInt32 × UInt32 × UInt32 :=
  match info.type with
  | .qpsk => (env.hz / 20, p.u 0 / 16000, p.u 0 / 2000)
  | .ofdm => (env.hz / 20, info.frequencyStepsize * 2, info.frequencyStepsize * 2 + 1)
  | _ => (env.hz / 20, 0, 0)

/-- What an accepted request makes of the parameters in use. -/
def tuned (env : TuneEnv) (priv : FePriv) : FePriv :=
  let p := if env.forceAutoInversion then { priv.parametersIn with inversion := 2 }
    else priv.parametersIn
  let p := if info.type = .ofdm ∧ p.u 6 = 0 ∧ p.u 2 = 0 then
      { p with u := Function.update p.u 2 9 } else p
  let (minDelay, stepSize, maxDrift) := match env.settings with
    | some (ms, stepSize, maxDrift) => (ms * env.hz / 1000, stepSize, maxDrift)
    | none => defaultSettings info env p
  { parametersIn := p
    minDelay := if env.overrideTuneDelay > 0 then env.overrideTuneDelay * env.hz / 1000
      else minDelay
    stepSize := stepSize
    maxDrift := maxDrift
    state := 2
    status := 0
    algoStatus := priv.algoStatus ||| 16 }

/-- `FE_SET_FRONTEND` of `dvb_frontend_ioctl_legacy`; 1 is `DTV_TUNE`. -/
def feSetFrontend (env : TuneEnv) (parg : FeParameters) (fe : Frontend) : Int × Frontend :=
  if env.ioctlOverride < 0 then (env.ioctlOverride, fe)
  else if env.ioctlOverride > 0 then (0, fe)
  else if fe.cache.state = 1 then
    if dvbFrontendCheckParameters info fe.priv.parametersIn < 0 then (einvalRet, fe)
    else (0, { fe with priv := tuned info env fe.priv })
  else if dvbFrontendCheckParameters info parg < 0 then (einvalRet, fe)
  else (0, ⟨dtvPropertyCacheSync info.type fe.cache parg,
    tuned info env { fe.priv with parametersIn := parg }⟩)

inductive TuneRequest
  | setFrontend (parms : FeParameters)
  | dtvTune

def tune (env : TuneEnv) (fe : Frontend) : TuneRequest → Int × Frontend
  | .setFrontend parms => feSetFrontend info env parms { fe with cache.state := 0 }
  | .dtvTune =>
    if env.setProperty < 0 then (env.setProperty, fe)
    else
      let p := dtvPropertyCacheSubmit info.type fe.cache fe.priv.parametersIn
      feSetFrontend info env p { fe with cache.state := 1, priv.parametersIn := p }

/-- The request comes as far as the check of its parameters, which refuses them. -/
def TuneRequest.Refused (env : TuneEnv) (fe : Frontend) : TuneRequest → Prop
  | .setFrontend parms => env.ioctlOverride = 0 ∧ dvbFrontendCheckParameters info parms < 0
  | .dtvTune => env.ioctlOverride = 0 ∧ 0 ≤ env.setProperty ∧ dvbFrontendCheckParameters info
      (dtvPropertyCacheSubmit info.type fe.cache fe.priv.parametersIn) < 0

/-- The parameters already have what the cache says, as far as it says something. -/
def CacheMatches (type : FeType) (c : DtvProperties) (p : FeParameters) : Prop :=
  p.frequency = c.frequency ∧ p.inversion = c.inversion ∧
    ∀ i : Fin 7, ∀ word, (if isLegacyDeliverySystem c.deliverySystem then legacyWords type c
      else if isFakedDvbt c.deliverySystem then fakedWords c
      else if isPsk c.modulation then [c.symbolRate, c.fecInner] else [])[i.val]? = some word →
        p.u i = word

theorem overwrite_eq_iff (words : List UInt32) (u : Fin 7 → UInt32) :
    overwrite words u = u ↔ ∀ i : Fin 7, ∀ word, words[i.val]? = some word → u i = word := by
  rw [funext_iff]
  refine forall_congr' fun i => ?_
  rw [overwrite, List.getD_eq_getElem?_getD]
  cases words[i.val]? with
  | none => simp
  | some word => simp [eq_comm]

theorem overwrite_faked (c : DtvProperties) (u u' : Fin 7 → UInt32) :
    overwrite (fakedWords c) u = overwrite (fakedWords c) u' := by
  funext i
  fin_cases i <;> rfl

theorem cacheSubmit_eq_iff (type : FeType) (c : DtvProperties) (p : FeParameters) :
    dtvPropertyCacheSubmit type c p = p ↔ CacheMatches type c p := by
  obtain ⟨frequency, inversion, u⟩ := p
  have hwrite : ∀ words, (FeParameters.mk c.frequency c.inversion (overwrite words u) =
      ⟨frequency, inversion, u⟩ ↔ frequency = c.frequency ∧ inversion = c.inversion ∧
        ∀ i : Fin 7, ∀ word, words[i.val]? = some word → u i = word) := by
    intro words
    rw [FeParameters.mk.injEq, overwrite_eq_iff, eq_comm, @eq_comm _ c.inversion]
  unfold dtvPropertyCacheSubmit dtvPropertyLegacyParamsSync dtvPropertyAdvParamsSync CacheMatches
  dsimp only
  split_ifs
  · exact hwrite _
  · rw [overwrite_faked c _ u]
    exact hwrite _
  · exact hwrite _
  · exact hwrite _
  · exact hwrite []

/-- A refused request leaves everything that the tuning thread goes on with exactly if it is a
legacy request, or its cache holds nothing new. -/
theorem refused_tune_keeps_iff (env : TuneEnv) (fe : Frontend) (req : TuneRequest)
    (hrefused : req.Refused info env fe) :
    (tune info env fe req).1 = einvalRet ∧ ((tune info env fe req).2.priv = fe.priv ↔
      (req = .dtvTune → CacheMatches info.type fe.cache fe.priv.parametersIn)) := by
  cases req with
  | setFrontend parms =>
    obtain ⟨hoverride, hcheck⟩ := hrefused
    simp [tune, feSetFrontend, hoverride, hcheck]
  | dtvTune =>
    obtain ⟨hoverride, hset, hcheck⟩ := hrefused
    have hout : tune info env fe .dtvTune = (einvalRet, { fe with
        cache.state := 1
        priv.parametersIn := dtvPropertyCacheSubmit info.type fe.cache fe.priv.parametersIn }) := by
      simp [tune, feSetFrontend, hoverride, hcheck, not_lt.mpr hset]
    rw [hout, ← cacheSubmit_eq_iff]
    refine ⟨rfl, fun heq _ => congrArg FePriv.parametersIn heq, fun heq => ?_⟩
    rw [heq rfl]

end

/-- A satellite receiver, and a frontend with this frequency in its cache that is tuned to
1 GHz. -/
def satelliteInfo : FeInfo := ⟨.qpsk, 950000, 2150000, 0, 0, 0, 1000000, 45000000, 0⟩

def tunedAt (cached : UInt32) : Frontend where
  cache := ⟨0, cached, 2, 0, 27500000, 9, 0, 0, 0, 0, 0, 0, 0, 5⟩
  priv := ⟨⟨1000000, 2, fun i => [27500000, 9].getD i 0⟩, 50, 1718, 13750, 16, 0, 0⟩

def plainEnv : TuneEnv := ⟨0, 0, none, false, 0, 1000⟩

theorem refused_tune_keeps_legacy :
    (tune satelliteInfo plainEnv (tunedAt 5) (.setFrontend ⟨5, 2, fun _ => 0⟩)).2.priv =
      (tunedAt 5).priv :=
  (refused_tune_keeps_iff satelliteInfo plainEnv (tunedAt 5) (.setFrontend ⟨5, 2, fun _ => 0⟩)
    ⟨rfl, by decide⟩).2.mpr nofun

/-- The tuning thread goes on with the refused frequency. -/
theorem refused_dtv_tune_changes_frequency :
    TuneRequest.Refused satelliteInfo plainEnv (tunedAt 5) .dtvTune ∧
      (tune satelliteInfo plainEnv (tunedAt 5) .dtvTune).1 = einvalRet ∧
      (tune satelliteInfo plainEnv (tunedAt 5) .dtvTune).2.priv.parametersIn.frequency = 5 :=
  ⟨⟨rfl, by decide, by decide⟩, rfl, rfl⟩

end TbsMedia.DvbCore
