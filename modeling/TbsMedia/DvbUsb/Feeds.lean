import TbsMedia.Lib.Run

/-!
The feeds of a DVB USB adapter. `dvb_usb_ctrl_feed` counts them and switches the
transfer on with the first and off with the last; the demux draws its own
conclusions from what it returns. What the device does with a single PID
(`pid_filter`) decides nothing here and is left out.
-/

namespace TbsMedia.DvbUsb

open Lib List

/-- The properties of an adapter that `dvb_usb_ctrl_feed` reads: two of its `caps`
bits and whether the callbacks are there. -/
structure Props where
  hasPidFilter : Bool
  pidFilterCanBeTurnedOff : Bool
  pidFilterCtrl : Bool
  streamingCtrl : Bool

/-- `urbs` says that the URBs are submitted, `streaming` what the device was last told
with success. -/
structure Adapter where
  props : Props
  feedcount : Int
  urbs : Bool
  streaming : Bool

/-- What `usb_urb_submit` and the callbacks answer in one call. -/
structure Answers where
  urbSubmit : Bool
  pidFilterCtrl : Int
  streamingCtrl : Int

def Props.asksPidFilterCtrl (props : Props) : Bool :=
  props.hasPidFilter && props.pidFilterCanBeTurnedOff && props.pidFilterCtrl

/-- The end of `dvb_usb_ctrl_feed`: a negative answer of the device is passed on. -/
def streamingControl (adap : Adapter) (onoff : Bool) (answers : Answers) : Int × Adapter :=
  if adap.props.streamingCtrl then
    if answers.streamingCtrl < 0 then (answers.streamingCtrl, adap)
    else (0, { adap with streaming := onoff })
  else (0, adap)

/-- The first feed. What `usb_urb_submit` returns is ignored. -/
def startFeeding (adap : Adapter) (answers : Answers) : Int × Adapter :=
  let adap := { adap with urbs := answers.urbSubmit }
  if adap.props.asksPidFilterCtrl ∧ answers.pidFilterCtrl < 0 then (answers.pidFilterCtrl, adap)
  else streamingControl adap true answers

def dvbUsbCtrlFeed (adap : Adapter) (onoff : Bool) (answers : Answers) : Int × Adapter :=
  let newfeedcount : Int := adap.feedcount + if onoff then 1 else -1
  let stopped := if newfeedcount = 0 then
    streamingControl { adap with urbs := false } false answers else (0, adap)
  if stopped.1 < 0 then stopped
  else
    let adap : Adapter := { stopped.2 with feedcount := newfeedcount }
    if adap.feedcount = (if onoff then 1 else 0) ∧ adap.feedcount > 0 then
      startFeeding adap answers
    else (0, adap)

def dvbUsbStartFeed (adap : Adapter) (answers : Answers) : Int × Adapter :=
  dvbUsbCtrlFeed adap true answers

def dvbUsbStopFeed (adap : Adapter) (answers : Answers) : Int × Adapter :=
  dvbUsbCtrlFeed adap false answers

structure World where
  adap : Adapter
  started : List Nat
  ret : Int

inductive FeedCall where
  | start (f : Nat) (answers : Answers)
  | stop (f : Nat) (answers : Answers)

/-- The calls as the demux makes them: only feeds that are not started are started, and
only those that are get stopped, whatever `stop_feed` returns. -/
def feedStep (w : World) : FeedCall → Option World
  | .start f answers =>
    if f ∈ w.started then none
    else
      let out := dvbUsbStartFeed w.adap answers
      some {
        adap := out.2
        started := if out.1 < 0 then w.started else f :: w.started
        ret := out.1 }
  | .stop f answers =>
    if f ∈ w.started then
      let out := dvbUsbStopFeed w.adap answers
      some { adap := out.2, started := w.started.erase f, ret := out.1 }
    else none

def fresh (props : Props) : World where
  adap := { props := props, feedcount := 0, urbs := false, streaming := false }
  started := []
  ret := 0

structure Streams (w : World) : Prop where
  urbs : w.adap.urbs = true ↔ 0 < w.started.length
  streaming : w.adap.props.streamingCtrl = true →
    (w.adap.streaming = true ↔ 0 < w.started.length)

structure StreamsWhileListened (w : World) : Prop where
  feedcount : w.adap.feedcount = w.started.length
  streams : w.ret = 0 → Streams w

def Takes (props : Props) (answers : Answers) : Prop :=
  (props.asksPidFilterCtrl = true → 0 ≤ answers.pidFilterCtrl) ∧
    (props.streamingCtrl = true → 0 ≤ answers.streamingCtrl)

/-- The URBs and the device can be switched on with the first feed and off with the
last. -/
def Willing (w : World) : FeedCall → Prop
  | .start _ answers =>
    w.started = [] → answers.urbSubmit = true ∧ Takes w.adap.props answers
  | .stop _ answers => w.started.length = 1 →
      w.adap.props.streamingCtrl = true → 0 ≤ answers.streamingCtrl

section Calls

variable (adap : Adapter) (answers : Answers)

theorem startFeeding_takes (htakes : Takes adap.props answers) :
    startFeeding adap answers = (0, { adap with
      urbs := answers.urbSubmit
      streaming := if adap.props.streamingCtrl then true else adap.streaming }) := by
  obtain ⟨hpid, hstream⟩ := htakes
  have hasked : ¬ (adap.props.asksPidFilterCtrl = true ∧ answers.pidFilterCtrl < 0) :=
    fun h => absurd (hpid h.1) (by omega)
  simp only [startFeeding, streamingControl, if_neg hasked]
  split_ifs with hctrl hneg
  · exact absurd (hstream hctrl) (by omega)
  · rfl
  · rfl

theorem startFeeding_fails (hnot : ¬ Takes adap.props answers) :
    (startFeeding adap answers).1 < 0 ∧
      (startFeeding adap answers).2.feedcount = adap.feedcount := by
  simp only [startFeeding, streamingControl]
  split_ifs with hasked hctrl hneg
  · exact ⟨hasked.2, rfl⟩
  · exact ⟨hneg, rfl⟩
  · exact absurd ⟨by simpa using hasked, fun _ => by simpa using hneg⟩ hnot
  · exact absurd ⟨by simpa using hasked, fun h => absurd h hctrl⟩ hnot

variable {adap}

theorem startFeed_first (hcount : adap.feedcount = 0) :
    dvbUsbStartFeed adap answers = startFeeding { adap with feedcount := 1 } answers := by
  simp [dvbUsbStartFeed, dvbUsbCtrlFeed, hcount]

theorem startFeed_further (hcount : 0 < adap.feedcount) :
    dvbUsbStartFeed adap answers = (0, { adap with feedcount := adap.feedcount + 1 }) := by
  have hnew : adap.feedcount + 1 ≠ 0 := by omega
  simp [dvbUsbStartFeed, dvbUsbCtrlFeed, hnew, hcount.ne']

theorem stopFeed_last (hcount : adap.feedcount = 1) :
    dvbUsbStopFeed adap answers =
      if adap.props.streamingCtrl = true ∧ answers.streamingCtrl < 0 then
        (answers.streamingCtrl, { adap with urbs := false })
      else (0, { adap with
        urbs := false, feedcount := 0,
        streaming := if adap.props.streamingCtrl then false else adap.streaming }) := by
  simp only [dvbUsbStopFeed, dvbUsbCtrlFeed, streamingControl, hcount]
  split_ifs <;> simp_all

theorem stopFeed_other (hcount : 1 < adap.feedcount) :
    dvbUsbStopFeed adap answers = (0, { adap with feedcount := adap.feedcount - 1 }) := by
  have hnew : adap.feedcount + -1 ≠ 0 := by omega
  simp [dvbUsbStopFeed, dvbUsbCtrlFeed, hnew, Int.sub_eq_add_neg]

end Calls

structure Inv (w : World) : Prop where
  feedcount : w.adap.feedcount = w.started.length
  streams : Streams w

theorem Inv.good {w : World} (hinv : Inv w) : StreamsWhileListened w :=
  ⟨hinv.feedcount, fun _ => hinv.streams⟩

variable {w next : World}

theorem Inv.start {f : Nat} {answers : Answers} (hinv : Inv w)
    (hstep : feedStep w (.start f answers) = some next) :
    (Willing w (.start f answers) → Inv next) ∧
      (¬ Willing w (.start f answers) → ¬ StreamsWhileListened next) := by
  obtain ⟨adap, started, ret⟩ := w
  obtain ⟨hcount, hurbs, hstream⟩ := hinv
  simp only [feedStep, Option.ite_none_left_eq_some] at hstep
  obtain ⟨-, hstep⟩ := hstep
  cases hstep
  cases started with
  | nil =>
    rw [startFeed_first answers hcount]
    by_cases htakes : Takes adap.props answers
    · rw [startFeeding_takes { adap with feedcount := 1 } answers htakes]
      refine ⟨fun hwilling => ⟨by simp, by simp [hwilling rfl], by simp +contextual⟩, ?_⟩
      intro hnot hgood
      refine hnot fun _ => ⟨?_, htakes⟩
      simpa using (hgood.streams rfl).urbs
    · obtain ⟨hneg, hcount⟩ := startFeeding_fails { adap with feedcount := 1 } answers htakes
      refine ⟨fun hwilling => absurd (hwilling rfl).2 htakes, fun _ hgood => ?_⟩
      have hzero := hgood.feedcount
      simp [hneg, hcount] at hzero
  | cons g rest =>
    simp only [length_cons] at hcount hurbs hstream
    rw [startFeed_further answers (by omega)]
    refine ⟨fun _ => ⟨?_, ?_, ?_⟩, fun hnot => absurd (fun h => by simp at h) hnot⟩
    · simp [hcount]
    · simpa using hurbs
    · simpa using hstream

theorem Inv.stop {f : Nat} {answers : Answers} (hinv : Inv w)
    (hstep : feedStep w (.stop f answers) = some next) :
    (Willing w (.stop f answers) → Inv next) ∧
      (¬ Willing w (.stop f answers) → ¬ StreamsWhileListened next) := by
  obtain ⟨adap, started, ret⟩ := w
  obtain ⟨hcount, hurbs, hstream⟩ := hinv
  simp only [feedStep, Option.ite_none_right_eq_some] at hstep
  obtain ⟨hf, hstep⟩ := hstep
  cases hstep
  have hlen := length_erase_of_mem hf
  have hpos := length_pos_of_mem hf
  simp only at hcount hurbs hstream
  rcases lt_or_ge 1 started.length with hmore | hone
  · rw [stopFeed_other answers (by omega)]
    refine ⟨fun _ => ⟨?_, ?_, ?_⟩, fun hnot => absurd (fun h => by simp only at h; omega) hnot⟩
    · simp only [hlen]
      omega
    · simp only [hlen, hurbs]
      omega
    intro hctrl
    simp only [hlen, hstream hctrl]
    omega
  · have hlast : started.length = 1 := by omega
    rw [stopFeed_last answers (by omega)]
    split
    · rename_i hneg
      refine ⟨fun hwilling => absurd (hwilling hlast hneg.1) (by omega), fun _ hgood => ?_⟩
      have hzero := hgood.feedcount
      simp only [hlen, hlast] at hzero
      omega
    rename_i hneg
    refine ⟨fun _ => ⟨?_, ?_, ?_⟩, fun hnot => absurd (fun _ hctrl => ?_) hnot⟩
    · simp [hlen, hlast]
    · simp [hlen, hlast]
    · intro hctrl
      have hon : adap.props.streamingCtrl = true := hctrl
      simp [hon, hlen, hlast]
    · exact not_lt.mp fun h => hneg ⟨hctrl, h⟩

/-- `feedcount` is the number of started feeds and the transfer runs exactly while there
are any, all through a run, if and only if nothing fails with a first or a last feed. -/
theorem streams_while_listened_iff (props : Props) (calls : List FeedCall) :
    Always feedStep StreamsWhileListened (fresh props) calls ↔
      Along feedStep Willing (fresh props) calls := by
  have hstep (w : World) (call : FeedCall) (next : World) (hinv : Inv w)
      (hnext : feedStep w call = some next) :
      (Willing w call → Inv next) ∧ (¬ Willing w call → ¬ StreamsWhileListened next) := by
    cases call with
    | start f answers => exact hinv.start hnext
    | stop f answers => exact hinv.stop hnext
  apply always_iff_along feedStep StreamsWhileListened Willing Inv (fun _ hinv => hinv.good)
  · exact fun w call next hinv hnext => (hstep w call next hinv hnext).1
  · exact fun w call next hinv hnext => (hstep w call next hinv hnext).2
  · exact ⟨rfl, by simp [fresh], by simp [fresh]⟩

def refusedFirst : List FeedCall :=
  [.start 0 { urbSubmit := true, pidFilterCtrl := 0, streamingCtrl := -5 },
    .start 1 { urbSubmit := true, pidFilterCtrl := 0, streamingCtrl := 0 }]

/-- The second feed is counted as another one, and no data comes. -/
theorem refused_first_feed_leaves_count :
    ¬ Always feedStep StreamsWhileListened (fresh ⟨false, false, false, true⟩) refusedFirst := by
  refine not_always_of_run (fun w => w.started = [1] ∧ w.adap.feedcount = 2) (by decide) ?_
  rintro w ⟨hstarted, hcount⟩ hstreams
  have hfeedcount := hstreams.feedcount
  simp [hstarted, hcount] at hfeedcount

end TbsMedia.DvbUsb
