import UsbRecorder.Bus.Sample
import UsbRecorder.Bus.Thresholds
import UsbRecorder.Monitor.Phase
/-!
# Step — the monitor that tells what happens on the bus, tick by tick

A step reads one sample and reports at most one event: that of the move between phases if there is one, else that of
a line change in a phase that watches the line, else a change of the detected speed, which waits for such a tick.
Loss of power is looked at before all else, and reset before suspend.
-/
namespace UsbRecorder

/-- The classification of a bus. -/
structure Monitor where
  thresholds : Thresholds
  /-- the speed setting; `auto` detects the speed -/
  mode : Speed
  phase : BusPhase := .initial
  /-- ticks since the timer was restarted -/
  timer : Nat := 0
  lastLine : Line := .se0
  /-- ticks since the line or the phase changed, so that time spent before entering a phase never counts in it -/
  lineTime : Nat := 0
  /-- ticks for which power has been present -/
  vbusTime : Nat := 0
  /-- pairs of host chirps that were long enough, the pair under way not counted -/
  pairs : Nat := 0
  /-- the bus was at high speed before the suspend -/
  wasHigh : Bool := false
  /-- the speed last reported as detected -/
  detected : Speed := .auto
  /-- the speed at which the transceiver should receive -/
  phy : Speed := .full
  deriving DecidableEq, Repr, Inhabited

namespace Monitor

/-- The greatest time that a timer shows; it then stays there. -/
def timerMax : Nat := UInt32.size - 1

def later (t : Nat) : Nat := min (t + 1) timerMax

/-- What is seen of the line on one tick. -/
structure Sight where
  line : Line
  /-- the line on the tick before -/
  before : Line
  /-- ticks for which the line has been held in this phase, this one not counted -/
  held : Nat
  /-- how long the line before lasted, where this tick brought a change -/
  lasted : Nat
  deriving DecidableEq, Repr

namespace Sight

def changed (l : Sight) : Bool := l.line != l.before

/-- The line has been at a level for so many ticks. -/
def heldAt (l : Sight) (line : Line) (ticks : UInt32) : Bool := l.line == line && ticks.toNat ≤ l.held

/-- The line has just come back to a level from an SE0 of the length of a pulse. -/
def isPulseEnd (l : Sight) (idle : Line) (t : Thresholds) : Bool :=
  l.changed && l.line == idle && l.before == .se0 && t.inPulseRange l.lasted

end Sight

/-- What the monitor sees of the line of a sample. -/
def sight (m : Monitor) (line : Line) : Sight where
  line
  before := m.lastLine
  held := if line = m.lastLine then later m.lineTime else 0
  lasted := later m.lineTime

/-- The outcome of a tick: the phase to go to, what is reported, and what changes on the way. -/
structure Move where
  next : BusPhase
  event : Option BusEvent
  /-- the timer is started anew -/
  restart : Bool
  pairs : Nat
  wasHigh : Bool
  phy : Speed
  deriving DecidableEq, Repr

def go (m : Monitor) (next : BusPhase) (event : Option BusEvent := none) : Move :=
  ⟨next, event, false, m.pairs, m.wasHigh, m.phy⟩

def stay (m : Monitor) : Move := m.go m.phase

def isAuto (m : Monitor) : Bool := m.mode == .auto

/-- The phase to start in once it is known whether there is power. -/
def startPhase (m : Monitor) (vbus : Bool) : BusPhase :=
  if !vbus then .unpowered else if m.mode = .high then .highListening else .detached

def attachLow (m : Monitor) : Move := { m.go .lowActive (some .lowAttach) with phy := .low }

/-- A full-speed reset with the speed to be detected begins the high-speed handshake. -/
def beginHandshake (m : Monitor) : Move :=
  { m.go .deviceChirpDue (some .reset) with phy := .full, pairs := 0, restart := true }

/-- A reset: at a fixed speed to the given phase, else into the handshake. -/
def resetTo (m : Monitor) (next : BusPhase) : Move :=
  if m.isAuto then m.beginHandshake else m.go next (some .reset)

/-! ## Moves by phase -/

def moveUnpowered (m : Monitor) : Move :=
  if m.thresholds.vbusDebounce.toNat ≤ m.vbusTime then m.go (m.startPhase true) (some .vbusValid) else m.stay

def moveDetached (m : Monitor) (l : Sight) : Move :=
  if (m.isAuto || m.mode == .full) && l.heldAt .dPlus m.thresholds.reset then m.go .fullActive (some .fullAttach)
  else if (m.isAuto || m.mode == .low) && l.heldAt .dMinus m.thresholds.reset then m.attachLow
  else m.stay

def moveLowActive (m : Monitor) (l : Sight) : Move :=
  if l.heldAt .se0 m.thresholds.reset then m.go .lowReset (some .reset)
  else if l.heldAt .dMinus m.thresholds.suspend then m.go .lowSuspended (some .suspend)
  else if l.isPulseEnd .dMinus m.thresholds then m.go .lowActive (some .keepalive)
  else m.stay

/-- After a low-speed reset; with the speed to be detected, full-speed idle is a new device. -/
def moveLowReset (m : Monitor) (l : Sight) : Move :=
  if m.isAuto && l.heldAt .dPlus m.thresholds.reset then { m.go .fullActive (some .fullAttach) with phy := .full }
  else if l.line = .dMinus then m.go .lowActive
  else m.stay

/-- A suspended bus resumes at K: at once where the speed is detected, else when K has lasted. -/
def moveSuspended (m : Monitor) (l : Sight) (k : Line) (reset awake resuming : BusPhase) : Move :=
  if l.heldAt .se0 m.thresholds.reset then m.resetTo reset
  else if m.isAuto && l.line == k then m.go awake (some .resume)
  else if !m.isAuto && l.heldAt k m.thresholds.resume then m.go resuming (some .resume)
  else m.stay

/-- A resume ends with a pulse of SE0. -/
def moveResuming (m : Monitor) (l : Sight) (j : Line) (reset awake : BusPhase) : Move :=
  if l.heldAt .se0 m.thresholds.reset then m.go reset (some .reset)
  else if l.isPulseEnd j m.thresholds then m.go awake
  else m.stay

/-- At full speed a change to SE0 is reported where nothing else is, and at the fixed speed the return from it. -/
def moveFullActive (m : Monitor) (l : Sight) : Move :=
  if l.heldAt .se0 m.thresholds.reset then m.resetTo .fullReset
  else if l.heldAt .dPlus m.thresholds.suspend then { m.go .fullSuspended (some .suspend) with wasHigh := false }
  else if l.changed && l.line == .se0 then m.go .fullActive (some .lineSe0)
  else if l.changed && !m.isAuto && l.line == .dPlus && l.before == .se0 then m.go .fullActive (some .fullJ)
  else m.stay

def moveFullReset (m : Monitor) (l : Sight) : Move := if l.line = .dPlus then m.go .fullActive else m.stay

/-- High-speed squelch reads as SE0; when it has lasted, full-speed levels are read to find out what it is. -/
def moveHighActive (m : Monitor) (l : Sight) : Move :=
  if l.heldAt .se0 m.thresholds.suspend then { m.go .squelched with phy := .full, restart := true } else m.stay

def moveDeviceChirpDue (m : Monitor) (l : Sight) : Move :=
  if m.thresholds.deviceChirp.toNat ≤ m.timer then m.go .highDenied
  else if l.heldAt .dMinus m.thresholds.reset then m.go .deviceChirping (some .deviceChirp)
  else m.stay

def moveDeviceChirping (m : Monitor) (l : Sight) : Move :=
  if m.thresholds.deviceChirp.toNat ≤ m.timer then m.go .highDenied
  else if l.line ≠ .dMinus then { m.go .hostKDue with restart := true }
  else m.stay

/-- The host's next chirp is awaited. -/
def moveHostDue (m : Monitor) (l : Sight) (level : Line) (chirping : BusPhase) : Move :=
  if l.line = level then m.go chirping
  else if m.thresholds.hostChirp.toNat ≤ m.timer then m.go .highDenied
  else m.stay

def moveHostK (m : Monitor) (l : Sight) : Move :=
  if m.thresholds.hostChirp.toNat ≤ m.timer then m.go .highDenied
  else if l.line ≠ .dMinus then m.go .hostKDue
  else if m.thresholds.reset.toNat ≤ l.held then m.go .hostJDue
  else m.stay

/-- The third pair of chirps completes the handshake. -/
def moveHostJ (m : Monitor) (l : Sight) : Move :=
  if m.thresholds.hostChirp.toNat ≤ m.timer then m.go .highDenied
  else if l.line ≠ .dPlus then m.go .hostJDue
  else if m.thresholds.reset.toNat ≤ l.held then
    if m.pairs = 2 then m.go .highFound (some .hostChirp) else { m.go .hostKDue with pairs := m.pairs + 1 }
  else m.stay

def moveHighDenied (m : Monitor) (l : Sight) : Move :=
  if l.line = .dPlus then m.go .fullActive
  else if l.heldAt .dMinus m.thresholds.reset then m.attachLow
  else m.stay

/-- After squelch, full-speed idle is a suspend and anything else a reset. -/
def moveSquelched (m : Monitor) (l : Sight) : Move :=
  if m.timer < m.thresholds.settle.toNat then m.stay
  else if l.line = .dPlus then { m.go .fullSuspended (some .suspend) with wasHigh := true }
  else m.beginHandshake

/-- The move of a tick. -/
def move (m : Monitor) (s : Sample) (l : Sight) : Move :=
  if !s.vbus && m.phase.watchesPower then { m.go .unpowered (some .vbusInvalid) with phy := .full }
  else match m.phase with
    | .initial => { m.go (m.startPhase s.vbus) with phy := .full }
    | .unpowered => m.moveUnpowered
    | .detached => m.moveDetached l
    | .lowActive => m.moveLowActive l
    | .lowReset => m.moveLowReset l
    | .lowSuspended => m.moveSuspended l .dPlus .lowReset .lowActive .lowResuming
    | .lowResuming => m.moveResuming l .dMinus .lowReset .lowActive
    | .fullActive => m.moveFullActive l
    | .fullReset => m.moveFullReset l
    | .fullSuspended =>
      m.moveSuspended l .dMinus .fullReset (if m.wasHigh then .highFound else .fullActive) .fullResuming
    | .fullResuming => m.moveResuming l .dPlus .fullReset .fullActive
    | .highActive => m.moveHighActive l
    | .highListening => m.stay
    | .deviceChirpDue => m.moveDeviceChirpDue l
    | .deviceChirping => m.moveDeviceChirping l
    | .hostKDue => m.moveHostDue l .dMinus .hostK
    | .hostK => m.moveHostK l
    | .hostJDue => m.moveHostDue l .dPlus .hostJ
    | .hostJ => m.moveHostJ l
    | .highFound => { m.go .highActive with phy := .high }
    | .highDenied => m.moveHighDenied l
    | .squelched => m.moveSquelched l

/-! ## What is reported -/

/-- The signalling under which line changes are reported in this phase, if they are. -/
def watched (m : Monitor) (line : Line) : Option Signalling :=
  let byLevel : Signalling := if line = .dMinus then .low else .full
  match m.phase with
  | .detached => some (match m.mode with
    | .low => .low
    | .full => .full
    | _ => byLevel)
  | .highDenied => some byLevel
  | .lowReset => some (if m.isAuto && line == .dPlus then .full else .low)
  | .lowSuspended | .lowResuming => some .low
  | .fullReset | .fullSuspended | .fullResuming => some .full
  | .deviceChirpDue | .deviceChirping | .hostKDue | .hostK | .hostJDue | .hostJ => some .chirp
  | _ => none

/-- The event of a line change, if there is one and it is reported. -/
def lineEvent (m : Monitor) (l : Sight) : Option BusEvent :=
  if l.changed then (m.watched l.line).map (·.report l.line) else none

/-- The speed that a phase stands for, where speeds are detected. -/
def speedOf (m : Monitor) (phase : BusPhase) : Option Speed :=
  if !m.isAuto then none else
    match phase with
    | .unpowered | .detached => some .auto
    | .lowActive => some .low
    | .fullActive => some .full
    | .highFound | .highActive => some .high
    | _ => none

/-- The change of speed to be reported on a tick with nothing else to report, if there is one. -/
def newSpeed (m : Monitor) (next : BusPhase) (event : Option BusEvent) : Option Speed :=
  match event, m.speedOf next with
  | none, some speed => if speed = m.detected then none else some speed
  | _, _ => none

/-- One tick: the event reported on it, if any, and the monitor after it. -/
def step (m : Monitor) (s : Sample) : Option BusEvent × Monitor :=
  let l := m.sight s.line
  let mv := m.move s l
  let event := mv.event <|> m.lineEvent l
  let speed := m.newSpeed mv.next event
  (event <|> speed.map .detected,
    { m with
      phase := mv.next
      timer := if mv.restart then 0 else later m.timer
      lastLine := s.line
      lineTime := if mv.next = m.phase then l.held else 0
      vbusTime := if s.vbus then later m.vbusTime else 0
      pairs := mv.pairs
      wasHigh := mv.wasHigh
      detected := speed.getD m.detected
      phy := mv.phy })

/-- The same thresholds under another setting, from the beginning. -/
def withMode (m : Monitor) (mode : Speed) : Monitor := { thresholds := m.thresholds, mode }

/-! ## Runs -/

def after (m : Monitor) (samples : List Sample) : Monitor := samples.foldl (fun m s => (m.step s).2) m

def reports : Monitor → List Sample → List (Option BusEvent)
  | _, [] => []
  | m, s :: rest => (m.step s).1 :: (m.step s).2.reports rest

@[simp] theorem length_reports (m : Monitor) (samples : List Sample) : (m.reports samples).length = samples.length := by
  induction samples generalizing m with
  | nil => rfl
  | cons s rest ih => simp [reports, ih]

theorem after_append (m : Monitor) (a b : List Sample) : m.after (a ++ b) = (m.after a).after b := by
  simp [after]

theorem reports_append (m : Monitor) (a b : List Sample) : m.reports (a ++ b) = m.reports a ++ (m.after a).reports b := by
  induction a generalizing m with
  | nil => rfl
  | cons s a ih => simp [reports, after, ih]

@[simp] theorem mode_after (m : Monitor) (samples : List Sample) : (m.after samples).mode = m.mode := by
  induction samples generalizing m with
  | nil => rfl
  | cons s rest ih => exact ih (m.step s).2

@[simp] theorem thresholds_after (m : Monitor) (samples : List Sample) :
    (m.after samples).thresholds = m.thresholds := by
  induction samples generalizing m with
  | nil => rfl
  | cons s rest ih => exact ih (m.step s).2

theorem after_take_succ (m : Monitor) {samples : List Sample} {n : Nat} {s : Sample} (h : samples[n]? = some s) :
    m.after (samples.take (n + 1)) = ((m.after (samples.take n)).step s).2 := by
  rw [List.take_add_one, h, after_append]
  rfl

theorem getElem?_reports (m : Monitor) {samples : List Sample} {n : Nat} {s : Sample} (h : samples[n]? = some s) :
    (m.reports samples)[n]? = some ((m.after (samples.take n)).step s).1 := by
  induction samples generalizing m n with
  | nil => cases h
  | cons first rest ih =>
    cases n with
    | zero =>
      cases h
      rfl
    | succ n => exact ih (m.step first).2 h

end Monitor
end UsbRecorder
