import UsbRecorder.Proofs.Monitor.Warrant
/-!
# Steady — on a bus that stays as it is, nothing is reported twice

`BusPhase.ahead` lists what may still be reported from a phase on while the line and the power stay.  Whatever is
reported leaves this list, and as long as the bus stays as it is nothing comes into it (`way_move`), so that what has
been reported once is `Spent`.
-/
namespace UsbRecorder

namespace BusEvent

/-- The event tells the level of the line. -/
def isLine : BusEvent → Bool
  | lineSe0 | chirpJ | chirpK | chirpSe1 | lowJ | lowK | fullJ | fullK | lineSe1 => true
  | _ => false

end BusEvent

theorem Signalling.isLine_report (g : Signalling) (line : Line) : (g.report line).isLine = true := by
  cases g <;> cases line <;> rfl

namespace BusPhase

/-- The speed that a phase stands for, where speeds are detected. -/
def speed : BusPhase → Option Speed
  | unpowered | detached => some .auto
  | lowActive => some .low
  | fullActive => some .full
  | highFound | highActive => some .high
  | _ => none

/-- What lies ahead of a phase while there is no power, at any speed setting. -/
def aheadLost : BusPhase → List BusEvent
  | initial => [.detected .auto]
  | unpowered => []
  | detached => [.vbusInvalid]
  | _ => [.vbusInvalid, .detected .auto]

/-- What lies ahead of a phase while there is power and the line stays, at any speed setting.  No phase comes back on such
a bus, so that this is a matter of the phase alone and not of its timers. -/
def aheadAt : Line → BusPhase → List BusEvent
  | .dPlus => fun
    | initial => [.detected .auto, .fullAttach, .detected .full, .suspend]
    | unpowered => [.vbusValid, .fullAttach, .detected .full, .suspend]
    | detached | lowReset => [.fullAttach, .detected .full, .suspend]
    | hostJDue | hostJ => [.hostChirp, .detected .high, .detected .full, .suspend]
    | fullReset | deviceChirpDue | deviceChirping | hostKDue | hostK | highDenied => [.detected .full, .suspend]
    | fullActive | squelched => [.suspend]
    | lowSuspended => [.resume, .detected .low]
    | _ => []
  | .dMinus => fun
    | initial => [.detected .auto, .lowAttach, .detected .low, .suspend]
    | unpowered => [.vbusValid, .lowAttach, .detected .low, .suspend]
    | squelched => [.reset, .deviceChirp, .lowAttach, .detected .low, .suspend]
    | deviceChirpDue => [.deviceChirp, .lowAttach, .detected .low, .suspend]
    | detached | deviceChirping | hostKDue | hostK | hostJDue | hostJ | highDenied =>
      [.lowAttach, .detected .low, .suspend]
    | lowReset => [.detected .low, .suspend]
    | lowActive => [.suspend]
    | fullSuspended => [.resume, .detected .full, .detected .high]
    | _ => []
  | .se0 => fun
    | initial => [.detected .auto]
    | unpowered => [.vbusValid]
    | lowActive | lowSuspended | lowResuming | fullActive | fullSuspended | fullResuming | highFound | highActive
    | squelched => [.reset]
    | _ => []
  | .se1 => fun
    | initial => [.detected .auto]
    | unpowered => [.vbusValid]
    | squelched => [.reset]
    | _ => []

/-- **What may still be reported from a phase on**, while the power and the line stay.  A speed is ahead of the phases
that come before those that stand for it. -/
def ahead : Bool → Line → BusPhase → List BusEvent
  | false, _ => aheadLost
  | true, line => aheadAt line

theorem isLine_of_mem_ahead {vbus : Bool} {line : Line} {phase : BusPhase} {e : BusEvent}
    (h : e ∈ ahead vbus line phase) : e.isLine = false := by
  have hall : ∀ e ∈ ahead vbus line phase, e.isLine = false := by
    cases vbus with
    | false =>
      show ∀ e ∈ aheadLost phase, e.isLine = false
      cases phase <;> decide
    | true => cases line <;> cases phase <;> decide
  exact hall e h

/-- A speed is not ahead of the phases that stand for it. -/
theorem detected_not_mem_ahead {vbus : Bool} {line : Line} {phase : BusPhase} {speed : Speed}
    (h : phase.speed = some speed) : .detected speed ∉ ahead vbus line phase := by
  have hall : ∀ speed ∈ phase.speed, .detected speed ∉ ahead vbus line phase := by
    cases vbus with
    | false =>
      show ∀ speed ∈ phase.speed, .detected speed ∉ aheadLost phase
      cases phase <;> decide
    | true => cases line <;> cases phase <;> decide
  exact hall speed h

/-- **A way from a phase to the next with a report**: what is reported is not ahead any more.  Where the bus stays as it
is, it was ahead until then, nothing else comes to be ahead, and a speed is taken up only if it was ahead. -/
structure Way (stays : Bool) (ahead : BusPhase → List BusEvent) (phase next : BusPhase) (event : Option BusEvent) :
    Prop where
  spent : ∀ e ∈ event, e ∉ ahead next
  noSpeed : ∀ speed ∈ next.speed, event ≠ some (.detected speed)
  due : stays → ∀ e ∈ event, e ∈ ahead phase
  subset : stays → ∀ e ∈ ahead next, e ∈ ahead phase
  speed : stays → ∀ speed ∈ next.speed, phase.speed = some speed ∨ .detected speed ∈ ahead phase

instance (stays : Bool) (ahead : BusPhase → List BusEvent) (phase next : BusPhase) (event : Option BusEvent) :
    Decidable (Way stays ahead phase next event) :=
  decidable_of_iff ((∀ e ∈ event, e ∉ ahead next) ∧ (∀ speed ∈ next.speed, event ≠ some (.detected speed)) ∧
      (stays → ∀ e ∈ event, e ∈ ahead phase) ∧ (stays → ∀ e ∈ ahead next, e ∈ ahead phase) ∧
      (stays → ∀ speed ∈ next.speed, phase.speed = some speed ∨ .detected speed ∈ ahead phase))
    ⟨fun ⟨h₁, h₂, h₃, h₄, h₅⟩ => ⟨h₁, h₂, h₃, h₄, h₅⟩, fun h => ⟨h.1, h.2, h.3, h.4, h.5⟩⟩

theorem Way.of_steady {stays : Bool} {ahead : BusPhase → List BusEvent} {phase next : BusPhase}
    {event : Option BusEvent} (h : Way true ahead phase next event) : Way stays ahead phase next event :=
  ⟨h.spent, h.noSpeed, fun _ => h.due rfl, fun _ => h.subset rfl, fun _ => h.speed rfl⟩

theorem way_stay (stays : Bool) (ahead : BusPhase → List BusEvent) (phase : BusPhase) :
    Way stays ahead phase phase none where
  spent := nofun
  noSpeed := nofun
  due _ := nofun
  subset _ _ := id
  speed _ _ := .inl

/-- A handshake may be given up whatever the line. -/
theorem way_denied (stays : Bool) (line : Line) {phase : BusPhase} (h : phase.isHandshake = true) :
    Way stays (ahead true line) phase .highDenied none := by
  refine .of_steady ?_
  cases phase with
  | deviceChirpDue | deviceChirping | hostKDue | hostK | hostJDue | hostJ => cases line <;> decide
  | _ => cases h

theorem way_lost (stays : Bool) (line : Line) {phase : BusPhase} (h : phase.watchesPower = true) :
    Way stays (ahead false line) phase .unpowered (some .vbusInvalid) := by
  refine .of_steady ?_
  show Way true aheadLost phase .unpowered _
  cases phase with
  | initial | unpowered | highFound => cases h
  | _ => decide

end BusPhase

namespace Monitor

open BusPhase

variable {m : Monitor} {s : Sample} {l : Sight} {stays : Bool}

/-! ## The ways of each phase -/

theorem way_at {phase : BusPhase} {line : Line} (next : BusPhase) (event : Option BusEvent) (hline : l.line = line)
    (h : Way stays (ahead true line) phase next event) : Way stays (ahead true l.line) phase next event := by
  rwa [hline]

theorem stays_of_changed (hstays : stays = true → l.changed = false) (hne : l.line ≠ l.before) : stays = false := by
  refine Bool.eq_false_iff.2 fun h => ?_
  have hsame := hstays h
  unfold Sight.changed at hsame
  exact hne (by simpa using hsame)

theorem way_of_stay {phase : BusPhase} (hp : m.phase = phase) (ahead : BusPhase → List BusEvent) :
    Way stays ahead phase m.stay.next m.stay.event := hp ▸ way_stay stays ahead m.phase

theorem startPhase_powered (m : Monitor) : m.startPhase true = .highListening ∨ m.startPhase true = .detached := by
  unfold startPhase
  rw [if_neg (by decide)]
  split
  · exact .inl rfl
  · exact .inr rfl

theorem way_start (m : Monitor) (vbus : Bool) (line : Line) :
    Way stays (ahead vbus line) .initial (m.startPhase vbus) none := by
  refine .of_steady ?_
  cases vbus with
  | false =>
    show Way true aheadLost .initial .unpowered none
    decide
  | true => obtain hstart | hstart := m.startPhase_powered <;> rw [hstart] <;> cases line <;> decide

theorem way_unpowered (hp : m.phase = .unpowered) (vbus : Bool) (line : Line)
    (hlost : stays = true → vbus = false → m.vbusTime < m.thresholds.vbusDebounce.toNat) :
    Way stays (ahead vbus line) .unpowered m.moveUnpowered.next m.moveUnpowered.event := by
  unfold moveUnpowered
  split
  · rename_i henough
    show Way stays (ahead vbus line) .unpowered (m.startPhase true) (some .vbusValid)
    cases vbus with
    | false =>
      have hstays : stays = false := Bool.eq_false_iff.2 fun h => absurd (hlost h rfl) (Nat.not_lt.2 henough)
      rw [hstays]
      show Way false aheadLost .unpowered _ _
      obtain hstart | hstart := m.startPhase_powered <;> rw [hstart] <;> decide
    | true =>
      refine .of_steady ?_
      obtain hstart | hstart := m.startPhase_powered <;> rw [hstart] <;> cases line <;> decide
  · exact way_of_stay hp _

theorem way_detached (hp : m.phase = .detached) :
    Way stays (ahead true l.line) .detached (m.moveDetached l).next (m.moveDetached l).event := by
  unfold moveDetached
  split_ifs with hfull hlow
  · have hheld := (Bool.and_eq_true_iff.1 hfull).2
    exact way_at .fullActive (some .fullAttach) (Sight.heldAt_iff.1 hheld).1 (.of_steady (by decide))
  · have hheld := (Bool.and_eq_true_iff.1 hlow).2
    exact way_at .lowActive (some .lowAttach) (Sight.heldAt_iff.1 hheld).1 (.of_steady (by decide))
  · exact way_of_stay hp _

theorem way_lowActive (hp : m.phase = .lowActive) (hstays : stays = true → l.changed = false) :
    Way stays (ahead true l.line) .lowActive (m.moveLowActive l).next (m.moveLowActive l).event := by
  unfold moveLowActive
  split_ifs with hreset hsuspend hpulse
  · exact way_at .lowReset (some .reset) (Sight.heldAt_iff.1 hreset).1 (.of_steady (by decide))
  · exact way_at .lowSuspended (some .suspend) (Sight.heldAt_iff.1 hsuspend).1 (.of_steady (by decide))
  · obtain ⟨hne, hline, -⟩ := Sight.isPulseEnd_iff.1 hpulse
    rw [stays_of_changed hstays hne]
    exact way_at .lowActive (some .keepalive) hline (by decide)
  · exact way_of_stay hp _

theorem way_lowReset (hp : m.phase = .lowReset) :
    Way stays (ahead true l.line) .lowReset (m.moveLowReset l).next (m.moveLowReset l).event := by
  unfold moveLowReset
  split_ifs with hfull hline
  · have hheld := (Bool.and_eq_true_iff.1 hfull).2
    exact way_at .fullActive (some .fullAttach) (Sight.heldAt_iff.1 hheld).1 (.of_steady (by decide))
  · exact way_at .lowActive none hline (.of_steady (by decide))
  · exact way_of_stay hp _

theorem way_resetTo {phase reset : BusPhase} (hline : l.line = .se0)
    (hdetecting : Way true (ahead true .se0) phase .deviceChirpDue (some .reset))
    (hreset : Way true (ahead true .se0) phase reset (some .reset)) :
    Way stays (ahead true l.line) phase (m.resetTo reset).next (m.resetTo reset).event := by
  unfold resetTo
  split
  · exact way_at .deviceChirpDue (some .reset) hline (.of_steady hdetecting)
  · exact way_at reset (some .reset) hline (.of_steady hreset)

theorem way_suspended {phase reset awake resuming : BusPhase} {k : Line} (hp : m.phase = phase)
    (hdetecting : Way true (ahead true .se0) phase .deviceChirpDue (some .reset))
    (hreset : Way true (ahead true .se0) phase reset (some .reset))
    (hawake : Way true (ahead true k) phase awake (some .resume))
    (hresuming : Way true (ahead true k) phase resuming (some .resume)) :
    Way stays (ahead true l.line) phase (m.moveSuspended l k reset awake resuming).next
      (m.moveSuspended l k reset awake resuming).event := by
  unfold moveSuspended
  split_ifs with hheld hk hlong
  · exact way_resetTo (Sight.heldAt_iff.1 hheld).1 hdetecting hreset
  · have hline := beq_iff_eq.1 (Bool.and_eq_true_iff.1 hk).2
    exact way_at awake (some .resume) hline (.of_steady hawake)
  · have hline := (Sight.heldAt_iff.1 (Bool.and_eq_true_iff.1 hlong).2).1
    exact way_at resuming (some .resume) hline (.of_steady hresuming)
  · exact way_of_stay hp _

theorem way_resuming {phase reset awake : BusPhase} {j : Line} (hp : m.phase = phase)
    (hstays : stays = true → l.changed = false)
    (hreset : Way true (ahead true .se0) phase reset (some .reset))
    (hawake : Way false (ahead true j) phase awake none) :
    Way stays (ahead true l.line) phase (m.moveResuming l j reset awake).next
      (m.moveResuming l j reset awake).event := by
  unfold moveResuming
  split_ifs with hheld hpulse
  · exact way_at reset (some .reset) (Sight.heldAt_iff.1 hheld).1 (.of_steady hreset)
  · obtain ⟨hne, hline, -⟩ := Sight.isPulseEnd_iff.1 hpulse
    rw [stays_of_changed hstays hne]
    exact way_at awake none hline hawake
  · exact way_of_stay hp _

theorem way_fullActive (hp : m.phase = .fullActive) (hstays : stays = true → l.changed = false) :
    Way stays (ahead true l.line) .fullActive (m.moveFullActive l).next (m.moveFullActive l).event := by
  unfold moveFullActive
  split_ifs with hreset hsuspend hse0 hj
  · exact way_resetTo (Sight.heldAt_iff.1 hreset).1 (by decide) (by decide)
  · exact way_at .fullSuspended (some .suspend) (Sight.heldAt_iff.1 hsuspend).1 (.of_steady (by decide))
  · simp only [Bool.and_eq_true, beq_iff_eq] at hse0
    rw [stays_of_changed hstays (by simpa [Sight.changed] using hse0.1)]
    exact way_at .fullActive (some .lineSe0) hse0.2 (by decide)
  · simp only [Bool.and_eq_true, beq_iff_eq] at hj
    rw [stays_of_changed hstays (by simpa [Sight.changed] using hj.1.1.1)]
    exact way_at .fullActive (some .fullJ) hj.1.2 (by decide)
  · exact way_of_stay hp _

theorem way_fullReset (hp : m.phase = .fullReset) :
    Way stays (ahead true l.line) .fullReset (m.moveFullReset l).next (m.moveFullReset l).event := by
  unfold moveFullReset
  split_ifs with hline
  · exact way_at .fullActive none hline (.of_steady (by decide))
  · exact way_of_stay hp _

theorem way_highActive (hp : m.phase = .highActive) :
    Way stays (ahead true l.line) .highActive (m.moveHighActive l).next (m.moveHighActive l).event := by
  unfold moveHighActive
  split_ifs with hheld
  · exact way_at .squelched none (Sight.heldAt_iff.1 hheld).1 (.of_steady (by decide))
  · exact way_of_stay hp _

theorem way_deviceChirpDue (hp : m.phase = .deviceChirpDue) :
    Way stays (ahead true l.line) .deviceChirpDue (m.moveDeviceChirpDue l).next (m.moveDeviceChirpDue l).event := by
  unfold moveDeviceChirpDue
  split_ifs with htime hheld
  · exact way_denied stays l.line rfl
  · exact way_at .deviceChirping (some .deviceChirp) (Sight.heldAt_iff.1 hheld).1 (.of_steady (by decide))
  · exact way_of_stay hp _

theorem way_deviceChirping (hp : m.phase = .deviceChirping) :
    Way stays (ahead true l.line) .deviceChirping (m.moveDeviceChirping l).next (m.moveDeviceChirping l).event := by
  unfold moveDeviceChirping
  split_ifs with htime hline
  · exact way_denied stays l.line rfl
  · show Way stays (ahead true l.line) .deviceChirping .hostKDue none
    cases l.line <;> exact .of_steady (by decide)
  · exact way_of_stay hp _

theorem way_hostDue {phase chirping : BusPhase} {level : Line} (hp : m.phase = phase)
    (h : phase.isHandshake = true) (hlevel : Way true (ahead true level) phase chirping none) :
    Way stays (ahead true l.line) phase (m.moveHostDue l level chirping).next
      (m.moveHostDue l level chirping).event := by
  unfold moveHostDue
  split_ifs with hline
  · exact way_at chirping none hline (.of_steady hlevel)
  · exact way_denied stays l.line h
  · exact way_of_stay hp _

theorem way_hostK (hp : m.phase = .hostK) :
    Way stays (ahead true l.line) .hostK (m.moveHostK l).next (m.moveHostK l).event := by
  unfold moveHostK
  split_ifs with htime hline hheld
  · exact way_denied stays l.line rfl
  · show Way stays (ahead true l.line) .hostK .hostKDue none
    cases l.line <;> exact .of_steady (by decide)
  · exact way_at .hostJDue none (not_not.1 hline) (.of_steady (by decide))
  · exact way_of_stay hp _

theorem way_hostJ (hp : m.phase = .hostJ) :
    Way stays (ahead true l.line) .hostJ (m.moveHostJ l).next (m.moveHostJ l).event := by
  unfold moveHostJ
  split_ifs with htime hline hheld hpairs
  · exact way_denied stays l.line rfl
  · show Way stays (ahead true l.line) .hostJ .hostJDue none
    cases l.line <;> exact .of_steady (by decide)
  · exact way_at .highFound (some .hostChirp) (not_not.1 hline) (.of_steady (by decide))
  · exact way_at .hostKDue none (not_not.1 hline) (.of_steady (by decide))
  · exact way_of_stay hp _

theorem way_highDenied (hp : m.phase = .highDenied) :
    Way stays (ahead true l.line) .highDenied (m.moveHighDenied l).next (m.moveHighDenied l).event := by
  unfold moveHighDenied
  split_ifs with hline hheld
  · exact way_at .fullActive none hline (.of_steady (by decide))
  · exact way_at .lowActive (some .lowAttach) (Sight.heldAt_iff.1 hheld).1 (.of_steady (by decide))
  · exact way_of_stay hp _

theorem way_squelched (hp : m.phase = .squelched) :
    Way stays (ahead true l.line) .squelched (m.moveSquelched l).next (m.moveSquelched l).event := by
  unfold moveSquelched
  split_ifs with htime hline
  · exact way_of_stay hp _
  · exact way_at .fullSuspended (some .suspend) hline (.of_steady (by decide))
  · show Way stays (ahead true l.line) .squelched .deviceChirpDue (some .reset)
    refine .of_steady ?_
    cases hlevel : l.line <;> first | decide | exact absurd hlevel hline

theorem way_highFound (vbus : Bool) (line : Line) :
    Way stays (ahead vbus line) .highFound .highActive none := by
  refine .of_steady ?_
  cases vbus with
  | false =>
    show Way true aheadLost .highFound .highActive none
    decide
  | true => cases line <;> decide

/-- **Every tick goes one of the ways.**  The bus stays as it is if the line does, and if without power the debounce
is not complete. -/
theorem way_move (stays : Bool) (m : Monitor) (s : Sample) (l : Sight) (hchanged : stays = true → l.changed = false)
    (hlost : stays = true → s.vbus = false → m.vbusTime < m.thresholds.vbusDebounce.toNat) :
    Way stays (ahead s.vbus l.line) m.phase (m.move s l).next (m.move s l).event := by
  unfold move
  split
  · rename_i hlost
    simp only [Bool.and_eq_true, Bool.not_eq_true'] at hlost
    rw [hlost.1]
    exact way_lost stays l.line hlost.2
  · rename_i hpower
    by_cases hwatches : m.phase.watchesPower = true
    · have hvbus : s.vbus = true := by simpa [hwatches] using hpower
      rw [hvbus]
      cases hp : m.phase with
      | detached => exact way_detached hp
      | lowActive => exact way_lowActive hp hchanged
      | lowReset => exact way_lowReset hp
      | lowSuspended => exact way_suspended hp (by decide) (by decide) (by decide) (by decide)
      | lowResuming => exact way_resuming hp hchanged (by decide) (by decide)
      | fullActive => exact way_fullActive hp hchanged
      | fullReset => exact way_fullReset hp
      | fullSuspended =>
        refine way_suspended hp (by decide) (by decide) ?_ (by decide)
        split <;> decide
      | fullResuming => exact way_resuming hp hchanged (by decide) (by decide)
      | highActive => exact way_highActive hp
      | highListening => exact way_of_stay hp _
      | deviceChirpDue => exact way_deviceChirpDue hp
      | deviceChirping => exact way_deviceChirping hp
      | hostKDue | hostJDue => exact way_hostDue hp rfl (by decide)
      | hostK => exact way_hostK hp
      | hostJ => exact way_hostJ hp
      | highDenied => exact way_highDenied hp
      | squelched => exact way_squelched hp
      | _ => exact absurd hwatches (by rw [hp]; decide)
    · cases hp : m.phase with
      | initial => exact m.way_start s.vbus l.line
      | unpowered => exact way_unpowered hp s.vbus l.line hlost
      | highFound => exact way_highFound s.vbus l.line
      | _ => exact absurd (by rw [hp]; rfl) hwatches

/-! ## What has been reported -/

/-- **An event will not be reported any more while the bus stays as it is**: it is not ahead, and a speed whose phase
this is has been detected. -/
structure Spent (m : Monitor) (ahead : BusPhase → List BusEvent) (e : BusEvent) : Prop where
  past : e ∉ ahead m.phase
  detected : ∀ speed, e = .detected speed → m.phase.speed = some speed → m.detected = speed

/-- The last sample had the line and the power. -/
structure Follows (m : Monitor) (line : Line) (vbus : Bool) : Prop where
  line : m.lastLine = line
  lost : vbus = false → m.vbusTime = 0

theorem follows_step (m : Monitor) (s : Sample) : (m.step s).2.Follows s.line s.vbus where
  line := rfl
  lost h := by
    show (if s.vbus then later m.vbusTime else 0) = 0
    rw [h]
    rfl

/-- A change of the detected speed is reported where nothing else is. -/
theorem newSpeed_eq_some {next : BusPhase} {event : Option BusEvent} {speed : Speed}
    (h : m.newSpeed next event = some speed) : event = none ∧ next.speed = some speed ∧ speed ≠ m.detected := by
  unfold newSpeed at h
  split at h
  · rename_i found hspeed
    split at h
    · cases h
    · rename_i hnew
      cases h
      refine ⟨rfl, ?_, hnew⟩
      unfold speedOf at hspeed
      split at hspeed
      · cases hspeed
      · exact hspeed
  · cases h

/-- The bus has stayed as it was when a tick reads what the last one has read, if the debounce takes time. -/
theorem Follows.way (h : m.Follows s.line s.vbus) (hdebounce : 0 < m.thresholds.vbusDebounce.toNat) :
    Way true (ahead s.vbus s.line) m.phase (m.move s (m.sight s.line)).next (m.move s (m.sight s.line)).event := by
  refine way_move true m s (m.sight s.line) (fun _ => ?_) (fun _ hlost => ?_)
  · simp [sight, Sight.changed, h.line]
  · rw [h.lost hlost]
    exact hdebounce

/-- **What is reported is spent**, whatever was before. -/
theorem spent_of_report {e : BusEvent} (h : (m.step s).1 = some e) :
    (m.step s).2.Spent (ahead s.vbus s.line) e := by
  obtain hevent | hline | ⟨speed, rfl, hspeed, hdetected⟩ := report_sources h
  · have hway := way_move false m s (m.sight s.line) nofun nofun
    refine ⟨hway.spent e hevent, fun speed he hnext => ?_⟩
    exact absurd (hevent.trans (congrArg some he)) (hway.noSpeed speed hnext)
  · obtain ⟨-, g, rfl⟩ := report_of_lineEvent hline
    refine ⟨fun hmem => ?_, fun speed he => ?_⟩
    · exact absurd (isLine_of_mem_ahead hmem) (by simp [g.isLine_report])
    · have hkind := g.isLine_report s.line
      rw [show g.report s.line = .detected speed from he] at hkind
      cases hkind
  · have hnext := (newSpeed_eq_some hspeed).2.1
    refine ⟨detected_not_mem_ahead hnext, fun other he _ => ?_⟩
    cases he
    exact hdetected

/-- **What is spent stays so** and is not reported, while the bus stays as it is. -/
theorem Spent.step {e : BusEvent} (h : m.Spent (ahead s.vbus s.line) e) (hfollows : m.Follows s.line s.vbus)
    (hdebounce : 0 < m.thresholds.vbusDebounce.toNat) :
    (m.step s).1 ≠ some e ∧ (m.step s).2.Spent (ahead s.vbus s.line) e := by
  have hway := hfollows.way hdebounce
  -- a speed that is spent has been detected if the tick goes to a phase that stands for it
  have hknown {speed : Speed} (he : e = .detected speed)
      (hnext : (m.move s (m.sight s.line)).next.speed = some speed) : m.detected = speed := by
    obtain hsame | hahead := hway.speed rfl speed hnext
    · exact h.detected speed he hsame
    · exact absurd (he ▸ hahead) h.past
  constructor
  · intro hreport
    obtain hevent | hline | ⟨speed, he, hspeed, -⟩ := report_sources hreport
    · exact h.past (hway.due rfl e hevent)
    · have hchanged := (report_of_lineEvent hline).1
      simp [sight, Sight.changed, hfollows.line] at hchanged
    · obtain ⟨-, hnext, hnew⟩ := newSpeed_eq_some hspeed
      exact hnew (hknown he hnext).symm
  · refine ⟨fun hmem => h.past (hway.subset rfl e hmem), fun speed he hnext => ?_⟩
    have hbefore := hknown he hnext
    show (m.newSpeed (m.move s (m.sight s.line)).next _).getD m.detected = speed
    cases hspeed : m.newSpeed _ _ with
    | none => exact hbefore
    | some found =>
      obtain ⟨-, hfound, hnew⟩ := newSpeed_eq_some hspeed
      cases hfound.symm.trans hnext
      exact absurd hbefore.symm hnew

/-! ## Over a stretch -/

variable {line : Line} {vbus : Bool} {stretch : List Sample}

/-- All samples have the line and the power. -/
def Steady (line : Line) (vbus : Bool) (stretch : List Sample) : Prop := ∀ s ∈ stretch, s.line = line ∧ s.vbus = vbus

theorem count_of_spent (hsteady : Steady line vbus stretch) (hdebounce : 0 < m.thresholds.vbusDebounce.toNat)
    (hfollows : m.Follows line vbus) {e : BusEvent} (h : m.Spent (ahead vbus line) e) :
    (m.reports stretch).count (some e) = 0 := by
  induction stretch generalizing m with
  | nil => rfl
  | cons s rest ih =>
    obtain ⟨rfl, rfl⟩ := hsteady s List.mem_cons_self
    obtain ⟨hnot, hspent⟩ := h.step hfollows hdebounce
    show ((m.step s).1 :: (m.step s).2.reports rest).count (some e) = 0
    rw [List.count_cons_of_ne hnot]
    exact ih (fun s' hs' => hsteady s' (List.mem_cons_of_mem s hs')) hdebounce (m.follows_step s) hspent

/-- **Nothing is reported twice while the bus stays as it is.** -/
theorem count_reports_le_one (hsteady : Steady line vbus stretch) (hdebounce : 0 < m.thresholds.vbusDebounce.toNat)
    (e : BusEvent) : (m.reports stretch).count (some e) ≤ 1 := by
  induction stretch generalizing m with
  | nil => exact Nat.zero_le 1
  | cons s rest ih =>
    obtain ⟨rfl, rfl⟩ := hsteady s List.mem_cons_self
    have hrest : Steady s.line s.vbus rest := fun s' hs' => hsteady s' (List.mem_cons_of_mem s hs')
    show ((m.step s).1 :: (m.step s).2.reports rest).count (some e) ≤ 1
    by_cases hreport : (m.step s).1 = some e
    · have hnever := count_of_spent (m := (m.step s).2) hrest hdebounce (m.follows_step s) (spent_of_report hreport)
      rw [hreport, List.count_cons_self]
      omega
    · rw [List.count_cons_of_ne hreport]
      exact ih hrest hdebounce

theorem vbusDebounce_pos {clock : UInt32} {t : Thresholds} (h : Thresholds.ofClock clock = .ok t) :
    0 < t.vbusDebounce.toNat := by
  unfold Thresholds.ofClock at h
  split at h
  · cases h
  · cases h
    show 0 < (Thresholds.scale clock _).toNat
    unfold Thresholds.scale
    dsimp only
    rw [UInt32.toNat_ofNat', UInt32.size]
    omega

/-- **On a bus that stays as it is nothing is reported twice**, at every clock and speed setting and after any run. -/
theorem count_steady_le_one {clock : UInt32} {t : Thresholds} (hclock : Thresholds.ofClock clock = .ok t) (mode : Speed)
    (before : List Sample) {line : Line} {vbus : Bool} {stretch : List Sample} (hsteady : Steady line vbus stretch)
    (e : BusEvent) : (((starting t mode).after before).reports stretch).count (some e) ≤ 1 :=
  count_reports_le_one hsteady (by rw [thresholds_after]; exact vbusDebounce_pos hclock) e

/-- At 6 kHz: from high speed, an SE0 of ninety ticks is a reset and a handshake that nobody answers. -/
theorem count_steady_squelch : ∃ t, Thresholds.ofClock 6000 = .ok t ∧
    Steady .se0 true (List.replicate 90 (.rest .se0 true)) ∧
    (∀ e, (((starting t .auto).after resumedAtHigh).reports
      (List.replicate 90 (.rest .se0 true))).count (some e) ≤ 1) ∧
    (((starting t .auto).after resumedAtHigh).reports
      (List.replicate 90 (.rest .se0 true))).reduceOption = [.reset] ∧
    ((starting t .auto).after (resumedAtHigh ++ List.replicate 90 (.rest .se0 true))).phase = .highDenied := by
  have hsteady : Steady .se0 true (List.replicate 90 (.rest .se0 true)) := by
    intro s hs
    rw [List.eq_of_mem_replicate hs]
    exact ⟨rfl, rfl⟩
  have hclock : Thresholds.ofClock 6000 = .ok (.scaled 6000) := rfl
  exact ⟨.scaled 6000, hclock, hsteady, count_steady_le_one hclock .auto resumedAtHigh hsteady,
    by decide +kernel⟩

end Monitor
end UsbRecorder
