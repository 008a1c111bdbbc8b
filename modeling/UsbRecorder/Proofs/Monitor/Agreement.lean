import UsbRecorder.Proofs.Monitor.Moves
import UsbRecorder.Proofs.Monitor.Warrant
/-!
# Agreement — the setting, the phase and the speeds of a monitor go together

A setting allows some phases only, and the phase tells at which speed the transceiver receives (`Agrees`).  This speed
is set on a few ways into a phase and kept on all others, so that every way has to be gone (`Moves.keeps`).  The speed
detected is the one last reported, and at a fixed setting none is.
-/
namespace UsbRecorder

/-- The phases of a bus at each setting. -/
def Speed.allows : Speed → BusPhase → Bool
  | .high, phase => phase ∈ [.initial, .unpowered, .highListening]
  | .full, phase => phase ∈ [.initial, .unpowered, .detached, .fullActive, .fullReset, .fullSuspended, .fullResuming]
  | .low, phase => phase ∈ [.initial, .unpowered, .detached, .lowActive, .lowReset, .lowSuspended, .lowResuming]
  | .auto, phase => phase ∉ [.fullReset, .fullResuming, .lowResuming, .highListening]

/-- The speed at which the transceiver receives in a phase. -/
def BusPhase.receives : BusPhase → Speed
  | lowActive | lowReset | lowSuspended | lowResuming => .low
  | highActive => .high
  | _ => .full

/-- A way from one phase to the next that any of the settings may take without a change of the speed. -/
def BusPhase.LeadsTo (settings : List Speed) (phase next : BusPhase) : Prop :=
  (∀ mode ∈ settings, mode.allows phase = true → mode.allows next = true) ∧ phase.receives = next.receives

instance (settings : List Speed) (phase next : BusPhase) : Decidable (phase.LeadsTo settings next) :=
  inferInstanceAs (Decidable (_ ∧ _))

/-- The speed that an event reports as detected. -/
def BusEvent.speed? : BusEvent → Option Speed
  | detected speed => some speed
  | _ => none

theorem Signalling.speed?_report (g : Signalling) (line : Line) : (g.report line).speed? = none := by
  cases g <;> cases line <;> rfl

/-- The speed last reported as detected. -/
def lastDetected (reports : List (Option BusEvent)) : Option Speed :=
  (reports.filterMap (·.bind BusEvent.speed?)).getLast?

theorem lastDetected_append (reports : List (Option BusEvent)) (report : Option BusEvent) :
    lastDetected (reports ++ [report]) = (report.bind BusEvent.speed?).or (lastDetected reports) := by
  unfold lastDetected
  rw [List.filterMap_append, List.getLast?_append]
  cases h : report.bind BusEvent.speed? <;> simp [h]

namespace Monitor

variable {m : Monitor} {s : Sample} {l : Sight} {mv : Move}

/-- **The setting, the phase and the speed of the transceiver go together.** -/
structure Agrees (m : Monitor) : Prop where
  allowed : m.mode.allows m.phase = true
  phy : m.phy = m.phase.receives
  pairs : m.pairs ≤ 2

/-- A move keeps them together, and does not itself report a speed as detected. -/
structure Keeps (m : Monitor) (mv : Move) : Prop where
  allowed : m.mode.allows mv.next = true
  phy : mv.phy = mv.next.receives
  pairs : mv.pairs ≤ 2
  event : mv.event.bind BusEvent.speed? = none

theorem allows_startPhase (m : Monitor) (vbus : Bool) : m.mode.allows (m.startPhase vbus) = true := by
  unfold startPhase
  cases m.mode <;> cases vbus <;> rfl

theorem receives_startPhase (m : Monitor) (vbus : Bool) : (m.startPhase vbus).receives = .full := by
  unfold startPhase
  split_ifs <;> rfl

theorem mem_fixed (h : m.mode ≠ .auto) : m.mode ∈ [Speed.high, .full, .low] := by
  cases hm : m.mode <;> simp_all

/-- A handshake may be given up at any setting that allows one. -/
theorem leadsTo_denied {phase : BusPhase} (h : phase.isHandshake = true) : phase.LeadsTo Speed.all .highDenied := by
  cases phase with
  | deviceChirpDue | deviceChirping | hostKDue | hostK | hostJDue | hostJ => decide
  | _ => cases h

section Ways

variable (h : m.Agrees) {phase : BusPhase} (hp : m.phase = phase) {settings : List Speed}
include h hp

theorem Agrees.allows (next : BusPhase)
    (hall : ∀ mode ∈ Speed.all, mode.allows phase = true → mode.allows next = true) : m.mode.allows next = true :=
  hall m.mode m.mode.mem_all (hp ▸ h.allowed)

/-- A way of some settings, on which the speed stays as it is. -/
theorem Agrees.way (hmode : m.mode ∈ settings) (next : BusPhase) (hway : phase.LeadsTo settings next)
    (hnext : mv.next = next) (hphy : mv.phy = m.phy) (hpairs : mv.pairs ≤ 2)
    (hevent : mv.event.bind BusEvent.speed? = none) : m.Keeps mv where
  allowed := by
    rw [hnext]
    exact hway.1 m.mode hmode (hp ▸ h.allowed)
  phy := by rw [hphy, h.phy, hp, hway.2, hnext]
  pairs := hpairs
  event := hevent

theorem Agrees.goAt (hmode : m.mode ∈ settings) {next : BusPhase} (hway : phase.LeadsTo settings next)
    {event : Option BusEvent} (hevent : event.bind BusEvent.speed? = none) : m.Keeps (m.go next event) :=
  h.way hp hmode next hway rfl rfl h.pairs hevent

/-- A way of all the settings that allow the phase. -/
theorem Agrees.go {next : BusPhase} (hway : phase.LeadsTo Speed.all next) {event : Option BusEvent}
    (hevent : event.bind BusEvent.speed? = none) : m.Keeps (m.go next event) := h.goAt hp m.mode.mem_all hway hevent

end Ways

theorem Moves.keeps (hmoves : m.Moves s l mv) (h : m.Agrees) : m.Keeps mv := by
  cases hmoves with
  | lost => exact ⟨by cases m.mode <;> rfl, rfl, h.pairs, rfl⟩
  | stays => exact ⟨h.allowed, h.phy, h.pairs, rfl⟩
  | starts => exact ⟨m.allows_startPhase s.vbus, (m.receives_startPhase s.vbus).symm, h.pairs, rfl⟩
  | powers hp =>
    refine ⟨m.allows_startPhase true, ?_, h.pairs, rfl⟩
    show m.phy = (m.startPhase true).receives
    rw [h.phy, hp, m.receives_startPhase]
    rfl
  -- the speed is set
  | attachesLow hp hmode => exact ⟨by obtain hm | hm := hmode <;> rw [hm] <;> rfl, rfl, h.pairs, rfl⟩
  | deniedLow hp => exact ⟨h.allows hp .lowActive (by decide), rfl, h.pairs, rfl⟩
  | replaces _ hmode => exact ⟨by rw [hmode]; rfl, rfl, h.pairs, rfl⟩
  | resets _ hmode => exact ⟨by rw [hmode]; rfl, rfl, Nat.zero_le 2, rfl⟩
  | resetsHigh hp => exact ⟨h.allows hp .deviceChirpDue (by decide), rfl, Nat.zero_le 2, rfl⟩
  | goesHigh hp => exact ⟨h.allows hp .highActive (by decide), rfl, h.pairs, rfl⟩
  | squelches hp => exact ⟨h.allows hp .squelched (by decide), rfl, h.pairs, rfl⟩
  -- the setting decides
  | attachesFull hp hmode =>
    have hmem : m.mode ∈ [Speed.auto, .full] := by simpa using hmode
    exact h.goAt hp hmem (by decide) rfl
  | resetsLow hphase =>
    obtain hp | hp | ⟨hp, hmode⟩ := hphase
    · exact h.go hp (by decide) rfl
    · exact h.go hp (by decide) rfl
    · exact h.goAt hp (mem_fixed hmode) (by decide) rfl
  | resetsFull hphase =>
    obtain ⟨hp | hp, hmode⟩ | hp := hphase
    · exact h.goAt hp (mem_fixed hmode) (by decide) rfl
    · exact h.goAt hp (mem_fixed hmode) (by decide) rfl
    · exact h.go hp (by decide) rfl
  | wakesLow hp hmode => exact h.goAt hp (List.mem_singleton.2 hmode) (by decide) rfl
  | wakesFull hp hmode => exact h.goAt hp (List.mem_singleton.2 hmode) (by split_ifs <;> decide) rfl
  | resumesLow hp hmode | resumesFull hp hmode => exact h.goAt hp (mem_fixed hmode) (by decide) rfl
  -- every setting goes there at the speed that there is
  | suspendsFull hp | suspendsHigh hp =>
    exact h.way hp m.mode.mem_all .fullSuspended (by decide) rfl rfl h.pairs rfl
  | deviceEnds hp => exact h.way hp m.mode.mem_all .hostKDue (by decide) rfl rfl h.pairs rfl
  | lastsJ hp _ _ _ hpairs =>
    exact h.way hp m.mode.mem_all .hostKDue (by decide) rfl rfl (Nat.lt_of_le_of_ne h.pairs hpairs) rfl
  | expires hphase => exact h.go rfl (leadsTo_denied hphase) rfl
  | deniedFull hp | endsLowReset hp | endsFullReset hp | keepsAlive hp | fullSe0 hp | fullJ hp | suspendsLow hp
  | resumedLow hp | resumedFull hp | deviceChirps hp | beginsK hp | beginsJ hp | breaksK hp | breaksJ hp | lastsK hp
  | completes hp => exact h.go hp (by decide) rfl

theorem keeps_move (h : m.Agrees) (s : Sample) (l : Sight) : m.Keeps (m.move s l) := (m.moves_move s l).keeps h

theorem Agrees.step (h : m.Agrees) (s : Sample) : (m.step s).2.Agrees := by
  have hkeeps := keeps_move h s (m.sight s.line)
  exact ⟨hkeeps.allowed, hkeeps.phy, hkeeps.pairs⟩

/-! ## The speed detected -/

theorem speed?_lineEvent (m : Monitor) (l : Sight) : (m.lineEvent l).bind BusEvent.speed? = none := by
  cases h : m.lineEvent l with
  | none => rfl
  | some e =>
    obtain ⟨-, g, rfl⟩ := report_of_lineEvent h
    exact g.speed?_report l.line

/-- A speed that is detected is reported, on a tick with nothing else to report. -/
theorem speed?_report (h : m.Agrees) (s : Sample) :
    (m.step s).1.bind BusEvent.speed? = m.newSpeed (m.move s (m.sight s.line)).next
      ((m.move s (m.sight s.line)).event <|> m.lineEvent (m.sight s.line)) := by
  have hmove := (keeps_move h s (m.sight s.line)).event
  have hline := m.speed?_lineEvent (m.sight s.line)
  unfold step
  dsimp only
  cases hevent : (m.move s (m.sight s.line)).event with
  | some e =>
    rw [hevent] at hmove
    exact hmove
  | none =>
    cases hchange : m.lineEvent (m.sight s.line) with
    | some e =>
      rw [hchange] at hline
      exact hline
    | none => cases m.newSpeed _ _ <;> rfl

theorem detected_step (h : m.Agrees) (s : Sample) :
    (m.step s).2.detected = ((m.step s).1.bind BusEvent.speed?).getD m.detected := by
  rw [speed?_report h]
  rfl

theorem newSpeed_of_fixed (h : m.mode ≠ .auto) (next : BusPhase) (event : Option BusEvent) :
    m.newSpeed next event = none := by
  unfold newSpeed speedOf
  rw [if_pos (by simpa [isAuto] using h)]
  cases event <;> rfl

/-! ## Over a run -/

/-- **A run keeps together** the setting, the phase and the speed of the transceiver; the speed detected is the one last
reported, and a fixed setting reports none. -/
structure Consistent (m : Monitor) (samples : List Sample) : Prop where
  agrees : (m.after samples).Agrees
  detected : (m.after samples).detected = (lastDetected (m.reports samples)).getD .auto
  fixed : m.mode ≠ .auto → ∀ speed, some (.detected speed) ∉ m.reports samples

theorem Consistent.step {samples : List Sample} (h : m.Consistent samples) (s : Sample) :
    m.Consistent (samples ++ [s]) := by
  have hafter : m.after (samples ++ [s]) = ((m.after samples).step s).2 := m.after_append samples [s]
  have hreports : m.reports (samples ++ [s]) = m.reports samples ++ [((m.after samples).step s).1] :=
    m.reports_append samples [s]
  refine ⟨?_, ?_, fun hfixed speed hmem => ?_⟩
  · rw [hafter]
    exact h.agrees.step s
  · rw [hafter, hreports, lastDetected_append, detected_step h.agrees, h.detected]
    cases ((m.after samples).step s).1.bind BusEvent.speed? <;> rfl
  · rw [hreports, List.mem_append, List.mem_singleton] at hmem
    obtain hbefore | hnow := hmem
    · exact h.fixed hfixed speed hbefore
    · have hspeed := speed?_report h.agrees s
      rw [← hnow, newSpeed_of_fixed (by rwa [mode_after])] at hspeed
      cases hspeed

/-- **Setting, phase and speeds go together** from the start, whatever the thresholds and the samples. -/
theorem consistent_starting (t : Thresholds) (mode : Speed) (samples : List Sample) :
    (starting t mode).Consistent samples := by
  induction samples using List.reverseRecOn with
  | nil =>
    refine ⟨⟨?_, rfl, Nat.zero_le 2⟩, rfl, fun _ _ hmem => by cases hmem⟩
    cases mode <;> rfl
  | append_singleton samples s ih => exact ih.step s

end Monitor
end UsbRecorder
