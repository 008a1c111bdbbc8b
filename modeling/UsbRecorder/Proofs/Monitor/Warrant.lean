import UsbRecorder.Proofs.Monitor.History
/-!
# Warrant — every timed report is backed by the samples before it

Nine events stand for something that has lasted: `Warranted` says of each what the samples up to its tick were.  A move
reports one of them only where a threshold is met (`warranted_move`), and the counters that meet it tell of the samples
(`warranted_starting`).
-/
namespace UsbRecorder

namespace BusEvent

/-- The event stands for something that has lasted for a time. -/
def isTimed : BusEvent → Bool
  | vbusValid | lowAttach | fullAttach | reset | deviceChirp | hostChirp | suspend | resume | keepalive => true
  | _ => false

end BusEvent

theorem Signalling.isTimed_report (g : Signalling) (line : Line) : (g.report line).isTimed = false := by
  cases g <;> cases line <;> rfl

namespace Monitor

/-- How long K must last to end a suspend: where the speed is detected it ends at once. -/
def resumeTicks (m : Monitor) : Nat := if m.mode = .auto then 0 else m.thresholds.resume.toNat

/-- **What backs the report of an event on the tick `n`.** -/
inductive Warranted (m : Monitor) (samples : List Sample) (n : Nat) : BusEvent → Prop
  | untimed {e : BusEvent} (h : e.isTimed = false) : m.Warranted samples n e
  | vbusValid (hphase : m.phaseAt samples n = .unpowered)
      (h : m.Supplied samples m.thresholds.vbusDebounce.toNat n) : m.Warranted samples n .vbusValid
  | fullAttach (h : m.Lasted samples .dPlus m.thresholds.reset.toNat n) : m.Warranted samples n .fullAttach
  | lowAttach (h : m.Lasted samples .dMinus m.thresholds.reset.toNat n) : m.Warranted samples n .lowAttach
  | deviceChirp (h : m.Lasted samples .dMinus m.thresholds.reset.toNat n) : m.Warranted samples n .deviceChirp
  | hostChirp (h : m.Lasted samples .dPlus m.thresholds.reset.toNat n) : m.Warranted samples n .hostChirp
  | keepalive (first : Nat) (hphase : m.phaseAt samples n = .lowActive)
      (h : m.PulseEnded m.thresholds samples .dMinus first n) : m.Warranted samples n .keepalive
  | suspendFull (hphase : m.phaseAt samples n = .fullActive)
      (h : m.Lasted samples .dPlus m.thresholds.suspend.toNat n) : m.Warranted samples n .suspend
  | suspendLow (hphase : m.phaseAt samples n = .lowActive)
      (h : m.Lasted samples .dMinus m.thresholds.suspend.toNat n) : m.Warranted samples n .suspend
  | suspendHigh (hphase : m.phaseAt samples n = .squelched) (h : m.Squelched m.thresholds samples n)
      (hline : lineAt samples n = some .dPlus) : m.Warranted samples n .suspend
  | resumeFull (hphase : m.phaseAt samples n = .fullSuspended) (h : m.Lasted samples .dMinus m.resumeTicks n) :
      m.Warranted samples n .resume
  | resumeLow (hphase : m.phaseAt samples n = .lowSuspended) (h : m.Lasted samples .dPlus m.resumeTicks n) :
      m.Warranted samples n .resume
  | reset (hphase : m.phaseAt samples n ≠ .squelched) (h : m.Lasted samples .se0 m.thresholds.reset.toNat n) :
      m.Warranted samples n .reset
  | resetHigh (hphase : m.phaseAt samples n = .squelched) (h : m.Squelched m.thresholds samples n)
      (hline : lineAt samples n ≠ some .dPlus) : m.Warranted samples n .reset

variable {m : Monitor} {samples : List Sample} {n : Nat} {s : Sample}

/-- What is reported comes from a move, else from a change of the line, else from a change of the detected speed. -/
theorem report_sources {e : BusEvent} (h : (m.step s).1 = some e) :
    (m.move s (m.sight s.line)).event = some e ∨ m.lineEvent (m.sight s.line) = some e ∨
      ∃ speed, e = .detected speed ∧ m.newSpeed (m.move s (m.sight s.line)).next none = some speed ∧
        (m.step s).2.detected = speed := by
  cases hevent : (m.move s (m.sight s.line)).event with
  | some found =>
    rw [report_of_event hevent] at h
    exact .inl h
  | none =>
    unfold step at h ⊢
    dsimp only at h ⊢
    rw [hevent] at h ⊢
    cases hline : m.lineEvent (m.sight s.line) with
    | some found =>
      rw [hline] at h
      exact .inr (.inl h)
    | none =>
      rw [hline] at h
      obtain ⟨speed, hspeed, rfl⟩ := Option.map_eq_some_iff.1 h
      refine .inr (.inr ⟨speed, rfl, hspeed, ?_⟩)
      show (m.newSpeed _ (none <|> none)).getD m.detected = speed
      rw [hspeed]
      rfl

theorem report_cases {e : BusEvent} (h : (m.step s).1 = some e) :
    (m.move s (m.sight s.line)).event = some e ∨ (∃ g : Signalling, e = g.report s.line) ∨
      ∃ speed, e = .detected speed := by
  obtain hevent | hline | ⟨speed, hspeed, -⟩ := report_sources h
  · exact .inl hevent
  · exact .inr (.inl (report_of_lineEvent hline).2)
  · exact .inr (.inr ⟨speed, hspeed⟩)

/-- The first tick only finds out whether there is power. -/
theorem event_of_initial {l : Sight} (hphase : m.phase = .initial) : (m.move s l).event = none := by
  simp only [move, hphase, BusPhase.watchesPower, Bool.and_false, Bool.false_eq_true, if_false]
  rfl

theorem event_resetTo (m : Monitor) (phase : BusPhase) : (m.resetTo phase).event = some .reset := by
  unfold resetTo
  split <;> rfl

/-! ## Reports by phase -/

section Moves

variable {start : Monitor} {l : Sight} {e : BusEvent}

/-- The monitor `m` reads the tick `n` of a run, and `l` is what it sees of the line. -/
structure Reads (start : Monitor) (samples : List Sample) (n : Nat) (m : Monitor) (l : Sight) : Prop where
  monitor : m = start.onTick samples n
  line : lineAt samples n = some l.line
  lasted : ∀ {level : Line} {ticks : UInt32}, l.heldAt level ticks = true → start.Lasted samples level ticks.toNat n
  pulse : m.phase = .lowActive → l.isPulseEnd .dMinus m.thresholds = true →
    ∃ first, start.PulseEnded start.thresholds samples .dMinus first n
  supplied : m.phase = .unpowered → m.thresholds.vbusDebounce.toNat ≤ m.vbusTime →
    start.Supplied samples start.thresholds.vbusDebounce.toNat n
  squelched : m.phase = .squelched → m.thresholds.settle.toNat ≤ m.timer →
    start.Squelched start.thresholds samples n

namespace Reads

variable (h : Reads start samples n m l)
include h

theorem phase : start.phaseAt samples n = m.phase := by
  rw [h.monitor]
  rfl

theorem thresholds : m.thresholds = start.thresholds := by rw [h.monitor, start.thresholds_onTick]

theorem mode : m.mode = start.mode := by rw [h.monitor, start.mode_onTick]

theorem unpowered (hp : m.phase = .unpowered) (he : m.moveUnpowered.event = some e) :
    start.Warranted samples n e := by
  unfold moveUnpowered at he
  split at he
  · rename_i henough
    cases he
    exact .vbusValid (h.phase.trans hp) (h.supplied hp henough)
  · cases he

theorem attachLow (hheld : l.heldAt .dMinus m.thresholds.reset = true) (he : m.attachLow.event = some e) :
    start.Warranted samples n e := by
  cases he
  exact .lowAttach (h.thresholds ▸ h.lasted hheld)

theorem detached (he : (m.moveDetached l).event = some e) : start.Warranted samples n e := by
  unfold moveDetached at he
  split_ifs at he with hfull hlow
  · cases he
    exact .fullAttach (h.thresholds ▸ h.lasted (Bool.and_eq_true_iff.1 hfull).2)
  · exact h.attachLow (Bool.and_eq_true_iff.1 hlow).2 he
  · cases he

theorem reset (hp : m.phase ≠ .squelched) (hheld : l.heldAt .se0 m.thresholds.reset = true) :
    start.Warranted samples n .reset := .reset (h.phase ▸ hp) (h.thresholds ▸ h.lasted hheld)

theorem lowActive (hp : m.phase = .lowActive) (he : (m.moveLowActive l).event = some e) :
    start.Warranted samples n e := by
  unfold moveLowActive at he
  split_ifs at he with hreset hsuspend hpulse
  · cases he
    exact h.reset (by simp [hp]) hreset
  · cases he
    exact .suspendLow (h.phase.trans hp) (h.thresholds ▸ h.lasted hsuspend)
  · cases he
    obtain ⟨first, hended⟩ := h.pulse hp hpulse
    exact .keepalive first (h.phase.trans hp) hended
  · cases he

theorem lowReset (he : (m.moveLowReset l).event = some e) : start.Warranted samples n e := by
  unfold moveLowReset at he
  split_ifs at he with hfull hline
  · cases he
    exact .fullAttach (h.thresholds ▸ h.lasted (Bool.and_eq_true_iff.1 hfull).2)
  · cases he
  · cases he

/-- K ends a suspend: at once where the speed is detected, else when it has lasted. -/
theorem suspended {k : Line} {reset awake resuming : BusPhase} (hp : m.phase ≠ .squelched)
    (hresume : start.Lasted samples k start.resumeTicks n → start.Warranted samples n .resume)
    (he : (m.moveSuspended l k reset awake resuming).event = some e) : start.Warranted samples n e := by
  unfold moveSuspended at he
  split_ifs at he with hreset hawake hresuming
  · rw [event_resetTo] at he
    cases he
    exact h.reset hp hreset
  · cases he
    obtain ⟨hauto, hline⟩ := Bool.and_eq_true_iff.1 hawake
    refine hresume ?_
    have hticks : start.resumeTicks = (0 : UInt32).toNat := by
      unfold resumeTicks
      rw [if_pos]
      · rfl
      · rw [← h.mode]
        simpa [isAuto] using hauto
    rw [hticks]
    exact h.lasted (Sight.heldAt_iff.2 ⟨by simpa using hline, Nat.zero_le _⟩)
  · cases he
    obtain ⟨hfixed, hheld⟩ := Bool.and_eq_true_iff.1 hresuming
    refine hresume ?_
    have hticks : start.resumeTicks = m.thresholds.resume.toNat := by
      unfold resumeTicks
      rw [if_neg, h.thresholds]
      rw [← h.mode]
      simpa [isAuto] using hfixed
    rw [hticks]
    exact h.lasted hheld
  · cases he

theorem resuming {j : Line} {reset awake : BusPhase} (hp : m.phase ≠ .squelched)
    (he : (m.moveResuming l j reset awake).event = some e) : start.Warranted samples n e := by
  unfold moveResuming at he
  split_ifs at he with hreset hpulse
  · cases he
    exact h.reset hp hreset
  · cases he
  · cases he

theorem fullActive (hp : m.phase = .fullActive) (he : (m.moveFullActive l).event = some e) :
    start.Warranted samples n e := by
  unfold moveFullActive at he
  split_ifs at he with hreset hsuspend
  · rw [event_resetTo] at he
    cases he
    exact h.reset (by simp [hp]) hreset
  · cases he
    exact .suspendFull (h.phase.trans hp) (h.thresholds ▸ h.lasted hsuspend)
  · cases he
    exact .untimed rfl
  · cases he
    exact .untimed rfl
  · cases he

theorem deviceChirpDue (he : (m.moveDeviceChirpDue l).event = some e) : start.Warranted samples n e := by
  unfold moveDeviceChirpDue at he
  split_ifs at he with htime hheld
  · cases he
  · cases he
    exact .deviceChirp (h.thresholds ▸ h.lasted hheld)
  · cases he

theorem hostJ (he : (m.moveHostJ l).event = some e) : start.Warranted samples n e := by
  unfold moveHostJ at he
  split_ifs at he with htime hline hheld hpairs
  all_goals cases he
  exact .hostChirp (h.thresholds ▸ h.lasted (Sight.heldAt_iff.2 ⟨by simpa using hline, hheld⟩))

theorem highDenied (he : (m.moveHighDenied l).event = some e) : start.Warranted samples n e := by
  unfold moveHighDenied at he
  split_ifs at he with hline hheld
  · cases he
  · exact h.attachLow hheld he
  · cases he

theorem squelchOver (hp : m.phase = .squelched) (he : (m.moveSquelched l).event = some e) :
    start.Warranted samples n e := by
  unfold moveSquelched at he
  split_ifs at he with htime hline
  · cases he
  · cases he
    exact .suspendHigh (h.phase.trans hp) (h.squelched hp (Nat.le_of_not_lt htime)) (h.line.trans (congrArg some hline))
  · cases he
    refine .resetHigh (h.phase.trans hp) (h.squelched hp (Nat.le_of_not_lt htime)) ?_
    rw [h.line]
    exact fun hsome => hline (Option.some.inj hsome)

/-- **A move reports a timed event only where it is warranted.** -/
theorem warranted_move (he : (m.move s l).event = some e) : start.Warranted samples n e := by
  unfold move at he
  split at he
  · cases he
    exact .untimed rfl
  · cases hp : m.phase with
    | unpowered => exact h.unpowered hp (by simpa only [hp] using he)
    | detached => exact h.detached (by simpa only [hp] using he)
    | lowActive => exact h.lowActive hp (by simpa only [hp] using he)
    | lowReset => exact h.lowReset (by simpa only [hp] using he)
    | lowSuspended => exact h.suspended (by simp [hp]) (.resumeLow (h.phase.trans hp)) (by simpa only [hp] using he)
    | lowResuming => exact h.resuming (by simp [hp]) (by simpa only [hp] using he)
    | fullActive => exact h.fullActive hp (by simpa only [hp] using he)
    | fullSuspended => exact h.suspended (by simp [hp]) (.resumeFull (h.phase.trans hp)) (by simpa only [hp] using he)
    | fullResuming => exact h.resuming (by simp [hp]) (by simpa only [hp] using he)
    | deviceChirpDue => exact h.deviceChirpDue (by simpa only [hp] using he)
    | hostJ => exact h.hostJ (by simpa only [hp] using he)
    | highDenied => exact h.highDenied (by simpa only [hp] using he)
    | squelched => exact h.squelchOver hp (by simpa only [hp] using he)
    | initial | highListening | highFound =>
      rw [hp] at he
      cases he
    | fullReset | highActive | deviceChirping | hostKDue | hostK | hostJDue =>
      simp only [hp, moveFullReset, moveHighActive, moveDeviceChirping, moveHostDue, moveHostK] at he
      split_ifs at he
      all_goals cases he

end Reads
end Moves

/-! ## Over a run -/

theorem reads_onTick (hstart : m.phase = .initial) (hvbus : m.vbusTime = 0)
    (hmax : m.thresholds.pulseMax.toNat < timerMax) (hpos : 0 < n) (hs : samples[n]? = some s) :
    Reads m samples n (m.onTick samples n) ((m.onTick samples n).sight s.line) := by
  have hn : n ≤ samples.length := Nat.le_of_lt (List.getElem?_eq_some_iff.1 hs).1
  have ht := m.thresholds_onTick samples n
  obtain ⟨first, hsame⟩ := unchanged_after hstart hpos hn
  obtain ⟨since, -, hfed⟩ := fed_after hvbus hstart hn
  exact {
    monitor := rfl
    line := lineAt_of_sample hs
    lasted := hsame.lasted hs
    pulse := fun hphase hpulse => hsame.pulseEnded hstart hs hphase hmax (ht ▸ hpulse)
    supplied := fun hphase henough => hfed.supplied hphase (ht ▸ henough)
    squelched := fun hphase hover => by
      obtain ⟨p, hwaiting⟩ := waiting_after rfl hstart hn hphase
      exact hwaiting.squelched (ht ▸ hover) }

/-- The monitor of a speed setting, at the start. -/
def starting (thresholds : Thresholds) (mode : Speed) : Monitor := { thresholds, mode }

theorem pulseMax_lt_of_ofClock {clock : UInt32} {t : Thresholds} (h : Thresholds.ofClock clock = .ok t) :
    t.pulseMax.toNat < timerMax := by
  unfold Thresholds.ofClock at h
  split at h
  · cases h
  · cases h
    have hclock := clock.toNat_lt
    show (Thresholds.scale clock 90).toNat < timerMax
    unfold Thresholds.scale Thresholds.nominalClock timerMax
    dsimp only
    rw [UInt32.toNat_ofNat']
    simp only [UInt32.size]
    have h90 : (90 : UInt32).toNat = 90 := rfl
    have hclock' : (60000000 : UInt32).toNat = 60000000 := rfl
    rw [h90, hclock']
    omega

/-- **Every timed report is warranted**, at every clock and every speed setting. -/
theorem warranted_starting {clock : UInt32} {t : Thresholds} (hclock : Thresholds.ofClock clock = .ok t) (mode : Speed)
    (samples : List Sample) {n : Nat} {e : BusEvent}
    (hreport : ((starting t mode).reports samples)[n]? = some (some e)) :
    (starting t mode).Warranted samples n e := by
  have hn : n < samples.length := by
    rw [← (starting t mode).length_reports samples]
    exact (List.getElem?_eq_some_iff.1 hreport).1
  have hs : samples[n]? = some samples[n] := List.getElem?_eq_getElem hn
  have hstep := Option.some.inj (((starting t mode).getElem?_reports hs).symm.trans hreport)
  obtain hevent | ⟨g, rfl⟩ | ⟨speed, rfl⟩ := report_cases hstep
  · by_cases hpos : 0 < n
    · exact (reads_onTick rfl rfl (pulseMax_lt_of_ofClock hclock) hpos hs).warranted_move hevent
    · obtain rfl : n = 0 := by omega
      rw [event_of_initial rfl] at hevent
      cases hevent
  · exact .untimed (g.isTimed_report _)
  · exact .untimed rfl

/-- Power, an attach at low speed, a keep-alive, a suspend, a resume with its end and a reset. -/
def wakenedAtLow : List Sample := Stimulus.samples
  [.supply false, .rest 2, .supply true, .drive .dMinus 8, .drive .se0 1, .drive .dMinus 25, .drive .dPlus 130,
    .drive .se0 1, .drive .dMinus 3, .drive .se0 4]

/-- At 6 kHz two ticks are an attach or a reset and 121 ticks of K a resume. -/
theorem warranted_wakened : ∃ t, Thresholds.ofClock 6000 = .ok t ∧
    ((starting t .low).reports wakenedAtLow).filterMap (Option.filter BusEvent.isTimed) =
      [.vbusValid, .lowAttach, .keepalive, .suspend, .resume, .reset] ∧
    ((starting t .low).reports wakenedAtLow)[156]? = some (some .resume) ∧
    (starting t .low).Warranted wakenedAtLow 156 .resume := by
  have hclock : Thresholds.ofClock 6000 = .ok (.scaled 6000) := rfl
  have h : ((starting (.scaled 6000) .low).reports wakenedAtLow)[156]? = some (some .resume) := by decide +kernel
  exact ⟨.scaled 6000, hclock, by decide +kernel, h, warranted_starting hclock .low wakenedAtLow h⟩

end Monitor
end UsbRecorder
