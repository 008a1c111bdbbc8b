import UsbRecorder.Proofs.Monitor.Steady
/-!
# LongReset — an SE0 is one reset, however long it lasts

While nothing but SE0 is read the hold grows by one a tick, so that a threshold is met on the tick that the hold at the
start tells (`hold_of_keeps`).  A reset is reported on that tick, or after high speed when the wait after it is over, and
on no other since the bus stays as it is.
-/
namespace UsbRecorder

namespace BusPhase

/-- An SE0 that lasts is a reset here. -/
def awaitsReset : BusPhase → Bool
  | lowActive | lowSuspended | lowResuming | fullActive | fullSuspended | fullResuming => true
  | _ => false

end BusPhase

namespace Monitor

section Run

variable (m : Monitor) (stretch : List Sample)

/-- For how many ticks SE0 has been held in the phase, as the tick `k` reads it once more. -/
def hold (k : Nat) : Nat := ((m.onTick stretch k).sight .se0).held

/-- On the tick `k` the hold is so long for the first time. -/
structure Reaches (ticks k : Nat) : Prop where
  reached : ticks ≤ m.hold stretch k
  before : ∀ j < k, m.hold stretch j < ticks

/-- The phase stays on every tick that finds it and a shorter hold. -/
def KeepsUntil (ticks : Nat) : Prop := ∀ k < stretch.length, m.phaseAt stretch k = m.phase →
  m.hold stretch k < ticks → m.phaseAt stretch (k + 1) = m.phase

/-- A reset is reported on the tick `k` and on no other. -/
structure ResetOnce (k : Nat) : Prop where
  report : (m.reports stretch)[k]? = some (some .reset)
  once : (m.reports stretch).count (some .reset) = 1

end Run

variable {m : Monitor} {stretch : List Sample} {s : Sample} {l : Sight} {k : Nat}

/-! ## What a tick of SE0 does -/

theorem Sight.heldAt_of_ne {level : Line} (hline : l.line ≠ level) (ticks : UInt32) : l.heldAt level ticks = false :=
  Bool.eq_false_iff.2 fun h => hline (Sight.heldAt_iff.1 h).1

theorem Sight.isPulseEnd_of_ne {idle : Line} (hline : l.line ≠ idle) (t : Thresholds) : l.isPulseEnd idle t = false :=
  Bool.eq_false_iff.2 fun h => hline (Sight.isPulseEnd_iff.1 h).2.1

/-- **An SE0 that has lasted is a reset.** -/
theorem reset_of_held (hphase : m.phase.awaitsReset = true) (hvbus : s.vbus = true)
    (hheld : l.heldAt .se0 m.thresholds.reset = true) : (m.move s l).event = some .reset := by
  unfold move
  rw [hvbus]
  cases hp : m.phase with
  | lowActive =>
    show (m.moveLowActive l).event = _
    rw [moveLowActive, if_pos hheld]
    rfl
  | lowSuspended | fullSuspended =>
    show (m.moveSuspended l _ _ _ _).event = _
    rw [moveSuspended, if_pos hheld]
    exact m.event_resetTo _
  | lowResuming | fullResuming =>
    show (m.moveResuming l _ _ _).event = _
    rw [moveResuming, if_pos hheld]
    rfl
  | fullActive =>
    show (m.moveFullActive l).event = _
    rw [moveFullActive, if_pos hheld]
    exact m.event_resetTo _
  | _ =>
    rw [hp] at hphase
    cases hphase

section Waits

variable (hline : l.line = .se0) (hheld : l.heldAt .se0 m.thresholds.reset = false)
include hline hheld

theorem lowActive_waits : (m.moveLowActive l).next = m.phase := by
  unfold moveLowActive
  rw [hheld, Sight.heldAt_of_ne (by simp [hline]), Sight.isPulseEnd_of_ne (by simp [hline])]
  rfl

theorem suspended_waits {k : Line} (hk : k ≠ .se0) (reset awake resuming : BusPhase) :
    (m.moveSuspended l k reset awake resuming).next = m.phase := by
  have hother : l.line ≠ k := fun h => hk (h.symm.trans hline)
  unfold moveSuspended
  rw [hheld, Sight.heldAt_of_ne hother, beq_eq_false_iff_ne.2 hother, Bool.and_false, Bool.and_false]
  rfl

theorem resuming_waits {j : Line} (hj : j ≠ .se0) (reset awake : BusPhase) :
    (m.moveResuming l j reset awake).next = m.phase := by
  unfold moveResuming
  rw [hheld, Sight.isPulseEnd_of_ne fun h => hj (h.symm.trans hline)]
  rfl

/-- The change to SE0 itself is reported at full speed. -/
theorem fullActive_waits (hp : m.phase = .fullActive) : (m.moveFullActive l).next = m.phase := by
  unfold moveFullActive
  rw [hheld, Sight.heldAt_of_ne (by simp [hline]), if_neg Bool.false_ne_true, if_neg Bool.false_ne_true]
  split_ifs
  · exact hp.symm
  · exact hp.symm
  · rfl

/-- Until then the phase stays. -/
theorem stays_until_reset (hphase : m.phase.awaitsReset = true) (hvbus : s.vbus = true) :
    (m.move s l).next = m.phase := by
  unfold move
  rw [hvbus]
  cases hp : m.phase with
  | lowActive => exact (lowActive_waits hline hheld).trans hp
  | lowSuspended | fullSuspended => exact (suspended_waits hline hheld (by decide) _ _ _).trans hp
  | lowResuming | fullResuming => exact (resuming_waits hline hheld (by decide) _ _).trans hp
  | fullActive => exact (fullActive_waits hline hheld hp).trans hp
  | _ =>
    rw [hp] at hphase
    cases hphase

end Waits

/-- High-speed squelch that has lasted is looked into, with the timer started anew. -/
theorem highActive_move (hphase : m.phase = .highActive) (hvbus : s.vbus = true) :
    m.move s l = if l.heldAt .se0 m.thresholds.suspend then
      { m.go .squelched with phy := .full, restart := true } else m.stay := by
  unfold move
  rw [hvbus, hphase]
  rfl

/-- After the wait SE0 is a reset. -/
theorem squelched_move (hphase : m.phase = .squelched) (hvbus : s.vbus = true) (hline : l.line = .se0) :
    m.move s l = if m.timer < m.thresholds.settle.toNat then m.stay else m.beginHandshake := by
  unfold move
  rw [hvbus, hphase]
  show m.moveSquelched l = _
  unfold moveSquelched
  rw [if_neg (show ¬ l.line = .dPlus by simp [hline])]

/-! ## Over a stretch of SE0 -/

/-- The hold is what a tick of SE0 compares with a threshold. -/
theorem heldAt_iff_hold (hline : s.line = .se0) {ticks : UInt32} :
    ((m.onTick stretch k).sight s.line).heldAt .se0 ticks = true ↔ ticks.toNat ≤ m.hold stretch k := by
  rw [Sight.heldAt_iff, hline]
  exact and_iff_right rfl

/-- Squelch that has lasted starts the wait. -/
theorem squelched_of_highActive (hs : stretch[k]? = some s) (hline : s.line = .se0) (hvbus : s.vbus = true)
    (hphase : m.phaseAt stretch k = .highActive) (hheld : m.thresholds.suspend.toNat ≤ m.hold stretch k) :
    m.phaseAt stretch (k + 1) = .squelched ∧ (m.onTick stretch (k + 1)).timer = 0 := by
  have hmove := highActive_move (l := (m.onTick stretch k).sight s.line) hphase hvbus
  rw [thresholds_onTick, if_pos ((heldAt_iff_hold hline).2 hheld)] at hmove
  rw [m.phaseAt_succ hs, m.timer_succ hs, hmove]
  exact ⟨rfl, rfl⟩

section Stretch

variable (hsteady : Steady .se0 true stretch)
include hsteady

theorem Steady.sample (hk : k < stretch.length) : ∃ s, stretch[k]? = some s ∧ s.line = .se0 ∧ s.vbus = true :=
  ⟨stretch[k], List.getElem?_eq_getElem hk, hsteady _ (List.getElem_mem hk)⟩

/-- The hold goes on where the phase stays. -/
theorem hold_succ (hk : k < stretch.length) (hphase : m.phaseAt stretch (k + 1) = m.phaseAt stretch k) :
    m.hold stretch (k + 1) = later (m.hold stretch k) := by
  obtain ⟨s, hs, hline, -⟩ := hsteady.sample hk
  unfold hold sight
  dsimp only
  rw [m.lastLine_succ hs, m.lineTime_succ hs, if_pos hphase, hline, if_pos rfl]
  rfl

/-- **The hold grows by one a tick** as long as it is shorter. -/
theorem hold_of_keeps {ticks : UInt32} (hkeeps : m.KeepsUntil stretch ticks.toNat) (hk : k ≤ stretch.length)
    (hle : k ≤ ticks.toNat - m.hold stretch 0) :
    m.phaseAt stretch k = m.phase ∧ m.hold stretch k = m.hold stretch 0 + k := by
  induction k with
  | zero => exact ⟨rfl, rfl⟩
  | succ k ih =>
    obtain ⟨hphase, hhold⟩ := ih (Nat.le_of_succ_le hk) (Nat.le_of_succ_le hle)
    have hmax := toNat_le_timerMax ticks
    have hnext := hkeeps k hk hphase (by omega)
    refine ⟨hnext, ?_⟩
    rw [hold_succ hsteady hk (hnext.trans hphase.symm), hhold]
    unfold later
    omega

/-- The threshold is met on the tick that the hold at the start tells, in the phase of the start. -/
theorem reaches_of_keeps {ticks : UInt32} (hkeeps : m.KeepsUntil stretch ticks.toNat)
    (hlong : ticks.toNat < stretch.length) :
    ∃ k ≤ ticks.toNat, m.Reaches stretch ticks.toNat k ∧ m.phaseAt stretch k = m.phase := by
  have hgrows {k : Nat} (hle : k ≤ ticks.toNat - m.hold stretch 0) :=
    hold_of_keeps hsteady hkeeps (k := k) (by omega) hle
  refine ⟨ticks.toNat - m.hold stretch 0, Nat.sub_le _ _, ⟨?_, fun j hj => ?_⟩, (hgrows (Nat.le_refl _)).1⟩
  · rw [(hgrows (Nat.le_refl _)).2]
    omega
  · rw [(hgrows (Nat.le_of_lt hj)).2]
    omega

/-- What is reported once is not reported again on a bus that stays as it is. -/
theorem resetOnce_of_report (hdebounce : 0 < m.thresholds.vbusDebounce.toNat)
    (hreport : (m.reports stretch)[k]? = some (some .reset)) : m.ResetOnce stretch k where
  report := hreport
  once := Nat.le_antisymm (count_reports_le_one hsteady hdebounce .reset)
    (List.count_pos_iff.2 (List.mem_of_getElem? hreport))

theorem resetOnce_of_event (hdebounce : 0 < m.thresholds.vbusDebounce.toNat) (hs : stretch[k]? = some s)
    (hevent : ((m.onTick stretch k).move s ((m.onTick stretch k).sight s.line)).event = some .reset) :
    m.ResetOnce stretch k :=
  resetOnce_of_report hsteady hdebounce ((m.getElem?_reports hs).trans (congrArg some (report_of_event hevent)))

theorem resetOnce_of_awaitsReset (hdebounce : 0 < m.thresholds.vbusDebounce.toNat)
    (hphase : m.phase.awaitsReset = true) (hlong : m.thresholds.reset.toNat < stretch.length) :
    ∃ k, m.Reaches stretch m.thresholds.reset.toNat k ∧ m.ResetOnce stretch k := by
  have hawaits {k : Nat} (hat : m.phaseAt stretch k = m.phase) : (m.onTick stretch k).phase.awaitsReset = true := by
    rw [← hphase, ← hat]
    rfl
  have hkeeps : m.KeepsUntil stretch m.thresholds.reset.toNat := by
    intro k hk hat hshort
    obtain ⟨s, hs, hline, hvbus⟩ := hsteady.sample hk
    rw [m.phaseAt_succ hs, ← hat]
    refine stays_until_reset hline (Bool.eq_false_iff.2 fun hheld => ?_) (hawaits hat) hvbus
    rw [thresholds_onTick] at hheld
    exact Nat.not_le.2 hshort ((heldAt_iff_hold hline).1 hheld)
  obtain ⟨k, hk, hreaches, hat⟩ := reaches_of_keeps hsteady hkeeps hlong
  obtain ⟨s, hs, hline, hvbus⟩ := hsteady.sample (Nat.lt_of_le_of_lt hk hlong)
  refine ⟨k, hreaches, resetOnce_of_event hsteady hdebounce hs (reset_of_held (hawaits hat) hvbus ?_)⟩
  rw [thresholds_onTick]
  exact (heldAt_iff_hold hline).2 hreaches.reached

/-! ### After high speed -/

/-- The timer counts the ticks of the wait. -/
theorem waits_squelched {first : Nat} (hphase : m.phaseAt stretch first = .squelched)
    (htimer : (m.onTick stretch first).timer = 0) (hk : k ≤ m.thresholds.settle.toNat)
    (hlong : first + k ≤ stretch.length) :
    m.phaseAt stretch (first + k) = .squelched ∧ (m.onTick stretch (first + k)).timer = k := by
  induction k with
  | zero => exact ⟨hphase, htimer⟩
  | succ k ih =>
    obtain ⟨hat, htime⟩ := ih (Nat.le_of_succ_le hk) (Nat.le_of_succ_le hlong)
    obtain ⟨s, hs, hline, hvbus⟩ := hsteady.sample (k := first + k) hlong
    have hmove := squelched_move (l := (m.onTick stretch (first + k)).sight s.line) hat hvbus hline
    rw [thresholds_onTick, htime, if_pos (Nat.lt_of_succ_le hk)] at hmove
    have hmax := toNat_le_timerMax m.thresholds.settle
    have hnext := m.phaseAt_succ hs
    have hlater := m.timer_succ hs
    rw [hmove] at hnext hlater
    refine ⟨hnext.trans hat, hlater.trans ?_⟩
    show later (m.onTick stretch (first + k)).timer = k + 1
    rw [htime]
    unfold later
    omega

theorem resetOnce_of_highActive (hdebounce : 0 < m.thresholds.vbusDebounce.toNat) (hphase : m.phase = .highActive)
    (hlong : m.thresholds.suspend.toNat + m.thresholds.settle.toNat + 2 ≤ stretch.length) :
    ∃ k, m.Reaches stretch m.thresholds.suspend.toNat k ∧
      m.ResetOnce stretch (k + m.thresholds.settle.toNat + 1) := by
  have hkeeps : m.KeepsUntil stretch m.thresholds.suspend.toNat := by
    intro k hk hat hshort
    obtain ⟨s, hs, hline, hvbus⟩ := hsteady.sample hk
    have hmove := highActive_move (l := (m.onTick stretch k).sight s.line) (hat.trans hphase) hvbus
    rw [if_neg fun hheld => ?_] at hmove
    · rw [m.phaseAt_succ hs, hmove]
      exact hat
    · rw [thresholds_onTick] at hheld
      exact Nat.not_le.2 hshort ((heldAt_iff_hold hline).1 hheld)
  obtain ⟨k, hk, hreaches, hat⟩ := reaches_of_keeps hsteady hkeeps (by omega)
  obtain ⟨s, hs, hline, hvbus⟩ := hsteady.sample (k := k) (by omega)
  obtain ⟨hfirst, hzero⟩ := squelched_of_highActive hs hline hvbus (hat.trans hphase) hreaches.reached
  obtain ⟨hover, htime⟩ := waits_squelched hsteady hfirst hzero (Nat.le_refl _) (by omega)
  refine ⟨k, hreaches, ?_⟩
  rw [Nat.add_right_comm]
  obtain ⟨s', hs', hline', hvbus'⟩ := hsteady.sample (k := k + 1 + m.thresholds.settle.toNat) (by omega)
  refine resetOnce_of_event hsteady hdebounce hs' ?_
  rw [squelched_move hover hvbus' hline', htime, thresholds_onTick, if_neg (Nat.lt_irrefl _)]
  rfl

end Stretch

/-- **A long SE0 is one reset**, at every clock and speed setting and after any run: reported when the SE0 has lasted,
and after high speed when the wait that follows squelch is over. -/
theorem resetOnce_of_steady {clock : UInt32} {t : Thresholds} (hclock : Thresholds.ofClock clock = .ok t) (mode : Speed)
    (before : List Sample) {stretch : List Sample} (hsteady : Steady .se0 true stretch) :
    (((starting t mode).after before).phase.awaitsReset = true → t.reset.toNat + 1 ≤ stretch.length →
      ∃ k, ((starting t mode).after before).Reaches stretch t.reset.toNat k ∧
        ((starting t mode).after before).ResetOnce stretch k) ∧
    (((starting t mode).after before).phase = .highActive →
      t.suspend.toNat + t.settle.toNat + 2 ≤ stretch.length →
      ∃ k, ((starting t mode).after before).Reaches stretch t.suspend.toNat k ∧
        ((starting t mode).after before).ResetOnce stretch (k + t.settle.toNat + 1)) := by
  have ht : ((starting t mode).after before).thresholds = t := thresholds_after _ _
  have hdebounce : 0 < ((starting t mode).after before).thresholds.vbusDebounce.toNat := by
    rw [ht]
    exact vbusDebounce_pos hclock
  constructor
  · intro hphase hlong
    have honce := resetOnce_of_awaitsReset hsteady hdebounce hphase (by rwa [ht])
    rwa [ht] at honce
  · intro hphase hlong
    have honce := resetOnce_of_highActive hsteady hdebounce hphase (by rwa [ht])
    rwa [ht] at honce

/-- An SE0 of ninety ticks. -/
def longSe0 : List Sample := List.replicate 90 (.rest .se0 true)

/-- At 6 kHz: from full speed the reset is reported on the first tick that repeats SE0, from high speed on the tick 20,
after squelch for 18 ticks and a wait of one. -/
theorem resetOnce_longSe0 : ∃ t, Thresholds.ofClock 6000 = .ok t ∧ Steady .se0 true longSe0 ∧
    ((starting t .auto).after (resumedAtHigh.take 3)).phase = .fullActive ∧ t.reset.toNat + 1 ≤ longSe0.length ∧
    (∃ k, ((starting t .auto).after (resumedAtHigh.take 3)).Reaches longSe0 t.reset.toNat k ∧
      ((starting t .auto).after (resumedAtHigh.take 3)).ResetOnce longSe0 k) ∧
    ((starting t .auto).after resumedAtHigh).phase = .highActive ∧
    t.suspend.toNat + t.settle.toNat + 2 ≤ longSe0.length ∧
    (∃ k, ((starting t .auto).after resumedAtHigh).Reaches longSe0 t.suspend.toNat k ∧
      ((starting t .auto).after resumedAtHigh).ResetOnce longSe0 (k + t.settle.toNat + 1)) ∧
    (((starting t .auto).after (resumedAtHigh.take 3)).reports longSe0)[1]? = some (some .reset) ∧
    (((starting t .auto).after resumedAtHigh).reports longSe0)[20]? = some (some .reset) := by
  have hsteady : Steady .se0 true longSe0 := by
    intro s hs
    rw [List.eq_of_mem_replicate hs]
    exact ⟨rfl, rfl⟩
  have hclock : Thresholds.ofClock 6000 = .ok (.scaled 6000) := rfl
  refine ⟨.scaled 6000, hclock, hsteady, by decide +kernel, by decide +kernel,
    (resetOnce_of_steady hclock .auto (resumedAtHigh.take 3) hsteady).1 ?_ ?_, by decide +kernel,
    by decide +kernel, (resetOnce_of_steady hclock .auto resumedAtHigh hsteady).2 ?_ ?_, ?_⟩
  all_goals decide +kernel

end Monitor
end UsbRecorder
