import UsbRecorder.Proofs.Monitor.Warrant
/-!
# PowerLoss — a tick without power comes before all else

Only three phases do not watch for it: the first, the one without power, which leaves when the debounce is complete, and
the one that has just found high speed, which takes the loss up on the next tick (`HandlesLoss`).
-/
namespace UsbRecorder
namespace Monitor

/-- **A loss of power on the tick `n`** leads to the phase without power and is reported, if it was not known before.
Where high speed has just been found, high speed comes first, and a second tick without power has that effect. -/
structure HandlesLoss (m : Monitor) (samples : List Sample) (n : Nat) : Prop where
  lost : m.phaseAt samples n ≠ .highFound →
    (m.phaseAt samples n = .unpowered → ¬ m.Supplied samples m.thresholds.vbusDebounce.toNat n) →
    m.phaseAt samples (n + 1) = .unpowered ∧
      (m.phaseAt samples n ≠ .unpowered → (m.reports samples)[n]? = some (some .vbusInvalid))
  found : m.phaseAt samples n = .highFound →
    m.phaseAt samples (n + 1) = .highActive ∧ (m.reports samples)[n]? ≠ some (some .vbusInvalid) ∧
      (samples[n + 1]?.map Sample.vbus = some false →
        m.phaseAt samples (n + 2) = .unpowered ∧ (m.reports samples)[n + 1]? = some (some .vbusInvalid))

variable {m : Monitor} {samples : List Sample} {n : Nat} {s : Sample}

theorem move_of_lost {l : Sight} (hvbus : s.vbus = false) (hwatches : m.phase.watchesPower = true) :
    (m.move s l).next = .unpowered ∧ (m.move s l).event = some .vbusInvalid := by
  unfold move
  rw [if_pos (by rw [hvbus, hwatches]; rfl)]
  exact ⟨rfl, rfl⟩

theorem lost_of_watches (hs : samples[n]? = some s) (hvbus : s.vbus = false)
    (hwatches : (m.phaseAt samples n).watchesPower = true) :
    m.phaseAt samples (n + 1) = .unpowered ∧ (m.reports samples)[n]? = some (some .vbusInvalid) := by
  have hmove := move_of_lost (l := (m.onTick samples n).sight s.line) hvbus hwatches
  refine ⟨(m.phaseAt_succ hs).trans hmove.1, ?_⟩
  rw [m.getElem?_reports hs]
  exact congrArg some (report_of_event hmove.2)

/-- Without power the phase waits for the debounce. -/
theorem stays_unpowered (hs : samples[n]? = some s) (hphase : m.phaseAt samples n = .unpowered)
    (htime : (m.onTick samples n).vbusTime < m.thresholds.vbusDebounce.toNat) :
    m.phaseAt samples (n + 1) = .unpowered := by
  have hp : (m.onTick samples n).phase = .unpowered := hphase
  rw [m.phaseAt_succ hs]
  simp only [move, hp, BusPhase.watchesPower, Bool.and_false, Bool.false_eq_true, if_false, moveUnpowered]
  rw [if_neg (by rw [thresholds_onTick]; exact Nat.not_le.2 htime)]
  exact hp

/-- What has just found high speed goes on to it, and no report of this tick is that of a loss of power. -/
theorem goes_high (hs : samples[n]? = some s) (hphase : m.phaseAt samples n = .highFound) :
    m.phaseAt samples (n + 1) = .highActive ∧ (m.reports samples)[n]? ≠ some (some .vbusInvalid) := by
  have hp : (m.onTick samples n).phase = .highFound := hphase
  have hmove : ((m.onTick samples n).move s ((m.onTick samples n).sight s.line)).next = .highActive ∧
      ((m.onTick samples n).move s ((m.onTick samples n).sight s.line)).event = none := by
    simp only [move, hp, BusPhase.watchesPower, Bool.and_false, Bool.false_eq_true, if_false]
    exact ⟨rfl, rfl⟩
  refine ⟨(m.phaseAt_succ hs).trans hmove.1, fun hreport => ?_⟩
  rw [m.getElem?_reports hs] at hreport
  have hsettles := (m.onTick samples n).filter_report s
  rw [hmove.2, onTick, Option.some.inj hreport] at hsettles
  cases hsettles

/-- **Power is looked at first**: on every tick after the first, whatever the samples were. -/
theorem handlesLoss_starting (t : Thresholds) (mode : Speed) (samples : List Sample) {n : Nat}
    (hphase : (starting t mode).phaseAt samples n ≠ .initial) (hlost : samples[n]?.map Sample.vbus = some false) :
    (starting t mode).HandlesLoss samples n := by
  obtain ⟨s, hs, hvbus⟩ := Option.map_eq_some_iff.1 hlost
  have hn : n ≤ samples.length := Nat.le_of_lt (List.getElem?_eq_some_iff.1 hs).1
  constructor
  · intro hfound hdebounce
    by_cases hp : (starting t mode).phaseAt samples n = .unpowered
    · obtain ⟨first, -, hfed⟩ := fed_after (m := starting t mode) rfl rfl hn
      refine ⟨stays_unpowered hs hp (Nat.lt_of_not_le fun henough => ?_), fun hne => absurd hp hne⟩
      exact hdebounce hp (hfed.supplied hp henough)
    · have hwatches : ((starting t mode).phaseAt samples n).watchesPower = true := by
        cases h : (starting t mode).phaseAt samples n with
        | initial => exact absurd h hphase
        | unpowered => exact absurd h hp
        | highFound => exact absurd h hfound
        | _ => rfl
      obtain ⟨hnext, hreport⟩ := lost_of_watches hs hvbus hwatches
      exact ⟨hnext, fun _ => hreport⟩
  · intro hfound
    obtain ⟨hnext, hreport⟩ := goes_high hs hfound
    refine ⟨hnext, hreport, fun hagain => ?_⟩
    obtain ⟨s', hs', hvbus'⟩ := Option.map_eq_some_iff.1 hagain
    exact lost_of_watches hs' hvbus' (by rw [hnext]; rfl)

/-- The power fails when the handshake has just been completed. -/
def lostAtHigh : List Sample := resumedAtHigh.take 21 ++ [.rest .dPlus false, .rest .dPlus false]

/-- At 6 kHz, on the tick after the last chirp and on the one after that. -/
theorem handlesLoss_lostAtHigh : ∃ t, Thresholds.ofClock 6000 = .ok t ∧
    (starting t .auto).phaseAt lostAtHigh 21 = .highFound ∧ (starting t .auto).HandlesLoss lostAtHigh 21 ∧
    (starting t .auto).phaseAt lostAtHigh 22 = .highActive ∧ (starting t .auto).HandlesLoss lostAtHigh 22 ∧
    ((starting t .auto).reports lostAtHigh).drop 20 = [some .hostChirp, some (.detected .high), some .vbusInvalid] := by
  refine ⟨.scaled 6000, rfl, ?_, handlesLoss_starting (.scaled 6000) .auto lostAtHigh ?_ ?_, ?_,
    handlesLoss_starting (.scaled 6000) .auto lostAtHigh ?_ ?_, ?_⟩
  all_goals decide +kernel

/-- Power for one tick only, which at 6 kHz completes the debounce. -/
def lostAgain : List Sample := [.rest .dPlus false, .rest .dPlus true, .rest .dPlus false]

/-- **Not every tick without power shows at once**: where high speed has just been found neither the phase nor the
report is that of a loss, and a debounce that is complete ends whether or not there still is power. -/
theorem loss_hidden : ∃ t, Thresholds.ofClock 6000 = .ok t ∧
    (lostAtHigh[21]?.map Sample.vbus = some false ∧ (starting t .auto).phaseAt lostAtHigh 21 = .highFound ∧
      (starting t .auto).phaseAt lostAtHigh 22 ≠ .unpowered ∧
      ((starting t .auto).reports lostAtHigh)[21]? ≠ some (some .vbusInvalid)) ∧
    (lostAgain[2]?.map Sample.vbus = some false ∧ (starting t .auto).phaseAt lostAgain 2 = .unpowered ∧
      (starting t .auto).phaseAt lostAgain 3 ≠ .unpowered) := by
  refine ⟨.scaled 6000, rfl, ?_⟩
  decide +kernel

end Monitor
end UsbRecorder
