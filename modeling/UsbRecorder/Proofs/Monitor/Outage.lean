import Mathlib.Data.List.Chain
import Mathlib.Data.List.ReduceOption
import UsbRecorder.Proofs.Monitor.Moves
import UsbRecorder.Proofs.Monitor.Warrant
/-!
# Outage — the loss and the return of power take turns and frame a silent time

Every way into the phase without power but the first reports the loss, and the only way out of it the return
(`Moves.power`), so that neither is reported twice in a row.  The phase looks at nothing but the power, and all that it
may report is that the speed is unknown again, once (`Silent`).
-/
namespace UsbRecorder

/-- What an event tells of the power. -/
def BusEvent.power? : BusEvent → Option Bool
  | vbusInvalid => some false
  | vbusValid => some true
  | _ => none

/-- What a phase knows of the power. -/
def BusPhase.power? : BusPhase → Option Bool
  | initial => none
  | unpowered => some false
  | _ => some true

theorem Signalling.power?_report (g : Signalling) (line : Line) : (g.report line).power? = none := by
  cases g <;> cases line <;> rfl

def powerTold (reports : List (Option BusEvent)) : List Bool := reports.filterMap (·.bind BusEvent.power?)

theorem powerTold_append (reports : List (Option BusEvent)) (report : Option BusEvent) :
    powerTold (reports ++ [report]) = powerTold reports ++ (report.bind BusEvent.power?).toList := by
  unfold powerTold
  rw [List.filterMap_append]
  cases h : report.bind BusEvent.power? <;> simp [h]

namespace Monitor

variable {m : Monitor} {samples : List Sample} {first last n : Nat} {s : Sample} {l : Sight} {mv : Move}

/-- **The ticks from `first` on and before `last` are silent**: there is no power, and nothing is reported but, where the
speed is detected, once that it is unknown. -/
structure Silent (m : Monitor) (samples : List Sample) (first last : Nat) : Prop where
  phase : ∀ k, first ≤ k → k ≤ last → m.phaseAt samples k = .unpowered
  reports : (m.reportsOn samples first last).reduceOption = [] ∨
    m.mode = .auto ∧ (m.reportsOn samples first last).reduceOption = [.detected .auto]

/-- **The loss and the return of power take turns**, and from a loss on there is silence until the return. -/
structure FramesOutages (m : Monitor) (samples : List Sample) : Prop where
  turns : (powerTold (m.reports samples)).IsChain (· ≠ ·)
  silent : ∀ lost last, (m.reports samples)[lost]? = some (some .vbusInvalid) → lost < last → last ≤ samples.length →
    (∀ k, lost < k → k < last → (m.reports samples)[k]? ≠ some (some .vbusValid)) → m.Silent samples (lost + 1) last

/-! ## Taking turns -/

theorem power?_of_watches (h : m.phase.watchesPower = true) : m.phase.power? = some true := by
  cases hp : m.phase with
  | initial | unpowered =>
    rw [hp] at h
    cases h
  | _ => rfl

/-- **What a move tells of the power** is the opposite of what was known of it; else what is known stays. -/
theorem Moves.power (h : m.Moves s l mv) :
    mv.event.bind BusEvent.power? = none ∧ (m.phase = .initial ∨ mv.next.power? = m.phase.power?) ∨
      ∃ power, mv.event.bind BusEvent.power? = some power ∧ m.phase.power? = some (!power) ∧
        mv.next.power? = some power := by
  cases h with
  | lost hwatches => exact .inr ⟨false, rfl, power?_of_watches hwatches, rfl⟩
  | powers hphase =>
    refine .inr ⟨true, rfl, by rw [hphase]; rfl, ?_⟩
    show (m.startPhase true).power? = some true
    unfold startPhase
    split_ifs <;> trivial
  | starts hphase => exact .inl ⟨rfl, .inl hphase⟩
  | stays => exact .inl ⟨rfl, .inr rfl⟩
  | wakesFull hphase =>
    refine .inl ⟨rfl, .inr ?_⟩
    show BusPhase.power? (if m.wasHigh then .highFound else .fullActive) = _
    rw [hphase]
    split_ifs <;> rfl
  | resets hphase =>
    obtain hp | hp | hp := hphase <;> exact .inl ⟨rfl, .inr (by rw [hp]; rfl)⟩
  | resetsLow hphase =>
    obtain hp | hp | ⟨hp, -⟩ := hphase <;> exact .inl ⟨rfl, .inr (by rw [hp]; rfl)⟩
  | resetsFull hphase =>
    obtain ⟨hp | hp, -⟩ | hp := hphase <;> exact .inl ⟨rfl, .inr (by rw [hp]; rfl)⟩
  | expires hphase =>
    refine .inl ⟨rfl, .inr (power?_of_watches ?_).symm⟩
    cases hp : m.phase <;> simp_all [BusPhase.isHandshake, BusPhase.watchesPower]
  | _ hphase => exact .inl ⟨rfl, .inr (by rw [hphase]; rfl)⟩

/-- What has been told of the power last is what the phase knows. -/
structure TakesTurns (m : Monitor) (samples : List Sample) : Prop where
  turns : (powerTold (m.reports samples)).IsChain (· ≠ ·)
  last : ∀ power, (powerTold (m.reports samples)).getLast? = some power → (m.after samples).phase.power? = some power

theorem TakesTurns.step (h : m.TakesTurns samples) (s : Sample) : m.TakesTurns (samples ++ [s]) := by
  have hafter : m.after (samples ++ [s]) = ((m.after samples).step s).2 := m.after_append samples [s]
  have htold : powerTold (m.reports (samples ++ [s])) = powerTold (m.reports samples) ++
      (((m.after samples).move s ((m.after samples).sight s.line)).event.bind BusEvent.power?).toList := by
    rw [reports_append, ← (m.after samples).bind_report s (fun g line => g.power?_report line) (fun _ => rfl)]
    exact powerTold_append _ _
  have hmove := ((m.after samples).moves_move s ((m.after samples).sight s.line)).power
  obtain ⟨hnothing, hstays⟩ | ⟨power, htells, hbefore, hknown⟩ := hmove
  · rw [hnothing, Option.toList_none, List.append_nil] at htold
    refine ⟨htold ▸ h.turns, fun power hlast => ?_⟩
    rw [htold] at hlast
    have hknown := h.last power hlast
    rw [hafter]
    obtain hinitial | hsame := hstays
    · rw [hinitial] at hknown
      cases hknown
    · exact hsame.trans hknown
  · rw [htells, Option.toList_some] at htold
    refine ⟨?_, fun other hlast => ?_⟩
    · rw [htold]
      refine h.turns.append (List.isChain_singleton power) fun other hother next hnext hsame => ?_
      cases hnext
      have := (h.last other hother).symm.trans hbefore
      simp [hsame] at this
    · rw [htold, List.getLast?_append] at hlast
      cases hlast
      rw [hafter]
      exact hknown

theorem takesTurns (m : Monitor) (samples : List Sample) : m.TakesTurns samples := by
  induction samples using List.reverseRecOn with
  | nil => exact ⟨.nil, nofun⟩
  | append_singleton samples s ih => exact ih.step s

/-! ## The silence -/

/-- **A tick without power** leads to the next one if the return of power is not reported, and all that it may report
is that the speed, which was known, is unknown. -/
theorem step_unpowered (hphase : m.phase = .unpowered) (hlasts : (m.step s).1 ≠ some .vbusValid) :
    (m.step s).2.phase = .unpowered ∧ ((m.step s).1 = none ∧ (m.step s).2.detected = m.detected ∨
      m.mode = .auto ∧ m.detected ≠ .auto ∧ (m.step s).1 = some (.detected .auto) ∧
        (m.step s).2.detected = .auto) := by
  have hmove : m.move s (m.sight s.line) = m.moveUnpowered := by
    simp only [move, hphase, BusPhase.watchesPower, Bool.and_false, Bool.false_eq_true, if_false]
  have hstays : m.moveUnpowered = m.stay := by
    refine if_neg fun henough => hlasts (report_of_event ?_)
    rw [hmove, moveUnpowered, if_pos henough]
    rfl
  have hline : m.lineEvent (m.sight s.line) = none := lineEvent_eq_none (by rw [hphase]; rfl) _
  have hspeed : m.newSpeed m.phase none = if m.isAuto && m.detected != .auto then some .auto else none := by
    unfold newSpeed speedOf
    rw [hphase]
    cases m.isAuto <;> cases m.detected <;> rfl
  unfold step
  dsimp only
  rw [hmove, hstays, hline]
  show m.phase = .unpowered ∧ ((m.newSpeed m.phase none).map BusEvent.detected = none ∧
    (m.newSpeed m.phase none).getD m.detected = m.detected ∨ _ ∧ _ ∧
      (m.newSpeed m.phase none).map BusEvent.detected = some (.detected .auto) ∧
      (m.newSpeed m.phase none).getD m.detected = .auto)
  rw [hspeed]
  refine ⟨hphase, ?_⟩
  split_ifs with howes
  · rw [Bool.and_eq_true, bne_iff_ne] at howes
    exact .inr ⟨isAuto_iff.1 howes.1, howes.2, rfl, rfl⟩
  · exact .inl ⟨rfl, rfl⟩

/-- Once the unknown speed has been reported, it is known to be so. -/
structure StaysSilent (m : Monitor) (samples : List Sample) (first last : Nat) : Prop
    extends m.Silent samples first last where
  known : (m.reportsOn samples first last).reduceOption ≠ [] → (m.onTick samples last).detected = .auto

theorem StaysSilent.next (h : m.StaysSilent samples first n) (hfirst : first ≤ n) (hs : samples[n]? = some s)
    (hlasts : (m.reports samples)[n]? ≠ some (some .vbusValid)) : m.StaysSilent samples first (n + 1) := by
  rw [m.getElem?_reports hs] at hlasts
  obtain ⟨hphase, hreport⟩ := step_unpowered (h.phase n hfirst (Nat.le_refl n)) fun hvalid => hlasts (congrArg some hvalid)
  rw [← m.onTick_succ hs] at hphase hreport
  have hphases : ∀ k, first ≤ k → k ≤ n + 1 → m.phaseAt samples k = .unpowered := by
    intro k hfrom hto
    obtain hk | rfl := Nat.le_succ_iff.1 hto
    · exact h.phase k hfrom hk
    · exact hphase
  have hreports : (m.reportsOn samples first (n + 1)).reduceOption = (m.reportsOn samples first n).reduceOption ++
      ((m.onTick samples n).step s).1.toList := by
    rw [m.reportsOn_succ hfirst hs, List.reduceOption_append, List.reduceOption_singleton]
  obtain ⟨hnone, hdetected⟩ | ⟨hauto, hbefore, hunknown, hdetected⟩ := hreport
  · rw [hnone, Option.toList_none, List.append_nil] at hreports
    refine ⟨⟨hphases, hreports ▸ h.reports⟩, fun hmade => ?_⟩
    rw [hdetected]
    exact h.known (hreports ▸ hmade)
  · -- a report made before would have left the speed unknown
    have hnothing : (m.reportsOn samples first n).reduceOption = [] := by
      by_contra hmade
      exact hbefore (h.known hmade)
    rw [hunknown, hnothing] at hreports
    exact ⟨⟨hphases, .inr ⟨(m.mode_onTick samples n).symm.trans hauto, hreports⟩⟩, fun _ => hdetected⟩

theorem phaseAt_of_lost (hlost : (m.reports samples)[n]? = some (some .vbusInvalid)) :
    m.phaseAt samples (n + 1) = .unpowered := by
  obtain ⟨s, hs, hreport⟩ := m.sample_of_report hlost
  have htells := (m.onTick samples n).bind_report s (fun g line => g.power?_report line) (fun _ => rfl)
  rw [hreport] at htells
  obtain ⟨hnothing, -⟩ | ⟨power, hpower, -, hknown⟩ :=
    ((m.onTick samples n).moves_move s ((m.onTick samples n).sight s.line)).power
  · cases htells.trans hnothing
  · cases htells.trans hpower
    rw [m.phaseAt_succ hs]
    cases hnext : ((m.onTick samples n).move _ _).next with
    | unpowered => rfl
    | _ =>
      rw [hnext] at hknown
      cases hknown

/-- **Power is lost and comes back in turns**, with silence in between, at all thresholds and speed settings and on all
samples. -/
theorem framesOutages_starting (t : Thresholds) (mode : Speed) (samples : List Sample) :
    (starting t mode).FramesOutages samples where
  turns := ((starting t mode).takesTurns samples).turns
  silent lost last hlost hbefore hlast hlasts := by
    refine StaysSilent.toSilent ?_
    induction last, hbefore using Nat.le_induction with
    | base =>
      refine ⟨⟨fun k hfrom hto => ?_, .inl ?_⟩, fun hmade => absurd ?_ hmade⟩
      · rw [Nat.le_antisymm hto hfrom]
        exact phaseAt_of_lost hlost
      · rw [reportsOn_self]
        rfl
      · rw [reportsOn_self]
        rfl
    | succ n hn ih =>
      have hsilent := ih (Nat.le_of_succ_le hlast) fun k hfrom hto => hlasts k hfrom (Nat.lt_succ_of_lt hto)
      exact hsilent.next hn (List.getElem?_eq_getElem hlast) (hlasts n hn (Nat.lt_succ_self n))

/-- The power comes, fails under a device while the line moves, and comes again. -/
def failing : List Sample := Stimulus.samples
  [.supply false, .rest 2, .supply true, .rest 6, .supply false, .drive .se0 1, .drive .dMinus 3, .supply true, .rest 2]

/-- At 6 kHz, where the debounce is one tick. -/
example : powerTold ((starting (.scaled 6000) .auto).reports failing) = [true, false, true] ∧
    (∀ k < 5, (starting (.scaled 6000) .auto).phaseAt failing (9 + k) = .unpowered) ∧
    ((starting (.scaled 6000) .auto).reportsOn failing 9 13).reduceOption = [.detected .auto] := by decide +kernel

end Monitor
end UsbRecorder
