import Mathlib.Data.Nat.Init
import UsbRecorder.Proofs.Monitor.Agreement
import UsbRecorder.Proofs.Monitor.Steady
/-!
# SpeedDue — a speed is reported before the bus leaves it

A speed waits for a tick with nothing else to report, and until one comes its report is `Due`.  No phase can put it off
for long: what takes the ticks starts the counters anew (`Moves.arrives`), so that where a report is due they show no
time yet (`Fresh`), and a phase that has only begun is not left (`Fresh.speed_next`).  Hence on the tick that leaves a
speed nothing is due, and the report stands within the stay (`reportsSpeeds_starting`).
-/
namespace UsbRecorder
namespace Monitor

variable {m : Monitor} {samples : List Sample} {first last n : Nat} {s : Sample} {l : Sight} {mv : Move} {speed : Speed}

/-- The phase stands for a speed that is not the one reported last. -/
def Due (m : Monitor) (speed : Speed) : Prop := m.phase.speed = some speed ∧ m.detected ≠ speed

/-- **No counter that may end the phase shows any time**, or the phase ends in another of the same speed. -/
inductive Fresh (m : Monitor) : Prop
  | unpowered (hphase : m.phase = .unpowered) (htime : m.vbusTime = 0)
  | active (hphase : m.phase = .lowActive ∨ m.phase = .fullActive) (htime : m.lineTime = 0)
  | found (hphase : m.phase = .highFound)

/-- A report that is due has not had its tick yet. -/
def Prompt (m : Monitor) : Prop := ∀ speed, m.Due speed → m.Fresh

/-- **A stay at a speed**: the tick `first` leads to phases that stand for it, and the tick `last`, which has power, out
of them. -/
structure Stay (m : Monitor) (samples : List Sample) (speed : Speed) (first last : Nat) : Prop where
  order : first < last
  before : (m.phaseAt samples first).speed ≠ some speed
  during : ∀ k, first < k → k ≤ last → (m.phaseAt samples k).speed = some speed
  after : (m.phaseAt samples (last + 1)).speed ≠ some speed
  vbus : samples[last]?.map Sample.vbus = some true

/-- **No speed is left unreported**: on a tick with power that leaves a speed, it is the one reported last, and the stay
at it has the report of it, once, if it was not the one reported last before. -/
structure ReportsSpeeds (m : Monitor) (samples : List Sample) : Prop where
  known : ∀ n speed, samples[n]?.map Sample.vbus = some true → (m.phaseAt samples n).speed = some speed →
    (m.phaseAt samples (n + 1)).speed ≠ some speed → (m.onTick samples n).detected = speed
  reported : ∀ speed first last, m.Stay samples speed first last →
    (m.reportsOn samples first last).count (some (.detected speed)) =
      if (m.onTick samples first).detected = speed then 0 else 1

/-! ## Ways to a speed -/

/-- **How a tick comes to a phase that stands for a speed.** -/
inductive Arrives (m : Monitor) (s : Sample) (l : Sight) (mv : Move) : Prop
  | lost (hnext : mv.next = .unpowered) (hvbus : s.vbus = false)
  | stays (hmove : mv = m.stay)
  | free (hphase : m.phase.watchesLine = false) (hevent : mv.event = none)
  | powers (hphase : m.phase = .unpowered) (htime : m.thresholds.vbusDebounce.toNat ≤ m.vbusTime)
      (hnext : mv.next = m.startPhase true)
  | anew (hnext : mv.next = .lowActive ∨ mv.next = .fullActive) (hanew : mv.next ≠ m.phase ∨ l.changed = true)
  | finds (hnext : mv.next = .highFound)

theorem Arrives.enters {phase : BusPhase} (hphase : m.phase = phase) (hother : mv.next ≠ phase)
    (hnext : mv.next = .lowActive ∨ mv.next = .fullActive) : m.Arrives s l mv :=
  .anew hnext (.inl (hphase ▸ hother))

theorem Sight.changed_of_ne (h : l.line ≠ l.before) : l.changed = true := bne_iff_ne.2 h

/-- Whatever is reported on the way starts a counter anew. -/
theorem Moves.arrives (h : m.Moves s l mv) (hspeed : mv.next.speed = some speed) : m.Arrives s l mv := by
  cases h with
  | lost _ hvbus => exact .lost rfl hvbus
  | stays => exact .stays rfl
  | starts hphase | goesHigh hphase => exact .free (by rw [hphase]; rfl) rfl
  | powers hphase htime => exact .powers hphase htime rfl
  | attachesFull hphase | deniedFull hphase | endsFullReset hphase | replaces hphase | resumedFull hphase =>
    exact .enters hphase nofun (.inr rfl)
  | attachesLow hphase | deniedLow hphase | endsLowReset hphase | wakesLow hphase | resumedLow hphase =>
    exact .enters hphase nofun (.inl rfl)
  | keepsAlive _ hpulse => exact .anew (.inl rfl) (.inr (Sight.changed_of_ne (Sight.isPulseEnd_iff.1 hpulse).1))
  | fullSe0 _ _ hchanged => exact .anew (.inr rfl) (.inr hchanged)
  | fullJ _ _ hline hbefore => exact .anew (.inr rfl) (.inr (Sight.changed_of_ne (by rw [hline, hbefore]; decide)))
  | completes => exact .finds rfl
  | wakesFull hphase =>
    by_cases hhigh : m.wasHigh = true
    · exact .finds (if_pos hhigh)
    · exact .enters hphase (by simp [go, hhigh]) (.inr (if_neg hhigh))
  | _ => cases hspeed

/-! ## While a report is due -/

theorem speedOf_eq (hauto : m.mode = .auto) (phase : BusPhase) : m.speedOf phase = phase.speed := by
  unfold speedOf
  rw [isAuto_iff.2 hauto]
  cases phase <;> rfl

/-- Where a report is due after a tick it was so before, and the tick had something else to report. -/
theorem due_step (hauto : m.mode = .auto) (hdue : (m.step s).2.Due speed) : m.detected ≠ speed ∧
    ((m.move s (m.sight s.line)).event <|> m.lineEvent (m.sight s.line)) ≠ none := by
  obtain ⟨hspeed, hdetected⟩ := hdue
  change (m.newSpeed (m.move s (m.sight s.line)).next _).getD m.detected ≠ speed at hdetected
  have hwanted := (speedOf_eq hauto _).trans hspeed
  unfold newSpeed at hdetected
  rw [show m.speedOf (m.move s (m.sight s.line)).next = some speed from hwanted] at hdetected
  cases hevent : (m.move s (m.sight s.line)).event <|> m.lineEvent (m.sight s.line) with
  | some e =>
    rw [hevent] at hdetected
    exact ⟨hdetected, nofun⟩
  | none =>
    rw [hevent] at hdetected
    dsimp only at hdetected
    split_ifs at hdetected with hsame
    · exact absurd hsame.symm hdetected
    · exact absurd rfl hdetected

theorem fresh_step (hnext : (m.step s).2.phase = .lowActive ∨ (m.step s).2.phase = .fullActive)
    (hanew : (m.step s).2.phase ≠ m.phase ∨ (m.sight s.line).changed = true) : (m.step s).2.Fresh := by
  refine .active hnext ?_
  show (if (m.move s (m.sight s.line)).next = m.phase then (m.sight s.line).held else 0) = 0
  obtain hother | hchanged := hanew
  · exact if_neg hother
  · have hheld : (m.sight s.line).held = 0 := if_neg (bne_iff_ne.1 hchanged)
    rw [hheld, ite_self]

theorem Fresh.watchesLine (h : m.Fresh) : m.phase.watchesLine = false := by
  cases h with
  | unpowered hphase | found hphase => rw [hphase]; rfl
  | active hphase => obtain hp | hp := hphase <;> rw [hp] <;> rfl

/-- **A report that is due stays so only as long as no time is lost**, if the debounce takes time. -/
theorem Prompt.step (h : m.Prompt) (hauto : m.mode = .auto) (hdebounce : 1 ≤ m.thresholds.vbusDebounce.toNat)
    (s : Sample) : (m.step s).2.Prompt := by
  intro speed hdue
  obtain ⟨hdetected, hbusy⟩ := due_step hauto hdue
  have hspeed : (m.move s (m.sight s.line)).next.speed = some speed := hdue.1
  cases (m.moves_move s (m.sight s.line)).arrives hspeed with
  | lost hnext hvbus => exact .unpowered hnext ((m.follows_step s).lost hvbus)
  | stays hmove =>
    -- in the same phase it was due before, which then watches no line, so the tick was free
    rw [hmove] at hspeed hbusy
    exact absurd (lineEvent_eq_none (h speed ⟨hspeed, hdetected⟩).watchesLine _) hbusy
  | free hphase hevent =>
    rw [hevent] at hbusy
    exact absurd (lineEvent_eq_none hphase _) hbusy
  | powers hphase htime hnext =>
    -- the debounce has taken a tick, on which the report was made
    have hsame : m.phase.speed = some speed := by
      rw [hnext, startPhase, hauto] at hspeed
      rw [hphase]
      exact hspeed
    cases h speed ⟨hsame, hdetected⟩ with
    | unpowered _ hzero => omega
    | active hother => simp [hphase] at hother
    | found hother => cases hphase.symm.trans hother
  | anew hnext hanew => exact fresh_step hnext hanew
  | finds hnext => exact .found hnext

theorem prompt_after (hauto : m.mode = .auto) (hdebounce : 1 ≤ m.thresholds.vbusDebounce.toNat)
    (hstart : m.phase.speed = none) (samples : List Sample) : (m.after samples).Prompt := by
  induction samples using List.reverseRecOn with
  | nil => exact fun speed hdue => by cases hstart.symm.trans hdue.1
  | append_singleton samples s ih =>
    rw [after_append]
    exact ih.step ((m.mode_after samples).trans hauto) (by rwa [thresholds_after]) s

/-! ## Leaving a speed -/

theorem heldAt_of_fresh (htime : m.lineTime = 0) {ticks : UInt32} (hticks : 2 ≤ ticks.toNat) (line level : Line) :
    (m.sight line).heldAt level ticks = false := by
  refine Bool.eq_false_iff.2 fun hheld => ?_
  have henough := (Sight.heldAt_iff.1 hheld).2
  unfold sight later at henough
  rw [htime] at henough
  dsimp only at henough
  split at henough <;> omega

/-- **A phase that has only begun is not left** for another speed, as long as there is power. -/
theorem Fresh.speed_next (h : m.Fresh) (hauto : m.mode = .auto) (hreset : 2 ≤ m.thresholds.reset.toNat)
    (hsuspend : 2 ≤ m.thresholds.suspend.toNat) (hvbus : s.vbus = true) :
    (m.move s (m.sight s.line)).next.speed = m.phase.speed := by
  unfold move
  rw [hvbus]
  cases h with
  | unpowered hphase =>
    rw [hphase]
    show m.moveUnpowered.next.speed = _
    unfold moveUnpowered startPhase
    rw [hauto]
    split
    · rfl
    · exact congrArg BusPhase.speed hphase
  | active hphase htime =>
    have hse0 := heldAt_of_fresh htime hreset s.line .se0
    obtain hp | hp := hphase
    · rw [hp]
      show (m.moveLowActive (m.sight s.line)).next.speed = _
      rw [moveLowActive, hse0, heldAt_of_fresh htime hsuspend, if_neg Bool.false_ne_true, if_neg Bool.false_ne_true]
      split
      · rfl
      · exact congrArg BusPhase.speed hp
    · rw [hp]
      show (m.moveFullActive (m.sight s.line)).next.speed = _
      rw [moveFullActive, hse0, heldAt_of_fresh htime hsuspend, if_neg Bool.false_ne_true, if_neg Bool.false_ne_true]
      split_ifs
      · rfl
      · rfl
      · exact congrArg BusPhase.speed hp
  | found hphase =>
    rw [hphase]
    rfl

/-- **On a tick with power that leaves a speed nothing is due.** -/
theorem Prompt.detected_eq (h : m.Prompt) (hauto : m.mode = .auto) (hreset : 2 ≤ m.thresholds.reset.toNat)
    (hsuspend : 2 ≤ m.thresholds.suspend.toNat) (hvbus : s.vbus = true) (hspeed : m.phase.speed = some speed)
    (hleaves : (m.step s).2.phase.speed ≠ some speed) : m.detected = speed := by
  by_contra hdue
  exact hleaves (((h speed ⟨hspeed, hdue⟩).speed_next hauto hreset hsuspend hvbus).trans hspeed)

/-! ## The reports of a stay -/

/-- How many reports of the speed are due before the bus may leave it. -/
def reportsDue (m : Monitor) (speed : Speed) : Nat := if m.detected = speed then 0 else 1

theorem report_of_speed? {report : Option BusEvent} (h : report.bind BusEvent.speed? = some speed) :
    report = some (.detected speed) := by
  obtain ⟨e, rfl, he⟩ := Option.bind_eq_some_iff.1 h
  cases e with
  | detected found => exact congrArg (some ∘ BusEvent.detected) (Option.some.inj he)
  | _ => cases he

/-- **A report that is made is not due any more**, and nothing else changes what is due. -/
theorem reportsDue_step (h : m.Agrees) (hnext : (m.step s).2.phase.speed = some speed) :
    [(m.step s).1].count (some (.detected speed)) + (m.step s).2.reportsDue speed = m.reportsDue speed := by
  unfold reportsDue
  rw [detected_step h s]
  cases hspeed : (m.step s).1.bind BusEvent.speed? with
  | none =>
    have hother : (m.step s).1 ≠ some (.detected speed) := by
      intro hsame
      rw [hsame] at hspeed
      cases hspeed
    rw [List.count_singleton, if_neg (by simpa using hother), Nat.zero_add]
    rfl
  | some found =>
    obtain ⟨-, hfound, hnew⟩ := newSpeed_eq_some ((speed?_report h s).symm.trans hspeed)
    cases hfound.symm.trans hnext
    rw [report_of_speed? hspeed, List.count_singleton_self, Option.getD_some, if_pos rfl, if_neg (Ne.symm hnew)]

theorem count_reportsOn (h : ∀ k, (m.onTick samples k).Agrees) (horder : first ≤ n) (hn : n ≤ samples.length)
    (hduring : ∀ k, first < k → k ≤ n → (m.phaseAt samples k).speed = some speed) :
    (m.reportsOn samples first n).count (some (.detected speed)) + (m.onTick samples n).reportsDue speed =
      (m.onTick samples first).reportsDue speed := by
  induction n, horder using Nat.le_induction with
  | base => rw [reportsOn_self, List.count_nil, Nat.zero_add]
  | succ n hfirst ih =>
    have hs : samples[n]? = some samples[n] := List.getElem?_eq_getElem hn
    have hnext := hduring (n + 1) (Nat.lt_succ_of_le hfirst) (Nat.le_refl _)
    unfold phaseAt at hnext
    rw [m.onTick_succ hs] at hnext
    rw [m.reportsOn_succ hfirst hs, List.count_append, m.onTick_succ hs, Nat.add_assoc, reportsDue_step (h n) hnext]
    exact ih (Nat.le_of_succ_le hn) fun k hfrom hto => hduring k hfrom (Nat.le_succ_of_le hto)

theorem agrees_after (t : Thresholds) (mode : Speed) (samples : List Sample) :
    ((starting t mode).after samples).Agrees := by
  induction samples using List.reverseRecOn with
  | nil => exact ⟨by cases mode <;> rfl, rfl, Nat.zero_le 2⟩
  | append_singleton samples s ih =>
    rw [after_append]
    exact ih.step s

/-- **Every speed that is detected is reported before the bus leaves it**, at all thresholds at which an attach, a reset
and a suspend take two ticks and the debounce takes one, and on all samples. -/
theorem reportsSpeeds_starting {t : Thresholds} (hreset : 2 ≤ t.reset.toNat) (hsuspend : 2 ≤ t.suspend.toNat)
    (hdebounce : 1 ≤ t.vbusDebounce.toNat) (samples : List Sample) : (starting t .auto).ReportsSpeeds samples := by
  have hknown : ∀ n speed, samples[n]?.map Sample.vbus = some true →
      ((starting t .auto).phaseAt samples n).speed = some speed →
      ((starting t .auto).phaseAt samples (n + 1)).speed ≠ some speed →
      ((starting t .auto).onTick samples n).detected = speed := by
    intro n speed hpower hspeed hleaves
    obtain ⟨s, hs, hvbus⟩ := Option.map_eq_some_iff.1 hpower
    have hthresholds := (starting t .auto).thresholds_onTick samples n
    have hprompt : ((starting t .auto).onTick samples n).Prompt := prompt_after rfl hdebounce rfl (samples.take n)
    refine hprompt.detected_eq ((starting t .auto).mode_onTick samples n) ?_ ?_ hvbus hspeed ?_
    · rwa [hthresholds]
    · rwa [hthresholds]
    · rwa [← onTick_succ _ hs]
  refine ⟨hknown, fun speed first last hstay => ?_⟩
  have hlast : last ≤ samples.length := by
    obtain ⟨s, hs, -⟩ := Option.map_eq_some_iff.1 hstay.vbus
    exact Nat.le_of_lt (List.getElem?_eq_some_iff.1 hs).1
  have hcount := count_reportsOn (fun k => agrees_after t .auto (samples.take k)) (Nat.le_of_lt hstay.order) hlast
    hstay.during
  have hpaid := hknown last speed hstay.vbus (hstay.during last hstay.order (Nat.le_refl _)) hstay.after
  rw [reportsDue, if_pos hpaid] at hcount
  exact hcount

/-- An attach with an SE0 right after it, which lasts. -/
def attachedAndReset : List Sample := Stimulus.samples [.rest 3, .drive .se0 3]

/-- Where a reset takes two ticks the report comes between that of the SE0 and that of the reset. -/
theorem reportsSpeeds_attachedAndReset : ∃ t : Thresholds, t = { Thresholds.scaled 6000 with reset := 2 } ∧
    2 ≤ t.reset.toNat ∧ 2 ≤ t.suspend.toNat ∧ 1 ≤ t.vbusDebounce.toNat ∧
    (starting t .auto).ReportsSpeeds attachedAndReset ∧ (starting t .auto).Stay attachedAndReset .full 2 5 ∧
    (starting t .auto).reportsOn attachedAndReset 2 5 = [some .fullAttach, some .lineSe0, some (.detected .full)] := by
  refine ⟨_, rfl, by decide, by decide, by decide,
    reportsSpeeds_starting (by decide) (by decide) (by decide) attachedAndReset, ⟨by decide, ?_, ?_, ?_, ?_⟩, ?_⟩
  · decide +kernel
  · intro k hfrom hto
    obtain rfl | rfl | rfl : k = 3 ∨ k = 4 ∨ k = 5 := by omega
    all_goals decide +kernel
  all_goals decide +kernel

/-- Where it takes one, as at 6 kHz, the bus is gone before there is a tick for the report. -/
example : (starting (.scaled 6000) .auto).reports (Stimulus.samples [.rest 2, .drive .se0 2]) =
    [none, some .fullAttach, some .lineSe0, some .reset] := by decide +kernel

end Monitor
end UsbRecorder
