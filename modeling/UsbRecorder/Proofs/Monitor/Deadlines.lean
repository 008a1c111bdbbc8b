import UsbRecorder.Proofs.Monitor.Moves
import UsbRecorder.Proofs.Monitor.Warrant
/-!
# Deadlines — no handshake goes on for ever

In every phase that waits the timer has a limit (`InTime`).  The phases of the host's chirps may follow one another in
any order and as often as the line changes, but every tick of a handshake lowers `ticksLeft`, which at its beginning is
what the two thresholds allow for (`meetsDeadlines_starting`).
-/
namespace UsbRecorder

namespace Wait

open Monitor (later timerMax toNat_le_timerMax)

/-- The longest time that the timer shows.  Where the host's next chirp is due the line comes before the timer, and on
the last tick it may still lead to one. -/
def limit (t : Thresholds) : Wait → Nat
  | device => t.deviceChirp.toNat
  | hostDue => t.hostChirp.toNat
  | hostChirp => t.hostChirp.toNat + 1
  | settling => t.settle.toNat

/-- The timer is not started anew on the way from one to the other. -/
def Shares : Wait → Wait → Prop
  | hostDue, hostChirp | hostChirp, hostDue => True
  | w, w' => w = w'

theorem Shares.device_iff {w w' : Wait} (h : w.Shares w') : w = .device ↔ w' = .device := by
  cases w <;> cases w' <;> simp_all [Shares]

theorem Shares.threshold_eq {w w' : Wait} (h : w.Shares w') (t : Thresholds) : w.threshold t = w'.threshold t := by
  cases w <;> cases w' <;> simp_all [Shares, threshold]

theorem threshold_le_limit (t : Thresholds) (w : Wait) : (w.threshold t).toNat ≤ w.limit t := by
  cases w with
  | hostChirp => exact Nat.le_succ _
  | _ => exact Nat.le_refl _

/-- How many more ticks of a handshake there can be when the timer shows a time, this one included. -/
def ticksLeft (t : Thresholds) (time : Nat) : Wait → Nat
  | device => t.deviceChirp.toNat - time + t.hostChirp.toNat + 2
  | hostDue => t.hostChirp.toNat - time + 2
  | hostChirp => if time < t.hostChirp.toNat then t.hostChirp.toNat - time + 2 else 1
  | settling => 0

theorem ticksLeft_le (t : Thresholds) (time : Nat) (w : Wait) :
    w.ticksLeft t time ≤ t.deviceChirp.toNat + t.hostChirp.toNat + 2 := by
  unfold ticksLeft
  cases w <;> grind

theorem ticksLeft_pos {w : Wait} (h : w ≠ .settling) (t : Thresholds) (time : Nat) : 0 < w.ticksLeft t time := by
  unfold ticksLeft
  cases w <;> grind

/-- The host's chirps begin anew when the device's has ended in time. -/
theorem ticksLeft_released {t : Thresholds} {time : Nat} (htime : time < t.deviceChirp.toNat) :
    hostDue.ticksLeft t 0 < device.ticksLeft t time := by
  simp only [ticksLeft]
  omega

/-- A chirp that begins costs a tick even when the time is over. -/
theorem ticksLeft_chirp (t : Thresholds) (time : Nat) :
    hostChirp.ticksLeft t (later time) < hostDue.ticksLeft t time := by
  have := toNat_le_timerMax t.hostChirp
  simp only [ticksLeft, later]
  grind

/-- Among the host's chirps the phases may go back and forth: one tick costs one, whichever of them it is read in. -/
theorem ticksLeft_runs {w w' : Wait} (h : w.Shares w') (hw : w ≠ .settling) {t : Thresholds} {time : Nat}
    (htime : time < (w.threshold t).toNat) : w'.ticksLeft t (time + 1) < w.ticksLeft t time := by
  unfold ticksLeft
  cases w <;> cases w' <;> grind [Shares, threshold]

end Wait

namespace BusPhase

theorem isHandshake_eq (phase : BusPhase) : phase.isHandshake = phase.wait?.any (· != .settling) := by
  cases phase <;> rfl

end BusPhase

namespace Monitor

variable {m : Monitor} {samples : List Sample} {n : Nat} {s : Sample} {l : Sight} {mv : Move}

/-- The timer is within the limit of the phase. -/
def InTime (m : Monitor) : Prop := ∀ w, m.phase.wait? = some w → m.timer ≤ w.limit m.thresholds

/-- **The deadlines of a run.**  The timer stays within the limits, a tick of a handshake ends it or lets the timer run,
which starts anew only when the device's chirp ends, and there are never more ticks of one than the thresholds give. -/
structure MeetsDeadlines (m : Monitor) (samples : List Sample) : Prop where
  inTime : ∀ n, (m.onTick samples n).InTime
  tick : ∀ n < samples.length, (m.phaseAt samples n).isHandshake = true →
    (m.phaseAt samples (n + 1)).isHandshake = false ∨
    (m.phaseAt samples n = .deviceChirping ∧ m.phaseAt samples (n + 1) = .hostKDue ∧
      (m.onTick samples (n + 1)).timer = 0) ∨
    ((m.phaseAt samples n).wait? = some .device ↔ (m.phaseAt samples (n + 1)).wait? = some .device) ∧
      (m.onTick samples (n + 1)).timer = later (m.onTick samples n).timer
  bounded : ∀ first ticks, first + ticks ≤ samples.length + 1 →
    (∀ k, first ≤ k → k < first + ticks → (m.phaseAt samples k).isHandshake = true) →
    ticks ≤ m.thresholds.deviceChirp.toNat + m.thresholds.hostChirp.toNat + 2

/-! ## What a tick does to the timer -/

/-- **What a tick does to a wait**: it ends it or begins another, or there was time left.  Only a chirp of the host may
begin when its time is over. -/
inductive Waits (m : Monitor) (mv : Move) : Prop
  | ends (hnext : mv.next.wait? = none)
  | begins (hphase : m.phase.isHandshake = false) (hrestart : mv.restart = true)
  | released (hphase : m.phase = .deviceChirping) (htime : m.HasTime) (hnext : mv.next = .hostKDue)
      (hrestart : mv.restart = true)
  | chirps (hphase : m.phase.wait? = some .hostDue) (hnext : mv.next.wait? = some .hostChirp)
      (hrestart : mv.restart = false)
  | runs (w w' : Wait) (hphase : m.phase.wait? = some w) (hnext : mv.next.wait? = some w') (hshares : w.Shares w')
      (htime : m.HasTime) (hrestart : mv.restart = false)

theorem Moves.waits (h : m.Moves s l mv) : m.Waits mv := by
  cases h with
  | stays htime =>
    cases hw : m.phase.wait? with
    | none => exact .ends hw
    | some w => exact .runs w w hw hw (by cases w <;> rfl) htime rfl
  | starts =>
    refine .ends ?_
    show (m.startPhase s.vbus).wait? = none
    unfold startPhase
    split_ifs <;> rfl
  | powers =>
    refine .ends ?_
    show (m.startPhase true).wait? = none
    unfold startPhase
    split_ifs <;> rfl
  | resets hphase =>
    refine .begins ?_ rfl
    obtain hp | hp | hp := hphase <;> rw [hp] <;> rfl
  | resetsHigh hphase | squelches hphase => exact .begins (by rw [hphase]; rfl) rfl
  | wakesFull =>
    refine .ends ?_
    show BusPhase.wait? (if m.wasHigh then .highFound else .fullActive) = none
    split_ifs <;> rfl
  | deviceChirps hphase htime => exact .runs .device .device (by rw [hphase]; rfl) rfl rfl htime rfl
  | deviceEnds hphase htime => exact .released hphase htime rfl rfl
  | beginsK hphase | beginsJ hphase => exact .chirps (by rw [hphase]; rfl) rfl rfl
  | breaksK hphase htime | breaksJ hphase htime | lastsK hphase htime | lastsJ hphase htime =>
    exact .runs .hostChirp .hostDue (by rw [hphase]; rfl) rfl trivial htime rfl
  | _ => exact .ends rfl

theorem timer_step (m : Monitor) (s : Sample) :
    (m.step s).2.timer = if (m.move s (m.sight s.line)).restart then 0 else later m.timer := rfl

theorem later_le {time : Nat} {ticks : UInt32} (h : time < ticks.toNat) : later time = time + 1 := by
  have := toNat_le_timerMax ticks
  unfold later
  omega

/-- **A tick keeps the timer within the limits.** -/
theorem InTime.step (h : m.InTime) (s : Sample) : (m.step s).2.InTime := by
  intro w hw
  show (m.step s).2.timer ≤ w.limit m.thresholds
  change (m.move s (m.sight s.line)).next.wait? = some w at hw
  have hwaits := (m.moves_move s (m.sight s.line)).waits
  rw [timer_step]
  cases hwaits with
  | ends hnext => cases hnext.symm.trans hw
  | begins _ hrestart | released _ _ _ hrestart =>
    rw [hrestart, if_pos rfl]
    exact Nat.zero_le _
  | chirps hphase hnext hrestart =>
    cases hnext.symm.trans hw
    have hbefore : m.timer ≤ m.thresholds.hostChirp.toNat := h .hostDue hphase
    rw [hrestart, if_neg Bool.false_ne_true]
    exact Nat.le_trans (Nat.min_le_left _ _) (Nat.succ_le_succ hbefore)
  | runs before w' hphase hnext hshares htime hrestart =>
    cases hnext.symm.trans hw
    have hbefore := htime before hphase
    rw [hrestart, if_neg Bool.false_ne_true, later_le hbefore]
    rw [hshares.threshold_eq] at hbefore
    exact Nat.le_trans hbefore (w.threshold_le_limit _)

theorem inTime_after (hstart : m.phase.wait? = none) (samples : List Sample) : (m.after samples).InTime := by
  induction samples using List.reverseRecOn with
  | nil => exact fun w hw => by cases hstart.symm.trans hw
  | append_singleton samples s ih =>
    rw [after_append]
    exact ih.step s

/-! ## The ticks of a handshake -/

/-- **A tick of a handshake** ends it, or lets the timer run, which starts anew only when the device's chirp ends. -/
theorem step_handshake (hphase : m.phase.isHandshake = true) (s : Sample) :
    (m.step s).2.phase.isHandshake = false ∨
    (m.phase = .deviceChirping ∧ (m.step s).2.phase = .hostKDue ∧ (m.step s).2.timer = 0) ∨
    (m.phase.wait? = some .device ↔ (m.step s).2.phase.wait? = some .device) ∧
      (m.step s).2.timer = later m.timer := by
  have hwaits := (m.moves_move s (m.sight s.line)).waits
  rw [timer_step, show (m.step s).2.phase = (m.move s (m.sight s.line)).next from rfl]
  cases hwaits with
  | ends hnext => simp [BusPhase.isHandshake_eq, hnext]
  | begins hout => cases hout.symm.trans hphase
  | released hphase _ hnext hrestart => exact .inr (.inl ⟨hphase, hnext, if_pos hrestart⟩)
  | chirps hphase hnext hrestart => simp [hphase, hnext, hrestart]
  | runs w w' hphase hnext hshares _ hrestart =>
    refine .inr (.inr ⟨?_, by simp [hrestart]⟩)
    rw [hphase, hnext, Option.some_inj, Option.some_inj]
    exact hshares.device_iff

/-- How many more ticks of a handshake there can be, this one included. -/
def ticksLeft (m : Monitor) : Nat := m.phase.wait?.elim 0 (Wait.ticksLeft m.thresholds m.timer)

theorem ticksLeft_eq {w : Wait} (h : m.phase.wait? = some w) : m.ticksLeft = w.ticksLeft m.thresholds m.timer := by
  unfold ticksLeft
  rw [h]
  rfl

theorem ticksLeft_le (m : Monitor) :
    m.ticksLeft ≤ m.thresholds.deviceChirp.toNat + m.thresholds.hostChirp.toNat + 2 := by
  unfold ticksLeft
  cases m.phase.wait? with
  | none => exact Nat.zero_le _
  | some w => exact w.ticksLeft_le _ _

theorem ticksLeft_pos (hphase : m.phase.isHandshake = true) : 0 < m.ticksLeft := by
  rw [BusPhase.isHandshake_eq] at hphase
  cases hw : m.phase.wait? with
  | none => simp [hw] at hphase
  | some w =>
    rw [ticksLeft_eq hw]
    exact Wait.ticksLeft_pos (by simpa [hw] using hphase) _ _

/-- **Every tick of a handshake leaves fewer of them.** -/
theorem ticksLeft_step (hphase : m.phase.isHandshake = true) (hnext : (m.step s).2.phase.isHandshake = true) :
    (m.step s).2.ticksLeft < m.ticksLeft := by
  have hwaits := (m.moves_move s (m.sight s.line)).waits
  have htimer := m.timer_step s
  have hafter {w : Wait} (h : (m.move s (m.sight s.line)).next.wait? = some w) :
      (m.step s).2.ticksLeft = w.ticksLeft m.thresholds (m.step s).2.timer := ticksLeft_eq h
  change (m.move s (m.sight s.line)).next.isHandshake = true at hnext
  cases hwaits with
  | ends hends => simp [BusPhase.isHandshake_eq, hends] at hnext
  | begins hout => cases hout.symm.trans hphase
  | released hp htime hnext' hrestart =>
    have hwait : m.phase.wait? = some .device := by rw [hp]; rfl
    rw [hrestart, if_pos rfl] at htimer
    rw [ticksLeft_eq hwait, hafter (by rw [hnext']; rfl), htimer]
    exact Wait.ticksLeft_released (htime .device hwait)
  | chirps hwait hwait' hrestart =>
    rw [hrestart, if_neg Bool.false_ne_true] at htimer
    rw [ticksLeft_eq hwait, hafter hwait', htimer]
    exact Wait.ticksLeft_chirp _ _
  | runs w w' hwait hwait' hshares htime hrestart =>
    have hne : w ≠ .settling := by
      rintro rfl
      simp [BusPhase.isHandshake_eq, hwait] at hphase
    rw [hrestart, if_neg Bool.false_ne_true, later_le (htime w hwait)] at htimer
    rw [ticksLeft_eq hwait, hafter hwait', htimer]
    exact Wait.ticksLeft_runs hshares hne (htime w hwait)

theorem ticks_le_ticksLeft {first ticks : Nat} (hlen : first + ticks ≤ samples.length + 1)
    (h : ∀ k, first ≤ k → k < first + ticks → (m.phaseAt samples k).isHandshake = true) :
    ticks ≤ (m.onTick samples first).ticksLeft := by
  induction ticks generalizing first with
  | zero => exact Nat.zero_le _
  | succ ticks ih =>
    have hfirst := h first (Nat.le_refl _) (by omega)
    cases ticks with
    | zero => exact ticksLeft_pos hfirst
    | succ ticks =>
      have hbefore : first < samples.length := by omega
      have hs : samples[first]? = some samples[first] := List.getElem?_eq_getElem hbefore
      have hnext := h (first + 1) (by omega) (by omega)
      have hrest : ticks + 1 ≤ (m.onTick samples (first + 1)).ticksLeft :=
        ih (by omega) (fun k hfrom hto => h k (by omega) (by omega))
      have hless : (m.onTick samples (first + 1)).ticksLeft < (m.onTick samples first).ticksLeft := by
        unfold phaseAt at hnext
        rw [m.onTick_succ hs] at hnext ⊢
        exact ticksLeft_step hfirst hnext
      omega

/-- **No handshake goes on for ever**, whatever the thresholds, the speed setting and the samples. -/
theorem meetsDeadlines_starting (t : Thresholds) (mode : Speed) (samples : List Sample) :
    (starting t mode).MeetsDeadlines samples where
  inTime n := inTime_after rfl (samples.take n)
  tick n hn hphase := by
    have hs : samples[n]? = some samples[n] := List.getElem?_eq_getElem hn
    have hstep := step_handshake hphase samples[n]
    rwa [← onTick_succ _ hs] at hstep
  bounded first ticks hlen h := by
    have hthresholds := (starting t mode).thresholds_onTick samples first
    have hle := ((starting t mode).onTick samples first).ticksLeft_le
    rw [hthresholds] at hle
    exact Nat.le_trans (ticks_le_ticksLeft hlen h) hle

/-- At 6 kHz the thresholds are 42 and 15 ticks, and 59 ticks are reached: the device's chirp ends, and the host's first
one begins, at the last moment. -/
example : ∀ k < 59, ((starting (.scaled 6000) .auto).phaseAt (Stimulus.samples [.drive .dPlus 3, .drive .se0 2,
    .drive .dMinus 41, .drive .se0 16, .drive .dMinus 1]) (5 + k)).isHandshake = true := by decide +kernel

end Monitor
end UsbRecorder
