import UsbRecorder.Bus.Stimulus
import UsbRecorder.Proofs.Monitor.Settling
/-!
# Handshake — high speed is claimed only after a completed handshake

A handshake is read off a run alone, its samples and its reports (`Completed`): a reset, the device's chirp, and after
it three pairs of host chirps, each within its time.  The monitor decides from a timer, the time that the line was held
and a counter of pairs, and never finds high speed without one (`earnsHigh_of_detecting`).
-/
namespace UsbRecorder

/-! ## What a run shows -/

section Run

variable (t : Thresholds) (samples : List Sample) (reports : List (Option BusEvent))

/-- The line on a tick. -/
def lineAt (k : Nat) : Option Line := samples[k]?.map Sample.line

/-- The line is held from one tick on until before another. -/
def Held (level : Line) (first stop : Nat) : Prop := ∀ k, first ≤ k → k < stop → lineAt samples k = some level

/-- The line is held for so many ticks at least. -/
def HeldFor (level : Line) (ticks first stop : Nat) : Prop := first + ticks ≤ stop ∧ Held samples level first stop

/-- So many pairs of chirps lie one after the other between two ticks, each a K and then a J that were long enough. -/
def HostPairs (first : Nat) : Nat → Nat → Prop
  | 0, stop => first ≤ stop
  | pairs + 1, stop => ∃ k k' j j', HostPairs first pairs k ∧ HeldFor samples .dMinus (t.reset.toNat + 1) k k' ∧
      k' ≤ j ∧ HeldFor samples .dPlus (t.reset.toNat + 1) j j' ∧ j' ≤ stop

/-- A reset is reported on the tick `r`, and before `n` neither another one nor a loss of power. -/
structure Began (r n : Nat) : Prop where
  before : r < n
  reset : reports[r]? = some (some .reset)
  undisturbed : ∀ k, r < k → k < n → reports[k]? ≠ some (some .reset) ∧ reports[k]? ≠ some (some .vbusInvalid)

/-- The device's chirp is reported on the tick `d`, in time after `r`, and goes on until `e`. -/
structure DeviceChirp (r d e : Nat) : Prop where
  order : r < d ∧ d < e
  chirp : reports[d]? = some (some .deviceChirp)
  inTime : d - r ≤ t.deviceChirp.toNat
  held : Held samples .dMinus (d + 1) e

/-- The device's chirp has ended on the tick `e`, in time. -/
structure Released (r d e n : Nat) : Prop extends Began reports r n, DeviceChirp t samples reports r d e where
  ended : e < n
  released : lineAt samples e ≠ some .dMinus
  released_inTime : e - r ≤ t.deviceChirp.toNat

/-- **A completed handshake**, which ends with the tick `n`. -/
structure Completed (r d e n : Nat) : Prop extends Released t samples reports r d e n where
  host_inTime : n - e ≤ t.hostChirp.toNat
  pairs : HostPairs t samples e 3 (n + 1)

end Run

variable {t : Thresholds} {samples : List Sample} {reports : List (Option BusEvent)} {n : Nat} {s : Sample}

theorem lineAt_of_sample (hs : samples[n]? = some s) : lineAt samples n = some s.line := by
  unfold lineAt
  rw [hs]
  rfl

theorem Held.next {level : Line} {first : Nat} (h : Held samples level first n) (hs : samples[n]? = some s)
    (hline : s.line = level) : Held samples level first (n + 1) := by
  intro k hfrom hto
  by_cases hk : k = n
  · rw [hk, lineAt_of_sample hs, hline]
  · exact h k hfrom (by omega)

namespace HeldFor

variable {level : Line} {ticks first : Nat}

theorem one (hs : samples[n]? = some s) (hline : s.line = level) : HeldFor samples level 1 n (n + 1) := by
  have hnone : Held samples level n n := fun k hfrom hto => by omega
  exact ⟨Nat.le_refl _, hnone.next hs hline⟩

theorem next (h : HeldFor samples level ticks first n) (hs : samples[n]? = some s) (hline : s.line = level) :
    HeldFor samples level (ticks + 1) first (n + 1) := ⟨Nat.succ_le_succ h.1, h.2.next hs hline⟩

theorem of_le {fewer : Nat} (h : HeldFor samples level ticks first n) (hle : fewer ≤ ticks) :
    HeldFor samples level fewer first n := ⟨by have := h.1; omega, h.2⟩

end HeldFor

theorem HostPairs.later {first pairs stop stop' : Nat} (h : HostPairs t samples first pairs stop) (hle : stop ≤ stop') :
    HostPairs t samples first pairs stop' := by
  cases pairs with
  | zero => exact Nat.le_trans h hle
  | succ pairs =>
    obtain ⟨k, k', j, j', hpairs, hk, hkj, hj, hstop⟩ := h
    exact ⟨k, k', j, j', hpairs, hk, hkj, hj, Nat.le_trans hstop hle⟩

theorem Began.next {r : Nat} {report : Option BusEvent} (h : Began reports r n) (hr : reports[n]? = some report)
    (hsettles : report.filter BusEvent.settlesSpeed = none) : Began reports r (n + 1) := by
  refine ⟨Nat.lt_succ_of_lt h.before, h.reset, fun k hfrom hto => ?_⟩
  by_cases hk : k = n
  · rw [hk, hr]
    constructor <;>
    · rintro ⟨⟩
      cases hsettles
  · exact h.undisturbed k hfrom (by omega)

theorem DeviceChirp.next {r d : Nat} (h : DeviceChirp t samples reports r d n) (hs : samples[n]? = some s)
    (hline : s.line = .dMinus) : DeviceChirp t samples reports r d (n + 1) :=
  ⟨⟨h.order.1, Nat.lt_succ_of_lt h.order.2⟩, h.chirp, h.inTime, h.held.next hs hline⟩

theorem Released.next {r d e : Nat} {report : Option BusEvent} (h : Released t samples reports r d e n)
    (hr : reports[n]? = some report) (hsettles : report.filter BusEvent.settlesSpeed = none) :
    Released t samples reports r d e (n + 1) :=
  { h with toBegan := h.toBegan.next hr hsettles, ended := Nat.lt_succ_of_lt h.ended }

namespace Monitor

variable {m : Monitor}

/-! ## What the monitor knows of it -/

/-- The timer shows the ticks since `since`, if not its greatest time. -/
def Timed (m : Monitor) (since n : Nat) : Prop := m.timer = min (n - (since + 1)) timerMax

/-- What each phase of the host's chirps stands for before the tick `n`, the device's having ended on the tick `e`. -/
def HostStage (m : Monitor) (t : Thresholds) (samples : List Sample) (e n : Nat) : Prop :=
  match m.phase with
  | .hostKDue => HostPairs t samples e m.pairs n
  | .hostK => ∃ k, HostPairs t samples e m.pairs k ∧ m.lastLine = .dMinus ∧ HeldFor samples .dMinus (m.lineTime + 1) k n
  | .hostJDue => ∃ k k', HostPairs t samples e m.pairs k ∧ HeldFor samples .dMinus (t.reset.toNat + 1) k k' ∧ k' ≤ n
  | .hostJ => ∃ k k' j, HostPairs t samples e m.pairs k ∧ HeldFor samples .dMinus (t.reset.toNat + 1) k k' ∧ k' ≤ j ∧
      m.lastLine = .dPlus ∧ HeldFor samples .dPlus (m.lineTime + 1) j n
  | _ => False

/-- **What each phase of a handshake stands for**, before the tick `n`. -/
def Stage (m : Monitor) (t : Thresholds) (samples : List Sample) (reports : List (Option BusEvent)) (n : Nat) : Prop :=
  match m.phase with
  | .deviceChirpDue => ∃ r, Began reports r n ∧ m.Timed r n ∧ m.pairs = 0
  | .deviceChirping => ∃ r d, Began reports r n ∧ DeviceChirp t samples reports r d n ∧ m.Timed r n ∧ m.pairs = 0
  | .hostKDue | .hostK | .hostJDue | .hostJ =>
    ∃ r d e, Released t samples reports r d e n ∧ m.Timed e n ∧ m.HostStage t samples e n
  | _ => True

theorem stage_of_outside (h : m.phase.isHandshake = false) : m.Stage t samples reports n := by
  unfold Stage
  cases hp : m.phase <;> simp_all [BusPhase.isHandshake]

theorem stage_of_host {r d e : Nat} (hreleased : Released t samples reports r d e n) (htimed : m.Timed e n)
    (h : m.HostStage t samples e n) : m.Stage t samples reports n := by
  unfold Stage
  cases hp : m.phase with
  | hostKDue | hostK | hostJDue | hostJ => exact ⟨r, d, e, hreleased, htimed, h⟩
  | deviceChirpDue | deviceChirping =>
    unfold HostStage at h
    rw [hp] at h
    exact h.elim
  | _ => trivial

theorem timed_restarted {mv : Move} (hmv : m.move s (m.sight s.line) = mv) (h : mv.restart = true) (n : Nat) :
    (m.step s).2.Timed n (n + 1) := by
  subst hmv
  show (if (m.move s (m.sight s.line)).restart then 0 else later m.timer) = _
  rw [if_pos h]
  omega

theorem Timed.next {mv : Move} {since : Nat} (h : m.Timed since n) (hbefore : since < n)
    (hmv : m.move s (m.sight s.line) = mv) (hrestart : mv.restart = false) : (m.step s).2.Timed since (n + 1) := by
  subst hmv
  show (if (m.move s (m.sight s.line)).restart then 0 else later m.timer) = _
  unfold Timed at h
  rw [hrestart, if_neg Bool.false_ne_true, h]
  unfold later
  omega

theorem toNat_le_timerMax (ticks : UInt32) : ticks.toNat ≤ timerMax := by
  have := ticks.toNat_lt
  unfold timerMax
  exact Nat.le_pred_of_lt this

/-- A timer below a threshold has not stopped at its greatest time. -/
theorem Timed.le_of_lt {since : Nat} {ticks : UInt32} (h : m.Timed since n) (hlt : m.timer < ticks.toNat) :
    n - since ≤ ticks.toNat := by
  have := toNat_le_timerMax ticks
  unfold Timed at h
  omega

/-- A line that is still held has been for one tick more. -/
theorem heldFor_step {level : Line} {k : Nat} (h : HeldFor samples level (m.lineTime + 1) k n)
    (hlast : m.lastLine = level) (hs : samples[n]? = some s) (hline : s.line = level) :
    HeldFor samples level ((m.sight s.line).held + 1) k (n + 1) := by
  refine (h.next hs hline).of_le ?_
  unfold sight later
  rw [hline, hlast, if_pos rfl]
  dsimp only
  omega

/-- **A tick among the host's chirps** that does not break them off. -/
theorem HostStage.step {e : Nat} (h : m.HostStage t samples e n) (ht : m.thresholds = t) (hs : samples[n]? = some s)
    {mv : Move} (hmv : m.move s (m.sight s.line) = mv) (hnext : mv.next.isHandshake = true)
    (hadvances : m.Advances (m.sight s.line) mv) :
    (m.step s).2.HostStage t samples e (n + 1) := by
  have hafter : (m.step s).2.phase = mv.next ∧ (m.step s).2.pairs = mv.pairs ∧ (m.step s).2.lastLine = s.line ∧
      (m.step s).2.lineTime = if mv.next = m.phase then (m.sight s.line).held else 0 := by
    subst hmv
    exact ⟨rfl, rfl, rfl, rfl⟩
  obtain ⟨hphase', hpairs', hlast', htime'⟩ := hafter
  subst ht
  unfold HostStage at h ⊢
  rw [hphase', hpairs', hlast', htime']
  -- what the phase stood for is taken apart and put together again with this tick in it
  cases hadvances with
  | broken hbroken => cases hbroken.symm.trans hnext
  | completes => cases hnext
  | deviceAwaited hp | deviceChirps hp | deviceHolds hp | deviceReleases hp =>
    rw [hp] at h
    exact h.elim
  | awaitedK hp =>
    simp only [stay, go, hp] at h ⊢
    exact h.later (Nat.le_succ n)
  | beginsK hp hline =>
    simp only [go, hp] at h ⊢
    exact ⟨n, h, hline, .one hs hline⟩
  | breaksK hp =>
    simp only [go, hp] at h ⊢
    obtain ⟨k, hpairs, -, hheld⟩ := h
    exact hpairs.later (by have := hheld.1; omega)
  | holdsK hp hline =>
    simp only [stay, go, hp] at h ⊢
    obtain ⟨k, hpairs, hlast, hheld⟩ := h
    exact ⟨k, hpairs, hline, heldFor_step hheld hlast hs hline⟩
  | lastsK hp hline hlong =>
    simp only [go, hp] at h ⊢
    obtain ⟨k, hpairs, hlast, hheld⟩ := h
    exact ⟨k, n + 1, hpairs, (heldFor_step hheld hlast hs hline).of_le (by omega), Nat.le_refl _⟩
  | awaitedJ hp =>
    simp only [stay, go, hp] at h ⊢
    obtain ⟨k, k', hpairs, hk, hstop⟩ := h
    exact ⟨k, k', hpairs, hk, Nat.le_succ_of_le hstop⟩
  | beginsJ hp hline =>
    simp only [go, hp] at h ⊢
    obtain ⟨k, k', hpairs, hk, hstop⟩ := h
    exact ⟨k, k', n, hpairs, hk, hstop, hline, .one hs hline⟩
  | breaksJ hp =>
    simp only [go, hp] at h ⊢
    obtain ⟨k, k', j, hpairs, hk, hkj, -, hheld⟩ := h
    exact ⟨k, k', hpairs, hk, by have := hheld.1; omega⟩
  | holdsJ hp hline =>
    simp only [stay, go, hp] at h ⊢
    obtain ⟨k, k', j, hpairs, hk, hkj, hlast, hheld⟩ := h
    exact ⟨k, k', j, hpairs, hk, hkj, hline, heldFor_step hheld hlast hs hline⟩
  | lastsJ hp hline hlong =>
    simp only [go, hp] at h ⊢
    obtain ⟨k, k', j, hpairs, hk, hkj, hlast, hheld⟩ := h
    exact ⟨k, k', j, n + 1, hpairs, hk, hkj, (heldFor_step hheld hlast hs hline).of_le (by omega), Nat.le_refl _⟩

theorem stage_of_begins (hbegins : m.move s (m.sight s.line) = m.beginHandshake)
    (hr : reports[n]? = some (m.step s).1) : (m.step s).2.Stage t samples reports (n + 1) := by
  have hreset : (m.step s).1 = some .reset := report_of_event (by rw [hbegins]; rfl)
  have hbegan : Began reports n (n + 1) :=
    ⟨Nat.lt_succ_self n, hr.trans (congrArg some hreset), fun k hfrom hto => by omega⟩
  have hphase' : (m.step s).2.phase = (m.move s (m.sight s.line)).next := rfl
  have hpairs' : (m.step s).2.pairs = (m.move s (m.sight s.line)).pairs := rfl
  rw [hbegins] at hphase' hpairs'
  unfold Stage
  rw [hphase']
  exact ⟨n, hbegan, timed_restarted hbegins rfl n, hpairs'⟩

theorem Stage.deviceChirpDue (h : m.Stage t samples reports n) (hphase : m.phase = .deviceChirpDue)
    (ht : m.thresholds = t) (hr : reports[n]? = some (m.step s).1) {mv : Move} (hmv : m.move s (m.sight s.line) = mv)
    (hnext : mv.next.isHandshake = true) (hadvances : m.Advances (m.sight s.line) mv) :
    (m.step s).2.Stage t samples reports (n + 1) := by
  unfold Stage at h
  rw [hphase] at h
  obtain ⟨r, hbegan, htimed, hpairs⟩ := h
  have hsettles := m.filter_report s
  have hphase' : (m.step s).2.phase = mv.next := by rw [← hmv]; rfl
  have hpairs' : (m.step s).2.pairs = mv.pairs := by rw [← hmv]; rfl
  rw [hmv] at hsettles
  unfold Stage
  rw [hphase']
  obtain rfl | ⟨rfl, htime⟩ := hadvances.of_deviceChirpDue hphase hnext
  · rw [show m.stay.next = .deviceChirpDue from hphase]
    exact ⟨r, hbegan.next hr hsettles, htimed.next hbegan.before hmv rfl, hpairs'.trans hpairs⟩
  · have hchirp : (m.step s).1 = some .deviceChirp := report_of_event (by rw [hmv]; rfl)
    have hdevice : DeviceChirp t samples reports r n (n + 1) :=
      ⟨⟨hbegan.before, Nat.lt_succ_self n⟩, hr.trans (congrArg some hchirp), ht ▸ htimed.le_of_lt htime,
        fun k hfrom hto => by omega⟩
    exact ⟨r, n, hbegan.next hr hsettles, hdevice, htimed.next hbegan.before hmv rfl, hpairs'.trans hpairs⟩

theorem Stage.deviceChirping (h : m.Stage t samples reports n) (hphase : m.phase = .deviceChirping)
    (ht : m.thresholds = t) (hs : samples[n]? = some s) (hr : reports[n]? = some (m.step s).1) {mv : Move}
    (hmv : m.move s (m.sight s.line) = mv) (hnext : mv.next.isHandshake = true)
    (hadvances : m.Advances (m.sight s.line) mv) : (m.step s).2.Stage t samples reports (n + 1) := by
  unfold Stage at h
  rw [hphase] at h
  obtain ⟨r, d, hbegan, hdevice, htimed, hpairs⟩ := h
  have hsettles := m.filter_report s
  have hphase' : (m.step s).2.phase = mv.next := by rw [← hmv]; rfl
  have hpairs' : (m.step s).2.pairs = mv.pairs := by rw [← hmv]; rfl
  rw [hmv] at hsettles
  unfold Stage
  rw [hphase']
  obtain ⟨rfl, hline⟩ | ⟨rfl, hline, htime⟩ := hadvances.of_deviceChirping hphase hnext
  · rw [show m.stay.next = .deviceChirping from hphase]
    exact ⟨r, d, hbegan.next hr hsettles, hdevice.next hs hline, htimed.next hbegan.before hmv rfl,
      hpairs'.trans hpairs⟩
  · have hreleased : Released t samples reports r d n (n + 1) :=
      { hbegan.next hr hsettles, hdevice with
        ended := Nat.lt_succ_self n
        released := by
          rw [lineAt_of_sample hs]
          exact fun h => hline (Option.some.inj h)
        released_inTime := ht ▸ htimed.le_of_lt htime }
    refine ⟨r, d, n, hreleased, timed_restarted hmv rfl n, ?_⟩
    unfold HostStage
    rw [hphase', hpairs']
    show HostPairs t samples n m.pairs (n + 1)
    rw [hpairs]
    exact Nat.le_succ n

/-- **A tick of a handshake, or of a bus without one**, leads from what a phase stands for to what the next one does. -/
theorem Stage.step (h : m.Stage t samples reports n) (hauto : m.mode = .auto) (ht : m.thresholds = t)
    (hs : samples[n]? = some s) (hr : reports[n]? = some (m.step s).1) :
    (m.step s).2.Stage t samples reports (n + 1) := by
  cases hnext : (m.move s (m.sight s.line)).next.isHandshake with
  | false => exact stage_of_outside hnext
  | true =>
    cases hphase : m.phase.isHandshake with
    | false =>
      obtain hbegins | ⟨hout, -⟩ := outside_move hauto hphase s (m.sight s.line)
      · exact stage_of_begins hbegins hr
      · cases hout.symm.trans hnext
    | true =>
      have hadvances := advances_move hphase s (m.sight s.line)
      cases hp : m.phase with
      | deviceChirpDue => exact h.deviceChirpDue hp ht hr rfl hnext hadvances
      | deviceChirping => exact h.deviceChirping hp ht hs hr rfl hnext hadvances
      | hostKDue | hostK | hostJDue | hostJ =>
        unfold Stage at h
        rw [hp] at h
        obtain ⟨r, d, e, hreleased, htimed, hhost⟩ := h
        obtain ⟨hevent, hrestart⟩ := hadvances.of_host (by simp [hp]) (by simp [hp]) hnext
        have hsettles := m.filter_report s
        rw [hevent] at hsettles
        exact stage_of_host (hreleased.next hr hsettles) (htimed.next hreleased.ended rfl hrestart)
          (hhost.step ht hs rfl hnext hadvances)
      | _ =>
        rw [hp] at hphase
        cases hphase

/-- The third pair of chirps completes a handshake. -/
theorem Stage.completed (h : m.Stage t samples reports n) (hauto : m.mode = .auto) (ht : m.thresholds = t)
    (hs : samples[n]? = some s) (hfound : (m.step s).1 = some .hostChirp) :
    ∃ r d e, Completed t samples reports r d e n := by
  have hevent : (m.move s (m.sight s.line)).event = some .hostChirp := by
    have hsettles := m.filter_report s
    rw [hfound] at hsettles
    exact Option.eq_some_of_filter_eq_some hsettles.symm
  cases hphase : m.phase.isHandshake with
  | false =>
    obtain hbegins | ⟨-, hnone, -⟩ := outside_move hauto hphase s (m.sight s.line)
    · rw [hbegins] at hevent
      cases hevent
    · exact absurd hevent hnone
  | true =>
    obtain ⟨hp, hline, hlong, hpairs, htime⟩ := (advances_move hphase s (m.sight s.line)).of_hostChirp hevent
    subst ht
    unfold Stage at h
    rw [hp] at h
    obtain ⟨r, d, e, hreleased, htimed, hhost⟩ := h
    unfold HostStage at hhost
    rw [hp, hpairs] at hhost
    obtain ⟨k, k', j, hpairs', hk, hkj, hlast, hheld⟩ := hhost
    have hj : HeldFor samples .dPlus (m.thresholds.reset.toNat + 1) j (n + 1) :=
      (heldFor_step hheld hlast hs hline).of_le (by omega)
    exact ⟨r, d, e, { hreleased with
      host_inTime := htimed.le_of_lt htime
      pairs := ⟨k, k', j, n + 1, hpairs', hk, hkj, hj, Nat.le_refl _⟩ }⟩

/-- **High speed is earned**: it is reported only at the end of a completed handshake, and where the bus is taken to be
at high speed, nothing has settled the speed since such a report. -/
structure EarnsHigh (m : Monitor) (samples : List Sample) : Prop where
  handshake : ∀ n, (m.reports samples)[n]? = some (some .hostChirp) →
    ∃ r d e, Completed m.thresholds samples (m.reports samples) r d e n
  settled : (m.after samples).phase.isHigh = true → lastSettling (m.reports samples) = some .hostChirp

theorem stage_after (hauto : m.mode = .auto) (hstart : m.phase.isHandshake = false) (samples : List Sample) (n : Nat)
    (hn : n ≤ samples.length) : (m.after (samples.take n)).Stage m.thresholds samples (m.reports samples) n := by
  induction n with
  | zero => exact stage_of_outside hstart
  | succ n ih =>
    have hs : samples[n]? = some samples[n] := List.getElem?_eq_getElem hn
    rw [m.after_take_succ hs]
    exact (ih (Nat.le_of_succ_le hn)).step ((m.mode_after _).trans hauto) (m.thresholds_after _) hs
      (m.getElem?_reports hs)

/-- The monitor at the start, with the speed to be detected. -/
def detecting (thresholds : Thresholds) : Monitor := { thresholds, mode := .auto }

theorem earnsHigh_of_detecting (t : Thresholds) (samples : List Sample) : (detecting t).EarnsHigh samples := by
  constructor
  · intro n hfound
    have hn : n < samples.length := by
      rw [← (detecting t).length_reports samples]
      exact (List.getElem?_eq_some_iff.1 hfound).1
    have hs : samples[n]? = some samples[n] := List.getElem?_eq_getElem hn
    have hstage := stage_after (m := detecting t) rfl rfl samples n (Nat.le_of_lt hn)
    refine hstage.completed ((detecting t).mode_after _) ((detecting t).thresholds_after _) hs ?_
    exact Option.some.inj (((detecting t).getElem?_reports hs).symm.trans hfound)
  · intro hhigh
    refine lastSettling_of_keepsHigh rfl rfl ?_
    unfold BusPhase.keepsHigh
    rw [hhigh, Bool.true_or]

/-- An attach, a reset and a handshake, then a suspend from high speed and a resume. -/
def resumedAtHigh : List Sample := Stimulus.samples
  [.drive .dPlus 3, .drive .se0 2, .drive .dMinus 3, .drive .se0 1, .drive .dMinus 2, .drive .dPlus 2, .drive .dMinus 2,
    .drive .dPlus 2, .drive .dMinus 2, .drive .dPlus 2, .drive .se0 20, .drive .dPlus 3, .drive .dMinus 2]

/-- At 6 kHz a chirp of two ticks is long enough, and eighteen idle ticks are a suspend. -/
theorem earnsHigh_resumed : ∃ t, Thresholds.ofClock 6000 = .ok t ∧ (detecting t).EarnsHigh resumedAtHigh ∧
    ((detecting t).reports resumedAtHigh)[20]? = some (some .hostChirp) ∧
    some .suspend ∈ ((detecting t).reports resumedAtHigh).drop 21 ∧
    some .resume ∈ ((detecting t).reports resumedAtHigh).drop 21 ∧
    ((detecting t).after resumedAtHigh).phase = .highActive := by
  refine ⟨.scaled 6000, rfl, earnsHigh_of_detecting (.scaled 6000) resumedAtHigh, ?_⟩
  decide +kernel

end Monitor
end UsbRecorder
