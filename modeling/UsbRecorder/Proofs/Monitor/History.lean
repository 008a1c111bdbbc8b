import UsbRecorder.Proofs.Monitor.Handshake
import UsbRecorder.Proofs.Monitor.Phases
/-!
# History — what the counters of a monitor tell of the run behind it

All phases share one counter for the line, started anew when the line or the phase changes; `Unchanged` states what it
stands for, `Fed` the same of the counter for the power and `Waiting` of the timer after high-speed squelch.  A tick
keeps each of them, so a threshold that is met tells what the samples before it were: `Lasted`, `PulseEnded`,
`Supplied`, `Squelched`.
-/
namespace UsbRecorder
namespace Monitor

section Run

variable (m : Monitor) (t : Thresholds) (samples : List Sample)

/-- The monitor as it reads a tick. -/
def onTick (n : Nat) : Monitor := m.after (samples.take n)

/-- The phase in which a tick is read. -/
def phaseAt (n : Nat) : BusPhase := (m.onTick samples n).phase

/-- What is reported from the tick `first` on and before the tick `last`. -/
def reportsOn (first last : Nat) : List (Option BusEvent) := ((m.reports samples).take last).drop first

/-- **On the tick `n` the line has lasted** for so many ticks since the first on which it was seen at the level.  The
phase was entered on that tick at the latest: the line before it does not count. -/
structure Lasted (level : Line) (ticks n : Nat) : Prop where
  enough : ticks ≤ n
  held : Held samples level (n - ticks) (n + 1)
  phase : ∀ k, n - ticks < k → k ≤ n → m.phaseAt samples k = m.phaseAt samples n

/-- **On the tick `n` an SE0 of the length of a pulse has just ended** with the line at the level.  The tick before the
first of the SE0 had another line, and the phase was entered before the SE0 began. -/
structure PulseEnded (level : Line) (first n : Nat) : Prop where
  order : 0 < first ∧ first < n
  before : lineAt samples (first - 1) ≠ some .se0
  held : Held samples .se0 first n
  after : lineAt samples n = some level
  length : t.pulseMin.toNat ≤ n - first ∧ n - first ≤ t.pulseMax.toNat
  phase : ∀ k, first ≤ k → k ≤ n → m.phaseAt samples k = m.phaseAt samples n

/-- **Before the tick `n` there was power** for so many ticks, all of them in the phase of this one. -/
structure Supplied (ticks n : Nat) : Prop where
  enough : ticks ≤ n
  present : ∀ k, n - ticks ≤ k → k < n → samples[k]?.map Sample.vbus = some true
  phase : ∀ k, n - ticks ≤ k → k ≤ n → m.phaseAt samples k = m.phaseAt samples n

/-- **The wait after high-speed squelch is over on the tick `n`**, the squelch having lasted on the tick before it. -/
structure Squelched (n : Nat) : Prop where
  enough : t.settle.toNat + 1 ≤ n
  high : m.phaseAt samples (n - (t.settle.toNat + 1)) = .highActive
  lasted : m.Lasted samples .se0 t.suspend.toNat (n - (t.settle.toNat + 1))

/-! ## What the counters stand for -/

/-- The line and the phase have not changed since the tick `first`, on which one of them did. -/
structure Unchanged (first n : Nat) : Prop where
  before : first < n
  line : Held samples (m.onTick samples n).lastLine first n
  phase : ∀ k, first < k → k ≤ n → m.phaseAt samples k = m.phaseAt samples n
  time : (m.onTick samples n).lineTime = min (n - (first + 1)) timerMax
  fresh : first = 0 ∨ lineAt samples (first - 1) ≠ some (m.onTick samples n).lastLine ∨
    m.phaseAt samples first ≠ m.phaseAt samples n

/-- There was power from the tick `first` on, and a phase without power was entered before it. -/
structure Fed (first n : Nat) : Prop where
  present : ∀ k, first ≤ k → k < n → samples[k]?.map Sample.vbus = some true
  time : first + (m.onTick samples n).vbusTime ≤ n
  phase : m.phaseAt samples n = .unpowered → ∀ k, first ≤ k → k ≤ n → m.phaseAt samples k = .unpowered

/-- High-speed squelch had lasted on the tick `p`, and the timer has counted the ticks after it. -/
structure Waiting (p n : Nat) : Prop where
  before : p < n
  high : m.phaseAt samples p = .highActive
  lasted : m.Lasted samples .se0 t.suspend.toNat p
  time : (m.onTick samples n).timer = n - (p + 1)
  inTime : n - (p + 1) ≤ t.settle.toNat

end Run

variable {m : Monitor} {t : Thresholds} {samples : List Sample} {n : Nat} {s : Sample}

theorem Sight.heldAt_iff {l : Sight} {line : Line} {ticks : UInt32} :
    l.heldAt line ticks = true ↔ l.line = line ∧ ticks.toNat ≤ l.held := by
  unfold heldAt
  rw [Bool.and_eq_true, beq_iff_eq, decide_eq_true_iff]

theorem Sight.isPulseEnd_iff {l : Sight} {idle : Line} : l.isPulseEnd idle t = true ↔ l.line ≠ l.before ∧
    l.line = idle ∧ l.before = .se0 ∧ t.pulseMin.toNat ≤ l.lasted ∧ l.lasted ≤ t.pulseMax.toNat := by
  simp [isPulseEnd, changed, Thresholds.inPulseRange, and_assoc]

theorem onTick_succ (m : Monitor) (hs : samples[n]? = some s) :
    m.onTick samples (n + 1) = ((m.onTick samples n).step s).2 := m.after_take_succ hs

theorem phaseAt_succ (m : Monitor) (hs : samples[n]? = some s) :
    m.phaseAt samples (n + 1) = ((m.onTick samples n).move s ((m.onTick samples n).sight s.line)).next := by
  unfold phaseAt
  rw [m.onTick_succ hs]
  rfl

/-- What is reported on a tick is what its sample makes of the monitor that reads it. -/
theorem sample_of_report (m : Monitor) {report : Option BusEvent} (h : (m.reports samples)[n]? = some report) :
    ∃ s, samples[n]? = some s ∧ ((m.onTick samples n).step s).1 = report := by
  have hn : n < samples.length := by
    rw [← m.length_reports samples]
    exact (List.getElem?_eq_some_iff.1 h).1
  have hs : samples[n]? = some samples[n] := List.getElem?_eq_getElem hn
  exact ⟨samples[n], hs, Option.some.inj ((m.getElem?_reports hs).symm.trans h)⟩

theorem reportsOn_self (m : Monitor) (samples : List Sample) (n : Nat) : m.reportsOn samples n n = [] :=
  List.drop_eq_nil_of_le (List.length_take_le n _)

theorem reportsOn_succ (m : Monitor) {first : Nat} (hfirst : first ≤ n) (hs : samples[n]? = some s) :
    m.reportsOn samples first (n + 1) = m.reportsOn samples first n ++ [((m.onTick samples n).step s).1] := by
  have hn : n < (m.reports samples).length := by
    rw [length_reports]
    exact (List.getElem?_eq_some_iff.1 hs).1
  unfold reportsOn
  rw [List.take_add_one, m.getElem?_reports hs, List.drop_append_of_le_length]
  · rfl
  · rw [List.length_take_of_le (Nat.le_of_lt hn)]
    exact hfirst

theorem lastLine_succ (m : Monitor) (hs : samples[n]? = some s) : (m.onTick samples (n + 1)).lastLine = s.line := by
  rw [m.onTick_succ hs]
  rfl

/-! The counters go on, or start anew. -/

theorem lineTime_succ (m : Monitor) (hs : samples[n]? = some s) : (m.onTick samples (n + 1)).lineTime =
    if m.phaseAt samples (n + 1) = m.phaseAt samples n then ((m.onTick samples n).sight s.line).held else 0 := by
  rw [m.phaseAt_succ hs, m.onTick_succ hs]
  rfl

theorem vbusTime_succ (m : Monitor) (hs : samples[n]? = some s) : (m.onTick samples (n + 1)).vbusTime =
    if s.vbus then later (m.onTick samples n).vbusTime else 0 := by
  rw [m.onTick_succ hs]
  rfl

theorem timer_succ (m : Monitor) (hs : samples[n]? = some s) : (m.onTick samples (n + 1)).timer =
    if ((m.onTick samples n).move s ((m.onTick samples n).sight s.line)).restart then 0
    else later (m.onTick samples n).timer := by
  rw [m.onTick_succ hs]
  rfl

theorem thresholds_onTick (m : Monitor) (samples : List Sample) (n : Nat) :
    (m.onTick samples n).thresholds = m.thresholds := m.thresholds_after _

theorem mode_onTick (m : Monitor) (samples : List Sample) (n : Nat) : (m.onTick samples n).mode = m.mode :=
  m.mode_after _

/-! ## The line -/

/-- A tick that changes the line or the phase starts the counter of the line anew. -/
theorem unchanged_from (hs : samples[n]? = some s) (htime : (m.onTick samples (n + 1)).lineTime = 0)
    (hfresh : n = 0 ∨ lineAt samples (n - 1) ≠ some s.line ∨ m.phaseAt samples n ≠ m.phaseAt samples (n + 1)) :
    m.Unchanged samples n (n + 1) where
  before := Nat.lt_succ_self n
  line := by
    rw [m.lastLine_succ hs]
    exact (HeldFor.one hs rfl).2
  phase k hfrom hto := by rw [Nat.le_antisymm hto hfrom]
  time := by simp [htime]
  fresh := by rwa [m.lastLine_succ hs]

theorem Unchanged.next {first : Nat} (h : m.Unchanged samples first n) (hs : samples[n]? = some s) :
    ∃ first, m.Unchanged samples first (n + 1) := by
  have hlast := m.lastLine_succ hs
  have htime := m.lineTime_succ hs
  unfold sight at htime
  dsimp only at htime
  by_cases hphase : m.phaseAt samples (n + 1) = m.phaseAt samples n
  · rw [if_pos hphase] at htime
    by_cases hline : s.line = (m.onTick samples n).lastLine
    · refine ⟨first, ⟨Nat.lt_succ_of_lt h.before, ?_, ?_, ?_, ?_⟩⟩
      · rw [hlast]
        exact (hline ▸ h.line).next hs rfl
      · intro k hfrom hto
        by_cases hk : k = n + 1
        · rw [hk]
        · rw [h.phase k hfrom (by omega), hphase]
      · have hbefore := h.before
        rw [htime, if_pos hline, h.time]
        unfold later
        omega
      · rw [hlast, hline, hphase]
        exact h.fresh
    · refine ⟨n, unchanged_from hs (by rw [htime, if_neg hline]) (.inr (.inl ?_))⟩
      have hbefore := h.before
      rw [h.line (n - 1) (by omega) (by omega)]
      simpa using Ne.symm hline
  · rw [if_neg hphase] at htime
    exact ⟨n, unchanged_from hs htime (.inr (.inr (Ne.symm hphase)))⟩

theorem phaseAt_zero (m : Monitor) (samples : List Sample) : m.phaseAt samples 0 = m.phase := rfl

/-- The first tick leaves the first phase. -/
theorem phaseAt_one (hstart : m.phase = .initial) (hs : samples[0]? = some s) :
    m.phaseAt samples 1 = m.startPhase s.vbus := by
  rw [m.phaseAt_succ hs]
  simp only [onTick, List.take_zero, after, List.foldl_nil, move, hstart, BusPhase.watchesPower, Bool.and_false,
    Bool.false_eq_true, if_false]
  rfl

theorem unchanged_after (hstart : m.phase = .initial) (hpos : 0 < n) (hn : n ≤ samples.length) :
    ∃ first, m.Unchanged samples first n := by
  induction n with
  | zero => cases hpos
  | succ n ih =>
    have hs : samples[n]? = some samples[n] := List.getElem?_eq_getElem hn
    cases n with
    | zero =>
      have hleft : m.phaseAt samples 1 ≠ m.phaseAt samples 0 := by
        intro hsame
        rw [phaseAt_one hstart hs, m.phaseAt_zero, hstart] at hsame
        exact absurd (hsame ▸ m.startPhase_mem samples[0].vbus) (by decide)
      exact ⟨0, unchanged_from hs (by rw [m.lineTime_succ hs, if_neg hleft]) (.inl rfl)⟩
    | succ k =>
      obtain ⟨first, h⟩ := ih (Nat.succ_pos k) (Nat.le_of_succ_le hn)
      exact h.next hs

/-- **A threshold of the line is met by the samples of the phase alone.** -/
theorem Unchanged.lasted {first : Nat} (h : m.Unchanged samples first n) (hs : samples[n]? = some s) {level : Line}
    {ticks : UInt32} (hheld : ((m.onTick samples n).sight s.line).heldAt level ticks = true) :
    m.Lasted samples level ticks.toNat n := by
  obtain ⟨hline, henough⟩ := Sight.heldAt_iff.1 hheld
  change s.line = level at hline
  have hbefore := h.before
  unfold sight later at henough
  dsimp only at henough
  by_cases hlast : s.line = (m.onTick samples n).lastLine
  · rw [if_pos hlast, h.time] at henough
    refine ⟨by omega, fun k hfrom hto => ?_, fun k hfrom hto => h.phase k (by omega) hto⟩
    exact (hlast ▸ h.line).next hs rfl k (by omega) hto |>.trans (congrArg some hline)
  · rw [if_neg hlast] at henough
    have hnone : ticks.toNat = 0 := by omega
    rw [hnone]
    exact ⟨Nat.zero_le n, (HeldFor.one hs hline).2, fun k hfrom hto => by rw [Nat.le_antisymm hto (Nat.le_of_lt hfrom)]⟩

theorem pos_of_phaseAt (hstart : m.phase = .initial) {phase : BusPhase} (h : m.phaseAt samples n = phase)
    (hphase : phase ≠ .initial) : 0 < n := by
  refine Nat.pos_of_ne_zero fun hzero => hphase ?_
  rw [← h, hzero, m.phaseAt_zero, hstart]

/-- An SE0 within a low-speed phase began in it, since no way into the phase leads over an SE0. -/
theorem Unchanged.began {first : Nat} (h : m.Unchanged samples first n) (hstart : m.phase = .initial)
    (hn : n ≤ samples.length) (hphase : m.phaseAt samples n = .lowActive)
    (hline : (m.onTick samples n).lastLine = .se0) :
    m.phaseAt samples first = .lowActive ∧ 0 < first ∧ lineAt samples (first - 1) ≠ some .se0 := by
  have hbefore := h.before
  have hs : samples[first]? = some samples[first] := List.getElem?_eq_getElem (by omega)
  have hse0 : samples[first].line = .se0 := by
    have hheld := h.line first (Nat.le_refl _) hbefore
    rw [lineAt_of_sample hs, hline] at hheld
    exact Option.some.inj hheld
  have hentered : m.phaseAt samples first = .lowActive := by
    by_contra hne
    have hnext := h.phase (first + 1) (Nat.lt_succ_self first) hbefore
    rw [hphase, m.phaseAt_succ hs] at hnext
    exact line_of_lowActive hnext hne hse0
  have hpos : 0 < first := pos_of_phaseAt hstart hentered nofun
  refine ⟨hentered, hpos, ?_⟩
  obtain hzero | hchanged | hother := h.fresh
  · exact absurd hzero (Nat.ne_of_gt hpos)
  · rwa [hline] at hchanged
  · exact absurd (hentered.trans hphase.symm) hother

/-- **A pulse is measured in full**, where the counter reaches beyond the longest pulse. -/
theorem Unchanged.pulseEnded {first : Nat} (h : m.Unchanged samples first n) (hstart : m.phase = .initial)
    (hs : samples[n]? = some s) (hphase : m.phaseAt samples n = .lowActive) {level : Line}
    (hmax : t.pulseMax.toNat < timerMax) (hpulse : ((m.onTick samples n).sight s.line).isPulseEnd level t = true) :
    ∃ first, m.PulseEnded t samples level first n := by
  obtain ⟨-, hline, hlast, hmin, hle⟩ := Sight.isPulseEnd_iff.1 hpulse
  change s.line = level at hline
  change (m.onTick samples n).lastLine = .se0 at hlast
  change _ ≤ later (m.onTick samples n).lineTime at hmin
  change later (m.onTick samples n).lineTime ≤ _ at hle
  have hn : n < samples.length := (List.getElem?_eq_some_iff.1 hs).1
  obtain ⟨hentered, hpos, hprevious⟩ := h.began hstart (Nat.le_of_lt hn) hphase hlast
  have hbefore := h.before
  rw [h.time] at hmin hle
  unfold later at hmin hle
  refine ⟨first, ⟨hpos, hbefore⟩, hprevious, hlast ▸ h.line, ?_, by omega, fun k hfrom hto => ?_⟩
  · rw [lineAt_of_sample hs, hline]
  · by_cases hk : k = first
    · rw [hk, hentered, hphase]
    · exact h.phase k (by omega) hto

/-! ## The power -/

theorem Fed.next {first : Nat} (h : m.Fed samples first n) (hfirst : first ≤ n) (hs : samples[n]? = some s) :
    ∃ first ≤ n + 1, m.Fed samples first (n + 1) := by
  have htime := m.vbusTime_succ hs
  -- a tick without power, or one that does not stay without it, leaves nothing to count
  have hanew (hzero : (m.onTick samples (n + 1)).vbusTime = 0) : ∃ first ≤ n + 1, m.Fed samples first (n + 1) :=
    ⟨n + 1, Nat.le_refl _, fun k hfrom hto => by omega, by omega, fun hphase k hfrom hto => by
      rwa [Nat.le_antisymm hto hfrom]⟩
  cases hvbus : s.vbus with
  | false => exact hanew (by simp [htime, hvbus])
  | true =>
    rw [hvbus, if_pos rfl] at htime
    have hfed := h.time
    refine ⟨first, Nat.le_succ_of_le hfirst, fun k hfrom hto => ?_, by unfold later at htime; omega, ?_⟩
    · by_cases hk : k = n
      · rw [hk, hs]
        exact congrArg some hvbus
      · exact h.present k hfrom (by omega)
    · intro hphase k hfrom hto
      have hbefore : m.phaseAt samples n = .unpowered := by
        by_contra hne
        rw [m.phaseAt_succ hs] at hphase
        exact Bool.false_ne_true ((vbus_of_unpowered hphase hne).symm.trans hvbus)
      by_cases hk : k = n + 1
      · rwa [hk]
      · exact h.phase hbefore k hfrom (by omega)

theorem fed_after (hvbus : m.vbusTime = 0) (hstart : m.phase = .initial) (hn : n ≤ samples.length) :
    ∃ first ≤ n, m.Fed samples first n := by
  induction n with
  | zero =>
    refine ⟨0, Nat.le_refl 0, fun k hfrom hto => by omega, by simp [onTick, after, hvbus], fun hphase => ?_⟩
    exact absurd (pos_of_phaseAt hstart hphase (by decide)) (Nat.lt_irrefl 0)
  | succ n ih =>
    obtain ⟨first, hfirst, h⟩ := ih (Nat.le_of_succ_le hn)
    exact h.next hfirst (List.getElem?_eq_getElem hn)

/-- **The debounce is met by samples with power alone.** -/
theorem Fed.supplied {first : Nat} (h : m.Fed samples first n) (hphase : m.phaseAt samples n = .unpowered) {ticks : Nat}
    (henough : ticks ≤ (m.onTick samples n).vbusTime) : m.Supplied samples ticks n := by
  have htime := h.time
  refine ⟨by omega, fun k hfrom hto => h.present k (by omega) hto, fun k hfrom hto => ?_⟩
  rw [hphase, h.phase hphase k (by omega) hto]

/-! ## The wait after squelch -/

theorem squelched_of_next {l : Sight} (hnext : (m.move s l).next = .squelched) :
    m.phase = .highActive ∧ l.heldAt .se0 m.thresholds.suspend = true ∧ (m.move s l).restart = true ∨
      m.phase = .squelched ∧ m.timer < m.thresholds.settle.toNat ∧ (m.move s l).restart = false := by
  obtain ⟨-, hlost⟩ | hstays | hfollows := m.next_move s l
  · cases hnext.symm.trans hlost
  · have hphase := hstays.symm.trans hnext
    unfold move at hnext ⊢
    split at hnext
    · cases hnext
    · rename_i hpower
      rw [if_neg hpower]
      simp only [hphase, moveSquelched] at hnext ⊢
      split_ifs at hnext ⊢ with htime hline
      · exact .inr ⟨trivial, htime, rfl⟩
      all_goals cases hnext
  · rw [hnext] at hfollows
    cases hp : m.phase with
    | highActive =>
      unfold move at hnext ⊢
      split at hnext
      · cases hnext
      · rename_i hpower
        rw [if_neg hpower]
        simp only [hp, moveHighActive] at hnext ⊢
        split_ifs at hnext ⊢ with hheld
        · exact .inl ⟨trivial, hheld, rfl⟩
        · cases hp.symm.trans hnext
    | _ =>
      rw [hp] at hfollows
      exact absurd hfollows (by decide)

theorem Waiting.next {p : Nat} (h : m.Waiting t samples p n) (ht : m.thresholds = t) (hs : samples[n]? = some s)
    (htime : (m.onTick samples n).timer < (m.onTick samples n).thresholds.settle.toNat)
    (hrestart : ((m.onTick samples n).move s ((m.onTick samples n).sight s.line)).restart = false) :
    m.Waiting t samples p (n + 1) := by
  have htimer := m.timer_succ hs
  have hmax := toNat_le_timerMax t.settle
  have hbefore := h.before
  rw [m.thresholds_onTick, ht, h.time] at htime
  rw [hrestart, if_neg Bool.false_ne_true, h.time] at htimer
  unfold later at htimer
  exact ⟨by omega, h.high, h.lasted, by omega, by omega⟩

theorem waiting_after (ht : m.thresholds = t) (hstart : m.phase = .initial) (hn : n ≤ samples.length)
    (hphase : m.phaseAt samples n = .squelched) : ∃ p, m.Waiting t samples p n := by
  induction n with
  | zero => exact absurd (pos_of_phaseAt hstart hphase (by decide)) (Nat.lt_irrefl 0)
  | succ n ih =>
    have hs : samples[n]? = some samples[n] := List.getElem?_eq_getElem hn
    rw [m.phaseAt_succ hs] at hphase
    obtain ⟨hhigh, hheld, hrestart⟩ | ⟨hwaits, htime, hrestart⟩ := squelched_of_next hphase
    · have hpos : 0 < n := pos_of_phaseAt hstart hhigh nofun
      obtain ⟨first, hsame⟩ := unchanged_after hstart hpos (Nat.le_of_succ_le hn)
      have hlasted := hsame.lasted hs hheld
      rw [m.thresholds_onTick, ht] at hlasted
      refine ⟨n, Nat.lt_succ_self n, hhigh, hlasted, ?_, by omega⟩
      rw [m.timer_succ hs, hrestart, if_pos rfl, Nat.sub_self]
    · obtain ⟨p, h⟩ := ih (Nat.le_of_succ_le hn) hwaits
      exact ⟨p, h.next ht hs htime hrestart⟩

/-- **The wait is as long as the threshold.** -/
theorem Waiting.squelched {p : Nat} (h : m.Waiting t samples p n)
    (hover : t.settle.toNat ≤ (m.onTick samples n).timer) : m.Squelched t samples n := by
  have hbefore := h.before
  have htime := h.time
  have hin := h.inTime
  have hp : n - (t.settle.toNat + 1) = p := by omega
  exact ⟨by omega, hp ▸ h.high, hp ▸ h.lasted⟩

end Monitor
end UsbRecorder
