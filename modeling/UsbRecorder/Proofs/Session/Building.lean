import UsbRecorder.Proofs.Recorder.Packet
import UsbRecorder.Session.Setup
/-!
# Building — what of accepted settings can be built, and what a start does before it is

Settings are checked when they are resolved, and their parts check them again when they are built.  Every part accepts
what was checked, but two of them ask for more: the queue has a greatest depth and the recorder a smallest ring
(`parts_of_resolve`).  A start sets the register before anything is built, so one that is refused has set it all the
same (`start_of_create`).
-/
namespace UsbRecorder

/-- The depth of the largest queue that can be built. -/
def Crossing.maxDepth : Nat := Nat.pow 2 maxWidth

/-- The size of the smallest ring that a recorder can be built over. -/
def Recorder.minRing (captureEvents : Bool) : Nat := Record.headerSize + 2 + reserveFor captureEvents

/-- What is checked of a store. -/
structure StoreSettings.Checked (s : StoreSettings) : Prop where
  words : 2 ≤ s.words
  threshold : ∀ t ∈ s.readThreshold, t ≠ 0 ∧ t < s.outputDepth

/-- What is checked of settings. -/
structure Settings.Checked (s : Settings) : Prop where
  ring : s.ringSize.isPowerOfTwo
  queue : s.queueDepth.isPowerOfTwo ∧ 2 ≤ s.queueDepth
  store : ∀ store ∈ s.store, store.Checked
  reports : s.channelDepth ≠ 0 ∧ s.batch ≠ 0

namespace Settings

/-- What stands in the way of building settings that were checked. -/
def obstacle (s : Settings) : Option Refusal :=
  if Crossing.maxDepth < s.queueDepth then some (.crossingDepth s.queueDepth)
  else if s.ringSize < Recorder.minRing s.captureEvents then some (.ringTooSmall s.ringSize)
  else none

/-- **What comes of building the parts of accepted settings**, each on its own: only the depth of the queue and the
size of the ring can still be at fault. -/
structure Parts (s : Settings) : Prop where
  queue : if s.queueDepth ≤ Crossing.maxDepth then ∃ q, Crossing.create s.queueDepth = .ok q
    else Crossing.create s.queueDepth = .error (.crossingDepth s.queueDepth)
  samples (register : Register) : if Recorder.minRing s.captureEvents ≤ s.ringSize then
      ∃ side, SampleSide.create s register = .ok side
    else SampleSide.create s register = .error (.ringTooSmall s.ringSize)
  reports : ∃ side, ReportSide.create s = .ok side

end Settings

/-! ## What is checked -/

theorem bind_eq_ok_iff {ε : Type} {x : Except ε Unit} {rest : Unit → Except ε Unit} :
    x >>= rest = .ok () ↔ x = .ok () ∧ rest () = .ok () := by
  cases x <;> simp [bind, Except.bind]

theorem refused_eq_ok_iff {ε : Type} {p : Prop} [Decidable p] {e : ε} {x : Except ε Unit} :
    (if p then throw e else x) = .ok () ↔ ¬ p ∧ x = .ok () := by
  by_cases hp : p
  · simp [hp, throw, throwThe, MonadExceptOf.throw]
  · simp [hp]

theorem StoreSettings.check_eq_ok_iff (s : StoreSettings) : s.check = .ok () ↔ s.Checked := by
  unfold StoreSettings.check
  cases hgiven : s.readThreshold with
  | none =>
    change (if s.words < 2 then throw _ else pure ()) = _ ↔ _
    rw [refused_eq_ok_iff, Nat.not_lt]
    exact ⟨fun h => ⟨h.1, by simp [hgiven]⟩, fun h => ⟨h.words, rfl⟩⟩
  | some t =>
    change (if s.words < 2 then throw _ else if _ then throw _ else pure ()) = _ ↔ _
    rw [refused_eq_ok_iff, refused_eq_ok_iff, Nat.not_lt, not_or, Nat.not_le]
    exact ⟨fun h => ⟨h.1, by simpa [hgiven] using h.2.1⟩, fun h => ⟨h.words, h.threshold t hgiven, rfl⟩⟩

theorem Settings.check_eq_ok_iff (s : Settings) : s.check = .ok () ↔ s.Checked := by
  unfold Settings.check
  cases hstore : s.store with
  | none =>
    change (if _ then throw _ else if _ then throw _ else if _ then throw _ else pure ()) = _ ↔ _
    rw [refused_eq_ok_iff, refused_eq_ok_iff, refused_eq_ok_iff, Decidable.not_not, Decidable.not_not, not_or]
    exact ⟨fun h => ⟨h.1, h.2.1, by simp [hstore], h.2.2.1⟩, fun h => ⟨h.ring, h.queue, h.reports, rfl⟩⟩
  | some store =>
    change (if _ then throw _ else if _ then throw _
      else store.check >>= fun _ => if _ then throw _ else pure ()) = _ ↔ _
    rw [refused_eq_ok_iff, refused_eq_ok_iff, bind_eq_ok_iff, refused_eq_ok_iff, store.check_eq_ok_iff,
      Decidable.not_not, Decidable.not_not, not_or]
    exact ⟨fun h => ⟨h.1, h.2.1, by simpa [hstore] using h.2.2.1, h.2.2.2.1⟩,
      fun h => ⟨h.ring, h.queue, h.store store hstore, h.reports, rfl⟩⟩

theorem Settings.checked_of_resolve {layers : List Layer} {s : Settings} (h : resolve layers = .ok s) : s.Checked := by
  obtain ⟨_, -, h⟩ := exists_of_bind_eq_ok h
  obtain ⟨⟨⟩, hcheck, h⟩ := exists_of_bind_eq_ok h
  cases h
  exact s.check_eq_ok_iff.1 hcheck

/-! ## What can be built -/

theorem Crossing.create_of_checked {s : Settings} (h : s.Checked) : create s.queueDepth =
    if s.queueDepth ≤ maxDepth then .ok { width := s.queueDepth.log2 } else .error (.crossingDepth s.queueDepth) := by
  unfold create maxDepth
  simp only [h.queue.1, h.queue.2, true_and]

theorem Recorder.create_of_isPowerOfTwo {size : Nat} (h : size.isPowerOfTwo) (captureEvents : Bool) :
    create size captureEvents = if minRing captureEvents ≤ size then .ok { ring := { size }, captureEvents }
      else .error (.ringTooSmall size) := by
  have hring : Ring.create size = .ok { size } := if_pos h
  unfold create minRing
  rw [hring]
  by_cases hroom : Record.headerSize + 2 + reserveFor captureEvents ≤ size
  · simp [hroom, Nat.not_lt.2 hroom, bind, Except.bind, pure, Except.pure]
  · simp [hroom, Nat.lt_of_not_le hroom, bind, Except.bind, throw, throwThe, MonadExceptOf.throw]

theorem SampleSide.create_of_checked {s : Settings} (h : s.Checked) (register : Register) : create s register =
    if Recorder.minRing s.captureEvents ≤ s.ringSize then
      .ok { monitor := { thresholds := s.thresholds, mode := register.speed },
            recorder := { ring := { size := s.ringSize }, captureEvents := s.captureEvents } }
    else .error (.ringTooSmall s.ringSize) := by
  unfold create
  rw [Recorder.create_of_isPowerOfTwo h.ring]
  by_cases hroom : Recorder.minRing s.captureEvents ≤ s.ringSize
  · simp [hroom, bind, Except.bind, pure, Except.pure]
  · simp [hroom, bind, Except.bind]

theorem ReportSide.createStore_of_checked {s : StoreSettings} (h : s.Checked) : ∃ store, createStore s = .ok store := by
  have hwords : ¬ s.words < 2 := Nat.not_lt.2 h.words
  -- a threshold that is not given is half of the output buffer, which holds two words at least
  have hthreshold : ¬ (s.readThreshold.getD (max s.outputDepth 2 / 2) = 0 ∨
      max s.outputDepth 2 ≤ s.readThreshold.getD (max s.outputDepth 2 / 2)) := by
    cases hgiven : s.readThreshold with
    | none =>
      simp only [Option.getD_none]
      omega
    | some t =>
      obtain ⟨hpos, hlt⟩ := h.threshold t hgiven
      simp only [Option.getD_some]
      omega
  unfold createStore Spill.create
  rw [if_neg hwords]
  dsimp only
  rw [if_neg hthreshold]
  exact ⟨_, rfl⟩

theorem ReportSide.create_of_checked {s : Settings} (h : s.Checked) : ∃ side, create s = .ok side := by
  unfold create
  cases hstore : s.store with
  | none => exact ⟨_, rfl⟩
  | some store =>
    obtain ⟨built, hbuilt⟩ := createStore_of_checked (h.store store hstore)
    exact ⟨{ store := some built }, by simp [hbuilt, Except.map]⟩

theorem Settings.parts_of_checked {s : Settings} (h : s.Checked) : s.Parts := by
  refine ⟨?_, fun register => ?_, ReportSide.create_of_checked h⟩
  · rw [Crossing.create_of_checked h]
    by_cases hdepth : s.queueDepth ≤ Crossing.maxDepth
    · simp [hdepth]
    · simp [hdepth]
  · rw [SampleSide.create_of_checked h]
    by_cases hroom : Recorder.minRing s.captureEvents ≤ s.ringSize
    · simp [hroom]
    · simp [hroom]

/-- **Accepted settings**: the reporting side can be built from them, and the queue and the sampling side wherever the
queue is not too deep and the ring not too small; of these two the check says nothing. -/
theorem Settings.parts_of_resolve {layers : List Layer} {s : Settings} (h : resolve layers = .ok s) : s.Parts :=
  parts_of_checked (checked_of_resolve h)

/-- Layers that ask for a ring of eight bytes, which holds a packet but not a stop record beside it. -/
def crampedLayers : List Layer := [{ ringSize := some 8 }, { ringSize := some 64, captureEvents := some true }]

theorem Settings.parts_crampedRing : ∃ s, resolve crampedLayers = .ok s ∧ s.Parts ∧
    SampleSide.create s .initial = .error (.ringTooSmall 8) ∧ ∃ q, Crossing.create s.queueDepth = .ok q := by
  have hresolve : resolve crampedLayers = .ok { ringSize := 8, captureEvents := true } := rfl
  have hparts := parts_of_resolve hresolve
  exact ⟨_, hresolve, hparts, hparts.samples .initial, hparts.queue⟩

/-- It is not so that whatever is accepted can be built. -/
theorem Settings.accepted_not_built : ¬ ∀ layers s, resolve layers = .ok s →
    (∃ q, Crossing.create s.queueDepth = .ok q) ∧ (∀ register, ∃ side, SampleSide.create s register = .ok side) ∧
      ∃ side, ReportSide.create s = .ok side := by
  intro h
  have hresolve : resolve [{ ringSize := some 4 }] = .ok { ringSize := 4 } := rfl
  obtain ⟨-, hsamples, -⟩ := h _ _ hresolve
  obtain ⟨side, hside⟩ := hsamples .initial
  have hrefused : SampleSide.create { ringSize := 4 } .initial = .error (.ringTooSmall 4) := rfl
  rw [hrefused] at hside
  cases hside

/-! ## Starting -/

/-- The parts are built one after the other, and the first obstacle is the one reported. -/
theorem Pipeline.create_eq_error_iff {s : Settings} (h : s.Checked) (controls : Controls) (e : Refusal) :
    create s controls = .error e ↔ s.obstacle = some e := by
  obtain ⟨side, hreports⟩ := ReportSide.create_of_checked h
  unfold create Settings.obstacle
  rw [Crossing.create_of_checked h, SampleSide.create_of_checked h, hreports]
  by_cases hdepth : s.queueDepth ≤ Crossing.maxDepth
  · by_cases hroom : Recorder.minRing s.captureEvents ≤ s.ringSize
    · simp [hdepth, hroom, Nat.not_lt.2 hdepth, Nat.not_lt.2 hroom, bind, Except.bind, pure, Except.pure]
    · simp [hdepth, hroom, Nat.not_lt.2 hdepth, Nat.lt_of_not_le hroom, bind, Except.bind]
  · simp [hdepth, Nat.lt_of_not_le hdepth, bind, Except.bind]

theorem Setup.openSession_eq_error_iff {s : Settings} (h : s.Checked) (controls : Controls) (source : Source)
    (e : Refusal) : openSession s controls source = .error e ↔ s.obstacle = some e := by
  rw [← Pipeline.create_eq_error_iff h controls e]
  unfold openSession
  cases Pipeline.create s controls with
  | error _ => simp [Except.map]
  | ok _ => simp [Except.map]

theorem Controls.supports_standard {c : Controls} (h : c.offered = standard.offered) (speed : Speed) :
    c.supports speed = true := by
  unfold supports
  rw [h]
  cases speed <;> decide

namespace Setup

theorem checked_of_create {layers : List Layer} {c : Setup} (h : create layers = .ok c) :
    c.settings.Checked ∧ c.controls = .standard := by
  unfold create at h
  cases hresolve : Settings.resolve layers with
  | error e =>
    rw [hresolve] at h
    cases h
  | ok s =>
    rw [hresolve] at h
    cases h
    exact ⟨Settings.checked_of_resolve hresolve, rfl⟩

/-- **What a start comes to**: it is refused where something stands in the way of building the settings, and there
only; the register is set in either case, and nothing else of the setup. -/
structure Starts (c : Setup) (speed : Speed) (source : Source) : Prop where
  refused (e : Refusal) : (c.start speed source).1 = .error e ↔ c.settings.obstacle = some e
  setup : (c.start speed source).2 = { c with controls.state := .capturing speed }
  enabled : (c.start speed source).2.controls.state.enabled = true

theorem start_of_create {layers : List Layer} {c : Setup} (h : create layers = .ok c) (register : Register)
    (speed : Speed) (source : Source) : { c with controls.state := register }.Starts speed source := by
  obtain ⟨hchecked, hcontrols⟩ := checked_of_create h
  have hstart : ({ c with controls.state := register } : Setup).start speed source =
      (openSession c.settings { c.controls with state := .capturing speed } source,
        { c with controls.state := .capturing speed }) := by
    have hsupports : ({ c.controls with state := register } : Controls).supports speed = true :=
      Controls.supports_standard (by rw [hcontrols]) speed
    simp [start, Controls.start, hsupports]
  refine ⟨fun e => ?_, ?_, ?_⟩
  · rw [hstart]
    exact openSession_eq_error_iff hchecked _ source e
  · rw [hstart]
  · rw [hstart]
    exact Register.enabled_setEnabled _ true

/-- A start that is refused for its ring leaves the capture enabled; without one so small it is not refused. -/
theorem starts_tinyRing : ∃ tiny c, create [{ ringSize := some 4 }] = .ok tiny ∧ create [] = .ok c ∧
    { tiny with controls.state := .initial }.Starts .high { samples := [] } ∧
    ({ tiny with controls.state := .initial }.start .high { samples := [] }).1 = .error (.ringTooSmall 4) ∧
    ∀ e, ({ c with controls.state := .initial }.start .high { samples := [] }).1 ≠ .error e := by
  have htiny : create [{ ringSize := some 4 }] = .ok { settings := { ringSize := 4 } } := rfl
  have hdefault : create [] = .ok { settings := {} } := rfl
  have hstarts := start_of_create htiny .initial .high { samples := [] }
  refine ⟨_, _, htiny, hdefault, hstarts, (hstarts.refused _).2 (by decide), ?_⟩
  intro e he
  have hfree : ({} : Settings).obstacle = none := by decide
  have hobstacle := ((start_of_create hdefault .initial .high { samples := [] }).refused e).1 he
  rw [hfree] at hobstacle
  cases hobstacle

/-- It is not so that a start that is refused leaves the register alone. -/
theorem refused_start_sets : ¬ ∀ layers c register speed source e, create layers = .ok c →
    ({ c with controls.state := register }.start speed source).1 = .error e →
    ({ c with controls.state := register }.start speed source).2.controls.state = register := by
  intro h
  have htiny : create [{ ringSize := some 4 }] = .ok { settings := { ringSize := 4 } } := rfl
  have hkept := h _ _ .initial .high { samples := [] } (.ringTooSmall 4) htiny rfl
  revert hkept
  decide

end Setup
end UsbRecorder
