import Mathlib.Data.List.Induction
import UsbRecorder.Pipeline.LockStep
import UsbRecorder.Proofs.Crossing.Closing
import UsbRecorder.Proofs.Pipeline.Conservation
/-!
# Completion — a capture is reported complete only when it is

Both reports of completion are decided from pointers that come late.  Neither is ever early (`neverEarly_of_create`): a
pipeline that is over has delivered or discarded all that was pushed and stays over, and one in lock step that was
drained holds nothing anywhere.
-/
namespace UsbRecorder

/-! ## Nothing comes of nothing -/

namespace Spill

variable {s : Spill}

theorem isEmpty_iff : s.isEmpty = true ↔ s.level = 0 ∧ s.output.toList = [] ∧ s.burst = none := by
  unfold isEmpty
  rw [Bool.and_eq_true, Bool.and_eq_true, beq_iff_eq, Fifo.isEmpty_iff, Option.isNone_iff_eq_none, and_assoc]

/-- An empty store without input does nothing. -/
theorem tick_of_isEmpty {σ : Type} [BeatSource σ] (h : s.isEmpty = true) {input : σ}
    (hnone : BeatSource.offered input = none) : (s.tick input).2 = input ∧ (s.tick input).1.isEmpty = true := by
  obtain ⟨hlevel, houtput, hburst⟩ := isEmpty_iff.1 h
  have hmove : s.move input = (s, input) := by
    unfold move
    rw [hburst, hnone]
    unfold begin
    simp [hlevel]
  unfold tick
  rw [hmove]
  refine ⟨rfl, isEmpty_iff.2 ⟨hlevel, houtput, ?_⟩⟩
  show (if s.memory.tick.isIdle then none else s.burst) = none
  rw [hburst, ite_self]

theorem take_of_isEmpty (h : s.isEmpty = true) : s.take.1 = none ∧ s.take.2.isEmpty = true := by
  obtain ⟨hlevel, houtput, hburst⟩ := isEmpty_iff.1 h
  refine ⟨?_, isEmpty_iff.2 ⟨hlevel, ?_, hburst⟩⟩
  · show s.output.head? = none
    rw [Fifo.head?_eq, houtput]
    rfl
  · show s.output.tail.toList = []
    rw [Fifo.toList_tail, houtput]
    rfl

end Spill

namespace ReportSide

variable {r : ReportSide} {q : Crossing}

theorem stored_of_storeIsEmpty (h : r.storeIsEmpty = true) : r.stored = 0 := by
  unfold storeIsEmpty at h
  unfold stored
  cases hs : r.store with
  | none => rfl
  | some s =>
    rw [hs] at h
    obtain ⟨hlevel, houtput, -⟩ := Spill.isEmpty_iff.1 (show s.isEmpty = true from h)
    show s.level + s.output.size = 0
    rw [hlevel, ← Fifo.length_toList, houtput]
    rfl

theorem clean_of_nothing (hstored : r.stored = 0) (hlevel : q.receiverLevel = 0) : r.clean q = (r, q) := by
  have hnothing : r.dropStale q = (r, q) := by
    unfold dropStale
    dsimp only
    rw [hstored, hlevel, if_pos (.inl rfl)]
  unfold clean
  rw [hnothing, ite_self]

theorem fetch_of_nothing (hstore : r.storeIsEmpty = true) (hnone : BeatSource.offered q = none) (wanted : Bool) :
    ∃ r', r.fetch q wanted = (none, r', q) ∧ r'.storeIsEmpty = true := by
  unfold fetch
  cases hs : r.store with
  | none =>
    have htake : q.take = (none, q) := by
      unfold Crossing.take
      rw [show q.offered = none from hnone]
    dsimp only
    rw [htake]
    exact ⟨r, by split <;> rfl, hstore⟩
  | some s =>
    have hempty : s.isEmpty = true := by
      unfold storeIsEmpty at hstore
      rwa [hs] at hstore
    obtain ⟨hinput, hticked⟩ := Spill.tick_of_isEmpty hempty hnone
    obtain ⟨hbeat, htaken⟩ := Spill.take_of_isEmpty hticked
    dsimp only
    cases wanted with
    | true =>
      rw [if_pos rfl, hbeat, hinput]
      exact ⟨_, rfl, htaken⟩
    | false =>
      rw [if_neg Bool.false_ne_true, hinput]
      exact ⟨_, rfl, hticked⟩

end ReportSide

namespace Pipeline

variable {p : Pipeline} {settings : Settings} {controls : Controls}

/-! ## A queue that is over -/

/-- The sampling side has gone, and all that it sent has been read. -/
def isOver (p : Pipeline) : Bool := p.reports.isOver p.queue

theorem closing_step (h : p.queue.Closing) (a : Action) : (p.step a).2.queue.Closing := by
  cases a with
  | sample s =>
    cases hclosed : p.queue.closed with
    | true =>
      rw [step_sample_of_closed hclosed]
      exact h
    | false => exact h.sent hclosed (p.sent_step_sample s)
  | report ready => exact h.received (p.received_report ready)
  | discard =>
    cases hclosed : p.queue.closed with
    | true =>
      rw [step_discard_of_closed hclosed]
      exact h
    | false => exact h.sent hclosed p.sent_step_discard
  | request r => exact h
  | drop => exact h.call .close nofun

theorem closing_after (h : p.queue.Closing) (actions : List Action) : (p.after actions).queue.Closing := by
  induction actions generalizing p with
  | nil => exact h
  | cons a actions ih => exact ih (closing_step h a)

/-- The queue is closed by a drop, and by nothing else. -/
theorem drop_mem_of_closed {actions : List Action} (hopen : p.queue.closed = false)
    (h : (p.after actions).queue.closed = true) : .drop ∈ actions := by
  induction actions generalizing p with
  | nil => cases hopen.symm.trans h
  | cons a actions ih =>
    cases a with
    | drop => exact List.mem_cons_self
    | sample s => exact List.mem_cons_of_mem _ (ih (((p.sent_step_sample s).closed rfl).trans hopen) h)
    | report ready => exact List.mem_cons_of_mem _ (ih (((p.received_report ready).closed rfl).trans hopen) h)
    | discard => exact List.mem_cons_of_mem _ (ih ((p.sent_step_discard.closed rfl).trans hopen) h)
    | request r => exact List.mem_cons_of_mem _ (ih (p := (p.step (.request r)).2) hopen h)

/-- All has passed the reader that was sent. -/
theorem passed_of_isOver {sent : List Beat} (hc : p.queue.Closing)
    (h : Carried p.reports.store p.queue sent p.reports.passed) (hover : p.isOver = true) :
    p.reports.passed = sent.length := by
  obtain ⟨gone, seenGone, seenSent, hw, hstored⟩ := h
  unfold isOver ReportSide.isOver at hover
  rw [Bool.and_eq_true] at hover
  have hgone := hw.gone_of_isOver hc hover.1
  obtain ⟨hle, hheld⟩ := ReportSide.stored_eq hstored (Nat.le_of_eq hgone)
  rw [ReportSide.stored_of_storeIsEmpty hover.2] at hheld
  omega

/-- A tick of the reporting clock finds nothing to do. -/
theorem isOver_report {sent : List Beat} (hc : p.queue.Closing)
    (h : Carried p.reports.store p.queue sent p.reports.passed) (hover : p.isOver = true) (ready : Bool) :
    (p.report ready).2.isOver = true := by
  obtain ⟨gone, seenGone, seenSent, hw, hstored⟩ := h
  unfold isOver ReportSide.isOver at hover
  obtain ⟨hqueue, hstore⟩ := Bool.and_eq_true_iff.1 hover
  have hgone := hw.gone_of_isOver hc hqueue
  obtain ⟨seenSent', hseen, hw'⟩ := hw.receiverTick
  have hall := hw'.seenSent_le
  have hbefore := hw.gone_le
  have hlevel : p.queue.receiverTick.receiverLevel = 0 := by
    rw [hw'.receiverLevel_eq]
    omega
  have hnone : p.queue.receiverTick.offered = none := hw'.offered_of_eq (by omega)
  have hclean : (p.reports.hear p.queue.mark).clean p.queue.receiverTick =
      (p.reports.hear p.queue.mark, p.queue.receiverTick) :=
    ReportSide.clean_of_nothing (ReportSide.stored_of_storeIsEmpty hstore) hlevel
  obtain ⟨r', hfetch, hempty⟩ := ReportSide.fetch_of_nothing (r := p.reports.hear p.queue.mark) hstore hnone
    (ready || (p.reports.hear p.queue.mark).skipping)
  have htick := ReportSide.tick_of_none hclean hfetch
  show (p.reports.tick p.queue ready).2.1.isOver (p.reports.tick p.queue ready).2.2 = true
  rw [htick]
  exact Bool.and_eq_true_iff.2 ⟨hc.isOver_receiverTick hqueue, hempty⟩

/-- **What is over stays over.** -/
theorem isOver_after (h : create settings controls = .ok p) (before : List Action)
    (hover : (p.after before).isOver = true) (more : List Action) : (p.after (before ++ more)).isOver = true := by
  induction more using List.reverseRecOn with
  | nil => rwa [List.append_nil]
  | append_singleton more a ih =>
    have hc : (p.after (before ++ more)).queue.Closing :=
      closing_after (Crossing.closing_create (create_queue h)) _
    have hclosed : (p.after (before ++ more)).queue.closed = true :=
      (hc.of_isOver (Bool.and_eq_true_iff.1 ih).1).1
    rw [← List.append_assoc, after_append]
    show ((p.after (before ++ more)).step a).2.isOver = true
    cases a with
    | report ready => exact isOver_report hc (carried_after h _) ih ready
    | sample s => rwa [step_sample_of_closed hclosed]
    | discard => rwa [step_discard_of_closed hclosed]
    | request r => exact ih
    | drop =>
      unfold isOver ReportSide.isOver at ih ⊢
      exact ih

/-- **A pipeline that is over.** -/
structure Finished (p : Pipeline) (actions : List Action) : Prop where
  /-- the sampling side has gone -/
  dropped : .drop ∈ actions
  /-- every byte that was pushed was delivered or is counted as discarded -/
  read : (p.after actions).statistics.pushed =
    (p.delivered actions).length + (p.after actions).statistics.discarded
  stays : ∀ more, (p.after (actions ++ more)).isOver = true

theorem finished_of_isOver (h : create settings controls = .ok p) {actions : List Action}
    (hover : (p.after actions).isOver = true) : p.Finished actions := by
  have hcreated := create_queue h
  have hc := closing_after (Crossing.closing_create hcreated) actions
  have hclosed := (hc.of_isOver (Bool.and_eq_true_iff.1 hover).1).1
  have hcarried := carried_after h actions
  refine ⟨drop_mem_of_closed (Crossing.counters_create hcreated).2.1 hclosed, ?_, isOver_after h actions hover⟩
  rw [delivered_discarded h, passed_of_isOver hc hcarried hover]
  obtain ⟨gone, seenGone, seenSent, hw, -⟩ := hcarried
  exact hw.pushed

end Pipeline

/-! ## A pipeline in lock step -/

namespace LockStep

variable {a : LockStep} {p : Pipeline} {taken : List Beat} {settings : Settings} {controls : Controls}

/-- **A pipeline in lock step is one under an interleaving**: its reader has been given what the interleaving delivers,
and its sampling side is there. -/
def Follows (a : LockStep) (p : Pipeline) (taken : List Beat) : Prop :=
  ∃ actions, a.pipeline = p.after actions ∧ taken ++ a.output.toList = p.delivered actions ∧
    a.pipeline.queue.closed = false

namespace Follows

theorem tick (h : a.Follows p taken) (s : Sample) : (a.tick s).Follows p taken := by
  obtain ⟨actions, hpipeline, houtput, hopen⟩ := h
  have hsample := Pipeline.step_sample_of_open hopen s
  refine ⟨actions ++ [.sample s, .report a.ready], ?_, ?_, ?_⟩
  · rw [Pipeline.after_append, ← hpipeline]
    show ((a.pipeline.sample s).report a.ready).2 = (((a.pipeline.step (.sample s)).2).report a.ready).2
    rw [hsample]
  · rw [Pipeline.delivered_append, ← hpipeline, ← houtput, List.append_assoc]
    refine congrArg (taken ++ ·) ?_
    show (a.tick s).output.toList = _ ++ ((a.pipeline.step (.sample s)).1.toList ++
      ((((a.pipeline.step (.sample s)).2).report a.ready).1.toList ++ []))
    rw [hsample]
    unfold LockStep.tick
    dsimp only
    cases ((a.pipeline.sample s).report a.ready).1 <;> simp
  · show ((a.pipeline.sample s).report a.ready).2.queue.closed = false
    rw [((a.pipeline.sample s).received_report a.ready).closed rfl, (a.pipeline.sent_sample s).closed rfl, hopen]

theorem drainOn (h : a.Follows p taken) (quiet : Sample) (limit : Nat) :
    (LockStep.drainOn quiet limit a).2.Follows p taken := by
  induction limit generalizing a with
  | zero => exact h
  | succ limit ih =>
    unfold LockStep.drainOn
    split
    · exact h
    · exact ih (h.tick quiet)

/-- An action on the pipeline alone, by which nothing is delivered. -/
theorem silent (h : a.Follows p taken) (x : Pipeline.Action) (hsilent : (a.pipeline.step x).1 = none)
    (hopen : (a.pipeline.step x).2.queue.closed = false) :
    Follows { a with pipeline := (a.pipeline.step x).2 } p taken := by
  obtain ⟨actions, hpipeline, houtput, -⟩ := h
  refine ⟨actions ++ [x], ?_, ?_, hopen⟩
  · rw [Pipeline.after_append, ← hpipeline]
    rfl
  · rw [Pipeline.delivered_append, ← hpipeline, ← houtput]
    show taken ++ a.output.toList = taken ++ a.output.toList ++ ((a.pipeline.step x).1.toList ++ [])
    rw [hsilent]
    simp

/-- **Every action in lock step follows the interleaving.** -/
theorem step (h : a.Follows p taken) (x : Action) : (a.step x).Follows p (taken ++ a.taken [x]) := by
  have hopen : a.pipeline.queue.closed = false := h.choose_spec.2.2
  cases x with
  | tick s =>
    rw [show a.taken [.tick s] = [] from rfl, List.append_nil]
    exact h.tick s
  | ready on =>
    rw [show a.taken [.ready on] = [] from rfl, List.append_nil]
    exact h
  | request r =>
    rw [show a.taken [.request r] = [] from rfl, List.append_nil]
    exact h.silent (.request r) rfl hopen
  | discard =>
    have hdiscard := Pipeline.step_discard_of_open hopen
    have hnext := h.silent .discard (by rw [hdiscard]) (by rw [hdiscard]; exact hopen)
    rw [hdiscard] at hnext
    rw [show a.taken [.discard] = [] from rfl, List.append_nil]
    exact hnext
  | take =>
    obtain ⟨actions, hpipeline, houtput, -⟩ := h
    refine ⟨actions, hpipeline, ?_, hopen⟩
    show taken ++ (a.output.toList ++ []) ++ [] = _
    rw [List.append_nil, List.append_nil, houtput]
  | drain limit =>
    rw [show a.taken [.drain limit] = [] from rfl, List.append_nil]
    exact h.drainOn _ limit

theorem after (h : a.Follows p taken) (actions : List Action) :
    (a.after actions).Follows p (taken ++ a.taken actions) := by
  induction actions generalizing a taken with
  | nil => rwa [LockStep.taken, List.append_nil]
  | cons x actions ih =>
    have hsplit : a.taken (x :: actions) = a.taken [x] ++ (a.step x).taken actions := by
      cases x <;> simp [LockStep.taken, LockStep.step]
    rw [hsplit, ← List.append_assoc]
    exact ih (h.step x)

end Follows

/-- **What a drained pipeline in lock step has left**: nothing, in the ring, in the queue or in the store. -/
structure Drained (a : LockStep) (taken : List Beat) : Prop where
  ring : a.pipeline.samples.recorder.ring.committed = 0
  queue : a.pipeline.queue.occupancy = 0
  store : a.pipeline.reports.stored = 0 ∧ (a.pipeline.reports.store.map Spill.contents).getD [] = []
  /-- every byte that was pushed was put out or is counted as discarded -/
  read : a.pipeline.statistics.pushed = (taken ++ a.output.toList).length + a.pipeline.statistics.discarded

theorem drained_of_isQuiet (h : Pipeline.create settings controls = .ok p) (hfollows : a.Follows p taken)
    (hquiet : a.isQuiet = true) : a.Drained taken := by
  obtain ⟨actions, hpipeline, houtput, -⟩ := hfollows
  unfold isQuiet at hquiet
  dsimp only at hquiet
  simp only [Bool.and_eq_true, beq_iff_eq, ReportSide.isIdle] at hquiet
  obtain ⟨⟨hring, hlevel⟩, -, hstore⟩ := hquiet
  have hconserves := Pipeline.conserves_of_create h actions
  have hcarried := Pipeline.carried_after h actions
  rw [← hpipeline] at hcarried
  obtain ⟨gone, seenGone, seenSent, hw, hstored⟩ := hcarried
  rw [hw.senderLevel_eq] at hlevel
  have := hw.seenGone_le; have := hw.gone_le; have := hw.seenSent_le
  obtain ⟨hle, hheld⟩ := ReportSide.stored_eq hstored (by omega)
  have hnothing := ReportSide.stored_of_storeIsEmpty hstore
  refine ⟨?_, ?_, ⟨hnothing, ?_⟩, ?_⟩
  · simpa [SampleSide.isHandedOver, Ring.isEmpty] using hring
  · rw [hw.occupancy_eq]
    omega
  · rw [hstored.contents_eq, List.drop_eq_nil_iff, List.length_take]
    omega
  · rw [houtput, hpipeline, hconserves.passed, ← hpipeline]
    refine hw.pushed.trans ?_
    omega

theorem isQuiet_of_drainOn {quiet : Sample} {limit : Nat} (h : (drainOn quiet limit a).1 = true) :
    (drainOn quiet limit a).2.isQuiet = true := by
  induction limit generalizing a with
  | zero => exact h
  | succ limit ih =>
    unfold drainOn at h ⊢
    split
    · assumption
    · rename_i hbusy
      rw [if_neg hbusy] at h
      exact ih h

end LockStep

/-- **Completion is never reported early**, by a pipeline under any interleaving or by one in lock step. -/
structure NeverEarly (p : Pipeline) (a : LockStep) : Prop where
  finished : ∀ actions, (p.after actions).isOver = true → p.Finished actions
  drained : ∀ actions limit, ((a.after actions).drain limit).1 = true →
    ((a.after actions).drain limit).2.Drained (a.taken actions)

theorem neverEarly_of_create {settings : Settings} {controls : Controls} {p : Pipeline} {a : LockStep}
    (h : Pipeline.create settings controls = .ok p) (ha : LockStep.create settings controls = .ok a) :
    NeverEarly p a := by
  refine ⟨fun actions => Pipeline.finished_of_isOver h, fun actions limit hdrained => ?_⟩
  have hstart : a = { pipeline := p } := by
    unfold LockStep.create at ha
    rw [h] at ha
    cases ha
    rfl
  have hfollows : a.Follows p [] := by
    rw [hstart]
    exact ⟨[], rfl, rfl, (Crossing.counters_create (Pipeline.create_queue h)).2.1⟩
  exact LockStep.drained_of_isQuiet h ((hfollows.after actions).drainOn _ limit) (LockStep.isQuiet_of_drainOn hdrained)

/-- The backed-up capture, its sampling side gone, and ticks of the reporting clock after that. -/
def Pipeline.abandoned (ticks : Nat) : List Pipeline.Action :=
  backedUp ++ .drop :: List.replicate ticks (.report true)

/-- A packet of two bytes in lock step. -/
def LockStep.twoBytes : List LockStep.Action :=
  [.request (.write 1), .tick {}, .tick { active := true, valid := true, byte := 1 },
    .tick { active := true, valid := true, byte := 2 }, .tick {}]

/-- With a store: the end is found on the tick that leaves nothing, and not on the one before. -/
theorem neverEarly_abandoned : ∃ p a,
    Pipeline.create { ringSize := 32, queueDepth := 8, store := some ⟨16, 1, 1, 4, none⟩ } .standard = .ok p ∧
    LockStep.create { ringSize := 32, queueDepth := 8, store := some ⟨16, 1, 1, 4, none⟩ } .standard = .ok a ∧
    NeverEarly p a ∧
    (p.after (Pipeline.abandoned 8)).isOver = false ∧ (p.after (Pipeline.abandoned 9)).isOver = true ∧
    (p.after (Pipeline.abandoned 9)).statistics.pushed = 24 ∧ (p.delivered (Pipeline.abandoned 9)).length = 12 ∧
    ((a.after LockStep.twoBytes).drain 13).1 = false ∧ ((a.after LockStep.twoBytes).drain 14).1 = true ∧
    ((a.after LockStep.twoBytes).drain 14).2.output.size = 6 := by
  obtain ⟨p, hp⟩ : ∃ p, Pipeline.create
    { ringSize := 32, queueDepth := 8, store := some ⟨16, 1, 1, 4, none⟩ } .standard = .ok p := ⟨_, rfl⟩
  obtain ⟨a, ha⟩ : ∃ a, LockStep.create
    { ringSize := 32, queueDepth := 8, store := some ⟨16, 1, 1, 4, none⟩ } .standard = .ok a := ⟨_, rfl⟩
  refine ⟨p, a, hp, ha, neverEarly_of_create hp ha, ?_⟩
  cases hp
  cases ha
  decide +kernel

end UsbRecorder
