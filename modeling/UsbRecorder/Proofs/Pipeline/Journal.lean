import UsbRecorder.Pipeline.Basic
import UsbRecorder.Proofs.Pipeline.Ledger
import UsbRecorder.Proofs.Pipeline.Reports
/-!
# Journal — a pipeline with what was framed, handed over, delivered and dropped

A journal is kept along with the actions on a pipeline and has no part in them (`pipeline_after`).  `Sound` is what every
action preserves: the ring holds what the ledger says, the bytes between the two sides are in the queue and in the store,
every mark is where a record begins, and the reader stands where `Reading` allows.
-/
namespace UsbRecorder

/-- A tick of the sampling side up to the handing over of a byte. -/
def SampleSide.record (s : SampleSide) (q : Crossing) (register : Register) (sample : Sample) : SampleSide × Crossing :=
  let s := s.obey register
  let q := q.senderTick
  let (event, monitor) := s.monitor.step sample
  let (status, recorder) := s.recorder.tick sample event
  let q := if status.discarding then q.markStale recorder.retained else q
  ({ s with monitor, recorder, status, ticks := s.ticks + 1 }, q)

theorem SampleSide.tick_eq (s : SampleSide) (q : Crossing) (register : Register) (sample : Sample) :
    s.tick q register sample = (s.record q register sample).1.handOver (s.record q register sample).2 := rfl

/-- The byte that the sampling side hands over, if the queue accepts one. -/
def SampleSide.handing (s : SampleSide) (q : Crossing) : Option Beat :=
  s.recorder.ring.offered.filter fun b => (q.push b).1

namespace SampleSide

variable {s : SampleSide} {q : Crossing} {l : Ledger} {gone seenGone seenSent : Nat}

theorem tells_obey (h : l.Tells s.recorder) (register : Register) : l.Tells (s.obey register).recorder := by
  unfold obey
  split
  · exact h
  · dsimp only
    split
    · exact h.of_eq rfl rfl rfl rfl rfl
    · exact h.of_eq rfl rfl rfl rfl rfl

/-- **Framing**: what is framed is put down, and a discard marks the end of the record being handed over. -/
theorem tells_record (h : l.Tells s.recorder) (hw : Crossing.Window q l.sent gone seenGone seenSent) (register : Register)
    (sample : Sample) :
    (l.frame (s.record q register sample).1.status.discarding
        (s.record q register sample).1.recorder.framed.reverse).Tells (s.record q register sample).1.recorder ∧
      (∃ seenGone', Crossing.Window (s.record q register sample).2 l.sent gone seenGone' seenSent) ∧
      (s.record q register sample).2.mark = (if (s.record q register sample).1.status.discarding then
        max q.mark (streamOf l.records).length else q.mark) ∧
      ((s.record q register sample).1.status.discarding = true →
        q.sender.pushed + (s.record q register sample).1.recorder.retained = (streamOf l.records).length) := by
  have hobey := tells_obey h register
  obtain ⟨payload, hholds⟩ := hobey.holds
  generalize hevent : ((s.obey register).monitor.step sample).1 = event
  have hstatus : (s.record q register sample).1.status.discarding =
      ((s.obey register).recorder.tick sample event).1.discarding := by rw [← hevent]; rfl
  have hrecorder : (s.record q register sample).1.recorder = ((s.obey register).recorder.tick sample event).2 := by
    rw [← hevent]
    rfl
  have hqueue : (s.record q register sample).2 =
      if ((s.obey register).recorder.tick sample event).1.discarding then
        q.senderTick.markStale ((s.obey register).recorder.tick sample event).2.retained else q.senderTick := by
    rw [← hevent]
    rfl
  have hend : ((s.obey register).recorder.tick sample event).1.discarding = true →
      q.sender.pushed + ((s.obey register).recorder.tick sample event).2.retained = (streamOf l.records).length := by
    intro hdiscarding
    rw [Recorder.retained_tick hholds hdiscarding, hw.pushed, hobey.length_sent]
  obtain ⟨seenGone', -, hw'⟩ := hw.senderTick
  rw [hstatus, hrecorder, hqueue]
  refine ⟨hobey.frame sample event, ⟨seenGone', ?_⟩, ?_, hend⟩
  · split
    · exact hw'.markStale _
    · exact hw'
  · split
    · rename_i hdiscarding
      rw [← hend hdiscarding]
      rfl
    · rfl

theorem handOver_of_none (hoff : s.recorder.ring.offered = none) : s.handOver q = (s, q) ∧ s.handing q = none := by
  unfold handOver handing
  rw [hoff]
  exact ⟨rfl, rfl⟩

theorem handOver_of_accepted {b : Beat} (hoff : s.recorder.ring.offered = some b) (hpush : (q.push b).1 = true) :
    s.handOver q = ({ s with recorder := s.recorder.take.2 }, (q.push b).2) ∧ s.handing q = some b := by
  unfold handOver handing
  rw [hoff, Option.filter_some, if_pos hpush]
  dsimp only
  generalize q.push b = answer at *
  obtain ⟨done, q'⟩ := answer
  dsimp only at hpush
  subst hpush
  exact ⟨rfl, rfl⟩

theorem handOver_of_refused {b : Beat} (hoff : s.recorder.ring.offered = some b) (hpush : (q.push b).1 = false) :
    s.handOver q = (s, (q.push b).2) ∧ s.handing q = none := by
  unfold handOver handing
  rw [hoff, Option.filter_some, hpush]
  dsimp only
  generalize q.push b = answer at *
  obtain ⟨done, q'⟩ := answer
  dsimp only at hpush
  subst hpush
  exact ⟨rfl, rfl⟩

theorem handOver_frame (s : SampleSide) (q : Crossing) :
    (s.handOver q).1.recorder.framed = s.recorder.framed ∧ (s.handOver q).1.status = s.status ∧
      (s.handOver q).1.recorder.retained = s.recorder.retained := by
  unfold handOver
  split
  · exact ⟨rfl, rfl, rfl⟩
  · split <;> exact ⟨rfl, rfl, rfl⟩

theorem mark_push (q : Crossing) (b : Beat) : (q.push b).2.mark = q.mark := by
  unfold Crossing.push
  split <;> rfl

/-- **Handing over**: the queue takes the next byte of the first record, or the ring keeps it. -/
theorem tells_handOver (h : l.Tells s.recorder) (hw : Crossing.Window q l.sent gone seenGone seenSent) :
    ((s.handing q).elim l l.handOver).Tells (s.handOver q).1.recorder ∧
      Crossing.Window (s.handOver q).2 ((s.handing q).elim l l.handOver).sent gone seenGone seenSent ∧
      (s.handOver q).2.mark = q.mark ∧ l.Extends ((s.handing q).elim l l.handOver) := by
  cases hoff : s.recorder.ring.offered with
  | none =>
    obtain ⟨hkeep, hnone⟩ := handOver_of_none (q := q) hoff
    rw [hkeep, hnone]
    exact ⟨h, hw, rfl, .refl l⟩
  | some b =>
    by_cases hfull : q.isFull = true
    · obtain ⟨hpush, hw'⟩ := hw.push_of_isFull hfull b
      obtain ⟨hkeep, hnone⟩ := handOver_of_refused hoff hpush
      rw [hkeep, hnone]
      exact ⟨h, hw', mark_push q b, .refl l⟩
    · obtain ⟨hpush, hw'⟩ := hw.push_of_not_isFull hfull b
      obtain ⟨hgive, hsome⟩ := handOver_of_accepted hoff hpush
      obtain ⟨k, ks, hheld⟩ := h.held_of_offered hoff
      rw [hgive, hsome]
      exact ⟨h.handOver hoff, hw', mark_push q b, Ledger.extends_handOver hheld b⟩

end SampleSide

/-- A pipeline with its history. -/
structure Journal where
  pipeline : Pipeline
  ledger : Ledger := {}
  /-- what has become of the bytes handed over, in order: one that was delivered, or none for one that was dropped -/
  passed : List (Option Beat) := []

namespace Journal

/-- A tick of the sampling clock. -/
def sample (j : Journal) (s : Sample) : Journal :=
  let (side, queue) := j.pipeline.samples.record j.pipeline.queue j.pipeline.controls.state s
  let ledger := j.ledger.frame side.status.discarding side.recorder.framed.reverse
  { j with
    pipeline := j.pipeline.sample s
    ledger := (side.handing queue).elim ledger ledger.handOver }

/-- A tick of the reporting clock, which may drop bytes before it delivers one. -/
def report (j : Journal) (ready : Bool) : Journal :=
  let (b, pipeline) := j.pipeline.report ready
  { j with
    pipeline
    passed := j.passed ++ List.replicate (pipeline.reports.discarded - j.pipeline.reports.discarded) none ++
      b.toList.map some }

/-- One action. -/
def step (j : Journal) : Pipeline.Action → Journal
  | .sample s => if j.pipeline.queue.closed then j else j.sample s
  | .report ready => j.report ready
  | a => { j with pipeline := (j.pipeline.step a).2 }

/-- The journal after actions. -/
def after (j : Journal) (actions : List Pipeline.Action) : Journal := actions.foldl step j

theorem after_append (j : Journal) (a b : List Pipeline.Action) : j.after (a ++ b) = (j.after a).after b := by
  simp [after]

theorem pipeline_step (j : Journal) (a : Pipeline.Action) : (j.step a).pipeline = (j.pipeline.step a).2 := by
  cases a with
  | sample s =>
    unfold step Pipeline.step
    dsimp only
    split <;> rfl
  | _ => rfl

theorem pipeline_after (j : Journal) (actions : List Pipeline.Action) :
    (j.after actions).pipeline = j.pipeline.after actions := by
  induction actions generalizing j with
  | nil => rfl
  | cons a actions ih =>
    show ((j.step a).after actions).pipeline = (j.pipeline.step a).2.after actions
    rw [ih, pipeline_step]

theorem delivered_step (j : Journal) (a : Pipeline.Action) :
    deliveredOf (j.step a).passed = deliveredOf j.passed ++ (j.pipeline.step a).1.toList := by
  cases a with
  | sample s =>
    unfold step Pipeline.step
    dsimp only
    split <;> simp [sample]
  | report ready =>
    unfold step report
    dsimp only
    rw [deliveredOf_append, deliveredOf_append, deliveredOf_replicate_none, deliveredOf_map_some, List.append_nil]
    rfl
  | _ => simp [step, Pipeline.step]

theorem delivered_after (j : Journal) (actions : List Pipeline.Action) :
    deliveredOf (j.after actions).passed = deliveredOf j.passed ++ j.pipeline.delivered actions := by
  induction actions generalizing j with
  | nil => simp [after, Pipeline.delivered]
  | cons a actions ih =>
    show deliveredOf ((j.step a).after actions).passed = _
    rw [ih, delivered_step, pipeline_step, Pipeline.delivered, List.append_assoc]

theorem passed_step (j : Journal) (a : Pipeline.Action) : j.passed <+: (j.step a).passed := by
  cases a with
  | sample s =>
    unfold Journal.step
    dsimp only
    split <;> exact List.prefix_refl _
  | report ready => exact ⟨_, (List.append_assoc ..).symm⟩
  | discard => exact List.prefix_refl _
  | request r => exact List.prefix_refl _
  | drop => exact List.prefix_refl _

theorem passed_after (j : Journal) (actions : List Pipeline.Action) : j.passed <+: (j.after actions).passed := by
  induction actions generalizing j with
  | nil => exact List.prefix_refl _
  | cons a actions ih => exact (passed_step j a).trans (ih (j.step a))

/-! ## What every action preserves -/

/-- **The journal and its pipeline agree**: on what the ring holds, on what is between the two sides, and on where the
reader stands; every mark is where a record begins. -/
structure Sound (j : Journal) : Prop where
  tells : j.ledger.Tells j.pipeline.samples.recorder
  carried : Carried j.pipeline.reports.store j.pipeline.queue j.ledger.sent j.pipeline.reports.passed
  passed : j.pipeline.reports.passed = j.passed.length
  stale_le : j.pipeline.reports.staleBelow ≤ j.pipeline.queue.mark
  mark : Boundary j.ledger.records j.pipeline.queue.mark
  passage : Passage j.ledger.records j.ledger.sent j.passed j.pipeline.reports.staleBelow j.pipeline.reports.inRecord

namespace Sound

variable {j : Journal}

/-- More is framed and handed over, which changes nothing of what has passed. -/
theorem of_extends (h : j.Sound) {samples : SampleSide} {queue : Crossing} {l : Ledger} (htells : l.Tells samples.recorder)
    (hextends : j.ledger.Extends l)
    (hcarried : Carried j.pipeline.reports.store queue l.sent j.pipeline.reports.passed)
    (hmark : queue.mark = j.pipeline.queue.mark ∨ queue.mark = max j.pipeline.queue.mark (streamOf j.ledger.records).length) :
    Sound { j with pipeline := { j.pipeline with samples, queue }, ledger := l } := by
  obtain ⟨more, hmore⟩ := hextends.records h.tells
  obtain ⟨newer, hnewer⟩ := hextends.sent
  have hle : j.pipeline.queue.mark ≤ queue.mark := by rcases hmark with hm | hm <;> omega
  have hbound : Boundary j.ledger.records queue.mark := by
    rcases hmark with hm | hm
    · rw [hm]
      exact h.mark
    · rw [hm, Nat.max_eq_right h.mark.le]
      exact boundary_length _
  refine ⟨htells, hcarried, h.passed, Nat.le_trans h.stale_le hle, ?_, ?_⟩
  · rw [← hmore]
    exact hbound.append more
  · rw [← hmore, ← hnewer]
    exact h.passage.append more newer

/-- **A tick of the sampling clock**: what it frames is put down, a byte may be handed over, and a discard marks the end
of the records handed over before. -/
theorem sampled (h : j.Sound) (s : Sample) :
    (j.sample s).ledger.Tells (j.pipeline.sample s).samples.recorder ∧
      (j.ledger.frame (j.pipeline.sample s).samples.status.discarding
        (j.pipeline.sample s).samples.recorder.framed.reverse).Extends (j.sample s).ledger ∧
      Carried j.pipeline.reports.store (j.pipeline.sample s).queue (j.sample s).ledger.sent j.pipeline.reports.passed ∧
      (j.pipeline.sample s).queue.mark = (if (j.pipeline.sample s).samples.status.discarding then
        max j.pipeline.queue.mark (streamOf j.ledger.records).length else j.pipeline.queue.mark) ∧
      ((j.pipeline.sample s).samples.status.discarding = true →
        j.pipeline.queue.sender.pushed + (j.pipeline.sample s).samples.recorder.retained =
          (streamOf j.ledger.records).length) := by
  obtain ⟨gone, seenGone, seenSent, hw, hstored⟩ := h.carried
  obtain ⟨htells, ⟨seenGone', hw'⟩, hmark, hend⟩ := SampleSide.tells_record h.tells hw j.pipeline.controls.state s
  obtain ⟨htells', hw'', hmark', hextends⟩ := SampleSide.tells_handOver htells hw'
  obtain ⟨hframed, hstatus, hretained⟩ : (j.pipeline.sample s).samples.recorder.framed = _ ∧
      (j.pipeline.sample s).samples.status = _ ∧ (j.pipeline.sample s).samples.recorder.retained = _ :=
    SampleSide.handOver_frame (j.pipeline.samples.record j.pipeline.queue j.pipeline.controls.state s).1 _
  rw [hframed, hstatus, hretained]
  refine ⟨htells', hextends, ⟨gone, seenGone', seenSent, hw'', ?_⟩, hmark'.trans hmark, hend⟩
  obtain ⟨newer, hnewer⟩ := (Ledger.extends_frame h.tells.held_ne_nil _ _).sent.trans hextends.sent
  have hstored' := hstored.sent_append (Nat.le_trans hw.gone_le hw.seenSent_le) newer
  rwa [hnewer] at hstored'

theorem sample (h : j.Sound) (s : Sample) : (j.sample s).Sound ∧ j.ledger.Extends (j.sample s).ledger := by
  obtain ⟨htells, hextends, hcarried, hmark, -⟩ := h.sampled s
  have hall := (Ledger.extends_frame h.tells.held_ne_nil _ _).trans hextends
  refine ⟨h.of_extends htells hall hcarried ?_, hall⟩
  split at hmark
  · exact .inr hmark
  · exact .inl hmark

theorem of_mark (h : j.Sound) {queue : Crossing} (controls : Controls)
    (hcarried : Carried j.pipeline.reports.store queue j.ledger.sent j.pipeline.reports.passed)
    (hmark : queue.mark = j.pipeline.queue.mark ∨ queue.mark = max j.pipeline.queue.mark (streamOf j.ledger.records).length) :
    Sound { j with pipeline := { j.pipeline with controls, queue } } := by
  have := h.of_extends h.tells (.refl j.ledger) hcarried hmark
  exact { this with }

/-- **What a report adds to what has passed**: bytes that are dropped, and then one that is delivered, or none. -/
theorem passes_report (h : j.Sound) (ready : Bool) :
    ∃ count, j.pipeline.reports.Passes j.ledger.sent (max j.pipeline.reports.staleBelow j.pipeline.queue.mark) count
        (j.pipeline.report ready).1 (j.report ready).pipeline.reports ∧
      (j.report ready).passed =
        j.passed ++ List.replicate count none ++ (j.pipeline.report ready).1.toList.map some ∧
      Carried (j.report ready).pipeline.reports.store (j.report ready).pipeline.queue j.ledger.sent
        (j.report ready).pipeline.reports.passed ∧
      (j.report ready).pipeline.queue.mark = j.pipeline.queue.mark := by
  obtain ⟨count, hpasses, hcarried, hmark⟩ := ReportSide.passes_tick h.carried ready
  refine ⟨count, hpasses, ?_, hcarried, hmark⟩
  have hcount : (j.pipeline.report ready).2.reports.discarded - j.pipeline.reports.discarded = count := by
    have : (j.pipeline.report ready).2.reports.discarded = j.pipeline.reports.discarded + count := hpasses.discarded
    omega
  unfold Journal.report
  dsimp only
  rw [hcount]

theorem report (h : j.Sound) (ready : Bool) : (j.report ready).Sound := by
  obtain ⟨count, hpasses, hpassed, hcarried, hmark⟩ := h.passes_report ready
  have hne := h.tells.records_ne_nil
  have hstale : Boundary j.ledger.records (max j.pipeline.reports.staleBelow j.pipeline.queue.mark) := by
    rw [Nat.max_eq_right h.stale_le]
    exact h.mark
  have hskip := hpasses.dropped
  rw [h.passed] at hskip
  have hdropped := (h.passage.hear hstale (Nat.le_max_left _ _)).skip hne hskip
  have hlen : (j.passed ++ List.replicate count none).length = j.pipeline.reports.passed + count := by
    rw [List.length_append, List.length_replicate, h.passed]
  refine ⟨h.tells, hcarried, ?_, ?_, ?_, ?_⟩
  · rw [hpasses.passed, hpassed, List.length_append, hlen, List.length_map]
  · rw [hpasses.staleBelow, hmark]
    exact Nat.max_le.2 ⟨h.stale_le, Nat.le_refl _⟩
  · rw [hmark]
    exact h.mark
  · show Passage j.ledger.records j.ledger.sent _ _ _
    rw [hpassed, hpasses.staleBelow]
    cases hb : (j.pipeline.report ready).1 with
    | none =>
      rw [hpasses.silent hb, Option.toList_none, List.map_nil, List.append_nil]
      exact hdropped
    | some x =>
      obtain ⟨hsent, hin, hkeep⟩ := hpasses.delivered x hb
      rw [← hlen] at hsent hkeep
      rw [hin]
      exact hdropped.deliver hne ⟨_, h.tells.stream⟩ hkeep hsent

theorem mark_discardSent (h : j.Sound) : j.pipeline.discardSent.queue.mark =
    max j.pipeline.queue.mark (streamOf j.ledger.records).length := by
  obtain ⟨gone, seenGone, seenSent, hw, -⟩ := h.carried
  rw [← h.tells.length_sent, ← hw.pushed]
  rfl

/-- **Every action preserves that the journal and its pipeline agree.** -/
theorem step (h : j.Sound) (a : Pipeline.Action) : (j.step a).Sound ∧ j.ledger.Extends (j.step a).ledger := by
  obtain ⟨gone, seenGone, seenSent, hw, hstored⟩ := h.carried
  cases a with
  | sample s =>
    unfold Journal.step
    dsimp only
    split
    · exact ⟨h, .refl _⟩
    · exact h.sample s
  | report ready => exact ⟨h.report ready, .refl _⟩
  | discard =>
    refine ⟨?_, .refl _⟩
    show Sound { j with pipeline := if j.pipeline.queue.closed then j.pipeline else j.pipeline.discardSent }
    split
    · exact h
    · exact h.of_mark j.pipeline.controls ⟨gone, seenGone, seenSent, hw.markStale _, hstored⟩ (.inr h.mark_discardSent)
  | request r => exact ⟨h.of_mark _ h.carried (.inl rfl), .refl _⟩
  | drop => exact ⟨h.of_mark j.pipeline.controls ⟨gone, seenGone, seenSent, hw.close, hstored⟩ (.inl rfl), .refl _⟩

theorem after (h : j.Sound) (actions : List Pipeline.Action) :
    (j.after actions).Sound ∧ j.ledger.Extends (j.after actions).ledger := by
  induction actions generalizing j with
  | nil => exact ⟨h, .refl _⟩
  | cons a actions ih =>
    obtain ⟨hstep, hextends⟩ := h.step a
    obtain ⟨hafter, hextends'⟩ := ih hstep
    exact ⟨hafter, hextends.trans hextends'⟩

/-! ## Once a mark has been seen -/

/-- A byte that is delivered as the first of a record is not below the mark of its tick. -/
theorem mark_le_of_first (h : j.Sound) (ready : Bool) {n : Nat} {b : Beat} (hn : j.passed.length ≤ n)
    (hb : (j.report ready).passed[n]? = some (some b)) (hbound : Boundary j.ledger.records n) :
    max j.pipeline.reports.staleBelow j.pipeline.queue.mark ≤ n := by
  obtain ⟨count, hpasses, hpassed, -, -⟩ := h.passes_report ready
  have hlen : (j.passed ++ List.replicate count none).length = j.passed.length + count := by simp
  rw [hpassed] at hb
  have hge : j.passed.length + count ≤ n := by
    by_contra hlt
    rw [List.getElem?_append_left (by omega)] at hb
    exact absurd (lt_of_delivered hb) (Nat.not_lt_of_le hn)
  rw [List.getElem?_append_right (by omega), hlen] at hb
  cases hx : (j.pipeline.report ready).1 with
  | none =>
    rw [hx] at hb
    cases hb
  | some x =>
    obtain ⟨-, -, hkeep⟩ := hpasses.delivered x hx
    rw [hx] at hb
    obtain ⟨hlt, -⟩ := List.getElem?_eq_some_iff.1 hb
    simp only [Option.toList_some, List.map_singleton, List.length_singleton] at hlt
    have heq : n = j.passed.length + count := by omega
    rw [h.passed, ← heq] at hkeep
    cases hin : j.pipeline.reports.inRecord with
    | false => exact hkeep hin
    | true =>
      have hzero : count = 0 := by
        by_contra hpos
        have := (hpasses.dropped (Nat.pos_of_ne_zero hpos)).1
        rw [hin] at this
        cases this
      have hread := h.passage.reading
      rw [hin] at hread
      rw [heq, hzero, Nat.add_zero] at hbound
      exact absurd hbound (hread.not_boundary h.tells.records_ne_nil)

end Sound

/-- **A mark has been heard** when `since` bytes had passed: of those that have passed after them no record below the mark
was begun. -/
def Heard (j : Journal) (since mark : Nat) : Prop :=
  mark ≤ j.pipeline.reports.staleBelow ∧
    ∀ (n : Nat) (b : Beat), since ≤ n → j.passed[n]? = some (some b) → Boundary j.ledger.records n → mark ≤ n

variable {j : Journal} {since mark : Nat}

theorem heard_report (h : j.Sound) (ready : Bool) :
    (j.report ready).Heard j.passed.length j.pipeline.queue.mark := by
  obtain ⟨count, hpasses, -⟩ := h.passes_report ready
  refine ⟨?_, fun n b hn hb hbound => ?_⟩
  · rw [hpasses.staleBelow]
    exact Nat.le_max_right _ _
  · exact Nat.le_trans (Nat.le_max_right _ _) (h.mark_le_of_first ready hn hb hbound)

theorem Heard.step (h : j.Heard since mark) (hj : j.Sound) (a : Pipeline.Action) : (j.step a).Heard since mark := by
  obtain ⟨hstale, hfirst⟩ := h
  cases a with
  | sample s =>
    unfold Journal.step
    dsimp only
    split
    · exact ⟨hstale, hfirst⟩
    · obtain ⟨hnext, hextends⟩ := hj.sample s
      refine ⟨hstale, fun n b hn hb hbound => hfirst n b hn hb ?_⟩
      obtain ⟨more, hmore⟩ := hextends.records hj.tells
      have hne := hnext.tells.records_ne_nil
      rw [← hmore] at hbound hne
      obtain ⟨hlt, -⟩ := List.getElem?_eq_some_iff.1 (hj.passage.in_order n b hb)
      have hstream := congrArg List.length hj.tells.stream
      rw [List.length_append] at hstream
      exact hbound.of_append hne (by omega)
  | report ready =>
    obtain ⟨count, hpasses, hpassed, -, -⟩ := hj.passes_report ready
    have hmax := Nat.le_trans hstale (Nat.le_max_left _ j.pipeline.queue.mark)
    refine ⟨?_, fun n b hn hb hbound => ?_⟩
    · show mark ≤ (j.report ready).pipeline.reports.staleBelow
      rwa [hpasses.staleBelow]
    · rcases Nat.lt_or_ge n j.passed.length with hold | hnew
      · obtain ⟨more, hmore⟩ := passed_step j (.report ready)
        rw [← hmore, List.getElem?_append_left hold] at hb
        exact hfirst n b hn hb hbound
      · exact Nat.le_trans hmax (hj.mark_le_of_first ready hnew hb hbound)
  | discard =>
    have hreports : (j.step .discard).pipeline.reports = j.pipeline.reports := by
      unfold Journal.step Pipeline.step
      dsimp only
      split <;> rfl
    refine ⟨?_, hfirst⟩
    rwa [hreports]
  | request r => exact ⟨hstale, hfirst⟩
  | drop => exact ⟨hstale, hfirst⟩

theorem Heard.after (h : j.Heard since mark) (hj : j.Sound) (actions : List Pipeline.Action) :
    (j.after actions).Heard since mark := by
  induction actions generalizing j with
  | nil => exact h
  | cons a actions ih => exact ih (h.step hj a) (hj.step a).1

end Journal
end UsbRecorder
