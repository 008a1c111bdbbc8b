import UsbRecorder.Proofs.Crossing.Tally
import UsbRecorder.Proofs.Pipeline.Journal
/-!
# Calls — what a pipeline does to its queue, as calls of the queue's two sides

A tick of a side makes a few calls of that side and no others, so the queue of a pipeline under any interleaving is a
queue under some calls (`exists_calls_after`).  It is closed by a drop alone.
-/
namespace UsbRecorder

open Crossing (Called)
open Crossing.Action (isSenders isReceivers)

/-- A cycle of a store leaves its input alone, or takes from it once. -/
theorem Spill.input_tick {σ : Type} [BeatSource σ] (s : Spill) (input : σ) :
    (s.tick input).2 = input ∨ (s.tick input).2 = (BeatSource.take input).2 := by
  show (s.move input).2 = input ∨ (s.move input).2 = (BeatSource.take input).2
  unfold move
  split
  · exact .inl rfl
  · split
    · right
      cases BeatSource.take input with
      | mk b rest => cases b <;> rfl
    · exact .inl rfl
  · exact .inl rfl

/-! ## The two sides -/

namespace SampleSide

theorem sent_record (s : SampleSide) (q : Crossing) (register : Register) (sample : Sample) :
    Called isSenders q (s.record q register sample).2 := by
  unfold record
  dsimp only
  split
  · exact (Called.call q (a := .senderTick) rfl).trans (.call _ (a := .markStale _) rfl)
  · exact .call q (a := .senderTick) rfl

theorem sent_handOver (s : SampleSide) (q : Crossing) : Called isSenders q (s.handOver q).2 := by
  unfold handOver
  split
  · exact .refl _ q
  · rename_i b _
    have hpush : Called isSenders q (q.push b).2 := .call q (a := .push b) rfl
    generalize q.push b = answer at *
    obtain ⟨done, q'⟩ := answer
    cases done <;> exact hpush

theorem sent_tick (s : SampleSide) (q : Crossing) (register : Register) (sample : Sample) :
    Called isSenders q (s.tick q register sample).2 :=
  (s.sent_record q register sample).trans (sent_handOver _ _)

end SampleSide

namespace ReportSide

variable {r : ReportSide} {q : Crossing}

theorem received_clean (r : ReportSide) (q : Crossing) : Called isReceivers q (r.clean q).2 := by
  unfold clean dropStale
  dsimp only
  split_ifs
  · exact .refl _ q
  · exact .call q (a := .reset) rfl
  · exact .refl _ q
  · exact .refl _ q

theorem received_fetch (r : ReportSide) (q : Crossing) (wanted : Bool) :
    Called isReceivers q (r.fetch q wanted).2.2 := by
  have htake : Called isReceivers q q.take.2 := .call q (a := .take) rfl
  unfold fetch
  cases r.store with
  | none => cases wanted with
    | true => exact htake
    | false => exact .refl _ q
  | some s =>
    have hstore : Called isReceivers q (s.tick q).2 := by
      rcases s.input_tick q with h | h
      · rw [h]
        exact .refl _ q
      · rw [h]
        exact htake
    cases wanted <;> exact hstore

theorem received_tick (r : ReportSide) (q : Crossing) (ready : Bool) : Called isReceivers q (r.tick q ready).2.2 := by
  have hclean := received_clean (r.hear q.mark) q.receiverTick
  generalize hcleaned : (r.hear q.mark).clean q.receiverTick = cleaned at hclean
  obtain ⟨r₂, q₂⟩ := cleaned
  have hfetch := received_fetch r₂ q₂ (ready || r₂.skipping)
  generalize hfetched : r₂.fetch q₂ (ready || r₂.skipping) = fetched at hfetch
  obtain ⟨b, r', q'⟩ := fetched
  have hall : Called isReceivers q q' := (Called.call q (a := .receiverTick) rfl).trans (hclean.trans hfetch)
  cases b with
  | none =>
    rw [tick_of_none hcleaned hfetched]
    exact hall
  | some b =>
    rw [tick_of_some hcleaned hfetched]
    exact hall

end ReportSide

/-! ## The whole pipeline -/

namespace Pipeline

variable {p : Pipeline}

theorem sent_sample (p : Pipeline) (s : Sample) : Called isSenders p.queue (p.sample s).queue :=
  p.samples.sent_tick p.queue p.controls.state s

theorem received_report (p : Pipeline) (ready : Bool) : Called isReceivers p.queue (p.report ready).2.queue :=
  p.reports.received_tick p.queue ready

theorem sent_discard (p : Pipeline) : Called isSenders p.queue p.discardSent.queue :=
  .call p.queue (a := .markStale _) rfl

theorem step_sample_of_closed (h : p.queue.closed = true) (s : Sample) : p.step (.sample s) = (none, p) := by
  simp [step, h]

theorem step_sample_of_open (h : p.queue.closed = false) (s : Sample) : p.step (.sample s) = (none, p.sample s) := by
  simp [step, h]

theorem step_discard_of_closed (h : p.queue.closed = true) : p.step .discard = (none, p) := by
  simp [step, h]

theorem step_discard_of_open (h : p.queue.closed = false) : p.step .discard = (none, p.discardSent) := by
  simp [step, h]

theorem sent_step_sample (p : Pipeline) (s : Sample) : Called isSenders p.queue (p.step (.sample s)).2.queue := by
  cases h : p.queue.closed with
  | true =>
    rw [step_sample_of_closed h]
    exact .refl _ p.queue
  | false =>
    rw [step_sample_of_open h]
    exact p.sent_sample s

theorem sent_step_discard (p : Pipeline) : Called isSenders p.queue (p.step .discard).2.queue := by
  cases h : p.queue.closed with
  | true =>
    rw [step_discard_of_closed h]
    exact .refl _ p.queue
  | false =>
    rw [step_discard_of_open h]
    exact p.sent_discard

theorem exists_calls_step (p : Pipeline) (a : Action) : ∃ calls, (p.step a).2.queue = p.queue.calls calls := by
  cases a with
  | sample s =>
    obtain ⟨calls, hcalls, -⟩ := p.sent_step_sample s
    exact ⟨calls, hcalls⟩
  | report ready =>
    obtain ⟨calls, hcalls, -⟩ := p.received_report ready
    exact ⟨calls, hcalls⟩
  | discard =>
    obtain ⟨calls, hcalls, -⟩ := p.sent_step_discard
    exact ⟨calls, hcalls⟩
  | request r => exact ⟨[], rfl⟩
  | drop => exact ⟨[.close], rfl⟩

/-- **The queue of a pipeline is a queue under calls of its two sides.** -/
theorem exists_calls_after (p : Pipeline) (actions : List Action) :
    ∃ calls, (p.after actions).queue = p.queue.calls calls := by
  induction actions generalizing p with
  | nil => exact ⟨[], rfl⟩
  | cons a actions ih =>
    obtain ⟨first, hfirst⟩ := p.exists_calls_step a
    obtain ⟨rest, hrest⟩ := ih (p.step a).2
    exact ⟨first ++ rest, by rw [Crossing.calls_append, ← hfirst]; exact hrest⟩

end Pipeline
end UsbRecorder
