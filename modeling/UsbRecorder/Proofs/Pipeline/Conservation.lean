import UsbRecorder.Proofs.Pipeline.Calls
import UsbRecorder.Proofs.Pipeline.Delivery
/-!
# Conservation — every byte that was pushed is counted, and counted once

The counters of the queue, of the store and of the reporting side are kept apart from each other.  Under any
interleaving they agree (`conserves_of_create`): with the bytes in the queue and in the store, and with those delivered.
-/
namespace UsbRecorder
namespace Journal

variable {j : Journal}

/-- What has passed was delivered, or is counted as discarded. -/
def Counted (j : Journal) : Prop := (deliveredOf j.passed).length + j.pipeline.reports.discarded = j.passed.length

theorem Counted.report (h : j.Counted) (hj : j.Sound) (ready : Bool) : (j.report ready).Counted := by
  obtain ⟨count, hpasses, hpassed, -, -⟩ := hj.passes_report ready
  unfold Counted at h ⊢
  rw [hpasses.discarded, hpassed, deliveredOf_append, deliveredOf_append, deliveredOf_replicate_none,
    deliveredOf_map_some]
  simp only [List.length_append, List.length_replicate, List.length_map, List.append_nil]
  omega

theorem Counted.step (h : j.Counted) (hj : j.Sound) (a : Pipeline.Action) : (j.step a).Counted := by
  cases a with
  | report ready => exact h.report hj ready
  | sample s =>
    unfold Journal.step
    dsimp only
    split <;> exact h
  | discard =>
    have hreports : (j.step .discard).pipeline.reports = j.pipeline.reports := by
      unfold Journal.step Pipeline.step
      dsimp only
      split <;> rfl
    unfold Counted
    rw [hreports]
    exact h
  | request r => exact h
  | drop => exact h

theorem Counted.after (h : j.Counted) (hj : j.Sound) (actions : List Pipeline.Action) : (j.after actions).Counted := by
  induction actions generalizing j with
  | nil => exact h
  | cons a actions ih => exact ih (h.step hj a) (hj.step a).1

end Journal

namespace Pipeline

variable {p : Pipeline} {settings : Settings} {controls : Controls}

/-- **Conservation**: the statistics after some actions, against what is in the queue, in the store and with the
reader. -/
structure Conserves (p : Pipeline) (actions : List Action) : Prop where
  /-- a byte pushed has left the queue, taken or dropped by a reset, or its slot is in use -/
  pushed : (p.after actions).statistics.pushed = (p.after actions).statistics.popped +
    (p.after actions).statistics.resetBytes + (p.after actions).queue.occupancy
  /-- a byte that has left the queue was delivered, was discarded, or is in the store -/
  left : (p.after actions).statistics.popped + (p.after actions).statistics.resetBytes =
    (p.delivered actions).length + (p.after actions).statistics.discarded + (p.after actions).reports.stored
  passed : (p.delivered actions).length + (p.after actions).statistics.discarded = (p.after actions).reports.passed
  passed_le : (p.after actions).reports.passed ≤ (p.after actions).statistics.pushed

theorem create_queue (h : create settings controls = .ok p) : Crossing.create settings.queueDepth = .ok p.queue := by
  obtain ⟨queue, hq, h⟩ := exists_of_bind_eq_ok h
  obtain ⟨samples, -, h⟩ := exists_of_bind_eq_ok h
  obtain ⟨reports, -, h⟩ := exists_of_bind_eq_ok h
  cases h
  exact hq

theorem counted_create (h : create settings controls = .ok p) : Journal.Counted { pipeline := p } := by
  obtain ⟨queue, -, h⟩ := exists_of_bind_eq_ok h
  obtain ⟨samples, -, h⟩ := exists_of_bind_eq_ok h
  obtain ⟨reports, hr, h⟩ := exists_of_bind_eq_ok h
  cases h
  have hnone : reports.discarded = 0 := by
    unfold ReportSide.create at hr
    split at hr
    · cases hr
      rfl
    · rename_i s _
      cases hs : ReportSide.createStore s with
      | error e =>
        rw [hs] at hr
        cases hr
      | ok store =>
        rw [hs] at hr
        cases hr
        rfl
  unfold Journal.Counted
  dsimp only
  rw [hnone]
  rfl

theorem pipeline_journal (p : Pipeline) (actions : List Action) : (p.journal actions).pipeline = p.after actions :=
  Journal.pipeline_after { pipeline := p } actions

/-- What is between the two sides after some actions. -/
theorem carried_after (h : create settings controls = .ok p) (actions : List Action) :
    Carried (p.after actions).reports.store (p.after actions).queue (p.journal actions).ledger.sent
      (p.after actions).reports.passed := by
  rw [← pipeline_journal]
  exact (sound_journal h actions).carried

theorem delivered_discarded (h : create settings controls = .ok p) (actions : List Action) :
    (p.delivered actions).length + (p.after actions).statistics.discarded = (p.after actions).reports.passed := by
  have hdelivered : deliveredOf (p.journal actions).passed = p.delivered actions :=
    Journal.delivered_after { pipeline := p } actions
  have hcounted : (p.journal actions).Counted := (counted_create h).after (sound_create h) actions
  have hpassed := (sound_journal h actions).passed
  unfold Journal.Counted at hcounted
  rw [hdelivered, ← hpassed, pipeline_journal] at hcounted
  exact hcounted

/-- **Every byte is counted, and counted once**, for every configuration and under every interleaving. -/
theorem conserves_of_create (h : create settings controls = .ok p) (actions : List Action) : p.Conserves actions := by
  have hpassed := delivered_discarded h actions
  obtain ⟨calls, hcalls⟩ := p.exists_calls_after actions
  have htally := Crossing.tally_of_create (create_queue h) calls
  rw [← hcalls] at htally
  obtain ⟨gone, seenGone, seenSent, hw, hstored⟩ := carried_after h actions
  have hgone := Nat.le_trans hw.gone_le hw.seenSent_le
  obtain ⟨hle, hheld⟩ := ReportSide.stored_eq hstored hgone
  have hoccupancy := hw.occupancy_eq
  have hpushed := hw.pushed
  refine ⟨htally, ?_, hpassed, ?_⟩
  · show (p.after actions).queue.receiver.popped + (p.after actions).queue.receiver.resetBytes = _
    omega
  · show _ ≤ (p.after actions).queue.sender.pushed
    omega

/-- Ticks of both clocks, with a reader that takes nothing. -/
def unread (ticks : Nat) : List Action := (List.replicate ticks [.sample {}, .report false]).flatten

/-- An interrupted capture that a store has taken in, its end delivered, and a packet more that is not read. -/
def backedUp : List Action :=
  interrupted ++ .sample {} :: unread 6 ++ resumed ++ receiving 7 :: receiving 8 :: unread 6

/-- With a store of sixteen words: some bytes are in the queue, some in the store, and some are gone either way. -/
theorem conserves_backedUp : ∃ p,
    create { ringSize := 32, queueDepth := 8, store := some ⟨16, 1, 1, 4, none⟩ } .standard = .ok p ∧
    p.Conserves backedUp ∧ (p.after backedUp).statistics.pushed = 24 ∧ (p.after backedUp).statistics.popped = 12 ∧
    (p.after backedUp).statistics.resetBytes = 10 ∧ (p.after backedUp).queue.occupancy = 2 ∧
    (p.delivered backedUp).length = 6 ∧ (p.after backedUp).statistics.discarded = 12 ∧
    (p.after backedUp).reports.stored = 4 := by
  obtain ⟨p, hp⟩ : ∃ p,
    create { ringSize := 32, queueDepth := 8, store := some ⟨16, 1, 1, 4, none⟩ } .standard = .ok p := ⟨_, rfl⟩
  refine ⟨p, hp, conserves_of_create hp backedUp, ?_⟩
  cases hp
  decide +kernel

end Pipeline
end UsbRecorder
