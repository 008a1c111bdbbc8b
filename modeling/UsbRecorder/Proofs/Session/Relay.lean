import UsbRecorder.Proofs.Pipeline.Completion
import UsbRecorder.Session.Dispatcher
/-!
# Relay — what the dispatching worker reads is what it sends

A relay is a worker with the pipeline that it reads and the buffers that it has sent.  Whether the channel has room is
open at every turn, and so is what the sampling side does between the turns.  `turns_turn` says once what a turn can do;
by it the buffers sent and the batch that is held are what the pipeline has delivered (`relays_start`).
-/
namespace UsbRecorder

/-! ## A tick for a reader that is not ready -/

theorem ReportSide.fetch_unwanted (r : ReportSide) (q : Crossing) : (r.fetch q false).1 = none := by
  unfold fetch
  cases r.store <;> rfl

/-- A reader that is not ready is given nothing, though stale bytes are dropped. -/
theorem ReportSide.tick_unready (r : ReportSide) (q : Crossing) : (r.tick q false).1 = none := by
  generalize hcleaned : (r.hear q.mark).clean q.receiverTick = cleaned
  obtain ⟨r₂, q₂⟩ := cleaned
  generalize hfetched : r₂.fetch q₂ (false || r₂.skipping) = fetched
  obtain ⟨_ | b, r', q'⟩ := fetched
  · rw [tick_of_none hcleaned hfetched]
  · rw [tick_of_some hcleaned hfetched]
    cases hskip : r₂.skipping with
    | true => rfl
    | false =>
      rw [hskip] at hfetched
      have hnone := r₂.fetch_unwanted q₂
      rw [show r₂.fetch q₂ false = (some b, r', q') from hfetched] at hnone
      cases hnone

/-! ## A worker at work -/

/-- A worker, the pipeline that it reads and the buffers that it has sent. -/
structure Relay where
  worker : Dispatcher
  pipeline : Pipeline
  sent : List (List UInt8) := []
  deriving Inhabited

namespace Relay

/-- What can happen to a relay. -/
inductive Action where
  /-- a turn of the worker; `room` is whether the channel takes a buffer on it -/
  | turn (room : Bool)
  | sample (s : Sample)
  | discard
  | request (r : Controls.Request)
  | drop
  deriving Repr

def start (batchSize : Nat) (pipeline : Pipeline) : Relay := { worker := { batchSize }, pipeline }

/-- A turn of the worker, unless it has come to its end. -/
def turn (r : Relay) (room : Bool) : Relay :=
  if r.worker.finished then r
  else
    let (buffer, worker, pipeline) := r.worker.turn r.pipeline room
    { worker, pipeline, sent := r.sent ++ buffer.toList }

/-- What an action does to the pipeline; a turn reads it. -/
def onPipeline (r : Relay) : Action → List Pipeline.Action
  | .turn _ => if r.worker.finished then [] else [.report r.worker.isReady]
  | .sample s => [.sample s]
  | .discard => [.discard]
  | .request request => [.request request]
  | .drop => [.drop]

def step (r : Relay) : Action → Relay
  | .turn room => r.turn room
  | a => { r with pipeline := r.pipeline.after (r.onPipeline a) }

def after (r : Relay) (actions : List Action) : Relay := actions.foldl step r

/-- All that actions do to the pipeline. -/
def readings : Relay → List Action → List Pipeline.Action
  | _, [] => []
  | r, a :: rest => r.onPipeline a ++ (r.step a).readings rest

/-- The bytes that the worker holds, oldest first. -/
def held (r : Relay) : List UInt8 := r.worker.batch.reverse

/-- The batch with what a tick has given. -/
def withByte (b : Option Beat) (batch : List UInt8) : List UInt8 := (b.map Beat.payload).toList ++ batch

end Relay

/-- **What a turn can do**, the tick having given `b` and found the pipeline `done` or not: send a batch, hold it for
want of room, go on reading, wait, or end. -/
inductive Dispatcher.Turns (d : Dispatcher) (b : Option Beat) (done room : Bool) :
    Option (List UInt8) → Dispatcher → Prop
  | sends (hbatch : Relay.withByte b d.batch ≠ []) (hroom : room = true) :
      Turns d b done room (some (Relay.withByte b d.batch).reverse) { d with batch := [] }
  | holds (hbatch : Relay.withByte b d.batch ≠ []) (hroom : room = false) :
      Turns d b done room none { d with batch := Relay.withByte b d.batch }
  | reads {byte : Beat} (hready : d.isReady = true) (hbyte : b = some byte) (hdone : done = false) :
      Turns d b done room none { d with batch := byte.payload :: d.batch, finished := false }
  | waits (hbatch : d.batch = []) (hbyte : b = none) (hdone : done = false) :
      Turns d b done room none { d with finished := false }
  | ends (hbatch : d.batch = []) (hbyte : b = none) (hdone : done = true) :
      Turns d b done room none { d with finished := true }

namespace Dispatcher

variable {d : Dispatcher}

theorem turns_turn (d : Dispatcher) (p : Pipeline) (room : Bool) :
    d.Turns (p.report d.isReady).1 (p.report d.isReady).2.isOver room (d.turn p room).1 (d.turn p room).2.1 := by
  unfold turn Pipeline.isOver
  dsimp only
  generalize (p.report d.isReady).1 = b
  generalize (p.report d.isReady).2 = p'
  generalize p'.reports.isOver p'.queue = done
  change d.Turns b done room (if !(Relay.withByte b d.batch).isEmpty && _ then _ else _ : _ × _ × _).1
    (if !(Relay.withByte b d.batch).isEmpty && _ then _ else _ : _ × _ × _).2.1
  by_cases hdue : (!(Relay.withByte b d.batch).isEmpty && (!d.isReady || b.isNone || done)) = true
  · rw [if_pos hdue]
    have hbatch : Relay.withByte b d.batch ≠ [] := by
      simpa using (Bool.and_eq_true_iff.1 hdue).1
    cases room with
    | true => exact .sends hbatch rfl
    | false => exact .holds hbatch rfl
  · rw [if_neg hdue]
    cases b with
    | some byte =>
      have hgoes : d.isReady = true ∧ done = false := by simpa [Relay.withByte] using hdue
      rw [hgoes.2]
      exact .reads hgoes.1 rfl rfl
    | none =>
      have hnil : d.batch = [] := by simpa [Relay.withByte] using hdue
      cases done with
      | true => exact .ends hnil rfl rfl
      | false => exact .waits hnil rfl rfl

end Dispatcher

/-! ## The pipeline under a relay -/

theorem Pipeline.isOver_of_sent {p p' : Pipeline} (hreports : p'.reports = p.reports)
    (h : Crossing.Called Crossing.Action.isSenders p.queue p'.queue) : p'.isOver = p.isOver := by
  have hreceiver : p'.queue.receiver = p.queue.receiver :=
    h.invariant (P := fun q => q.receiver = p.queue.receiver)
      (fun _ _ ha hq => (Crossing.receiver_call ha).trans hq) rfl
  unfold isOver ReportSide.isOver Crossing.isOver Crossing.isEmpty
  rw [hreports, hreceiver]

/-- What the sampling side does makes no pipeline over. -/
theorem Pipeline.isOver_step (p : Pipeline) {a : Pipeline.Action} (ha : ∀ ready, a ≠ .report ready) :
    (p.step a).2.isOver = p.isOver := by
  cases a with
  | sample s =>
    refine isOver_of_sent ?_ (p.sent_step_sample s)
    unfold step
    dsimp only
    split <;> rfl
  | discard =>
    refine isOver_of_sent ?_ p.sent_step_discard
    unfold step
    dsimp only
    split <;> rfl
  | report ready => exact absurd rfl (ha ready)
  | request r => rfl
  | drop => rfl

namespace Relay

variable {r : Relay} {size : Nat} {read : List Beat}

theorem turn_of_finished (h : r.worker.finished = true) (room : Bool) : r.turn room = r := by
  unfold turn
  rw [if_pos h]

theorem turn_of_unfinished (h : r.worker.finished = false) (room : Bool) :
    r.turn room = ⟨(r.worker.turn r.pipeline room).2.1, (r.pipeline.report r.worker.isReady).2,
      r.sent ++ (r.worker.turn r.pipeline room).1.toList⟩ := by
  have hpipeline : (r.worker.turn r.pipeline room).2.2 = (r.pipeline.report r.worker.isReady).2 := by
    unfold Dispatcher.turn
    dsimp only
    split_ifs <;> rfl
  unfold turn
  rw [h, ← hpipeline]
  rfl

theorem onPipeline_turn (h : r.worker.finished = false) (room : Bool) :
    r.onPipeline (.turn room) = [.report r.worker.isReady] := by
  unfold onPipeline
  rw [h]
  rfl

theorem pipeline_step (r : Relay) (a : Action) : (r.step a).pipeline = r.pipeline.after (r.onPipeline a) := by
  cases a with
  | turn room =>
    show (r.turn room).pipeline = _
    cases h : r.worker.finished with
    | true =>
      rw [turn_of_finished h]
      unfold onPipeline
      rw [h]
      rfl
    | false =>
      rw [turn_of_unfinished h, onPipeline_turn h]
      rfl
  | _ => rfl

theorem pipeline_after (r : Relay) (actions : List Action) :
    (r.after actions).pipeline = r.pipeline.after (r.readings actions) := by
  induction actions generalizing r with
  | nil => rfl
  | cons a rest ih =>
    show ((r.step a).after rest).pipeline = _
    rw [ih, pipeline_step, readings, Pipeline.after_append]

/-! ## What is sent and what is held -/

/-- A worker that has been given the bytes `read` has sent them or holds them, a batch of a certain size at most. -/
structure Inv (r : Relay) (size : Nat) (read : List Beat) : Prop where
  batchSize : r.worker.batchSize = size
  relayed : r.sent.flatten ++ r.held = read.map Beat.payload
  fits : r.worker.batch.length ≤ size
  buffers : ∀ buffer ∈ r.sent, buffer ≠ [] ∧ buffer.length ≤ size
  ended : r.worker.finished = true → r.pipeline.isOver = true ∧ r.held = []

theorem reverse_withByte (b : Option Beat) (batch : List UInt8) :
    (withByte b batch).reverse = batch.reverse ++ b.toList.map Beat.payload := by
  cases b <;> simp [withByte]

/-- The worker takes a byte only while its batch is not full. -/
theorem Inv.length_withByte (h : r.Inv size read) :
    (withByte (r.pipeline.report r.worker.isReady).1 r.worker.batch).length ≤ size := by
  cases hb : (r.pipeline.report r.worker.isReady).1 with
  | none => exact h.fits
  | some byte =>
    cases hready : r.worker.isReady with
    | true =>
      have hroom : r.worker.batch.length < r.worker.batchSize := by simpa [Dispatcher.isReady] using hready
      rw [h.batchSize] at hroom
      exact hroom
    | false =>
      have hnone : (r.pipeline.report false).1 = none := r.pipeline.reports.tick_unready r.pipeline.queue
      rw [hready, hnone] at hb
      cases hb

/-- **A turn passes on what it reads, or holds it.** -/
theorem Inv.turn (h : r.Inv size read) (hgoes : r.worker.finished = false) (room : Bool) :
    (r.turn room).Inv size (read ++ (r.pipeline.report r.worker.isReady).1.toList) := by
  have hturns := r.worker.turns_turn r.pipeline room
  have hfits := h.length_withByte
  rw [turn_of_unfinished hgoes]
  generalize (r.worker.turn r.pipeline room).1 = buffer at hturns ⊢
  generalize (r.worker.turn r.pipeline room).2.1 = worker at hturns ⊢
  generalize (r.pipeline.report r.worker.isReady).1 = b at hturns hfits ⊢
  generalize (r.pipeline.report r.worker.isReady).2 = p' at hturns ⊢
  -- the bytes sent before and the batch with the new byte are all that was read
  have hall : r.sent.flatten ++ (withByte b r.worker.batch).reverse = (read ++ b.toList).map Beat.payload := by
    rw [reverse_withByte, ← List.append_assoc, List.map_append, ← h.relayed]
    rfl
  cases hturns with
  | sends hbatch hroom =>
    refine ⟨h.batchSize, ?_, Nat.zero_le _, ?_, fun hend => ?_⟩
    · simpa [held] using hall
    · intro buffer hbuffer
      rcases List.mem_append.1 hbuffer with hold | hnew
      · exact h.buffers buffer hold
      · rw [List.mem_singleton.1 hnew]
        exact ⟨by simpa using hbatch, by simpa using hfits⟩
    · exact absurd (hgoes.symm.trans hend) Bool.false_ne_true
  | holds hbatch hroom =>
    refine ⟨h.batchSize, ?_, hfits, by simpa using h.buffers, fun hend => ?_⟩
    · simpa [held] using hall
    · exact absurd (hgoes.symm.trans hend) Bool.false_ne_true
  | reads hready hbyte hdone =>
    subst hbyte
    exact ⟨h.batchSize, by simpa [held, withByte] using hall, hfits, by simpa using h.buffers, nofun⟩
  | waits hbatch hbyte hdone =>
    subst hbyte
    exact ⟨h.batchSize, by simpa [held, withByte] using hall, hfits, by simpa using h.buffers, nofun⟩
  | ends hbatch hbyte hdone =>
    subst hbyte
    refine ⟨h.batchSize, by simpa [held, withByte] using hall, hfits, by simpa using h.buffers, fun _ => ⟨hdone, ?_⟩⟩
    simpa [held] using hbatch

theorem Inv.step (h : r.Inv size read) (a : Action) :
    (r.step a).Inv size (read ++ r.pipeline.delivered (r.onPipeline a)) := by
  -- what is done beside the worker delivers nothing, and leaves a pipeline over that is over
  have hbeside {x : Pipeline.Action} (hx : ∀ ready, x ≠ .report ready) (hnone : (r.pipeline.step x).1 = none) :
      Inv { r with pipeline := (r.pipeline.step x).2 } size (read ++ r.pipeline.delivered [x]) := by
    have hnothing : r.pipeline.delivered [x] = [] := by
      simp [Pipeline.delivered, hnone]
    rw [hnothing, List.append_nil]
    exact ⟨h.batchSize, h.relayed, h.fits, h.buffers, fun hend => ⟨(r.pipeline.isOver_step hx).trans (h.ended hend).1,
      (h.ended hend).2⟩⟩
  cases a with
  | turn room =>
    show (r.turn room).Inv size _
    cases hend : r.worker.finished with
    | true =>
      unfold onPipeline
      rw [turn_of_finished hend, hend]
      simpa [Pipeline.delivered] using h
    | false =>
      rw [onPipeline_turn hend]
      simpa [Pipeline.delivered, Pipeline.step] using h.turn hend room
  | sample s => exact hbeside (by simp) rfl
  | discard => exact hbeside (by simp) rfl
  | request request => exact hbeside (by simp) rfl
  | drop => exact hbeside (by simp) rfl

theorem Inv.after (h : r.Inv size read) (actions : List Action) :
    (r.after actions).Inv size (read ++ r.pipeline.delivered (r.readings actions)) := by
  induction actions generalizing r read with
  | nil =>
    rw [readings, Pipeline.delivered, List.append_nil]
    exact h
  | cons a rest ih =>
    rw [readings, Pipeline.delivered_append, ← pipeline_step, ← List.append_assoc]
    exact ih (h.step a)

theorem inv_start (size : Nat) (p : Pipeline) : (start size p).Inv size [] :=
  ⟨rfl, rfl, Nat.zero_le _, nofun, nofun⟩

/-- **A relay after some actions.**  The pipeline is one under an interleaving, and of the bytes that it delivers to the
worker none is lost and none is sent twice. -/
structure Relays (r : Relay) (actions : List Action) : Prop where
  reads : (r.after actions).pipeline = r.pipeline.after (r.readings actions)
  relayed : (r.after actions).sent.flatten ++ (r.after actions).held =
    (r.pipeline.delivered (r.readings actions)).map Beat.payload
  buffers : ∀ buffer ∈ (r.after actions).sent, buffer ≠ [] ∧ buffer.length ≤ r.worker.batchSize
  /-- a worker that has ended left a pipeline that is over, and holds nothing -/
  ended : (r.after actions).worker.finished = true → (r.after actions).pipeline.isOver = true ∧ (r.after actions).held = []
  /-- it ends on the turn on which the pipeline is over and it has nothing to send -/
  ends (room : Bool) : (r.after actions).worker.finished = false →
    (((r.after actions).turn room).worker.finished = true ↔ ((r.after actions).turn room).pipeline.isOver = true ∧
      ((r.after actions).turn room).held = [] ∧ ((r.after actions).turn room).sent = (r.after actions).sent)
  /-- with room in the channel, a turn that adds no byte to the batch leaves none in it -/
  moves : (r.after actions).worker.finished = false → ((r.after actions).turn true).held = [] ∨
    ∃ b, ((r.after actions).turn true).held = (r.after actions).held ++ [b]

theorem ends_iff (h : r.worker.finished = false) (room : Bool) : (r.turn room).worker.finished = true ↔
    (r.turn room).pipeline.isOver = true ∧ (r.turn room).held = [] ∧ (r.turn room).sent = r.sent := by
  have hturns := r.worker.turns_turn r.pipeline room
  rw [turn_of_unfinished h]
  generalize (r.worker.turn r.pipeline room).1 = buffer at hturns ⊢
  generalize (r.worker.turn r.pipeline room).2.1 = worker at hturns ⊢
  cases hturns <;> simp_all [held]

theorem turn_moves (h : r.worker.finished = false) :
    (r.turn true).held = [] ∨ ∃ b, (r.turn true).held = r.held ++ [b] := by
  have hturns := r.worker.turns_turn r.pipeline true
  rw [turn_of_unfinished h]
  generalize (r.worker.turn r.pipeline true).1 = buffer at hturns ⊢
  generalize (r.worker.turn r.pipeline true).2.1 = worker at hturns ⊢
  cases hturns with
  | sends => exact .inl rfl
  | holds _ hroom => cases hroom
  | reads => exact .inr ⟨_, List.reverse_cons⟩
  | waits hbatch => exact .inl (by simpa [held] using hbatch)
  | ends hbatch => exact .inl (by simpa [held] using hbatch)

/-- **The worker loses and repeats nothing**, whatever pipeline it reads, whatever its batches hold, whenever the channel
has room. -/
theorem relays_start (size : Nat) (p : Pipeline) (actions : List Action) : (start size p).Relays actions := by
  have h := (inv_start size p).after actions
  exact ⟨pipeline_after _ actions, h.relayed, h.buffers, h.ended, fun room hgoes => ends_iff hgoes room, turn_moves⟩

/-- A packet of two bytes, after which the sampling side goes. -/
def lastPacket : List Action :=
  [.request (.write 1), .sample {}, .sample { active := true, valid := true, byte := 1 },
    .sample { active := true, valid := true, byte := 2 }, .sample {}, .sample {}, .sample {}, .sample {}, .sample {},
    .sample {}, .sample {}, .drop]

/-- Batches of four bytes: the first is held until there is room, the second sent though it is not full. -/
example : ∃ p, Pipeline.create { ringSize := 32, queueDepth := 8 } .standard = .ok p ∧
    ((start 4 p).after (lastPacket ++ List.replicate 8 (.turn false))).held = [0, 2, 0, 0] ∧
    ((start 4 p).after (lastPacket ++ List.replicate 8 (.turn false) ++ List.replicate 4 (.turn true))).sent =
      [[0, 2, 0, 0], [1, 2]] ∧
    ((start 4 p).after (lastPacket ++ List.replicate 8 (.turn false) ++ List.replicate 4 (.turn true))).worker.finished =
      true := by
  refine ⟨_, rfl, ?_⟩
  decide +kernel

end Relay
end UsbRecorder
