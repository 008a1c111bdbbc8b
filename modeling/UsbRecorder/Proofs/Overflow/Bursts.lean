import UsbRecorder.Proofs.Overflow.Lossless
/-!
# Bursts — what an overflow store asks of its memory

`Spill.asks` is the command that a cycle gives to the memory; the memory's own part of the cycle follows it, and nothing
else is done to the memory (`carryOut_tick`).  Under any use of the store a transfer is only started while the memory is
at rest, words only move while they may, and a word is never written over one that is live (`orderly_of_create`).
-/
namespace UsbRecorder

/-! ## Commands to a memory -/

namespace BurstRam

/-- What a memory may be asked: to start while it is at rest, and to move a word while words move. -/
def Accepts (m : BurstRam) : Command → Prop
  | .start _ => m.isIdle = true
  | .write .. | .read _ => m.isReady = true
  | .ticks _ => True

def carryOut (m : BurstRam) : List Command → Except Fault BurstRam
  | [] => .ok m
  | c :: rest => do
    let (_, m) ← m.perform c
    m.carryOut rest

variable {m : BurstRam}

theorem isIdle_iff : m.isIdle = true ↔ m.phase = .idle := beq_iff_eq

theorem isReady_iff : m.isReady = true ↔ m.phase = .data := beq_iff_eq

/-- What is left of a latency or of a recovery is some of it, and no more than all of it. -/
def Timely (m : BurstRam) : Prop :=
  match m.phase with
  | .command left => 0 < left ∧ left ≤ m.latency
  | .recovery left => 0 < left ∧ left ≤ m.recovery
  | .idle | .data => True

theorem timely_start (m : BurstRam) (address : Nat) : (m.start address).Timely := by
  unfold Timely start
  by_cases hz : m.latency = 0
  · simp [hz]
  · simp [hz, Nat.pos_of_ne_zero hz]

theorem timely_advance (h : m.Timely) (last : Bool) : (m.advance last).Timely := by
  unfold advance
  cases last with
  | false => exact h
  | true =>
    unfold Timely
    by_cases hz : m.recovery = 0
    · simp [hz]
    · simp [hz, Nat.pos_of_ne_zero hz]

theorem timely_tick (h : m.Timely) : m.tick.Timely := by
  unfold Timely at h
  unfold Timely tick
  cases hp : m.phase with
  | idle | data => trivial
  | command left | recovery left =>
    rw [hp] at h
    dsimp only at h ⊢
    by_cases hone : left = 1
    · simp [hone]
    · rw [if_neg hone]
      dsimp only
      omega

theorem isIdle_tick (h : m.isIdle = true) : m.tick.isIdle = true := by
  rw [isIdle_iff] at h ⊢
  simp [tick, h]

end BurstRam

namespace Spill

variable {σ : Type} [BeatSource σ] {s : Spill} {input : σ}

/-! ## What a cycle can do -/

/-- What a cycle asks of the memory. -/
def asks (s : Spill) (input : σ) : Option BurstRam.Command :=
  match s.burst with
  | none =>
    if (BeatSource.offered input).isSome ∧ s.level < s.depth then some (.start s.writeAt)
    else if 0 < s.level ∧ s.output.size < s.threshold then some (.start s.readAt)
    else none
  | some .writing =>
    if s.memory.isReady then
      match BeatSource.take input with
      | (some b, rest) => some (.write b.toWord (s.level + 1 == s.depth || b.last || !(BeatSource.offered rest).isSome))
      | (none, _) => some (.write 0 true)
    else none
  | some .reading =>
    if s.memory.isReady then some (.read (s.level ≤ 1 || s.output.size + 1 == s.outputDepth)) else none

/-- The ways in which words move, or do not, in a cycle. -/
inductive Moves (s : Spill) (input : σ) : Option BurstRam.Command → Spill → σ → Prop
  | rest (hburst : s.burst = none) (hroom : ¬ ((BeatSource.offered input).isSome ∧ s.level < s.depth))
      (hread : ¬ (0 < s.level ∧ s.output.size < s.threshold)) : Moves s input none s input
  | startWriting (hburst : s.burst = none) (hroom : (BeatSource.offered input).isSome ∧ s.level < s.depth) :
      Moves s input (some (.start s.writeAt))
        { s with
          memory := s.memory.start s.writeAt
          burst := some .writing
          counts.writeBursts := s.counts.writeBursts + 1 } input
  | startReading (hburst : s.burst = none) (hroom : ¬ ((BeatSource.offered input).isSome ∧ s.level < s.depth))
      (hread : 0 < s.level ∧ s.output.size < s.threshold) :
      Moves s input (some (.start s.readAt))
        { s with
          memory := s.memory.start s.readAt
          burst := some .reading
          counts.readBursts := s.counts.readBursts + 1 } input
  | wait {dir : Burst} (hburst : s.burst = some dir) (hready : ¬ s.memory.isReady = true) : Moves s input none s input
  | write {b : Beat} {rest : σ} (hburst : s.burst = some .writing) (hready : s.memory.isReady = true)
      (htake : BeatSource.take input = (some b, rest)) :
      Moves s input (some (.write b.toWord (s.level + 1 == s.depth || b.last || !(BeatSource.offered rest).isSome)))
        (s.writeBeat b (BeatSource.offered rest).isSome) rest
  | writeNothing {rest : σ} (hburst : s.burst = some .writing) (hready : s.memory.isReady = true)
      (htake : BeatSource.take input = (none, rest)) :
      Moves s input (some (.write 0 true)) { s with memory := s.memory.write 0 true } rest
  | read (hburst : s.burst = some .reading) (hready : s.memory.isReady = true) :
      Moves s input (some (.read (s.level ≤ 1 || s.output.size + 1 == s.outputDepth))) s.readBeat input

theorem moves_move (s : Spill) (input : σ) : Moves s input (s.asks input) (s.move input).1 (s.move input).2 := by
  unfold asks move
  cases hburst : s.burst with
  | none =>
    dsimp only
    unfold begin
    split_ifs with hroom hread
    · exact .startWriting hburst hroom
    · exact .startReading hburst hroom hread
    · exact .rest hburst hroom hread
  | some dir =>
    cases dir with
    | writing =>
      dsimp only
      split_ifs with hready
      · rcases htake : BeatSource.take input with ⟨b | b, rest⟩
        · have hnothing := Moves.writeNothing hburst hready htake
          rw [hburst] at hnothing
          exact hnothing
        · exact .write hburst hready htake
      · exact .wait hburst hready
    | reading =>
      dsimp only
      split_ifs with hready
      · exact .read hburst hready
      · exact .wait hburst hready

variable {asked : Option BurstRam.Command} {s' : Spill} {rest : σ}

theorem Moves.carryOut (h : Moves s input asked s' rest) (hdepth : s.memory.depth ≠ 0) :
    s.memory.carryOut (asked.toList ++ [.ticks 1]) = .ok s'.memory.tick := by
  have hperform : ∀ m : BurstRam, m.carryOut [.ticks 1] = .ok m.tick := fun _ => rfl
  cases h with
  | rest | wait => exact hperform s.memory
  | startWriting | startReading | write | writeNothing =>
    simp only [Option.toList_some, List.singleton_append, BurstRam.carryOut, BurstRam.perform, if_neg hdepth]
    rfl
  | read =>
    simp only [Option.toList_some, List.singleton_append, BurstRam.carryOut, BurstRam.perform, if_neg hdepth]
    unfold readBeat
    dsimp only [BurstRam.read]
    split <;> rfl

/-- **A cycle does nothing to the memory but what it asks of it.** -/
theorem carryOut_tick (hdepth : s.memory.depth ≠ 0) :
    s.memory.carryOut ((s.asks input).toList ++ [.ticks 1]) = .ok (s.tick input).1.memory :=
  (moves_move s input).carryOut hdepth

/-! ## What a store is built with -/

structure Make where
  words : Nat
  latency : Nat
  recovery : Nat
  outputDepth : Nat
  threshold : Nat

def make (s : Spill) : Make :=
  ⟨s.memory.depth, s.memory.latency, s.memory.recovery, s.outputDepth, s.threshold⟩

theorem Moves.make (h : Moves s input asked s' rest) : s'.make = s.make := by
  cases h with
  | read =>
    unfold readBeat
    dsimp only
    split <;> rfl
  | _ => rfl

theorem make_tick (s : Spill) (input : σ) : (s.tick input).1.make = s.make := (moves_move s input).make

theorem exists_of_create {memory : BurstRam} {outputDepth : Nat} {threshold : Option Nat}
    (h : create memory outputDepth threshold = .ok s) : 2 ≤ memory.depth ∧ ∃ threshold, 0 < threshold ∧
      threshold < max outputDepth 2 ∧ s = { memory, outputDepth := max outputDepth 2, threshold } := by
  unfold create at h
  split at h
  · cases h
  · rename_i hdepth
    dsimp only at h
    split at h
    · cases h
    · rename_i hthreshold
      cases h
      exact ⟨by omega, _, by omega, by omega, rfl⟩

/-! ## The store in step with its memory -/

/-- **A store in step with its memory**: it is between bursts just when the memory is at rest, and a word that is read
back finds room in the output. -/
structure InStep (s : Spill) : Prop where
  idle_iff : s.burst = none ↔ s.memory.isIdle = true
  timely : s.memory.Timely
  output_le : s.output.size ≤ s.outputDepth
  reading : s.burst = some .reading → s.memory.Moving → s.output.size < s.outputDepth
  threshold_pos : 0 < s.threshold
  threshold_lt : s.threshold < s.outputDepth

theorem inStep_create {memory : BurstRam} {outputDepth : Nat} {threshold : Option Nat}
    (h : create memory outputDepth threshold = .ok s) (hidle : memory.isIdle = true) : s.InStep := by
  obtain ⟨-, threshold, hpos, hlt, rfl⟩ := exists_of_create h
  have htimely : memory.Timely := by simp [BurstRam.Timely, BurstRam.isIdle_iff.1 hidle]
  exact ⟨by simp [hidle], htimely, Nat.zero_le _, nofun, hpos, hlt⟩

theorem settle_idle_iff (h : s.burst = none → s.memory.isIdle = true) :
    s.settle.burst = none ↔ s.settle.memory.isIdle = true := by
  unfold settle
  dsimp only
  split
  · rename_i hidle
    exact ⟨fun _ => hidle, fun _ => rfl⟩
  · rename_i hbusy
    exact ⟨fun hnone => BurstRam.isIdle_tick (h hnone), fun hidle => absurd hidle hbusy⟩

namespace InStep

/-- What holds after words have moved, before the memory's own part of the cycle. -/
theorem moves (hi : s.InStep) (h : Moves s input asked s' rest) : (s'.burst = none → s'.memory.isIdle = true) ∧
    s'.memory.Timely ∧ s'.output.size ≤ s'.outputDepth ∧
    (s'.burst = some .reading → s'.memory.Moving → s'.output.size < s'.outputDepth) := by
  have hpos := hi.threshold_pos
  have hlt := hi.threshold_lt
  cases h with
  | rest | wait => exact ⟨hi.idle_iff.1, hi.timely, hi.output_le, hi.reading⟩
  | startWriting => exact ⟨nofun, BurstRam.timely_start _ _, hi.output_le, nofun⟩
  | startReading _ _ hread =>
    exact ⟨nofun, BurstRam.timely_start _ _, hi.output_le, fun _ _ => Nat.lt_trans hread.2 hlt⟩
  | write hburst | writeNothing hburst =>
    refine ⟨fun hnone => ?_, BurstRam.timely_advance hi.timely _, hi.output_le, fun hreading => ?_⟩
    · cases hburst.symm.trans hnone
    · cases hburst.symm.trans hreading
  | read hburst hready =>
    have hroom := hi.reading hburst (BurstRam.moving_of_isReady hready)
    unfold readBeat
    dsimp only [BurstRam.read]
    split
    · refine ⟨fun hnone => ?_, BurstRam.timely_advance hi.timely _, ?_, fun _ hmoving => ?_⟩
      · cases hburst.symm.trans hnone
      · rw [Fifo.size_push]
        exact hroom
      · rw [Fifo.size_push]
        -- the word that fills the output is the final one of its burst
        refine Nat.lt_of_le_of_ne hroom fun hfull => ?_
        have hlast : (s.level ≤ 1 || s.output.size + 1 == s.outputDepth) = true := by simp [hfull]
        rw [hlast] at hmoving
        exact BurstRam.not_moving_advance _ hmoving
    · refine ⟨fun hnone => ?_, BurstRam.timely_advance hi.timely _, hi.output_le, fun _ _ => hroom⟩
      cases hburst.symm.trans hnone

theorem tick (hi : s.InStep) (input : σ) : (s.tick input).1.InStep := by
  obtain ⟨hidle, htimely, houtput, hreading⟩ := hi.moves (moves_move s input)
  have hmake := make_tick s input
  simp only [make, Make.mk.injEq] at hmake
  obtain ⟨-, -, -, hdepth, hthreshold⟩ := hmake
  refine ⟨settle_idle_iff hidle, BurstRam.timely_tick htimely, houtput, fun hburst hmoving => ?_,
    hthreshold ▸ hi.threshold_pos, ?_⟩
  · exact hreading (burst_of_settle hburst) (BurstRam.moving_of_tick hmoving)
  · rw [hthreshold, hdepth]
    exact hi.threshold_lt

theorem take (hi : s.InStep) : s.take.2.InStep := by
  have hle : s.output.tail.size ≤ s.output.size := by
    rw [Fifo.size_tail]
    exact Nat.sub_le _ _
  exact ⟨hi.idle_iff, hi.timely, Nat.le_trans hle hi.output_le, fun hb hm => Nat.lt_of_le_of_lt hle (hi.reading hb hm),
    hi.threshold_pos, hi.threshold_lt⟩

theorem clear (hi : s.InStep) : s.clear.2.InStep :=
  have hpos := Nat.lt_trans hi.threshold_pos hi.threshold_lt
  ⟨hi.idle_iff, hi.timely, Nat.zero_le _, fun _ _ => hpos, hi.threshold_pos, hi.threshold_lt⟩

theorem accepts (hi : s.InStep) {c : BurstRam.Command} (h : Moves s input (some c) s' rest) : s.memory.Accepts c := by
  cases h with
  | startWriting hburst | startReading hburst => exact hi.idle_iff.1 hburst
  | write _ hready | writeNothing _ hready | read _ hready => exact hready

end InStep

/-- A word is only written beside the words that are live. -/
theorem Holds.spares {beats : List Beat} (h : s.Holds beats) {word : UInt16} {last : Bool}
    (hmoves : Moves s input (some (.write word last)) s' rest) {i : Nat} (hi : i < s.level) :
    (s.readAt + i) % s.depth ≠ s.memory.address := by
  obtain ⟨hburst, hready⟩ : s.burst = some .writing ∧ s.memory.isReady = true := by
    cases hmoves with
    | write hburst hready | writeNothing hburst hready => exact ⟨hburst, hready⟩
  obtain ⟨haddress, hroom⟩ := h.writing hburst (BurstRam.moving_of_isReady hready)
  rw [haddress, h.writeAt]
  exact circle_ne hi hroom

/-! ## Under any use -/

namespace History

/-- **What a store owes to its memory and to its own bounds**, with a cycle about to begin. -/
structure Orderly (h : History σ) (words outputDepth : Nat) : Prop where
  idle_iff : h.store.burst = none ↔ h.store.memory.isIdle = true
  accepts : ∀ c, h.store.asks h.input = some c → h.store.memory.Accepts c
  /-- the cycle does nothing to the memory but what it asks of it -/
  carryOut : h.store.memory.carryOut ((h.store.asks h.input).toList ++ [.ticks 1]) =
    .ok (h.step .tick).store.memory
  /-- a word is written to no cell that is live -/
  spares : ∀ word last, h.store.asks h.input = some (.write word last) →
    ∀ i < h.store.level, (h.store.readAt + i) % words ≠ h.store.memory.address
  level_le : h.store.level ≤ words
  output_le : h.store.output.size ≤ outputDepth
  writeAt_eq : h.store.writeAt = (h.store.readAt + h.store.level) % words

variable {h : History σ}

theorem make_step (h : History σ) (a : Action σ) : (h.step a).store.make = h.store.make := by
  cases a with
  | tick => exact make_tick h.store h.input
  | _ => rfl

theorem make_after (h : History σ) (actions : List (Action σ)) : (h.after actions).store.make = h.store.make := by
  induction actions generalizing h with
  | nil => rfl
  | cons a actions ih => exact (ih (h.step a)).trans (h.make_step a)

theorem inStep_step (hi : h.store.InStep) (a : Action σ) : (h.step a).store.InStep := by
  cases a with
  | tick => exact hi.tick h.input
  | take => exact hi.take
  | clear => exact hi.clear
  | supply input => exact hi

theorem inStep_after (hi : h.store.InStep) (actions : List (Action σ)) : (h.after actions).store.InStep := by
  induction actions generalizing h with
  | nil => exact hi
  | cons a actions ih => exact ih (inStep_step hi a)

/-- What is true of a store however it was used: it is built as it was, in step with its memory, and holds some
beats. -/
theorem standing_of_create {words latency recovery outputDepth : Nat} {threshold : Option Nat}
    (hs : create { depth := words, latency, recovery } outputDepth threshold = .ok s) (input : σ)
    (actions : List (Action σ)) : ∃ threshold beats,
      (History.after { store := s, input } actions).store.make =
        ⟨words, latency, recovery, max outputDepth 2, threshold⟩ ∧
      (History.after { store := s, input } actions).store.InStep ∧
      (History.after { store := s, input } actions).store.Holds beats := by
  have hheld : History.Inv { store := s, input } := ⟨Nat.le_refl _, nofun, holds_create hs⟩
  obtain ⟨-, -, hholds⟩ := hheld.after actions
  have hstep := inStep_after (h := { store := s, input }) (inStep_create hs rfl) actions
  have hmake := make_after { store := s, input } actions
  obtain ⟨-, threshold, -, -, rfl⟩ := exists_of_create hs
  exact ⟨threshold, _, hmake, hstep, hholds⟩

/-- **A store keeps to the protocol of its memory and to its own bounds**: over a memory of any size, latency and
recovery, with any output buffer and threshold that it can be built with, and whatever its input, its reader and its
user do. -/
theorem orderly_of_create {words latency recovery outputDepth : Nat} {threshold : Option Nat}
    (hs : create { depth := words, latency, recovery } outputDepth threshold = .ok s) (input : σ)
    (actions : List (Action σ)) :
    (History.after { store := s, input } actions).Orderly words (max outputDepth 2) := by
  obtain ⟨threshold, beats, hmake, hstep, hholds⟩ := standing_of_create hs input actions
  obtain ⟨hwords, -⟩ := exists_of_create hs
  simp only [make, Make.mk.injEq] at hmake
  obtain ⟨hdepth, -, -, houtput, -⟩ := hmake
  generalize History.after _ actions = h at hholds hstep hdepth houtput ⊢
  have hsize : h.store.depth = words := hdepth
  refine ⟨hstep.idle_iff, fun c hc => ?_, ?_, fun word last hasks i hi => ?_, ?_, ?_, ?_⟩
  · have hmoves := moves_move h.store h.input
    rw [hc] at hmoves
    exact hstep.accepts hmoves
  · refine carryOut_tick fun hzero => ?_
    rw [hdepth] at hzero
    dsimp only at hwords
    omega
  · have hmoves := moves_move h.store h.input
    rw [hasks] at hmoves
    rw [← hsize]
    exact hholds.spares hmoves hi
  · rw [← hsize]
    exact hholds.level_le
  · rw [← houtput]
    exact hstep.output_le
  · rw [← hsize]
    exact hholds.writeAt

/-- The first of three bytes is cleared away in the burst that writes them; the second is live when the third is about
to be written. -/
def writingOn : List (Action Ring) := [.tick, .tick, .clear, .tick]

theorem orderly_writingOn :
    create { depth := 4, latency := 1, recovery := 1 } 2 none = .ok overRing.store ∧
      (overRing.after writingOn).store.level = 1 ∧
      (overRing.after writingOn).store.asks (overRing.after writingOn).input = some (.write 0x109 true) ∧
      (overRing.after writingOn).Orderly 4 2 := by
  have hcreate : create { depth := 4, latency := 1, recovery := 1 } 2 none = .ok overRing.store := rfl
  exact ⟨hcreate, by decide +kernel, by decide +kernel, orderly_of_create hcreate overRing.input writingOn⟩

end History
end Spill
end UsbRecorder
