import UsbRecorder.Proofs.Memory.RingView
import UsbRecorder.Proofs.Overflow.Bursts
/-!
# Emptying — a store without more input gives up all that it holds, and soon

`Spill.Nears s n`: a store from which a beat is taken after each cycle is empty after `n` more of them.  What is left of
the burst under way, the words in the memory and those in the output all count, and one more burst where the burst under
way may end early; each cycle takes off one (`nears_cycle`).  So every store is empty within the time of two bursts and
a cycle for each word (`empties_of_create`).
-/
namespace UsbRecorder

namespace BurstRam

variable {m : BurstRam}

/-- Cycles until the memory is at rest, if the next word to move is a final one. -/
def untilRest (m : BurstRam) : Nat :=
  match m.phase with
  | .idle => 0
  | .command left => left + max 1 m.recovery
  | .data => max 1 m.recovery
  | .recovery left => left

/-- Cycles of a burst of one word. -/
def burstTime (m : BurstRam) : Nat := max 1 m.latency + max 1 m.recovery

theorem untilRest_of_isIdle (h : m.isIdle = true) : m.untilRest = 0 := by
  simp [untilRest, isIdle_iff.1 h]

theorem isIdle_of_untilRest (h : m.Timely) (hz : m.untilRest = 0) : m.isIdle = true := by
  rw [isIdle_iff]
  unfold Timely at h
  unfold untilRest at hz
  cases hp : m.phase with
  | idle => rfl
  | command left | recovery left | data =>
    rw [hp] at h hz
    dsimp only at h hz
    omega

theorem untilRest_le (h : m.Timely) : m.untilRest ≤ m.latency + max 1 m.recovery := by
  unfold Timely at h
  unfold untilRest
  cases hp : m.phase with
  | idle | command left | recovery left | data =>
    rw [hp] at h
    dsimp only at h ⊢
    omega

/-- Of a latency or a recovery a cycle takes off one. -/
theorem untilRest_tick (h : m.Timely) (hidle : ¬ m.isIdle = true) (hready : ¬ m.isReady = true) :
    m.tick.untilRest + 1 = m.untilRest := by
  rw [isIdle_iff] at hidle
  rw [isReady_iff] at hready
  unfold Timely at h
  unfold tick untilRest
  cases hp : m.phase with
  | idle => exact absurd hp hidle
  | data => exact absurd hp hready
  | command left =>
    rw [hp] at h
    dsimp only at h ⊢
    by_cases hone : left = 1
    · simp [hone, Nat.add_comm]
    · rw [if_neg hone]
      dsimp only
      omega
  | recovery left =>
    rw [hp] at h
    dsimp only at h ⊢
    by_cases hone : left = 1
    · simp [hone]
    · rw [if_neg hone]
      dsimp only
      omega

/-- So does the final word of a burst. -/
theorem untilRest_final (hready : m.isReady = true) : (m.advance true).tick.untilRest + 1 = m.untilRest := by
  rw [isReady_iff] at hready
  unfold advance tick untilRest
  rw [hready]
  by_cases hz : m.recovery = 0
  · simp [hz]
  · by_cases hone : m.recovery = 1
    · simp [hone]
    · simp [hz, hone]
      omega

theorem untilRest_more (hready : m.isReady = true) : (m.advance false).tick.untilRest = m.untilRest := by
  rw [isReady_iff] at hready
  simp [advance, tick, untilRest, hready]

theorem untilRest_start (m : BurstRam) (address : Nat) : (m.start address).tick.untilRest + 1 = m.burstTime := by
  unfold start tick untilRest burstTime
  by_cases hz : m.latency = 0
  · simp [hz]
    omega
  · by_cases hone : m.latency = 1
    · simp [hone]
      omega
    · simp [hz, hone]
      omega

theorem moving_start (m : BurstRam) (address : Nat) : (m.start address).Moving := by
  unfold Moving start
  by_cases hz : m.latency = 0 <;> simp [hz]

theorem moving_tick (h : m.Moving) : m.tick.Moving := by
  unfold Moving tick
  rcases h with hdata | ⟨left, hcommand⟩
  · simp [hdata]
  · by_cases hone : left = 1 <;> simp [hcommand, hone]

theorem not_isIdle_of_moving (h : m.Moving) : ¬ m.isIdle = true := by
  rw [isIdle_iff]
  rcases h with hdata | ⟨left, hcommand⟩ <;> simp [*]

end BurstRam

namespace Spill

variable {σ : Type} [BeatSource σ] {s s' : Spill} {input rest : σ} {asked : Option BurstRam.Command} {n : Nat}

/-! ## How near a store is to being empty -/

/-- The read burst under way will bring all the words of the memory: the output does not fill up before. -/
def ReadsOn (s : Spill) : Prop :=
  s.burst = some .reading ∧ s.memory.Moving ∧ s.output.size + 1 < s.outputDepth

/-- A cycle for each word, and those in which the memory comes to rest. -/
def due (s : Spill) : Nat := s.memory.untilRest + s.level + s.output.size

/-- **A store whose reader takes a beat after each cycle is empty after `n` cycles.** -/
def Nears (s : Spill) (n : Nat) : Prop :=
  s.due ≤ n ∧ (0 < s.level → ¬ s.ReadsOn → s.due + s.memory.burstTime ≤ n)

theorem Nears.mono {m : Nat} (h : s.Nears n) (hle : n ≤ m) : s.Nears m :=
  ⟨Nat.le_trans h.1 hle, fun hlevel hends => Nat.le_trans (h.2 hlevel hends) hle⟩

theorem not_readsOn {burst : Option Burst} (hburst : s.burst = burst) (hne : burst ≠ some .reading) : ¬ s.ReadsOn :=
  fun hreads => hne (hburst.symm.trans hreads.1)

/-- What is asked of the store once words have moved, before the memory's own part of the cycle and the reader's. -/
theorem nears_settle (hdue : s.memory.tick.untilRest + s.level + (s.output.size - 1) ≤ n)
    (hlater : 0 < s.level →
      ¬ (s.burst = some .reading ∧ s.memory.Moving ∧ s.output.size - 1 + 1 < s.outputDepth) →
        s.memory.tick.untilRest + s.level + (s.output.size - 1) + s.memory.burstTime ≤ n) :
    s.settle.take.2.Nears n := by
  have heq : s.settle.take.2.due = s.memory.tick.untilRest + s.level + (s.output.size - 1) := by
    show s.memory.tick.untilRest + s.level + s.output.tail.size = _
    rw [Fifo.size_tail]
  unfold Nears
  rw [heq]
  refine ⟨hdue, fun hlevel hends => hlater hlevel fun ⟨hburst, hmoving, hroom⟩ => hends ?_⟩
  have hmoves := BurstRam.moving_tick hmoving
  refine ⟨?_, hmoves, ?_⟩
  · show (if s.memory.tick.isIdle then none else s.burst) = _
    rw [if_neg (BurstRam.not_isIdle_of_moving hmoves), hburst]
  · show s.output.tail.size + 1 < s.outputDepth
    rwa [Fifo.size_tail]

/-- A cycle that reads a word back takes one off. -/
theorem nears_readBeat (hready : s.memory.isReady = true) (hn : s.Nears (n + 1)) :
    s.readBeat.settle.take.2.Nears n := by
  obtain ⟨hdue, hlater⟩ := hn
  unfold due at hdue hlater
  have hfinal := BurstRam.untilRest_final hready
  have hmore := BurstRam.untilRest_more hready
  generalize hlast : (s.level ≤ 1 || s.output.size + 1 == s.outputDepth : Bool) = last
  unfold readBeat
  dsimp only [BurstRam.read]
  rw [hlast]
  by_cases hlevel : 0 < s.level
  · rw [if_pos hlevel]
    cases last with
    | true =>
      refine nears_settle ?_ fun hleft _ => ?_
      · dsimp only
        rw [Fifo.size_push]
        omega
      · dsimp only at hleft ⊢
        rw [Fifo.size_push]
        -- words are left, so it is the output that is full
        have hends : ¬ s.ReadsOn := by
          rintro ⟨-, -, hroom⟩
          simp only [Bool.or_eq_true, decide_eq_true_eq, beq_iff_eq] at hlast
          omega
        have hbound := hlater hlevel hends
        show _ + s.memory.burstTime ≤ n
        omega
    | false =>
      refine nears_settle ?_ fun _ hnot => ?_
      · dsimp only
        rw [Fifo.size_push]
        omega
      · dsimp only at hnot ⊢
        rw [Fifo.size_push] at hnot ⊢
        have hbound := hlater hlevel fun hreads => hnot ⟨hreads.1, hreads.2.1, hreads.2.2⟩
        show _ + s.memory.burstTime ≤ n
        omega
  · rw [if_neg hlevel]
    have htrue : last = true := by
      rw [← hlast]
      simp only [Bool.or_eq_true, decide_eq_true_eq]
      omega
    subst htrue
    refine nears_settle ?_ fun hleft _ => absurd hleft hlevel
    dsimp only
    omega

/-- **Each cycle takes one off**, where the input gives nothing. -/
theorem Moves.nears (h : Moves s input asked s' rest) (hi : s.InStep) (hoffered : BeatSource.offered input = none)
    (htaken : (BeatSource.take input).1 = none) (hn : s.Nears (n + 1)) : s'.settle.take.2.Nears n := by
  have hpos := hi.threshold_pos
  have hlt := hi.threshold_lt
  have hnears := hn
  obtain ⟨hdue, hlater⟩ := hn
  unfold due at hdue hlater
  cases h with
  | rest hburst _ hread =>
    have hidle := hi.idle_iff.1 hburst
    have hrest := BurstRam.untilRest_of_isIdle hidle
    have hends := not_readsOn hburst nofun
    have hafter := BurstRam.untilRest_of_isIdle (BurstRam.isIdle_tick hidle)
    -- words that stay in the memory do so for an output at the threshold, from which the reader takes a beat
    refine nears_settle (by omega) fun hlevel _ => ?_
    have hbound := hlater hlevel hends
    omega
  | startWriting _ hroom =>
    rw [hoffered] at hroom
    cases hroom.1
  | startReading hburst _ hread =>
    have hends := not_readsOn hburst nofun
    have hbound := hlater hread.1 hends
    have hstart := s.memory.untilRest_start s.readAt
    -- the output holds less than the threshold, and that is less than it can hold, so this burst reads on
    refine nears_settle ?_ fun _ hnot => absurd ⟨rfl, s.memory.moving_start s.readAt, ?_⟩ hnot
    · dsimp only
      omega
    · show s.output.size - 1 + 1 < s.outputDepth
      omega
  | wait hburst hready =>
    have hidle : ¬ s.memory.isIdle = true := fun hidle => by cases hburst.symm.trans (hi.idle_iff.2 hidle)
    have htick := BurstRam.untilRest_tick hi.timely hidle hready
    refine nears_settle (by omega) fun hlevel hnot => ?_
    have hbound := hlater hlevel fun ⟨hreading, hmoving, hroom⟩ => hnot ⟨hreading, hmoving, by omega⟩
    omega
  | write _ _ htake =>
    rw [htake] at htaken
    cases htaken
  | writeNothing hburst hready =>
    have hends := not_readsOn hburst nofun
    have hfinal : (s.memory.write 0 true).tick.untilRest + 1 = s.memory.untilRest := BurstRam.untilRest_final hready
    refine nears_settle ?_ fun hlevel _ => ?_
    · dsimp only
      omega
    · have hbound := hlater hlevel hends
      show _ + s.memory.burstTime ≤ n
      dsimp only
      omega
  | read _ hready => exact nears_readBeat hready hnears

/-- However a store stands, it is empty within the rest of a burst, one more burst and a cycle for each word. -/
theorem InStep.nears (hi : s.InStep) :
    s.Nears (s.held + (s.memory.latency + max 1 s.memory.recovery) + s.memory.burstTime) := by
  have hrest := BurstRam.untilRest_le hi.timely
  unfold Nears due held
  exact ⟨by omega, fun _ _ => by omega⟩

theorem InStep.isEmpty (hi : s.InStep) (hn : s.Nears 0) : s.isEmpty = true := by
  have hdue := hn.1
  unfold due at hdue
  have hburst := hi.idle_iff.2 (BurstRam.isIdle_of_untilRest hi.timely (by omega))
  have houtput : s.output.toList = [] := by
    rw [← List.length_eq_zero_iff, Fifo.length_toList]
    omega
  have hlevel : s.level = 0 := by omega
  simp [Spill.isEmpty, hlevel, hburst, (Fifo.isEmpty_iff _).2 houtput]

/-! ## Cycles with a reader and without input -/

/-- An input that gives no more beats: it is one of those that give none and stay among themselves. -/
def Exhausted (input : σ) : Prop :=
  ∃ dry : σ → Prop, dry input ∧ ∀ i, dry i →
    BeatSource.offered i = none ∧ (BeatSource.take i).1 = none ∧ dry (BeatSource.take i).2

theorem Exhausted.gives_none (h : Exhausted input) :
    BeatSource.offered input = none ∧ (BeatSource.take input).1 = none ∧ Exhausted (BeatSource.take input).2 := by
  obtain ⟨dry, hdry, hnone⟩ := h
  obtain ⟨hoffered, htaken, hnext⟩ := hnone input hdry
  exact ⟨hoffered, htaken, dry, hnext, hnone⟩

theorem exhausted_of_ring {r : Ring} {tail : List UInt8} (h : r.Holds [] tail) : Exhausted r := by
  have htake : BeatSource.take r = (none, r) := h.take_nil
  refine ⟨(· = r), rfl, fun i hi => ?_⟩
  subst hi
  exact ⟨h.offered_nil, by rw [htake], by rw [htake]⟩

/-- One cycle, and the beat that the reader takes after it. -/
def cycle (s : Spill) (input : σ) : Option Beat × Spill × σ :=
  ((s.tick input).1.take.1, (s.tick input).1.take.2, (s.tick input).2)

theorem run_one_succ (n : Nat) (s : Spill) (input : σ) : run 1 (n + 1) s input =
    ((run 1 n s input).1 ++ (cycle (run 1 n s input).2.1 (run 1 n s input).2.2).1.toList,
      (cycle (run 1 n s input).2.1 (run 1 n s input).2.2).2) := by
  unfold run
  rw [Nat.fold_succ]
  generalize (n.fold _ _ : List Beat × Spill × σ) = before
  obtain ⟨taken, s, input⟩ := before
  simp only [Nat.mod_one, if_true, cycle]
  rcases (s.tick input).1.take with ⟨b | b, s'⟩ <;> simp

/-- **What a store that held `beats` has come to**, with no more input, after `n` cycles with a reader. -/
structure Emptied (s : Spill) (beats : List Beat) (n : Nat) (after : List Beat × Spill × σ) : Prop where
  inStep : after.2.1.InStep
  exhausted : Exhausted after.2.2
  held : ∃ left, beats = after.1 ++ left ∧ after.2.1.Holds left
  nears : ∀ m, s.Nears (m + n) → after.2.1.Nears m

variable {beats : List Beat}

theorem Holds.tick_of_exhausted (h : s.Holds beats) (hdry : Exhausted input) :
    (s.tick input).1.Holds beats ∧ Exhausted (s.tick input).2 := by
  obtain ⟨-, htaken, hnext⟩ := hdry.gives_none
  rcases h.tick input with ⟨hsame, hheld⟩ | ⟨hinput, hheld⟩
  · exact ⟨hheld, by rwa [hsame]⟩
  · rw [htaken, Option.toList_none, List.append_nil] at hheld
    exact ⟨hheld, by rwa [hinput]⟩

theorem Emptied.succ {after : List Beat × Spill × σ} (h : s.Emptied beats n after) :
    s.Emptied beats (n + 1)
      (after.1 ++ (cycle after.2.1 after.2.2).1.toList, (cycle after.2.1 after.2.2).2) := by
  obtain ⟨left, hbeats, hheld⟩ := h.held
  obtain ⟨hticked, hdry⟩ := hheld.tick_of_exhausted h.exhausted
  obtain ⟨hoffered, htaken, -⟩ := h.exhausted.gives_none
  refine ⟨(h.inStep.tick after.2.2).take, hdry, ?_, fun m hm => ?_⟩
  · rcases hticked.take with ⟨hnone, hsame⟩ | ⟨b, rest, rfl, hbeat, hrest⟩
    · refine ⟨left, ?_, hsame⟩
      show beats = after.1 ++ (after.2.1.tick after.2.2).1.take.1.toList ++ left
      rw [hnone, Option.toList_none, List.append_nil, hbeats]
    · refine ⟨rest, ?_, hrest⟩
      show beats = after.1 ++ (after.2.1.tick after.2.2).1.take.1.toList ++ rest
      rw [hbeat, Option.toList_some, List.append_assoc, hbeats]
      rfl
  · have hnears : after.2.1.Nears (m + 1) := h.nears (m + 1) (by rwa [Nat.add_assoc, Nat.add_comm 1 n])
    exact (moves_move after.2.1 after.2.2).nears h.inStep hoffered htaken hnears

/-- **What cycles with a reader make of a store**: what was taken is the first of what was held, and the store is by so
many cycles nearer to being empty. -/
theorem emptied_run (hi : s.InStep) (h : s.Holds beats) (hdry : Exhausted input) (n : Nat) :
    s.Emptied beats n (run 1 n s input) := by
  induction n with
  | zero => exact ⟨hi, hdry, ⟨beats, rfl, h⟩, fun m hm => hm⟩
  | succ n ih =>
    rw [run_one_succ]
    exact ih.succ

theorem run_of_nears (hi : s.InStep) (h : s.Holds beats) (hdry : Exhausted input) (hn : s.Nears n) :
    (run 1 n s input).1 = beats ∧ (run 1 n s input).2.1.isEmpty = true := by
  have hemptied := emptied_run hi h hdry n
  have hempty := hemptied.nears 0 (by rwa [Nat.zero_add])
  obtain ⟨left, hbeats, hheld⟩ := hemptied.held
  have hnothing : left = [] := by
    have hdue := hempty.1
    have hlength := hheld.held_eq
    unfold due at hdue
    unfold Spill.held at hlength
    exact List.eq_nil_of_length_eq_zero (by omega)
  refine ⟨?_, hemptied.inStep.isEmpty hempty⟩
  rw [hbeats, hnothing, List.append_nil]

namespace History

/-- **Nothing is stranded in a store**: however it came to hold what it holds, a reader that takes a beat after each
cycle gets all of it in order once no more is put in, and the store is empty within the time of a burst for each word
and two more. -/
theorem empties_of_create {words latency recovery outputDepth : Nat} {threshold : Option Nat}
    (hs : create { depth := words, latency, recovery } outputDepth threshold = .ok s) (input : σ)
    (actions : List (Action σ)) {τ : Type} [BeatSource τ] {dry : τ} (hdry : Exhausted dry)
    (hn : ((History.after { store := s, input } actions).store.held + 2) * (latency + recovery + 4) ≤ n) :
    (run 1 n (History.after { store := s, input } actions).store dry).1 =
        (History.after { store := s, input } actions).store.contents ∧
      (run 1 n (History.after { store := s, input } actions).store dry).2.1.isEmpty = true := by
  obtain ⟨_, beats, hmake, hstep, hholds⟩ := standing_of_create hs input actions
  simp only [make, Make.mk.injEq] at hmake
  obtain ⟨-, hlatency, hrecovery, -, -⟩ := hmake
  generalize (History.after _ actions).store = store at hholds hstep hlatency hrecovery hn ⊢
  rw [hholds.contents_eq]
  refine run_of_nears hstep hholds hdry (hstep.nears.mono (Nat.le_trans ?_ hn))
  have hwords : store.held ≤ store.held * (latency + recovery + 4) := Nat.le_mul_of_pos_right _ (by omega)
  unfold BurstRam.burstTime
  rw [hlatency, hrecovery, Nat.add_mul]
  omega

/-- A write burst is under way, with one word in the memory, when the input runs dry. -/
theorem empties_writingOn :
    create { depth := 4, latency := 1, recovery := 1 } 2 none = .ok overRing.store ∧
      Exhausted ({ size := 8 } : Ring) ∧ ((overRing.after writingOn).store.held + 2) * (1 + 1 + 4) ≤ 18 ∧
      (run 1 18 (overRing.after writingOn).store ({ size := 8 } : Ring)).1 = [⟨8, false⟩] ∧
      (run 1 18 (overRing.after writingOn).store ({ size := 8 } : Ring)).2.1.isEmpty = true := by
  have hcreate : create { depth := 4, latency := 1, recovery := 1 } 2 none = .ok overRing.store := rfl
  have hdry : Exhausted ({ size := 8 } : Ring) := exhausted_of_ring (Ring.holds_empty { size := 8 } (by decide))
  have hlong : ((overRing.after writingOn).store.held + 2) * (1 + 1 + 4) ≤ 18 := by decide +kernel
  obtain ⟨hread, hempty⟩ := empties_of_create hcreate overRing.input writingOn hdry hlong
  exact ⟨hcreate, hdry, hlong, hread.trans (by decide +kernel), hempty⟩

end History
end Spill
end UsbRecorder
