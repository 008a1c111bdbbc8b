import UsbRecorder.Overflow.Spill
import UsbRecorder.Proofs.Memory.Circle
/-!
# SpillView — an overflow store as the beats it holds

`Spill.Holds s beats`: the store holds `beats`, those of the output buffer first and then the live words of the memory.
A cycle takes at most one beat from its input and puts it behind them; clearing drops them all, also in mid-burst, where
a burst that goes on moves only words that are not live.
-/
namespace UsbRecorder

/-- A transfer is under way: words move, or will when the latency is over. -/
def BurstRam.Moving (m : BurstRam) : Prop := m.phase = .data ∨ ∃ left, m.phase = .command left

namespace BurstRam

variable {m : BurstRam}

theorem moving_of_isReady (h : m.isReady = true) : m.Moving := by
  unfold isReady at h
  exact .inl (by simpa using h)

theorem moving_of_tick (h : m.tick.Moving) : m.Moving := by
  unfold Moving tick at h
  unfold Moving
  cases hp : m.phase with
  | idle => simp [hp] at h
  | command left => exact .inr ⟨left, rfl⟩
  | data => exact .inl rfl
  | recovery left =>
    rw [hp] at h
    dsimp only at h
    split at h <;> simp at h

theorem not_moving_advance (m : BurstRam) : ¬ (m.advance true).Moving := by
  unfold Moving advance
  by_cases hz : m.recovery = 0 <;> simp [hz]

end BurstRam

namespace Spill

/-- **A store holds beats, oldest first.** -/
structure Holds (s : Spill) (beats : List Beat) : Prop where
  readAt_lt : s.readAt < s.depth
  writeAt : s.writeAt = (s.readAt + s.level) % s.depth
  level_le : s.level ≤ s.depth
  writing : s.burst = some .writing → s.memory.Moving → s.memory.address = s.writeAt ∧ s.level < s.depth
  reading : s.burst = some .reading → s.memory.Moving → s.level = 0 ∨ s.memory.address = s.readAt
  words : ∃ words : List UInt16, words.length = s.level ∧ s.memory.cells.Spells s.depth s.readAt words ∧
    beats = s.output.toList ++ words.map Beat.ofWord

variable {s : Spill} {beats : List Beat}

theorem holds_create {memory : BurstRam} {outputDepth : Nat} {threshold : Option Nat}
    (h : create memory outputDepth threshold = .ok s) : s.Holds [] := by
  unfold create at h
  split at h
  · cases h
  · rename_i hdepth
    dsimp only at h
    split at h
    · cases h
    · cases h
      have hpos : 0 < memory.depth := by omega
      refine ⟨hpos, (Nat.zero_mod _).symm, Nat.zero_le _, nofun, nofun, [], rfl, Cells.spells_nil _ _ _, rfl⟩

theorem burst_of_settle {b : Burst} (h : s.settle.burst = some b) : s.burst = some b := by
  unfold settle at h
  dsimp only at h
  split at h
  · cases h
  · exact h

namespace Holds

theorem depth_pos (h : s.Holds beats) : 0 < s.depth := Nat.lt_of_le_of_lt (Nat.zero_le _) h.readAt_lt

theorem writeAt_lt (h : s.Holds beats) : s.writeAt < s.depth := by
  rw [h.writeAt]
  exact Nat.mod_lt _ h.depth_pos

/-! ## The bursts -/

theorem begin (h : s.Holds beats) (offered : Bool) : (s.begin offered).Holds beats := by
  have hw : s.writeAt % s.memory.depth = s.writeAt := Nat.mod_eq_of_lt h.writeAt_lt
  have hr : s.readAt % s.memory.depth = s.readAt := Nat.mod_eq_of_lt h.readAt_lt
  unfold Spill.begin
  split
  · rename_i hroom
    exact ⟨h.readAt_lt, h.writeAt, h.level_le, fun _ _ => ⟨hw, hroom.2⟩, nofun, h.words⟩
  · split
    · exact ⟨h.readAt_lt, h.writeAt, h.level_le, nofun, fun _ _ => .inr hr, h.words⟩
    · exact h

theorem writeBeat (h : s.Holds beats) (hburst : s.burst = some .writing) (hready : s.memory.isReady = true) (b : Beat)
    (more : Bool) : (s.writeBeat b more).Holds (beats ++ [b]) := by
  obtain ⟨haddress, hroom⟩ := h.writing hburst (BurstRam.moving_of_isReady hready)
  obtain ⟨words, hlen, hspells, rfl⟩ := h.words
  refine ⟨h.readAt_lt, ?_, hroom, fun _ hmoving => ?_, fun hreading => ?_, words ++ [b.toWord], ?_, ?_, ?_⟩
  · show (s.writeAt + 1) % s.depth = (s.readAt + (s.level + 1)) % s.depth
    rw [h.writeAt, Nat.mod_add_mod, Nat.add_assoc]
  · constructor
    · show (s.memory.address + 1) % s.memory.depth = (s.writeAt + 1) % s.depth
      rw [haddress]
      rfl
    · -- the word that fills the memory is the final one of its burst
      refine Nat.lt_of_le_of_ne hroom fun hfull => ?_
      have hlevel : s.level + 1 = s.depth := hfull
      have hlast : (s.level + 1 == s.depth || b.last || !more) = true := by simp [hlevel]
      change (BurstRam.advance _ (s.level + 1 == s.depth || b.last || !more)).Moving at hmoving
      rw [hlast] at hmoving
      exact BurstRam.not_moving_advance _ hmoving
  · rw [show (s.writeBeat b more).burst = s.burst from rfl, hburst] at hreading
    cases hreading
  · rw [List.length_append, hlen]
    rfl
  · show (s.memory.cells.write s.memory.address b.toWord).Spells s.depth s.readAt (words ++ [b.toWord])
    rw [haddress, h.writeAt, ← hlen]
    exact hspells.write (hlen ▸ hroom) _
  · rw [List.map_append, List.map_singleton, Beat.ofWord_toWord, List.append_assoc]
    rfl

/-- A write burst whose input was emptied ends with a word that is not live. -/
theorem writeNothing (h : s.Holds beats) (hburst : s.burst = some .writing) (hready : s.memory.isReady = true) :
    Holds { s with memory := s.memory.write 0 true } beats := by
  obtain ⟨haddress, hroom⟩ := h.writing hburst (BurstRam.moving_of_isReady hready)
  obtain ⟨words, hlen, hspells, rfl⟩ := h.words
  have hend : ¬ (s.memory.write 0 true).Moving := BurstRam.not_moving_advance _
  refine ⟨h.readAt_lt, h.writeAt, h.level_le, fun _ hm => absurd hm hend, fun _ hm => absurd hm hend, words, hlen, ?_, rfl⟩
  show (s.memory.cells.write s.memory.address 0).Spells s.depth s.readAt words
  rw [haddress, h.writeAt]
  exact hspells.write_free (Nat.le_of_eq hlen) hroom 0

/-- A word that is read back goes from the memory to the output; one that is not live is dropped. -/
theorem readBeat (h : s.Holds beats) (hburst : s.burst = some .reading) (hready : s.memory.isReady = true) :
    s.readBeat.Holds beats := by
  have haddress := h.reading hburst (BurstRam.moving_of_isReady hready)
  obtain ⟨words, hlen, hspells, rfl⟩ := h.words
  unfold Spill.readBeat
  dsimp only [BurstRam.read]
  have hnot : s.burst ≠ some .writing := by rw [hburst]; decide
  split
  · rename_i hpos
    obtain ⟨w, rest, rfl⟩ : ∃ w rest, words = w :: rest := List.exists_cons_of_length_pos (hlen ▸ hpos)
    rw [List.length_cons] at hlen
    rw [Cells.spells_cons, Nat.mod_eq_of_lt h.readAt_lt] at hspells
    have hat : s.memory.address = s.readAt := haddress.resolve_left (Nat.ne_of_gt hpos)
    refine ⟨Nat.mod_lt _ h.depth_pos, ?_, Nat.le_trans (Nat.sub_le _ _) h.level_le, fun hb => absurd hb hnot, fun _ _ => ?_,
      rest, ?_, ?_, ?_⟩
    · show s.writeAt = ((s.readAt + 1) % s.depth + (s.level - 1)) % s.depth
      rw [h.writeAt, Nat.mod_add_mod, show s.readAt + 1 + (s.level - 1) = s.readAt + s.level by omega]
    · right
      show (s.memory.address + 1) % s.memory.depth = (s.readAt + 1) % s.depth
      rw [hat]
      rfl
    · show rest.length = s.level - 1
      omega
    · exact hspells.2.congr (Nat.mod_mod _ _).symm
    · rw [hat, hspells.1, Fifo.toList_push, List.map_cons, List.append_assoc]
      rfl
  · rename_i hzero
    exact ⟨h.readAt_lt, h.writeAt, h.level_le, fun hb => absurd hb hnot, fun _ _ => .inl (Nat.eq_zero_of_not_pos hzero),
      words, hlen, hspells, rfl⟩

theorem settle (h : s.Holds beats) : s.settle.Holds beats :=
  ⟨h.readAt_lt, h.writeAt, h.level_le, fun hb hm => h.writing (burst_of_settle hb) (BurstRam.moving_of_tick hm),
    fun hb hm => h.reading (burst_of_settle hb) (BurstRam.moving_of_tick hm), h.words⟩

/-! ## What a cycle, a reader and a discard make of it -/

/-- **A cycle takes at most one beat from its input, and puts it behind all that is held.** -/
theorem tick {σ : Type} [BeatSource σ] (h : s.Holds beats) (input : σ) :
    (s.tick input).2 = input ∧ (s.tick input).1.Holds beats ∨
      (s.tick input).2 = (BeatSource.take input).2 ∧
        (s.tick input).1.Holds (beats ++ (BeatSource.take input).1.toList) := by
  have hcase : (s.move input).2 = input ∧ (s.move input).1.Holds beats ∨
      (s.move input).2 = (BeatSource.take input).2 ∧
        (s.move input).1.Holds (beats ++ (BeatSource.take input).1.toList) := by
    unfold Spill.move
    cases hburst : s.burst with
    | none => exact .inl ⟨rfl, h.begin _⟩
    | some dir =>
      by_cases hready : s.memory.isReady = true
      · cases dir with
        | reading =>
          left
          dsimp only
          rw [if_pos hready]
          exact ⟨rfl, h.readBeat hburst hready⟩
        | writing =>
          right
          dsimp only
          rw [if_pos hready]
          cases htake : BeatSource.take input with
          | mk b rest =>
            cases b with
            | none =>
              refine ⟨rfl, ?_⟩
              have hend := h.writeNothing hburst hready
              rw [hburst] at hend
              rwa [Option.toList_none, List.append_nil]
            | some b => exact ⟨rfl, h.writeBeat hburst hready b _⟩
      · left
        cases dir with
        | reading =>
          dsimp only
          rw [if_neg hready]
          exact ⟨rfl, h⟩
        | writing =>
          dsimp only
          rw [if_neg hready]
          exact ⟨rfl, h⟩
  exact hcase.imp (fun ⟨hinput, hheld⟩ => ⟨hinput, hheld.settle⟩) fun ⟨hinput, hheld⟩ => ⟨hinput, hheld.settle⟩

/-- **The reader takes the oldest beat, or none while none is offered.** -/
theorem take (h : s.Holds beats) :
    s.take.1 = none ∧ s.take.2.Holds beats ∨ ∃ b rest, beats = b :: rest ∧ s.take.1 = some b ∧ s.take.2.Holds rest := by
  obtain ⟨words, hlen, hspells, rfl⟩ := h.words
  unfold Spill.take
  rw [Fifo.head?_eq]
  cases hout : s.output.toList with
  | nil =>
    refine .inl ⟨rfl, h.readAt_lt, h.writeAt, h.level_le, h.writing, h.reading, words, hlen, hspells, ?_⟩
    rw [Fifo.toList_tail, hout]
    rfl
  | cons b rest =>
    refine .inr ⟨b, rest ++ words.map Beat.ofWord, rfl, rfl, h.readAt_lt, h.writeAt, h.level_le, h.writing, h.reading,
      words, hlen, hspells, ?_⟩
    rw [Fifo.toList_tail, hout]
    rfl

/-- **Clearing drops all that is held**, whatever burst is under way. -/
theorem clear (h : s.Holds beats) : s.clear.1 = beats.length ∧ s.clear.2.Holds [] := by
  obtain ⟨words, hlen, hspells, rfl⟩ := h.words
  refine ⟨?_, h.writeAt_lt, ?_, Nat.zero_le _, fun hb hm => ?_, fun _ _ => .inl rfl, [], rfl, Cells.spells_nil _ _ _, rfl⟩
  · show s.level + s.output.size = _
    rw [List.length_append, List.length_map, hlen, Fifo.length_toList, Nat.add_comm]
  · exact (Nat.mod_eq_of_lt h.writeAt_lt).symm
  · exact ⟨(h.writing hb hm).1, h.depth_pos⟩

theorem held_eq (h : s.Holds beats) : s.held = beats.length := h.clear.1

theorem stored_eq {words : List UInt16} {start : Nat} (h : s.memory.cells.Spells s.depth start words) :
    s.stored start words.length = words.map Beat.ofWord := by
  induction words generalizing start with
  | nil => rfl
  | cons w words ih =>
    obtain ⟨hw, hrest⟩ := Cells.spells_cons.1 h
    rw [List.length_cons, stored, hw, ih hrest, List.map_cons]

theorem contents_eq (h : s.Holds beats) : s.contents = beats := by
  obtain ⟨words, hlen, hspells, rfl⟩ := h.words
  rw [contents, ← hlen, stored_eq hspells]

end Holds
end Spill
end UsbRecorder
