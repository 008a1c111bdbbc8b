import UsbRecorder.Memory.Ring
import UsbRecorder.Proofs.Crossing.History
import UsbRecorder.Proofs.Overflow.SpillView
/-!
# Lossless — an overflow store under any use of it, against all that it has taken in

A source with a tap notes what is taken from it, and the store does not feel the tap (`tick_tapped`).  Whatever the
input becomes between two cycles, the beats taken from it leave the store in the order in which they were taken and as
they were taken, and what has not left is what the store holds (`lossless_of_create`).
-/
namespace UsbRecorder

/-- A source, and the beats that were taken from it. -/
structure Tapped (σ : Type) where
  source : σ
  drawn : List Beat := []

instance {σ : Type} [BeatSource σ] : BeatSource (Tapped σ) where
  offered t := offered t.source
  take t := ((take t.source).1, ⟨(take t.source).2, t.drawn ++ (take t.source).1.toList⟩)

namespace Spill

variable {σ : Type} {s : Spill} {beats : List Beat}

/-! ## Histories -/

/-- What can happen to a store and to its input. -/
inductive Action (σ : Type) where
  | tick
  | take
  | clear
  /-- between two cycles the input becomes another one, with more to give, or less, or nothing -/
  | supply (input : σ)

/-- A store with its input, and with what has gone in and come out. -/
structure History (σ : Type) where
  store : Spill
  input : σ
  /-- the beats taken from the input, in order -/
  taken : List Beat := []
  /-- what has left, in order: a beat that the reader took, or none for one that was cleared away -/
  left : List (Option Beat) := []

/-- **What a store owes to its input and to its reader.** -/
structure History.Lossless (h : History σ) : Prop where
  /-- nothing leaves that was not taken in -/
  left_le : h.left.length ≤ h.taken.length
  /-- what leaves as the `n`-th beat is what was taken in as the `n`-th, its payload and its mark -/
  in_order : LeftInOrder h.left h.taken
  /-- what has not left is held: in the output buffer, and behind it in the live words of the memory -/
  held : h.taken.drop h.left.length = h.store.output.toList ++ h.store.stored h.store.readAt h.store.level
  /-- clearing now would drop all of that, and nothing else -/
  clears : h.store.clear.1 = h.taken.length - h.left.length ∧ h.store.clear.2.contents = []

/-- What every action keeps. -/
def History.Inv (h : History σ) : Prop :=
  h.left.length ≤ h.taken.length ∧ LeftInOrder h.left h.taken ∧ h.store.Holds (h.taken.drop h.left.length)

theorem History.Inv.lossless {h : History σ} (hi : h.Inv) : h.Lossless := by
  obtain ⟨hle, hord, hheld⟩ := hi
  obtain ⟨hcount, hempty⟩ := hheld.clear
  exact ⟨hle, hord, hheld.contents_eq.symm, by rw [hcount, List.length_drop], hempty.contents_eq⟩

variable [BeatSource σ]

/-! ## What a cycle takes -/

/-- The beats that a cycle takes from its input. -/
def draws (s : Spill) (input : σ) : List Beat := (s.tick (Tapped.mk input [])).2.drawn

/-- **A tap changes nothing** of what a cycle makes of the store and of its input. -/
theorem tick_tapped (s : Spill) (input : σ) :
    (s.tick (Tapped.mk input [])).1 = (s.tick input).1 ∧ (s.tick (Tapped.mk input [])).2.source = (s.tick input).2 := by
  unfold tick move
  cases s.burst with
  | none => exact ⟨rfl, rfl⟩
  | some dir =>
    cases dir with
    | reading => exact ⟨rfl, rfl⟩
    | writing =>
      dsimp only
      by_cases hready : s.memory.isReady = true
      · rw [if_pos hready, if_pos hready]
        simp only [BeatSource.take]
        rcases BeatSource.take input with ⟨b | b, rest⟩ <;> exact ⟨rfl, rfl⟩
      · rw [if_neg hready, if_neg hready]
        exact ⟨rfl, rfl⟩

/-- **A cycle puts what it takes behind all that is held**, at most one beat. -/
theorem Holds.draws (h : s.Holds beats) (input : σ) :
    (s.tick input).1.Holds (beats ++ s.draws input) ∧ (s.draws input).length ≤ 1 := by
  unfold Spill.draws
  rw [← (tick_tapped s input).1]
  rcases h.tick (Tapped.mk input []) with ⟨hsame, hheld⟩ | ⟨hnext, hheld⟩
  · rw [hsame]
    simpa using hheld
  · rw [hnext]
    refine ⟨hheld, ?_⟩
    show ([] ++ (BeatSource.take input).1.toList).length ≤ 1
    cases (BeatSource.take input).1 <;> simp

/-! ## What every action keeps -/

namespace History

def step (h : History σ) : Action σ → History σ
  | .tick => { h with
      store := (h.store.tick h.input).1
      input := (h.store.tick h.input).2
      taken := h.taken ++ h.store.draws h.input }
  | .take => { h with store := h.store.take.2, left := h.left ++ h.store.take.1.toList.map some }
  | .clear => { h with store := h.store.clear.2, left := h.left ++ List.replicate h.store.clear.1 none }
  | .supply input => { h with input }

def after (h : History σ) (actions : List (Action σ)) : History σ := actions.foldl step h

variable {h : History σ}

theorem Inv.tick (hi : h.Inv) : (h.step .tick).Inv := by
  obtain ⟨hle, hord, hheld⟩ := hi
  refine ⟨?_, hord.sent_append _, ?_⟩
  · show h.left.length ≤ (h.taken ++ h.store.draws h.input).length
    rw [List.length_append]
    omega
  · show (h.store.tick h.input).1.Holds ((h.taken ++ h.store.draws h.input).drop h.left.length)
    rw [List.drop_append_of_le_length hle]
    exact (hheld.draws h.input).1

theorem Inv.take (hi : h.Inv) : (h.step .take).Inv := by
  obtain ⟨hle, hord, hheld⟩ := hi
  rcases hheld.take with ⟨hnone, hsame⟩ | ⟨b, rest, hbeats, hbeat, hrest⟩
  · have hleft : (h.step .take).left = h.left := by simp [step, hnone]
    unfold Inv
    rw [hleft]
    exact ⟨hle, hord, hsame⟩
  · have hleft : (h.step .take).left = h.left ++ [some b] := by simp [step, hbeat]
    have hlt : h.left.length < h.taken.length := by
      have := congrArg List.length hbeats
      simp at this
      omega
    rw [List.drop_eq_getElem_cons hlt, List.cons.injEq] at hbeats
    unfold Inv
    rw [hleft, List.length_append]
    refine ⟨hlt, hord.taken ?_, ?_⟩
    · rw [List.getElem?_eq_getElem hlt, hbeats.1]
    · rw [← hbeats.2] at hrest
      exact hrest

theorem Inv.clear (hi : h.Inv) : (h.step .clear).Inv := by
  obtain ⟨hle, hord, hheld⟩ := hi
  obtain ⟨hcount, hempty⟩ := hheld.clear
  rw [List.length_drop] at hcount
  have hlen : (h.step .clear).left.length = h.taken.length := by
    simp only [step, List.length_append, List.length_replicate, hcount]
    omega
  refine ⟨Nat.le_of_eq hlen, hord.dropped _, ?_⟩
  rw [hlen]
  show h.store.clear.2.Holds (h.taken.drop h.taken.length)
  rwa [List.drop_length]

/-- **Every action keeps the invariant.** -/
theorem Inv.step (hi : h.Inv) (a : Action σ) : (h.step a).Inv := by
  cases a with
  | tick => exact hi.tick
  | take => exact hi.take
  | clear => exact hi.clear
  | supply input => exact hi

theorem Inv.after (hi : h.Inv) (actions : List (Action σ)) : (h.after actions).Inv := by
  induction actions generalizing h with
  | nil => exact hi
  | cons a actions ih => exact ih (hi.step a)

/-- **An overflow store loses nothing, invents nothing and keeps the order**: over a memory of any size, latency and
recovery, with any output buffer and threshold that it can be built with, and whatever its input, its reader and its
user do. -/
theorem lossless_of_create {words latency recovery outputDepth : Nat} {threshold : Option Nat}
    (hs : create { depth := words, latency, recovery } outputDepth threshold = .ok s) (input : σ)
    (actions : List (Action σ)) : (History.after { store := s, input } actions).Lossless :=
  (Inv.after (h := { store := s, input }) ⟨Nat.le_refl _, nofun, holds_create hs⟩ actions).lossless

/-- Two of three bytes are cleared away in the burst that writes them; the burst goes on, and the third is read. -/
def clearedInBurst : List (Action Ring) :=
  List.replicate 3 .tick ++ [.clear] ++ List.replicate 9 .tick ++ [.take]

/-- A store over four words, with a ring that holds a record of three bytes for its input. -/
def overRing : History Ring where
  store := { memory := { depth := 4, latency := 1, recovery := 1 }, outputDepth := 2, threshold := 1 }
  input := ({ size := 8 } : Ring).append [7, 8, 9]

theorem lossless_cleared_in_burst :
    create { depth := 4, latency := 1, recovery := 1 } 2 none = .ok overRing.store ∧
      (overRing.after clearedInBurst).left = [none, none, some ⟨9, true⟩] ∧
      (overRing.after clearedInBurst).Lossless := by
  have hcreate : create { depth := 4, latency := 1, recovery := 1 } 2 none = .ok overRing.store := rfl
  exact ⟨hcreate, by decide +kernel, lossless_of_create hcreate overRing.input clearedInBurst⟩

end History
end Spill
end UsbRecorder
