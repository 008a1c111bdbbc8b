import UsbRecorder.Memory.Fifo
import UsbRecorder.Overflow.BurstRam
import UsbRecorder.Refusal
import UsbRecorder.Stream.Beat
/-!
# Spill — an overflow store over a burst memory

Beats are written to the memory in bursts, read back in bursts, and offered from a small output buffer.  `contents`
is what the store holds, oldest first: the output buffer, then the live words of the memory.
-/
namespace UsbRecorder

structure Spill.Counts where
  writeBursts : Nat := 0
  readBursts : Nat := 0
  written : Nat := 0
  read : Nat := 0
  /-- the most words the memory has held -/
  peak : Nat := 0
  deriving DecidableEq, Repr, Inhabited

/-- The direction of a burst. -/
inductive Spill.Burst where
  | writing | reading
  deriving DecidableEq, Repr, Inhabited

/-- An overflow store. -/
structure Spill where
  memory : BurstRam
  /-- the burst under way, to the end of its recovery -/
  burst : Option Spill.Burst := none
  writeAt : Nat := 0
  readAt : Nat := 0
  /-- words held in the memory -/
  level : Nat := 0
  output : Fifo Beat := .empty
  outputDepth : Nat
  /-- a read burst is started when the output holds fewer words than this -/
  threshold : Nat
  counts : Spill.Counts := {}
  deriving Inhabited

namespace Spill

/-- An empty store.  The output buffer holds two words at least; the threshold is half of it where none is given. -/
def create (memory : BurstRam) (outputDepth : Nat) (threshold : Option Nat) : Except Refusal Spill :=
  if memory.depth < 2 then .error .memoryTooSmall
  else
    let outputDepth := max outputDepth 2
    let threshold := threshold.getD (outputDepth / 2)
    if threshold = 0 ∨ outputDepth ≤ threshold then .error (.threshold threshold (outputDepth - 1))
    else .ok { memory, outputDepth, threshold }

def depth (s : Spill) : Nat := s.memory.depth

def held (s : Spill) : Nat := s.level + s.output.size

def isEmpty (s : Spill) : Bool := s.level == 0 && s.output.isEmpty && s.burst.isNone

/-- Between bursts: a write goes first where there is something to write and room for it. -/
def begin (s : Spill) (offered : Bool) : Spill :=
  if offered ∧ s.level < s.depth then
    { s with
      memory := s.memory.start s.writeAt
      burst := some .writing
      counts.writeBursts := s.counts.writeBursts + 1 }
  else if 0 < s.level ∧ s.output.size < s.threshold then
    { s with
      memory := s.memory.start s.readAt
      burst := some .reading
      counts.readBursts := s.counts.readBursts + 1 }
  else s

/-- Write a beat; `more` is whether another is offered after it. -/
def writeBeat (s : Spill) (b : Beat) (more : Bool) : Spill :=
  let level := s.level + 1
  { s with
    memory := s.memory.write b.toWord (level == s.depth || b.last || !more)
    writeAt := (s.writeAt + 1) % s.depth
    level
    counts.written := s.counts.written + 1
    counts.peak := max s.counts.peak level }

/-- Read a word back; it is dropped where the store was cleared in mid-burst. -/
def readBeat (s : Spill) : Spill :=
  let (word, memory) := s.memory.read (s.level ≤ 1 || s.output.size + 1 == s.outputDepth)
  if 0 < s.level then
    { s with
      memory
      output := s.output.push (.ofWord word)
      readAt := (s.readAt + 1) % s.depth
      level := s.level - 1
      counts.read := s.counts.read + 1 }
  else { s with memory }

/-- The part of a cycle in which words move. -/
def move {σ : Type} [BeatSource σ] (s : Spill) (input : σ) : Spill × σ :=
  match s.burst with
  | none => (s.begin (offered input).isSome, input)
  | some .writing =>
    if s.memory.isReady then
      match take input with
      | (some b, input) => (s.writeBeat b (offered input).isSome, input)
      -- the input was emptied in mid-burst: the burst ends with a word that is not live
      | (none, input) => ({ s with memory := s.memory.write 0 true }, input)
    else (s, input)
  | some .reading => (if s.memory.isReady then s.readBeat else s, input)

/-- The end of a cycle: a burst is over once the memory is at rest. -/
def settle (s : Spill) : Spill :=
  let memory := s.memory.tick
  { s with memory, burst := if memory.isIdle then none else s.burst }

/-- One cycle; beats are taken from the input as the bursts allow. -/
def tick {σ : Type} [BeatSource σ] (s : Spill) (input : σ) : Spill × σ :=
  let (s, input) := s.move input
  (s.settle, input)

/-- Drop everything held; the answer is how many words that was. -/
def clear (s : Spill) : Nat × Spill :=
  (s.held, { s with output := .empty, level := 0, readAt := s.writeAt })

def offered (s : Spill) : Option Beat := s.output.head?

def take (s : Spill) : Option Beat × Spill := (s.output.head?, { s with output := s.output.tail })

instance : BeatSource Spill := ⟨Spill.offered, Spill.take⟩

/-- The live words of the memory, from an address on. -/
def stored (s : Spill) (start : Nat) : Nat → List Beat
  | 0 => []
  | n + 1 => .ofWord (s.memory.cells.read (start % s.depth)) :: s.stored (start + 1) n

/-- All that is held, oldest first. -/
def contents (s : Spill) : List Beat := s.output.toList ++ s.stored s.readAt s.level

/-- Cycles with a reader that takes a beat after each `every`-th of them. -/
def run {σ : Type} [BeatSource σ] (every : Nat) (n : Nat) (s : Spill) (input : σ) : List Beat × Spill × σ :=
  let (taken, s, input) := n.fold (fun i _ (taken, s, input) =>
    let (s, input) := s.tick input
    if (i + 1) % every = 0 then
      match Spill.take s with
      | (some b, s) => (b :: taken, s, input)
      | (none, s) => (taken, s, input)
    else (taken, s, input)) (([] : List Beat), s, input)
  (taken.reverse, s, input)

/-- Cycles without a reader. -/
def ticks {σ : Type} [BeatSource σ] : Nat → Spill → σ → Spill × σ
  | 0, s, input => (s, input)
  | n + 1, s, input => let (s, input) := s.tick input; ticks n s input

end Spill
end UsbRecorder
