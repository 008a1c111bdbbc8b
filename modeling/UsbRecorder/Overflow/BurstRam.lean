import UsbRecorder.Memory.Cells
/-!
# BurstRam — a memory that is accessed in bursts of consecutive words

A transfer is started while the memory is at rest; after a fixed latency one word moves per cycle until a word is
flagged final, and a fixed recovery follows.
-/
namespace UsbRecorder

/-- What a memory is doing. -/
inductive BurstRam.Phase where
  | idle
  /-- a transfer was started; `left` cycles of latency remain -/
  | command (left : Nat)
  /-- words move -/
  | data
  /-- a transfer ended; `left` cycles of recovery remain -/
  | recovery (left : Nat)
  deriving DecidableEq, Repr, Inhabited

/-- A burst memory of `depth` words. -/
structure BurstRam where
  depth : Nat
  latency : Nat
  recovery : Nat
  cells : Cells UInt16 := .blank
  phase : BurstRam.Phase := .idle
  address : Nat := 0
  deriving Inhabited

namespace BurstRam

def isIdle (m : BurstRam) : Bool := m.phase == .idle

def isReady (m : BurstRam) : Bool := m.phase == .data

def start (m : BurstRam) (address : Nat) : BurstRam :=
  { m with address := address % m.depth, phase := if m.latency = 0 then .data else .command m.latency }

/-- Go to the next address, and after the final word to recovery. -/
def advance (m : BurstRam) (last : Bool) : BurstRam :=
  { m with
    address := (m.address + 1) % m.depth
    phase := if last then (if m.recovery = 0 then .idle else .recovery m.recovery) else m.phase }

def write (m : BurstRam) (word : UInt16) (last : Bool) : BurstRam :=
  { m with cells := m.cells.write m.address word }.advance last

def read (m : BurstRam) (last : Bool) : UInt16 × BurstRam := (m.cells.read m.address, m.advance last)

def tick (m : BurstRam) : BurstRam :=
  { m with phase := match m.phase with
      | .command left => if left = 1 then .data else .command (left - 1)
      | .recovery left => if left = 1 then .idle else .recovery (left - 1)
      | phase => phase }

def ticks (m : BurstRam) : Nat → BurstRam
  | 0 => m
  | n + 1 => m.tick.ticks n

/-! ## Access by command -/

/-- What a memory without words answers to an access. -/
inductive Fault where
  | noWords
  deriving DecidableEq, Repr

/-- A command to a memory. -/
inductive Command where
  | start (address : Nat)
  | write (word : UInt16) (last : Bool)
  | read (last : Bool)
  | ticks (n : Nat)
  deriving DecidableEq, Repr

/-- Carry out a command; the answer holds the word that a read moved. -/
def perform (m : BurstRam) (c : Command) : Except Fault (Option UInt16 × BurstRam) :=
  match c with
  | .ticks n => .ok (none, m.ticks n)
  | .start address => if m.depth = 0 then .error .noWords else .ok (none, m.start address)
  | .write word last => if m.depth = 0 then .error .noWords else .ok (none, m.write word last)
  | .read last => if m.depth = 0 then .error .noWords else
      let (word, m) := m.read last
      .ok (some word, m)

end BurstRam
end UsbRecorder
