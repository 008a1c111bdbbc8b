import UsbRecorder.Crossing.DelayLine
import UsbRecorder.Crossing.Gray
import UsbRecorder.Memory.Cells
import UsbRecorder.Refusal
import UsbRecorder.Stream.Beat
/-!
# Queue — a queue between two independently clocked sides

Each side owns a pointer one bit wider than the slot number and publishes it Gray-coded; the other side sees it only
through a delay line clocked by its own ticks.  A pointer seen late is still a valid one, so the sender may take the
queue for fuller than it is and the receiver for emptier, never the other way round.
-/
namespace UsbRecorder

/-- Stages through which a published pointer passes. -/
def crossingStages : Nat := 2

/-- What the sending side owns. -/
structure Sender where
  /-- counts bytes sent, modulo twice the depth -/
  pointer : Nat := 0
  /-- the receiver's published pointer, on its way here -/
  view : DelayLine UInt32 := .reset crossingStages 0
  pushed : Nat := 0
  /-- pushes turned away because the queue looked full -/
  refused : Nat := 0
  deriving Repr, Inhabited

/-- What the receiving side owns. -/
structure Receiver where
  pointer : Nat := 0
  /-- the sender's published pointer, on its way here -/
  view : DelayLine UInt32 := .reset crossingStages 0
  /-- ticks since the sender was seen to have gone, counted to one more than there are stages -/
  closedFor : Nat := 0
  popped : Nat := 0
  resets : Nat := 0
  /-- bytes dropped by resets -/
  resetBytes : Nat := 0
  deriving Repr, Inhabited

/-- A queue between two clocks. -/
structure Crossing where
  /-- the number of bits of a slot number -/
  width : Nat
  slots : Cells UInt16 := .blank
  sender : Sender := {}
  receiver : Receiver := {}
  /-- the sender's pointer as published -/
  sentGray : UInt32 := 0
  /-- the receiver's pointer as published -/
  goneGray : UInt32 := 0
  /-- bytes sent, since the beginning, up to which the sender wants the data dropped -/
  mark : Nat := 0
  closed : Bool := false
  deriving Inhabited

namespace Crossing

/-- Slot numbers have at most thirty bits. -/
def maxWidth : Nat := 30

/-- An empty queue; its depth has to be a power of two from two up. -/
def create (depth : Nat) : Except Refusal Crossing :=
  if 2 ≤ depth ∧ depth.isPowerOfTwo ∧ depth ≤ Nat.pow 2 maxWidth then .ok { width := depth.log2 }
  else .error (.crossingDepth depth)

def depth (q : Crossing) : Nat := Nat.pow 2 q.width

/-- Pointers count modulo twice the depth. -/
def modulus (q : Crossing) : Nat := Nat.pow 2 (q.width + 1)

/-- The published form of a pointer. -/
def gray (pointer : Nat) : UInt32 := Gray.encode (UInt32.ofNat pointer)

def ungray (word : UInt32) : Nat := (Gray.decode word).toNat

/-! ## The sending side -/

def senderTick (q : Crossing) : Crossing := { q with sender.view := q.sender.view.clock q.goneGray }

/-- Whether the sender finds every slot in use: the code words differ in their two highest bits alone. -/
def isFull (q : Crossing) : Bool := gray q.sender.pointer ^^^ q.sender.view.output == UInt32.ofNat (3 <<< (q.width - 1))

/-- The slots in use, as the sender sees it. -/
def senderLevel (q : Crossing) : Nat := (q.sender.pointer + q.modulus - ungray q.sender.view.output) % q.modulus

/-- Send a beat, unless the queue looks full; the answer is whether it was sent. -/
def push (q : Crossing) (b : Beat) : Bool × Crossing :=
  if q.isFull then (false, { q with sender.refused := q.sender.refused + 1 })
  else
    let pointer := (q.sender.pointer + 1) % q.modulus
    (true, { q with
      slots := q.slots.write (q.sender.pointer % q.depth) b.toWord
      sender.pointer := pointer
      sender.pushed := q.sender.pushed + 1
      sentGray := gray pointer })

/-- Ask the receiver to drop all that was sent, and the next `following` bytes; the mark never moves back. -/
def markStale (q : Crossing) (following : Nat) : Crossing :=
  { q with mark := max q.mark (q.sender.pushed + following) }

def close (q : Crossing) : Crossing := { q with closed := true }

/-! ## The receiving side -/

def receiverTick (q : Crossing) : Crossing :=
  { q with
    receiver.closedFor := if q.closed then min (q.receiver.closedFor + 1) (crossingStages + 1) else q.receiver.closedFor
    receiver.view := q.receiver.view.clock q.sentGray }

/-- Whether the receiver finds nothing to take. -/
def isEmpty (q : Crossing) : Bool := gray q.receiver.pointer == q.receiver.view.output

/-- The slots in use, as the receiver sees it. -/
def receiverLevel (q : Crossing) : Nat := (ungray q.receiver.view.output + q.modulus - q.receiver.pointer) % q.modulus

/-- The sender has gone, its last pointer has come through, and all it sent is gone. -/
def isOver (q : Crossing) : Bool := crossingStages < q.receiver.closedFor && q.isEmpty

/-- Drop all that the receiver sees: its pointer becomes the one the sender published. -/
def reset (q : Crossing) : Nat × Crossing :=
  let dropped := q.receiverLevel
  (dropped, { q with
    receiver.pointer := ungray q.receiver.view.output % q.modulus
    receiver.resets := q.receiver.resets + 1
    receiver.resetBytes := q.receiver.resetBytes + dropped
    goneGray := q.receiver.view.output })

def offered (q : Crossing) : Option Beat :=
  if q.isEmpty then none else some (.ofWord (q.slots.read (q.receiver.pointer % q.depth)))

def take (q : Crossing) : Option Beat × Crossing :=
  match q.offered with
  | none => (none, q)
  | some b =>
    let pointer := (q.receiver.pointer + 1) % q.modulus
    (some b, { q with
      receiver.pointer := pointer
      receiver.popped := q.receiver.popped + 1
      goneGray := gray pointer })

instance : BeatSource Crossing := ⟨Crossing.offered, Crossing.take⟩

end Crossing
end UsbRecorder
