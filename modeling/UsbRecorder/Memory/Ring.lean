import UsbRecorder.Memory.Cells
import UsbRecorder.Memory.Fifo
import UsbRecorder.Refusal
import UsbRecorder.Stream.Beat
/-!
# Ring — whole records in a circle of bytes, and at most one still being written

Pending bytes are hidden from the reader until they are committed as one record, and can be abandoned as a whole.
`contents` are the committed bytes still to be read, `tailBytes` the pending ones.  Whether there is room for a byte is
for its writer to ask (`fits`); `crowded` tells of a ring that a byte was pushed into without.
-/
namespace UsbRecorder

/-- A ring of bytes. -/
structure Ring where
  size : Nat
  cells : Cells UInt8 := .blank
  writeAt : Nat := 0
  readAt : Nat := 0
  /-- committed bytes that are not read -/
  committed : Nat := 0
  /-- bytes written but not committed -/
  pending : Nat := 0
  /-- the length of each committed record, the one being read first -/
  records : Fifo Nat := .empty
  /-- bytes read of the first record -/
  taken : Nat := 0
  /-- a byte was pushed that there was no room for -/
  crowded : Bool := false
  deriving Inhabited

namespace Ring

/-- An empty ring; its size has to be a power of two. -/
def create (size : Nat) : Except Refusal Ring :=
  if size.isPowerOfTwo then .ok { size } else .error (.ringSize size)

def fits (r : Ring) (extra : Nat) : Bool := r.committed + r.pending + extra ≤ r.size

def isEmpty (r : Ring) : Bool := r.committed == 0

def push (r : Ring) (byte : UInt8) : Ring :=
  { r with
    cells := r.cells.write r.writeAt byte
    writeAt := (r.writeAt + 1) % r.size
    pending := r.pending + 1
    crowded := r.crowded || !r.fits 1 }

def pushAll (r : Ring) (bytes : List UInt8) : Ring := bytes.foldl push r

def fill (r : Ring) (position : Nat) (bytes : List UInt8) : Ring :=
  { r with cells := r.cells.fill r.size position bytes }

/-- Make the pending bytes, if any, a record. -/
def commit (r : Ring) : Ring :=
  if r.pending = 0 then r
  else { r with committed := r.committed + r.pending, records := r.records.push r.pending, pending := 0 }

/-- Take the pending bytes back. -/
def abandon (r : Ring) : Ring :=
  { r with writeAt := (r.writeAt + (r.size - r.pending % r.size)) % r.size, pending := 0 }

def append (r : Ring) (bytes : List UInt8) : Ring := (r.pushAll bytes).commit

/-- Unread bytes of the first record, if the reader has begun it. -/
def restOfBegun (r : Ring) : Nat :=
  if r.taken = 0 then 0 else
    match r.records.head? with
    | some length => length - r.taken
    | none => 0

/-- Drop everything, committed or not, but the rest of a record that the reader has begun. -/
def discard (r : Ring) : Ring :=
  match r.restOfBegun, r.records.head? with
  | n + 1, some length =>
    { r with records := .single length, pending := 0, committed := n + 1, writeAt := (r.readAt + (n + 1)) % r.size }
  | _, _ => { r with records := .empty, taken := 0, pending := 0, committed := 0, writeAt := 0, readAt := 0 }

/-- The byte offered to the reader, marked where it is the last of its record. -/
def offered (r : Ring) : Option Beat :=
  r.records.head?.map fun length => ⟨r.cells.read r.readAt, r.taken + 1 == length⟩

def take (r : Ring) : Option Beat × Ring :=
  match r.offered with
  | none => (none, r)
  | some b =>
    let r := { r with readAt := (r.readAt + 1) % r.size, committed := r.committed - 1 }
    (some b, if b.last then { r with records := r.records.tail, taken := 0 } else { r with taken := r.taken + 1 })

instance : BeatSource Ring := ⟨Ring.offered, Ring.take⟩

def slice (r : Ring) (start : Nat) : Nat → List UInt8
  | 0 => []
  | n + 1 => r.cells.read (start % r.size) :: r.slice (start + 1) n

/-- The committed bytes still to be read, in order. -/
def contents (r : Ring) : List UInt8 := r.slice r.readAt r.committed

def tailBytes (r : Ring) : List UInt8 := r.slice (r.readAt + r.committed) r.pending

end Ring
end UsbRecorder
