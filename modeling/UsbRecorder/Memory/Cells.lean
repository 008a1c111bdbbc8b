import Std.Data.TreeMap
/-!
# Cells — numbered cells that hold zero until they are written

Only written cells take room, so the number of cells need not be known.  `read_write` is all there is to know.
-/
namespace UsbRecorder

/-- Numbered cells. -/
structure Cells (α : Type) where
  written : Std.TreeMap Nat α := {}

namespace Cells
variable {α : Type}

def blank : Cells α := {}

def read [OfNat α 0] (c : Cells α) (i : Nat) : α := c.written.getD i 0

def write (c : Cells α) (i : Nat) (x : α) : Cells α := ⟨c.written.insert i x⟩

@[simp] theorem read_blank [OfNat α 0] (i : Nat) : (blank : Cells α).read i = 0 := Std.TreeMap.getD_emptyc

theorem read_write [OfNat α 0] (c : Cells α) (i j : Nat) (x : α) :
    (c.write i x).read j = if i = j then x else c.read j := by
  simp [read, write, Std.TreeMap.getD_insert]

@[simp] theorem read_write_self [OfNat α 0] (c : Cells α) (i : Nat) (x : α) : (c.write i x).read i = x := by
  simp [read_write]

theorem read_write_ne [OfNat α 0] (c : Cells α) {i j : Nat} (h : i ≠ j) (x : α) :
    (c.write i x).read j = c.read j := by
  simp [read_write, h]

/-- Write values into cells that follow one another on a circle of `size` cells. -/
def fill (c : Cells α) (size : Nat) : Nat → List α → Cells α
  | _, [] => c
  | i, x :: xs => (c.write (i % size) x).fill size (i + 1) xs

end Cells
end UsbRecorder
