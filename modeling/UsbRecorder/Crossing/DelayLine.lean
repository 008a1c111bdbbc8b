/-!
# DelayLine — a chain of registers that passes values from one clock to another

Every tick of the receiving clock moves each value one stage on; a value comes out after as many ticks as there are
stages.
-/
namespace UsbRecorder

/-- A chain of one stage or more. -/
structure DelayLine (α : Type) where
  /-- what the last stage holds -/
  output : α
  /-- what the stages before it hold, the one next to come out first -/
  behind : List α
  deriving DecidableEq, Repr, Inhabited

namespace DelayLine
variable {α : Type}

def reset (stages : Nat) (x : α) : DelayLine α := ⟨x, List.replicate (stages - 1) x⟩

def clock (d : DelayLine α) (x : α) : DelayLine α :=
  match d.behind with
  | [] => ⟨x, []⟩
  | next :: rest => ⟨next, rest ++ [x]⟩

/-- The outputs while values are clocked in, the one before the first value included. -/
def outputs (d : DelayLine α) : List α → List α
  | [] => [d.output]
  | x :: xs => d.output :: (d.clock x).outputs xs

end DelayLine
end UsbRecorder
