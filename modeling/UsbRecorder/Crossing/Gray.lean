/-!
# Gray — the reflected binary code, in which neighbours differ in one bit

A pointer that is published in this code and caught in mid-change reads as its old or its new value.
-/
namespace UsbRecorder
namespace Gray

/-- The code word of a number. -/
def encode (n : UInt32) : UInt32 := n ^^^ (n >>> 1)

/-- One doubling: each bit takes in the bit `k` places above it. -/
def foldOnto (n k : UInt32) : UInt32 := n ^^^ (n >>> k)

/-- The number of a code word: each bit is the parity of the code bits from its place upwards. -/
def decode (g : UInt32) : UInt32 := [1, 2, 4, 8, 16].foldl foldOnto g

end Gray
end UsbRecorder
