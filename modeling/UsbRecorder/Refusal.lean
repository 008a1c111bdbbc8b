import UsbRecorder.Bus.Speed
/-! # Refusal — why something could not be built or done, and how that is worded -/
namespace UsbRecorder

/-- The cause of a refusal. -/
inductive Refusal where
  | stoppedClock
  | ringSize (bytes : Nat)
  | ringTooSmall (bytes : Nat)
  /-- a queue that cannot be built with so many slots -/
  | crossingDepth (slots : Nat)
  /-- a queue depth that no configuration may ask for -/
  | queueDepth (slots : Nat)
  /-- a memory too small to build a store on -/
  | memoryTooSmall
  /-- a store size that no configuration may ask for -/
  | storeTooSmall
  /-- a read threshold with which no store can be built -/
  | threshold (words last : Nat)
  /-- a read threshold that no configuration may ask for -/
  | thresholdSetting (words last : Nat)
  | reportSizes
  | unknownRequest (request : UInt8)
  /-- a register value of more than eight bits -/
  | wideState
  | unsupportedSpeed (speed : Speed)
  /-- the stream ended within a record -/
  | cutRecord (bytes : Nat)
  /-- a worker gave up -/
  | workerFailed (worker reason : String)
  /-- a worker broke off -/
  | workerBroke (worker reason : String)
  deriving DecidableEq, Repr

namespace Refusal

/-- The wording of a refusal, causes within causes joined by colons. -/
def message : Refusal → String
  | stoppedClock => "Sample clock rate must be non-zero"
  | ringSize bytes => s!"Ring capacity must be a power of two, got {bytes}"
  | ringTooSmall bytes => s!"Ring capacity of {bytes} bytes cannot hold a packet"
  | crossingDepth slots => s!"Queue depth must be a power of two between 2 and 2^30, got {slots}"
  | queueDepth slots => s!"Queue depth must be a power of two of at least 2, got {slots}"
  | memoryTooSmall => "Backing memory must hold at least two words"
  | storeTooSmall => "Backing store must hold at least two words"
  | threshold words last => s!"Read threshold {words} must be between 1 and {last}"
  | thresholdSetting words last => s!"Read threshold must be between 1 and {last}, got {words}"
  | reportSizes => "Report channel depth and batch size must be non-zero"
  | unknownRequest request => s!"Unsupported request {request}"
  | wideState => "State value does not fit in a byte: number too large to fit in target type"
  | unsupportedSpeed speed => s!"Speed {speed.description} is not supported"
  | cutRecord bytes => s!"Capture ended with {bytes} bytes of an incomplete record"
  | workerFailed worker reason => s!"{worker} thread failed: {reason}"
  | workerBroke worker reason => s!"{worker} thread panic: {reason}"

end Refusal
end UsbRecorder
