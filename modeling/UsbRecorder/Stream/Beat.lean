/-!
# Beat — a byte in transit, with the mark that ends a record

`ofWord_toWord`: a beat survives storage in a word of sixteen bits.
-/
namespace UsbRecorder

/-- One byte of a stream of records. -/
structure Beat where
  payload : UInt8
  /-- it is the final byte of its record -/
  last : Bool
  deriving DecidableEq, Repr, Inhabited

namespace Beat

/-- The storage word of a beat: the payload, and bit eight for the mark. -/
def toWord (b : Beat) : UInt16 := b.payload.toUInt16 ||| (if b.last then 256 else 0)

/-- The beat in a storage word; bits above the ninth do not count. -/
def ofWord (w : UInt16) : Beat := ⟨w.toUInt8, w &&& 256 != 0⟩

@[simp] theorem ofWord_toWord (b : Beat) : ofWord b.toWord = b := by
  obtain ⟨p, l⟩ := b
  have key : ∀ (p : BitVec 8) (l : Bool), ofWord (toWord ⟨UInt8.ofBitVec p, l⟩) = ⟨UInt8.ofBitVec p, l⟩ := by
    decide +kernel
  exact key p.toBitVec l

end Beat

/-- A place from which beats are taken one by one. -/
class BeatSource (σ : Type) where
  offered : σ → Option Beat
  take : σ → Option Beat × σ

export BeatSource (offered take)

def takeUpTo {σ : Type} [BeatSource σ] : Nat → σ → List Beat × σ
  | 0, s => ([], s)
  | n + 1, s =>
    match take s with
    | (none, s) => ([], s)
    | (some b, s) => let (bs, s) := takeUpTo n s; (b :: bs, s)

end UsbRecorder
