import UsbRecorder.Bus.Event
/-!
# Record — packets and events as they stand in the byte stream

An event is the tag, its code and its time, two bytes; a packet is its length and its time, two bytes each, its
payload, and a zero byte where the length is odd.  `decode?` reads the first record; `toBytes` writes one.
-/
namespace UsbRecorder

/-- Two bytes, the higher first, as a word. -/
def wordOf (hi lo : UInt8) : UInt16 := UInt16.ofNat (hi.toNat * 256 + lo.toNat)

/-- The two bytes of a word, the higher first. -/
def bytesOf (w : UInt16) : List UInt8 := [UInt8.ofNat (w.toNat / 256), UInt8.ofNat w.toNat]

/-- A record of the stream; its time counts ticks since the record before. -/
inductive Record where
  | packet (time : UInt16) (payload : List UInt8)
  | event (time : UInt16) (code : UInt8)
  deriving DecidableEq, Repr, Inhabited

namespace Record

/-- The first byte of every event record. -/
def tag : UInt8 := 0xFF

/-- Bytes of a packet record before its payload. -/
def headerSize : Nat := 4

def eventSize : Nat := 4

/-- The longest packet: 1024 bytes of data, its identifier and its checksum. -/
def maxPacket : Nat := 1024 + 1 + 2

def maxTime : Nat := 0xFFFF

/-- The longest packet's length does not begin with the event tag, so that the first byte tells records apart. -/
theorem maxPacket_div_lt_tag : maxPacket / 256 < tag.toNat := by decide

/-- Bytes that a packet of a length takes in the stream. -/
def packetSize (length : Nat) : Nat := headerSize + length + length % 2

/-- The bytes before a packet's payload. -/
def header (length time : UInt16) : List UInt8 := bytesOf length ++ bytesOf time

def time : Record → UInt16
  | packet t _ => t
  | event t _ => t

def size : Record → Nat
  | packet _ payload => packetSize payload.length
  | event .. => eventSize

/-- The zero byte that makes an odd length even. -/
def padding (length : Nat) : List UInt8 := List.replicate (length % 2) 0

def toBytes : Record → List UInt8
  | packet t payload => header (UInt16.ofNat payload.length) t ++ payload ++ padding payload.length
  | event t code => [tag, code] ++ bytesOf t

@[simp] theorem length_toBytes (r : Record) : r.toBytes.length = r.size := by
  cases r <;> simp [toBytes, size, header, bytesOf, padding, packetSize, headerSize, eventSize]; omega

/-- The event of a record to report: none for a packet, a placeholder and an unknown code. -/
def event? : Record → Option BusEvent
  | packet .. => none
  | event _ code => BusEvent.reportable? code

/-- The record at the start of the bytes and the bytes after it; none while it is incomplete. -/
def decode? : List UInt8 → Option (Record × List UInt8)
  | a :: b :: hi :: lo :: rest =>
    if a = tag then some (event (wordOf hi lo) b, rest)
    else
      let length := (wordOf a b).toNat
      let body := rest.take (length + length % 2)
      if body.length = length + length % 2 then
        some (packet (wordOf hi lo) (body.take length), rest.drop (length + length % 2))
      else none
  | _ => none

theorem length_lt_of_decode? {bytes rest : List UInt8} {r : Record} (h : decode? bytes = some (r, rest)) :
    rest.length < bytes.length := by
  unfold decode? at h
  split at h
  · split at h
    · simp only [Option.some.injEq, Prod.mk.injEq] at h
      obtain ⟨-, rfl⟩ := h
      simp; omega
    · dsimp only at h
      split at h
      · simp only [Option.some.injEq, Prod.mk.injEq] at h
        obtain ⟨-, rfl⟩ := h
        simp; omega
      · exact absurd h (by simp)
  · exact absurd h (by simp)

/-- The complete records that the bytes begin with. -/
def decodeAll (bytes : List UInt8) : List Record :=
  match _h : decode? bytes with
  | none => []
  | some (r, rest) => r :: decodeAll rest
termination_by bytes.length
decreasing_by exact length_lt_of_decode? _h

end Record
end UsbRecorder
