import Mathlib.Data.Nat.ModEq
import UsbRecorder.Proofs.Recorder.Logging
/-!
# Packet — the packet in progress, from its blank header to its record

`Holds r recs payload` says what the ring of a recorder holds: the records `recs`, and while a packet is in progress a
blank header and the `payload` so far, with room for the padding and the reserve.  Opening, extending and closing a
packet say what they make of the payload; where there is no room, or no end, the packet is taken back as a whole.
-/
namespace UsbRecorder

theorem exists_of_bind_eq_ok {ε α β : Type} {x : Except ε α} {f : α → Except ε β} {b : β} (h : x >>= f = .ok b) :
    ∃ a, x = .ok a ∧ f a = .ok b := by
  cases x with
  | error e => cases h
  | ok a => exact ⟨a, rfl, h⟩

/-- The data that a tick carries. -/
def Sample.data (s : Sample) : List UInt8 := if s.valid then [s.byte] else []

namespace Recorder

/-- The header of a packet whose length is not known yet. -/
def blankHeader : List UInt8 := List.replicate Record.headerSize 0

/-- A packet in progress. -/
structure InProgress (r : Recorder) (payload : List UInt8) : Prop where
  length : r.length = payload.length
  length_le : payload.length ≤ Record.maxPacket
  headerAt : (r.headerAt + r.ring.pending) % r.ring.size = r.ring.writeAt
  room : r.ring.committed + Record.packetSize payload.length + r.reserve ≤ r.ring.size

/-- **A recorder holds whole records, and while capturing a blank header and the payload so far.** -/
structure Holds (r : Recorder) (recs : List (List UInt8)) (payload : List UInt8) : Prop where
  ring : r.ring.Holds recs (if r.phase = .capturing then blankHeader ++ payload else [])
  packet : r.phase = .capturing → r.InProgress payload

variable {r : Recorder} {recs : List (List UInt8)} {payload : List UInt8}

theorem holds_of_ne_capturing (hphase : r.phase ≠ .capturing) (h : r.ring.Holds recs []) (payload : List UInt8) :
    r.Holds recs payload :=
  ⟨by rwa [if_neg hphase], fun hc => absurd hc hphase⟩

theorem Holds.between (h : r.Holds recs payload) (hphase : r.phase ≠ .capturing) : r.ring.Holds recs [] := by
  have := h.ring
  rwa [if_neg hphase] at this

theorem Holds.capturing (h : r.Holds recs payload) (hphase : r.phase = .capturing) :
    r.ring.Holds recs (blankHeader ++ payload) := by
  have := h.ring
  rwa [if_pos hphase] at this

theorem create_eq {size : Nat} {captureEvents : Bool} (h : create size captureEvents = .ok r) :
    ∃ ring, Ring.create size = .ok ring ∧ r = { ring, captureEvents } := by
  obtain ⟨ring, hring, h⟩ := exists_of_bind_eq_ok h
  refine ⟨ring, hring, ?_⟩
  by_cases hsmall : size < Record.headerSize + 2 + reserveFor captureEvents
  · simp [hsmall, bind, Except.bind, throw, throwThe, MonadExceptOf.throw] at h
  · simpa [hsmall, bind, Except.bind, pure, Except.pure, eq_comm] using h

theorem holds_create {size : Nat} {captureEvents : Bool} (h : create size captureEvents = .ok r) (payload : List UInt8) :
    r.Holds [] payload ∧ r.ring.size = size := by
  obtain ⟨ring, hring, rfl⟩ := create_eq h
  obtain ⟨hholds, hsize⟩ := Ring.holds_create hring
  exact ⟨holds_of_ne_capturing (nofun : Phase.stopped ≠ .capturing) hholds payload, hsize⟩

theorem Holds.of_eq {r' : Recorder} (h : r.Holds recs payload) (hring : r'.ring = r.ring) (hphase : r'.phase = r.phase)
    (hlength : r'.length = r.length) (hhead : r'.headerAt = r.headerAt) (hcapture : r'.captureEvents = r.captureEvents) :
    r'.Holds recs payload := by
  obtain ⟨hr, hp⟩ := h
  refine ⟨by rwa [hring, hphase], fun hc => ?_⟩
  rw [hphase] at hc
  obtain ⟨hlen, hle, hat, hroom⟩ := hp hc
  refine ⟨hlength.trans hlen, hle, by rwa [hring, hhead], ?_⟩
  have hreserve : r'.reserve = r.reserve := congrArg reserveFor hcapture
  rwa [hring, hreserve]

/-- What is framed so far does not matter to what is there. -/
theorem Holds.fresh (h : r.Holds recs payload) : Holds { r with framed := [] } recs payload :=
  h.of_eq rfl rfl rfl rfl rfl

theorem Holds.withdrawn (h : r.Holds recs payload) : r.withdrawn.ring.Holds recs [] := h.ring.abandon

theorem Holds.pending (h : r.Holds recs payload) (hphase : r.phase = .capturing) :
    r.ring.pending = Record.headerSize + payload.length := by
  rw [(h.capturing hphase).pending, List.length_append, blankHeader, List.length_replicate]

theorem packetSize_mono {m n : Nat} (h : m ≤ n) : Record.packetSize m ≤ Record.packetSize n := by
  unfold Record.packetSize
  omega

/-! ## One byte more -/

/-- A byte that fits, as one of a packet that may end with it. -/
def HasRoom (r : Recorder) (length : Nat) : Prop :=
  length ≤ Record.maxPacket ∧ r.ring.committed + Record.packetSize length + r.reserve ≤ r.ring.size

theorem addByte_of_hasRoom (h : r.Holds recs payload) (hphase : r.phase = .capturing)
    (hroom : r.HasRoom (payload.length + 1)) (byte : UInt8) :
    r.addByte byte = { r with ring := r.ring.push byte, length := r.length + 1 } := by
  have hp := h.packet hphase
  have hpend := h.pending hphase
  obtain ⟨hmax, hfit⟩ := hroom
  have hne : r.length ≠ Record.maxPacket := by
    rw [hp.length]
    omega
  have hfits : r.ring.fits (1 + (r.length + 1) % 2 + r.reserve) = true := by
    rw [Ring.fits_iff, hp.length, hpend]
    unfold Record.packetSize at hfit
    omega
  unfold addByte
  rw [if_neg hne, if_pos hfits]

theorem holds_push (h : r.Holds recs payload) (hphase : r.phase = .capturing) (hroom : r.HasRoom (payload.length + 1))
    (byte : UInt8) : Holds { r with ring := r.ring.push byte, length := r.length + 1 } recs (payload ++ [byte]) := by
  have hp := h.packet hphase
  have hpend := h.pending hphase
  obtain ⟨hmax, hfit⟩ := hroom
  have hlen : (payload ++ [byte]).length = payload.length + 1 := by simp
  refine ⟨?_, fun _ => ⟨?_, ?_, ?_, ?_⟩⟩
  · show (r.ring.push byte).Holds recs (if r.phase = .capturing then blankHeader ++ (payload ++ [byte]) else [])
    rw [if_pos hphase, ← List.append_assoc]
    refine (h.capturing hphase).push ?_ byte
    rw [hpend]
    unfold Record.packetSize at hfit
    omega
  · show r.length + 1 = (payload ++ [byte]).length
    rw [hlen, hp.length]
  · rw [hlen]
    exact hmax
  · show (r.headerAt + (r.ring.pending + 1)) % r.ring.size = (r.ring.writeAt + 1) % r.ring.size
    rw [← Nat.add_assoc, ← hp.headerAt, Nat.mod_add_mod]
  · rw [hlen]
    exact hfit

/-- **A byte without room for it ends the packet**: all of it is taken back. -/
theorem addByte_of_not_hasRoom (h : r.Holds recs payload) (hphase : r.phase = .capturing)
    (hroom : ¬ r.HasRoom (payload.length + 1)) (byte : UInt8) :
    Logs r.withdrawn (r.addByte byte) ∧ ((r.addByte byte).phase = .overrun ∨ (r.addByte byte).phase = .babble) := by
  have hp := h.packet hphase
  have hpend := h.pending hphase
  have hle := hp.length_le
  unfold addByte
  split
  · exact ⟨logs_overlong_of_packet r, .inr (phase_overlong r)⟩
  · rename_i hne
    rw [hp.length] at hne
    have hnofit : ¬ r.ring.fits (1 + (r.length + 1) % 2 + r.reserve) = true := by
      rw [Ring.fits_iff, hp.length, hpend]
      refine fun hfit => hroom ⟨by omega, ?_⟩
      unfold Record.packetSize
      omega
    rw [if_neg hnofit]
    exact ⟨logs_overflow_of_packet r, .inl (phase_overflow r)⟩

/-! ## The first tick -/

/-- A recorder with a packet just opened. -/
def opened (r : Recorder) : Recorder :=
  { r with
    time := r.gapBefore r.now
    base := r.now
    headerAt := r.ring.writeAt
    ring := r.ring.pushAll blankHeader
    length := 0
    phase := .capturing }

theorem openPacket_of_hasRoom (h : r.ring.Holds recs []) (hroom : r.HasRoom 0) (s : Sample) :
    r.openPacket s = if s.valid then r.opened.addByte s.byte else r.opened := by
  have hfits : r.ring.fits (Record.headerSize + r.reserve) = true := by
    have hpend : r.ring.pending = 0 := h.pending
    have hfit := hroom.2
    rw [Ring.fits_iff, hpend]
    unfold Record.packetSize at hfit
    omega
  unfold openPacket
  rw [if_pos hfits]
  rfl

theorem holds_opened (h : r.ring.Holds recs []) (hroom : r.HasRoom 0) : r.opened.Holds recs [] := by
  have hpend : r.ring.pending = 0 := h.pending
  have hfit := hroom.2
  have hring : (r.ring.pushAll blankHeader).Holds recs (blankHeader ++ []) := by
    refine h.pushAll ?_
    rw [hpend, blankHeader, List.length_replicate]
    unfold Record.packetSize at hfit
    omega
  refine ⟨hring, fun _ => ⟨rfl, Nat.zero_le _, ?_, ?_⟩⟩
  · show (r.ring.writeAt + (r.ring.pushAll blankHeader).pending) % (r.ring.pushAll blankHeader).size =
      (r.ring.pushAll blankHeader).writeAt
    rw [hring.writeAt, h.writeAt, hpend, Ring.size_pushAll, Ring.readAt_pushAll, Ring.committed_pushAll, Nat.mod_add_mod,
      Nat.add_zero, Nat.add_assoc]
  · show (r.ring.pushAll blankHeader).committed + Record.packetSize 0 + r.reserve ≤ (r.ring.pushAll blankHeader).size
    rw [Ring.committed_pushAll, Ring.size_pushAll]
    exact hfit

theorem openPacket_of_not_hasRoom (h : r.ring.Holds recs []) (hroom : ¬ r.HasRoom 0) (s : Sample) :
    r.openPacket s = r.overflow := by
  have hnofit : ¬ r.ring.fits (Record.headerSize + r.reserve) = true := by
    have hpend : r.ring.pending = 0 := h.pending
    rw [Ring.fits_iff, hpend]
    refine fun hfit => hroom ⟨Nat.zero_le _, ?_⟩
    unfold Record.packetSize
    omega
  unfold openPacket
  rw [if_neg hnofit]

theorem hasRoom_opened (r : Recorder) (n : Nat) : r.opened.HasRoom n ↔ r.HasRoom n := by
  unfold HasRoom opened reserve
  rw [Ring.committed_pushAll, Ring.size_pushAll]

/-! ## The last tick -/

/-- The record of a packet. -/
def packetFraming (r : Recorder) (payload : List UInt8) : Framing := ⟨(Record.packet r.time payload).toBytes, r.base⟩

/-- **Closing a packet makes its header, its payload and its padding a record.** -/
theorem holds_closePacket (h : r.Holds recs payload) (hphase : r.phase = .capturing) :
    r.closePacket.ring.Holds (recs ++ [(r.packetFraming payload).bytes]) [] ∧
      r.closePacket.framed = r.packetFraming payload :: r.framed := by
  have hp := h.packet hphase
  have hpend := h.pending hphase
  have hring := h.capturing hphase
  have hpad : (r.ring.pushAll (Record.padding payload.length)).Holds recs
      (blankHeader ++ payload ++ Record.padding payload.length) := by
    refine hring.pushAll ?_
    have := hp.room
    rw [hpend, Record.padding, List.length_replicate]
    unfold Record.packetSize at this
    omega
  have hhead : r.headerAt % (r.ring.pushAll (Record.padding payload.length)).size =
      ((r.ring.pushAll (Record.padding payload.length)).readAt +
        (r.ring.pushAll (Record.padding payload.length)).committed + ([] : List UInt8).length) %
        (r.ring.pushAll (Record.padding payload.length)).size := by
    rw [Ring.size_pushAll, Ring.readAt_pushAll, Ring.committed_pushAll, List.length_nil, Nat.add_zero]
    have := hp.headerAt
    rw [hring.writeAt, ← Nat.add_assoc] at this
    exact Nat.ModEq.add_right_cancel' r.ring.pending this
  have hblank : (r.ring.pushAll (Record.padding payload.length)).Holds recs
      ([] ++ (blankHeader ++ (payload ++ Record.padding payload.length))) := by
    rwa [List.nil_append, ← List.append_assoc]
  have hsame : blankHeader.length = (Record.header (UInt16.ofNat payload.length) r.time).length := rfl
  have hfill := hblank.fill hsame hhead
  have hbytes : [] ++ (Record.header (UInt16.ofNat payload.length) r.time ++ (payload ++ Record.padding payload.length)) =
      (r.packetFraming payload).bytes := by
    rw [List.nil_append, ← List.append_assoc]
    rfl
  rw [hbytes] at hfill
  unfold closePacket
  dsimp only
  rw [hp.length]
  refine ⟨hfill.commit (Record.packet r.time payload).toBytes_ne_nil, ?_⟩
  rw [hfill.tailBytes_eq]
  rfl

/-! ## The reader -/

theorem take_of_nil (h : r.Holds [] payload) : r.take = (none, r) := by
  unfold take
  rw [h.ring.take_nil]

/-- **The reader takes the next byte of the first record, whatever is in progress.** -/
theorem Holds.take {first : List UInt8} {others : List (List UInt8)} (h : r.Holds (first :: others) payload) :
    r.take.1 = (Beat.ofRecord first)[r.ring.taken]? ∧
      r.take.2.Holds (Ring.Holds.rest (first :: others) r.ring.taken) payload ∧
      r.take.2.ring.taken = if r.ring.taken + 1 = first.length then 0 else r.ring.taken + 1 := by
  obtain ⟨hbeat, hring, htaken⟩ := h.ring.take_cons
  obtain ⟨hsize, hwrite, hpend, hcomm⟩ := r.ring.take_frame
  refine ⟨hbeat, ⟨hring, fun hc => ?_⟩, htaken⟩
  obtain ⟨hlen, hle, hat, hroom⟩ := h.packet hc
  refine ⟨hlen, hle, ?_, ?_⟩
  · show (r.headerAt + r.ring.take.2.pending) % r.ring.take.2.size = r.ring.take.2.writeAt
    rw [hpend, hsize, hwrite]
    exact hat
  · show r.ring.take.2.committed + Record.packetSize payload.length + r.reserve ≤ r.ring.take.2.size
    rw [hsize]
    omega

end Recorder
end UsbRecorder
