import UsbRecorder.Proofs.Recorder.Account
/-!
# Room — no byte is pushed without room for it, and no stop record is lost

`keepsRoom_of_create`: under any actions every byte that a recorder pushes into its ring finds room, and with capture
events on each capture that ends leaves its stop record in the ring.  A recorder that waits has the reserve left free;
so has one that starts anew over the rest of a record, because every record leaves the reserve free by itself.
-/
namespace UsbRecorder
namespace Ring

/-- **A ring with room to spare**: every byte that was pushed found room, and each record alone leaves `reserve` bytes
free. -/
structure Spares (r : Ring) (reserve : Nat) : Prop where
  calm : r.crowded = false
  records : ∀ n ∈ r.records.toList, n + reserve ≤ r.size

variable {r : Ring} {reserve : Nat} {bytes : List UInt8}

@[simp] theorem pending_pushAll (r : Ring) (bytes : List UInt8) :
    (r.pushAll bytes).pending = r.pending + bytes.length := by
  induction bytes generalizing r with
  | nil => rfl
  | cons b bytes ih =>
    refine (ih (r.push b)).trans ?_
    rw [List.length_cons]
    show r.pending + 1 + bytes.length = _
    omega

@[simp] theorem records_pushAll (r : Ring) (bytes : List UInt8) : (r.pushAll bytes).records = r.records := by
  induction bytes generalizing r with
  | nil => rfl
  | cons b bytes ih => exact ih (r.push b)

/-- **Bytes that find room leave the ring calm.** -/
theorem crowded_pushAll (hroom : r.committed + r.pending + bytes.length ≤ r.size) :
    (r.pushAll bytes).crowded = r.crowded := by
  induction bytes generalizing r with
  | nil => rfl
  | cons b bytes ih =>
    rw [List.length_cons] at hroom
    have hfits : r.fits 1 = true := by
      rw [fits_iff]
      omega
    have hroom' : (r.push b).committed + (r.push b).pending + bytes.length ≤ (r.push b).size := by
      show r.committed + (r.pending + 1) + bytes.length ≤ r.size
      omega
    refine (ih hroom').trans ?_
    show (r.crowded || !r.fits 1) = r.crowded
    rw [hfits, Bool.not_true, Bool.or_false]

namespace Spares

theorem pushAll (h : r.Spares reserve) (hroom : r.committed + r.pending + bytes.length ≤ r.size) :
    (r.pushAll bytes).Spares reserve := by
  refine ⟨(crowded_pushAll hroom).trans h.calm, ?_⟩
  rw [records_pushAll, size_pushAll]
  exact h.records

theorem commit (h : r.Spares reserve) (hpending : r.pending + reserve ≤ r.size) : r.commit.Spares reserve := by
  unfold Ring.commit
  split_ifs
  · exact h
  · refine ⟨h.calm, ?_⟩
    show ∀ n ∈ (r.records.push r.pending).toList, n + reserve ≤ r.size
    rw [Fifo.toList_push]
    exact List.forall_mem_append.2 ⟨h.records, fun n hn => by rwa [List.mem_singleton.1 hn]⟩

theorem append (h : r.Spares reserve) (hpending : r.pending = 0) (hroom : r.committed + bytes.length ≤ r.size)
    (hrecord : bytes.length + reserve ≤ r.size) : (r.append bytes).Spares reserve := by
  refine (h.pushAll ?_).commit ?_
  · omega
  · rw [pending_pushAll, size_pushAll]
    omega

theorem discard (h : r.Spares reserve) : r.discard.Spares reserve := by
  unfold Ring.discard
  split
  · rename_i n length _ hhead
    refine ⟨h.calm, fun n hn => ?_⟩
    rw [Fifo.head?_eq] at hhead
    rw [List.mem_singleton.1 hn]
    exact h.records length (List.mem_of_head? hhead)
  · exact ⟨h.calm, nofun⟩

theorem take (h : r.Spares reserve) : r.take.2.Spares reserve := by
  have htail : ∀ n ∈ r.records.tail.toList, n + reserve ≤ r.size := by
    rw [Fifo.toList_tail]
    exact fun n hn => h.records n (List.mem_of_mem_tail hn)
  unfold Ring.take
  split
  · exact h
  · dsimp only
    split
    · exact ⟨h.calm, htail⟩
    · exact ⟨h.calm, h.records⟩

/-- What a discard keeps leaves the reserve free, for it is a part of one record. -/
theorem committed_discard (h : r.Spares reserve) (hreserve : reserve ≤ r.size) :
    r.discard.pending = 0 ∧ r.discard.committed + reserve ≤ r.size := by
  unfold Ring.discard
  split
  · rename_i n length hrest hhead
    refine ⟨rfl, ?_⟩
    show n + 1 + reserve ≤ r.size
    unfold Ring.restOfBegun at hrest
    rw [Fifo.head?_eq] at hrest hhead
    rw [hhead] at hrest
    have := h.records length (List.mem_of_head? hhead)
    split_ifs at hrest
    dsimp only at hrest
    omega
  · exact ⟨rfl, by simpa using hreserve⟩

end Spares

theorem commit_append (hpending : r.pending = 0) (hbytes : bytes ≠ []) :
    (r.append bytes).committed = r.committed + bytes.length ∧ (r.append bytes).pending = 0 := by
  have hne : (r.pushAll bytes).pending ≠ 0 := by
    rw [pending_pushAll]
    have := List.length_pos_iff.2 hbytes
    omega
  unfold append commit
  rw [if_neg hne]
  refine ⟨?_, rfl⟩
  show (r.pushAll bytes).committed + (r.pushAll bytes).pending = _
  rw [committed_pushAll, pending_pushAll, hpending, Nat.zero_add]

end Ring

namespace Recorder

/-- Room for a stop record, once the pending bytes are taken back. -/
def Spare (r : Recorder) : Prop := r.ring.committed + r.reserve ≤ r.ring.size

/-- The stop record of a recorder with room for one, where it frames stop records. -/
def stopping (r : Recorder) (cause : StopCause) (time : UInt16) : List Entry :=
  if r.captureEvents then [⟨.stopped cause, r.now, time⟩] else []

/-- **A recorder with room to spare.** -/
structure Roomy (r : Recorder) : Prop where
  ring : r.ring.Spares r.reserve
  smallest : Record.eventSize + r.reserve ≤ r.ring.size
  waiting : r.phase = .waiting → r.ring.pending = 0 ∧ r.Spare

variable {r r' a b : Recorder} {recs : List (List UInt8)} {payload : List UInt8} {s : Sample} {event : Option BusEvent}
  {es : List Entry} {cause : StopCause}

theorem Roomy.fresh (h : r.Roomy) : Roomy { r with framed := [] } := ⟨h.ring, h.smallest, h.waiting⟩

/-! ## Framing -/

theorem Roomy.frame_ring (hring : r.ring.Spares r.reserve) (hsmallest : Record.eventSize + r.reserve ≤ r.ring.size)
    (hpending : r.ring.pending = 0) (hroom : r.ring.fits Record.eventSize = true) (e : BusEvent) (tick : Nat) :
    (r.frame e tick).ring.Spares r.reserve := by
  have hlen := length_event (r.gapBefore tick) e.code
  rw [Ring.fits_iff, hpending] at hroom
  exact hring.append hpending (by rw [hlen]; exact hroom) (by rw [hlen]; exact hsmallest)

theorem fits_of_spare (hcapture : r.captureEvents = true) (hspare : r.Spare) (hpending : r.ring.pending = 0) :
    r.ring.fits Record.eventSize = true := by
  unfold Spare reserve at hspare
  rw [hcapture] at hspare
  rw [Ring.fits_iff, hpending]
  exact hspare

/-- **The stop record finds room.** -/
theorem stopEntries_of_spare (hcapture : r.captureEvents = true) (hspare : r.Spare) (hpending : r.ring.pending = 0)
    (cause : StopCause) : r.stopEntries cause = [⟨.stopped cause, r.now, r.gapBefore r.now⟩] :=
  if_pos ⟨hcapture, fits_of_spare hcapture hspare hpending⟩

theorem Roomy.logStop_ring (hring : r.ring.Spares r.reserve) (hsmallest : Record.eventSize + r.reserve ≤ r.ring.size)
    (hpending : r.ring.pending = 0) (cause : StopCause) : (r.logStop cause).ring.Spares r.reserve := by
  rcases r.logStop_cases cause with ⟨counts, hstop, -⟩ | ⟨-, hroom, counts, hstop, -⟩
  · rw [hstop]
    exact hring
  · rw [hstop]
    exact Roomy.frame_ring hring hsmallest hpending hroom _ _

theorem Steady.roomy (h : Steady r r') (hr : r.Roomy) (hring : r'.ring.Spares r.reserve)
    (hphase : r'.phase ≠ .waiting) : r'.Roomy := by
  have hreserve : r'.reserve = r.reserve := congrArg reserveFor h.captureEvents
  exact ⟨hreserve ▸ hring, by rw [hreserve, h.size]; exact hr.smallest, fun hw => absurd hw hphase⟩

theorem Roomy.giveUp (h : r.Roomy) {phase : Phase} (hphase : phase ≠ .waiting) (cause : StopCause) :
    (r.giveUp phase cause).Roomy := by
  refine ((steady_withdrawn r).trans (logs_giveUp r phase cause).steady).roomy h ?_ (by rwa [phase_giveUp])
  have hring : r.withdrawn.ring.Spares r.reserve := ⟨h.ring.calm, h.ring.records⟩
  exact Roomy.logStop_ring (r := { r.withdrawn.forgetHeld with phase }) hring h.smallest rfl cause

theorem Roomy.overflow (h : r.Roomy) : r.overflow.Roomy :=
  Roomy.giveUp (r := { r with counts.overruns := r.counts.overruns + 1 }) ⟨h.ring, h.smallest, h.waiting⟩
    (show Phase.overrun ≠ .waiting by decide) .full

/-- An event record leaves the reserve free. -/
theorem Roomy.frame (h : r.Roomy) (hphase : r.phase = .waiting) (hroom : r.Spacious) (event : BusEvent) (tick : Nat)
    (held : List (BusEvent × Nat)) (counts : Counts) : Roomy { r.frame event tick with held, counts } := by
  obtain ⟨hpending, hspare⟩ := h.waiting hphase
  have hlen := length_event (r.gapBefore tick) event.code
  have hfit := (Ring.fits_iff _ _).1 hroom
  have hfit' : r.ring.fits Record.eventSize = true := by
    rw [Ring.fits_iff]
    omega
  obtain ⟨hcommitted, hnone⟩ :=
    Ring.commit_append hpending (Record.event (r.gapBefore tick) event.code).toBytes_ne_nil
  refine ⟨Roomy.frame_ring h.ring h.smallest hpending hfit' event tick, ?_, fun _ => ⟨hnone, ?_⟩⟩
  · show Record.eventSize + r.reserve ≤ (r.ring.append _).size
    rw [Ring.size_append]
    exact h.smallest
  · show (r.ring.append _).committed + r.reserve ≤ (r.ring.append _).size
    rw [hcommitted, hlen, Ring.size_append]
    omega

theorem Frames.roomy (h : Frames a es b) (ha : a.Roomy) : b.Roomy := by
  induction h with
  | done => exact ha
  | frame phase room _ _ _ ih => exact ih (ha.frame phase room _ _ _ _)
  | @full r _ _ held => exact Roomy.overflow (r := { r with held }) ⟨ha.ring, ha.smallest, ha.waiting⟩

theorem stopEntries_withdrawn (hspare : r.Spare) (cause : StopCause) :
    r.withdrawn.stopEntries cause = r.stopping cause (r.gapBefore r.now) := by
  unfold stopping
  split_ifs with hcapture
  · exact stopEntries_of_spare (r := r.withdrawn) hcapture hspare rfl cause
  · exact if_neg fun h => hcapture h.1

theorem getLast?_stopping (hcapture : r.captureEvents = true) (cause : StopCause) (time : UInt16) :
    (r.stopping cause time).getLast? = some ⟨.stopped cause, r.now, time⟩ := by
  rw [stopping, if_pos hcapture]
  rfl

/-- **Where the ring runs full the stop record comes last.** -/
theorem Frames.stops (h : Frames a es b) (ha : a.Roomy) (hcapture : a.captureEvents = true)
    (hphase : a.phase = .waiting) (hover : b.phase ≠ .waiting) :
    ∃ time, es.getLast? = some ⟨.stopped .full, a.now, time⟩ := by
  induction h with
  | done => exact absurd hphase hover
  | frame phase room _ _ _ ih =>
    obtain ⟨time, hlast⟩ := ih (ha.frame phase room _ _ _ _) hcapture phase hover
    refine ⟨time, ?_⟩
    rw [List.getLast?_cons, hlast]
    rfl
  | full phase =>
    rw [stopEntries_withdrawn (ha.waiting phase).2]
    exact ⟨_, getLast?_stopping hcapture .full _⟩

/-! ## Turns -/

theorem Roomy.spare (h : r.Roomy) (hr : r.Holds recs payload) (hphase : r.phase = .waiting ∨ r.phase = .capturing) :
    r.Spare := by
  rcases hphase with hphase | hphase
  · exact (h.waiting hphase).2
  · have := (hr.packet hphase).room
    unfold Spare
    omega

theorem Roomy.opened (h : r.Roomy) (hphase : r.phase = .waiting) (hroom : r.HasRoom 0) : r.opened.Roomy := by
  obtain ⟨hpending, -⟩ := h.waiting hphase
  refine ⟨h.ring.pushAll ?_, ?_, nofun⟩
  · have := hroom.2
    rw [hpending, blankHeader, List.length_replicate]
    unfold Record.packetSize at this
    omega
  · show Record.eventSize + r.reserve ≤ (r.ring.pushAll blankHeader).size
    rw [Ring.size_pushAll]
    exact h.smallest

theorem Roomy.spare_of_refused (h : r.Roomy) (hr : r.Holds recs payload)
    (packet : a = r ∧ (r.phase = .waiting ∨ r.phase = .capturing) ∨
      a = r.opened ∧ r.phase = .waiting ∧ r.HasRoom 0) : a.Spare := by
  obtain ⟨rfl, hphase⟩ | ⟨rfl, hphase, hroom⟩ := packet
  · exact h.spare hr hphase
  · have hring := hr.between (by rw [hphase]; decide)
    exact (h.opened hphase hroom).spare (holds_opened hring hroom) (.inr rfl)

theorem Roomy.received (h : r.Roomy) (hr : r.Holds recs payload) (hphase : r.phase = .capturing) {data : List UInt8}
    (hroom : r.HasRoom (payload.length + data.length)) : (r.received data).Roomy := by
  refine ⟨h.ring.pushAll ?_, ?_, fun hw => ?_⟩
  · have := hroom.2
    rw [hr.pending hphase]
    unfold Record.packetSize at this
    omega
  · show Record.eventSize + r.reserve ≤ (r.ring.pushAll data).size
    rw [Ring.size_pushAll]
    exact h.smallest
  · cases hphase.symm.trans hw

theorem Roomy.closed (h : r.Roomy) (hr : r.Holds recs payload) (hphase : r.phase = .capturing) :
    r.closePacket.Roomy := by
  have hp := hr.packet hphase
  have hpending := hr.pending hphase
  have hfit := hp.room
  have hlen : (Record.padding r.length).length = payload.length % 2 := by
    rw [Record.padding, List.length_replicate, hp.length]
  have hpad : (r.ring.pushAll (Record.padding r.length)).Spares r.reserve := by
    refine h.ring.pushAll ?_
    rw [hpending, hlen]
    unfold Record.packetSize at hfit
    omega
  have hcount : (r.ring.pushAll (Record.padding r.length)).pending = Record.packetSize payload.length := by
    rw [Ring.pending_pushAll, hpending, hlen]
    rfl
  have hne : (r.ring.pushAll (Record.padding r.length)).pending ≠ 0 := by
    rw [hcount, Record.packetSize, Record.headerSize]
    omega
  have hring : r.closePacket.ring.Spares r.reserve := by
    refine Ring.Spares.commit (r := (r.ring.pushAll (Record.padding r.length)).fill r.headerAt _)
      ⟨hpad.calm, hpad.records⟩ ?_
    show (r.ring.pushAll (Record.padding r.length)).pending + r.reserve ≤
      (r.ring.pushAll (Record.padding r.length)).size
    rw [hcount, Ring.size_pushAll]
    omega
  have hcommit : r.closePacket.ring.pending = 0 ∧
      r.closePacket.ring.committed = r.ring.committed + Record.packetSize payload.length := by
    unfold closePacket Ring.commit Ring.fill
    dsimp only
    rw [if_neg hne, hcount, Ring.committed_pushAll]
    exact ⟨rfl, rfl⟩
  have hsize : r.closePacket.ring.size = r.ring.size := by simp [closePacket, Ring.fill]
  refine ⟨hring, ?_, fun _ => ⟨hcommit.1, ?_⟩⟩
  · rw [hsize]
    exact h.smallest
  · show r.closePacket.ring.committed + r.reserve ≤ r.closePacket.ring.size
    rw [hcommit.2, hsize]
    exact hfit

theorem Roomy.begun (h : r.Roomy) : Roomy { r.discard with base := r.now, phase := .waiting } := by
  have hsize : r.ring.discard.size = r.ring.size := r.ring.size_discard
  have hsmallest : Record.eventSize + r.reserve ≤ r.ring.discard.size := by
    rw [hsize]
    exact h.smallest
  obtain ⟨hpending, hspare⟩ := h.ring.committed_discard (Nat.le_trans (Nat.le_add_left _ _) h.smallest)
  rw [← hsize] at hspare
  exact ⟨h.ring.discard, hsmallest, fun _ => ⟨hpending, hspare⟩⟩

theorem Turn.roomy (h : Turn r payload s es r') (hr : r.Roomy) (hholds : r.Holds recs payload) : r'.Roomy := by
  cases h with
  | still => exact hr
  | cleared => exact ⟨hr.begun.ring, hr.begun.smallest, nofun⟩
  | armed _ _ _ frames _ => exact frames.roomy hr.begun
  | ended phase =>
    have hlogs : Logs r r.endCapture := (logs_logStop r .requested).bookkeeping _ _ _ _
    exact hlogs.steady.roomy hr (Roomy.logStop_ring hr.ring hr.smallest (hr.waiting phase).1 .requested) nofun
  | opened phase _ _ room =>
    have hroom : r.HasRoom 0 := ⟨Nat.zero_le _, Nat.le_trans
      (Nat.add_le_add_right (Nat.add_le_add_left (packetSize_mono (Nat.zero_le _)) _) _) room.2⟩
    have hring := hholds.between (by rw [phase]; decide)
    refine (hr.opened phase hroom).received (holds_opened hring hroom) rfl ?_
    rw [List.length_nil, Nat.zero_add]
    exact (hasRoom_opened r _).2 room
  | extended phase _ room => exact hr.received hholds phase room
  | closed phase => exact hr.closed hholds phase
  | @refused a _ _ packet =>
    obtain ⟨rfl, -⟩ | ⟨rfl, hphase, hroom⟩ := packet
    · exact hr.overflow
    · exact (hr.opened hphase hroom).overflow
  | overlong =>
    exact Roomy.giveUp (r := { r with counts.babbles := r.counts.babbles + 1 }) ⟨hr.ring, hr.smallest, hr.waiting⟩
      (show Phase.babble ≠ .waiting by decide) .error

/-- **A capture ends**, for a cause: on request, for want of room, or for a packet that is too long. -/
inductive Ends (r r' : Recorder) : StopCause → Prop where
  | requested (waits : r.phase = .waiting) (disabled : r.enabled = false) : Ends r r' .requested
  | full (before : r.phase ≠ .overrun) (after : r'.phase = .overrun) : Ends r r' .full
  | error (before : r.phase ≠ .babble) (after : r'.phase = .babble) : Ends r r' .error

theorem Turn.stops (h : Turn r payload s es r') (hr : r.Roomy) (hholds : r.Holds recs payload)
    (hcapture : r.captureEvents = true) (hends : Ends r r' cause) :
    ∃ time, es.getLast? = some ⟨.stopped cause, r.now, time⟩ := by
  cases h with
  | still _ waits =>
    cases hends with
    | requested hw disabled => cases disabled.symm.trans (waits hw).1
    | full before after => exact absurd after before
    | error before after => exact absurd after before
  | cleared _ waits =>
    cases hends with
    | requested hw => exact absurd hw waits
    | full _ after => cases after
    | error _ after => cases after
  | armed phase _ _ frames =>
    cases hends with
    | requested hw => cases phase.symm.trans hw
    | full _ after =>
      obtain ⟨time, hlast⟩ := frames.stops hr.begun hcapture rfl (by rw [after]; decide)
      exact ⟨time, by rw [List.getLast?_cons, hlast]; rfl⟩
    | error _ after => rcases frames.phase_cases with h | h <;> cases h.symm.trans after
  | ended phase =>
    cases hends with
    | requested =>
      rw [stopEntries_of_spare hcapture (hr.waiting phase).2 (hr.waiting phase).1]
      exact ⟨_, rfl⟩
    | full _ after => cases after
    | error _ after => cases after
  | opened _ enabled =>
    cases hends with
    | requested _ disabled => cases disabled.symm.trans enabled
    | full _ after => cases after
    | error _ after => cases after
  | extended phase =>
    cases hends with
    | requested hw => cases phase.symm.trans hw
    | full _ after => cases phase.symm.trans after
    | error _ after => cases phase.symm.trans after
  | closed phase =>
    cases hends with
    | requested hw => cases phase.symm.trans hw
    | full _ after => cases after
    | error _ after => cases after
  | @refused a _ enabled packet =>
    cases hends with
    | requested hw disabled => cases disabled.symm.trans (enabled hw)
    | full =>
      rw [stopEntries_withdrawn (hr.spare_of_refused hholds packet)]
      obtain ⟨rfl, -⟩ | ⟨rfl, -⟩ := packet
      · exact ⟨_, getLast?_stopping hcapture .full _⟩
      · exact ⟨_, getLast?_stopping (r := r.opened) hcapture .full _⟩
    | error _ after => cases (phase_overflow _).symm.trans after
  | overlong phase =>
    cases hends with
    | requested hw => cases phase.symm.trans hw
    | full _ after => cases (phase_overlong _).symm.trans after
    | error =>
      rw [stopEntries_withdrawn (hr.spare hholds (.inr phase))]
      exact ⟨_, getLast?_stopping hcapture .error _⟩

/-! ## A whole run -/

theorem Roomy.takeIn (h : r.Roomy) (event : Option BusEvent) : (r.takeIn event).Roomy := by
  rw [takeIn_eq]
  exact ⟨h.ring, h.smallest, h.waiting⟩

theorem Ticked.roomy (h : Ticked r payload s event es r') (hr : r.Roomy) (hholds : r.Holds recs payload) :
    r'.Roomy := by
  obtain ⟨a, c, turned, framed, hturn, hframes, rfl, rfl, -⟩ := h.flush
  have hc := hframes.roomy ((hturn.roomy hr.fresh hholds.fresh).takeIn event)
  exact ⟨hc.ring, hc.smallest, hc.waiting⟩

theorem Frames.captureEvents (h : Frames a es b) : b.captureEvents = a.captureEvents := by
  induction h with
  | done => rfl
  | frame _ _ _ _ _ ih => exact ih
  | @full r _ _ held => exact (logs_overflow { r with held }).steady.captureEvents

theorem Turn.captureEvents (h : Turn r payload s es r') : r'.captureEvents = r.captureEvents := by
  cases h with
  | armed _ _ _ frames => exact frames.captureEvents
  | ended => exact (logs_logStop r .requested).steady.captureEvents
  | @refused a _ _ packet =>
    obtain ⟨rfl, -⟩ | ⟨rfl, -⟩ := packet
    · exact (logs_overflow _).steady.captureEvents
    · exact (logs_overflow _).steady.captureEvents
  | overlong => exact (logs_overlong_of_packet r).steady.captureEvents
  | _ => rfl

theorem Turn.ne_waiting_of_disabled (h : Turn r payload s es r') (hphase : r.phase = .waiting)
    (hdisabled : r.enabled = false) : r'.phase ≠ .waiting := by
  cases h with
  | still _ waits => cases hdisabled.symm.trans (waits hphase).1
  | armed phase => cases phase.symm.trans hphase
  | closed phase => cases phase.symm.trans hphase
  | extended phase => cases phase.symm.trans hphase
  | refused => rw [phase_overflow]; decide
  | overlong => rw [phase_overlong]; decide
  | _ => nofun

/-- **A tick on which a capture ends frames its stop record last.** -/
theorem Ticked.stops (h : Ticked r payload s event es r') (hr : r.Roomy) (hholds : r.Holds recs payload)
    (hcapture : r.captureEvents = true) (hends : Ends r r' cause) :
    ∃ time, es.getLast? = some ⟨.stopped cause, r.now, time⟩ := by
  obtain ⟨a, c, turned, framed, hturn, hframes, rfl, rfl, -⟩ := h.flush
  have htake := a.takeIn_eq event
  have hphase : (a.takeIn event).phase = a.phase := phase_takeIn a event
  by_cases hw : (a.takeIn event).phase = .waiting
  · -- the turn has not ended the capture: the ring has run full while the events were framed
    cases hends with
    | requested hwait disabled => exact absurd (hphase.symm.trans hw) (hturn.ne_waiting_of_disabled hwait disabled)
    | full _ after =>
      have hover : c.phase = .overrun := after
      have hcapture' : (a.takeIn event).captureEvents = true := by
        rw [htake]
        exact hturn.captureEvents.trans hcapture
      have hroomy := (hturn.roomy hr.fresh hholds.fresh).takeIn event
      obtain ⟨time, hlast⟩ := hframes.stops hroomy hcapture' hw (by rw [hover]; decide)
      have hnow : (a.takeIn event).now = r.now := (now_takeIn a event).trans hturn.now
      rw [hnow] at hlast
      exact ⟨time, by rw [List.getLast?_append, hlast, Option.some_or]⟩
    | error _ after =>
      have hbabble : c.phase = .babble := after
      rcases hframes.phase_cases with h | h
      · cases (hw.symm.trans h.symm).trans hbabble
      · cases h.symm.trans hbabble
  · obtain ⟨rfl, rfl⟩ := hframes.eq_of_ne_waiting hw
    have hends' : Ends { r with framed := [] } a cause := by
      cases hends with
      | requested hwait disabled => exact .requested hwait disabled
      | full before after => exact .full before (hphase.symm.trans after)
      | error before after => exact .error before (hphase.symm.trans after)
    rw [List.append_nil]
    exact hturn.stops hr.fresh hholds.fresh hcapture hends'

theorem Roomy.take (h : r.Roomy) : r.take.2.Roomy := by
  obtain ⟨hsize, -, hpending, hcommitted⟩ := r.ring.take_frame
  refine ⟨h.ring.take, ?_, fun hw => ⟨hpending.trans (h.waiting hw).1, ?_⟩⟩
  · show Record.eventSize + r.reserve ≤ r.ring.take.2.size
    rw [hsize]
    exact h.smallest
  · have hspare : r.ring.committed + r.reserve ≤ r.ring.size := (h.waiting hw).2
    show r.ring.take.2.committed + r.reserve ≤ r.ring.take.2.size
    omega

theorem size_of_create {size : Nat} {captureEvents : Bool} (h : create size captureEvents = .ok r) :
    Record.headerSize + 2 + reserveFor captureEvents ≤ size := by
  obtain ⟨ring, -, h⟩ := exists_of_bind_eq_ok h
  by_contra hsmall
  rw [Nat.not_le] at hsmall
  simp [hsmall, bind, Except.bind, throw, throwThe, MonadExceptOf.throw] at h

theorem roomy_create {size : Nat} {captureEvents : Bool} (h : create size captureEvents = .ok r) : r.Roomy := by
  have hroom := size_of_create h
  obtain ⟨-, hsize⟩ := holds_create h []
  obtain ⟨ring, hring, rfl⟩ := create_eq h
  have hempty : ring = { size } := by
    unfold Ring.create at hring
    split_ifs at hring
    cases hring
    rfl
  subst hempty
  refine ⟨⟨rfl, nofun⟩, ?_, nofun⟩
  show Record.eventSize + reserveFor captureEvents ≤ size
  have : Record.eventSize ≤ Record.headerSize + 2 := by decide
  omega

theorem roomy_after {size : Nat} {captureEvents : Bool} {r₀ : Recorder} (h : create size captureEvents = .ok r₀)
    (actions : List Action) : (r₀.after actions).Roomy := by
  have hother : ∀ {r : Recorder} (a : Action), a.sample? = none → r.Roomy → (r.step a).Roomy := by
    intro r a ha hr
    cases a with
    | tick => cases ha
    | enable => exact ⟨hr.ring, hr.smallest, hr.waiting⟩
    | setSpeed => exact ⟨hr.ring, hr.smallest, hr.waiting⟩
    | take => exact hr.take
  obtain ⟨-, -, -, hroomy⟩ := account_of_invariant h (P := fun r _ _ => r.Roomy) (roomy_create h)
    (fun htracked _ hticked hr => hticked.roomy hr htracked.holds.choose_spec) hother actions
  exact hroomy

/-- The room that a recorder owes to its records, whatever the user, the bus and the reader do. -/
structure KeepsRoom (r₀ : Recorder) (size : Nat) (captureEvents : Bool) : Prop where
  /-- every byte was pushed with room for it -/
  calm : ∀ actions, (r₀.after actions).ring.crowded = false
  room : ∀ actions, (r₀.after actions).ring.committed + (r₀.after actions).ring.pending ≤ size
  /-- with capture events on, a tick on which a capture ends frames a stop record last, and the ring holds it -/
  stops : captureEvents = true → ∀ before s event cause,
    Ends (r₀.after before) (r₀.after (before ++ [.tick s event])) cause →
    ∃ time earlier, (r₀.after before).framings [.tick s event] =
        earlier ++ [⟨(Record.event time (BusEvent.stopped cause).code).toBytes, (r₀.after before).now⟩] ∧
      (Record.event time (BusEvent.stopped cause).code).toBytes <:+ (r₀.after (before ++ [.tick s event])).ring.contents

/-- **Room for every byte and every stop record.** -/
theorem keepsRoom_of_create {size : Nat} {captureEvents : Bool} {r₀ : Recorder}
    (h : create size captureEvents = .ok r₀) : r₀.KeepsRoom size captureEvents := by
  obtain ⟨hstart, hsize, hcapture⟩ := tracked_create h
  obtain ⟨recs₀, hholds₀⟩ := hstart.holds
  refine ⟨fun actions => (roomy_after h actions).ring.calm, fun actions => ?room,
    fun hon before s event cause hends => ?stops⟩
  case room =>
    obtain ⟨recs, hholds⟩ := (hstart.after actions).holds
    have := hholds.ring.room
    rwa [(built_after hholds₀ actions).1, hsize] at this
  case stops =>
    have htracked := hstart.after before
    obtain ⟨recs, hholds⟩ := htracked.holds
    obtain ⟨es, hticked, hadds⟩ := htracked.ticked (settled_after h before) s event
    have hon' : (r₀.after before).captureEvents = true := by
      rw [(built_after hholds₀ before).2, hcapture, hon]
    rw [after_concat] at hends ⊢
    obtain ⟨time, hlast⟩ := hticked.stops (roomy_after h before) hholds hon' hends
    obtain ⟨earlier, rfl⟩ := List.getLast?_eq_some_iff.1 hlast
    have hframed : ((r₀.after before).tick s event).2.framed.reverse = earlier.filterMap Entry.framing? ++
        [⟨(Record.event time (BusEvent.stopped cause).code).toBytes, (r₀.after before).now⟩] := by
      rw [hadds.framed, List.filterMap_append]
      rfl
    refine ⟨time, earlier.filterMap Entry.framing?, ?_, ?_⟩
    · rw [framings, framings, List.append_nil, hframed]
    · show _ <:+ ((r₀.after before).tick s event).2.ring.contents
      rw [contents_tick hholds, hframed, List.flatMap_append, List.flatMap_singleton, ← List.append_assoc]
      exact List.suffix_append _ _

/-- A packet that fills a ring of 16, of which one byte is read. -/
def filled : List Action :=
  armed ++ List.replicate 4 .take ++ [1, 2, 3, 4, 5, 6, 7, 8].map receiving ++ [.tick {} none, .take]

/-- Room for both stop records beside the rest of a packet: on request, and when the next capture overruns at once. -/
theorem keepsRoom_rearmed : ∃ r₀, create 16 true = .ok r₀ ∧ r₀.KeepsRoom 16 true ∧
    (∃ time earlier, (r₀.after (filled ++ [.enable false])).framings [.tick {} none] =
      earlier ++ [⟨(Record.event time (BusEvent.stopped .requested).code).toBytes, 10⟩]) ∧
    (∃ time earlier, (r₀.after (filled ++ [.enable false, .tick {} none, .enable true])).framings [.tick {} none] =
      earlier ++ [⟨(Record.event time (BusEvent.stopped .full).code).toBytes, 11⟩]) ∧
    (r₀.after (filled ++ [.enable false, .tick {} none, .enable true, .tick {} none])).retained = 11 ∧
    (r₀.after (filled ++ [.enable false, .tick {} none, .enable true, .tick {} none])).ring.committed = 15 := by
  have hcreate : create 16 true = .ok { ring := { size := 16 }, captureEvents := true } := rfl
  refine ⟨_, hcreate, keepsRoom_of_create hcreate, ?_, ?_, by decide +kernel, by decide +kernel⟩
  · obtain ⟨time, earlier, hframed, -⟩ := (keepsRoom_of_create hcreate).stops rfl (filled ++ [.enable false]) {} none
      .requested (.requested (by decide +kernel) (by decide +kernel))
    exact ⟨time, earlier, hframed⟩
  · obtain ⟨time, earlier, hframed, -⟩ := (keepsRoom_of_create hcreate).stops rfl
      (filled ++ [.enable false, .tick {} none, .enable true]) {} none .full
      (.full (by decide +kernel) (by decide +kernel))
    exact ⟨time, earlier, hframed⟩

end Recorder
end UsbRecorder
