import Mathlib.Data.List.TakeDrop
import UsbRecorder.Proofs.Report.Chunks
import UsbRecorder.Report.Feed
/-!
# Feeding — a feed gives the reports of all that was sent, and tells of what is left

What a feed has still to give, `owed`, are the reports of a decoder to which all the bytes of the channel are pushed at
once.  A read gives the first of them or finds none (`Answers`), whatever was sent and read before; once the sender has
gone the reads give the rest, then the error of a cut record, if there is one, and then the end (`feeds_all`).
-/
namespace UsbRecorder
namespace ReportFeed

/-! ## A feed and what is done with it -/

/-- What is done with a feed while its sender is there.  A `next` that answers `waiting` has not come to its end: it
goes on when it is asked again. -/
inductive Action where
  | send (bytes : List UInt8)
  | poll
  | next
  deriving Repr

def act (s : ReportFeed) : Action → Except Decoder.Fault (Option Outcome × ReportFeed)
  | .send bytes => .ok (none, s.send bytes)
  | .poll => s.poll.map fun (outcome, s) => (some outcome, s)
  | .next => s.next.map fun (outcome, s) => (some outcome, s)

def run (s : ReportFeed) : List Action → Except Decoder.Fault (List Outcome × ReportFeed)
  | [] => .ok ([], s)
  | a :: rest => do
    let (outcome, s) ← s.act a
    let (outcomes, s) ← s.run rest
    return (outcome.toList ++ outcomes, s)

def Action.bytes : Action → List UInt8
  | .send bytes => bytes
  | .poll | .next => []

/-- The bytes sent by actions, one buffer after another. -/
def sent (actions : List Action) : List UInt8 := actions.flatMap Action.bytes

def reports (outcomes : List Outcome) : List Report :=
  outcomes.filterMap fun
    | .report r => some r
    | _ => none

/-- What the end of a stream tells of the bytes that are left. -/
def cut (left : Nat) : List Outcome := if left = 0 then [] else [.error (.cutRecord left)]

/-! ## What a feed owes -/

/-- The reports that a feed has still to give if more bytes follow those in its channel, and the decoder after the last
of them. -/
def owes (s : ReportFeed) (more : List UInt8) : List Report × Decoder :=
  (s.decoder.push (s.channel.flatten ++ more)).drain

def owed (s : ReportFeed) : List Report × Decoder := s.owes []

/-- What a read may find: the first report owed, or that none is. -/
inductive Answers (s : ReportFeed) : Outcome → ReportFeed → Prop
  | report {r : Report} {s' : ReportFeed} (howed : s.owed = (r :: s'.owed.1, s'.owed.2)) : Answers s (.report r) s'
  | nothing {s' : ReportFeed} (howed : s.owed = ([], s'.decoder)) (hsame : s'.owed = s.owed)
      (hchannel : s'.channel = []) : Answers s (if s.closed then .ended else .waiting) s'

/-- All that a feed tells if nothing more is sent: the reports owed, and the bytes left. -/
def told (s : ReportFeed) : List Outcome := s.owed.1.map .report ++ cut s.owed.2.pending

variable {s s' : ReportFeed} {outcome : Outcome}

theorem owed_eq (s : ReportFeed) : s.owed = (s.decoder.push s.channel.flatten).drain := by
  rw [owed, owes, List.append_nil]

theorem owes_eq (s : ReportFeed) (more : List UInt8) :
    s.owes more = (s.owed.1 ++ (s.owed.2.push more).drain.1, (s.owed.2.push more).drain.2) := by
  rw [owed_eq, owes, ← Decoder.push_push, Decoder.drain_push]

theorem owes_send (s : ReportFeed) (bytes more : List UInt8) : (s.send bytes).owes more = s.owes (bytes ++ more) := by
  simp [owes, send]

theorem Answers.owes (h : s.Answers outcome s') (more : List UInt8) :
    s.owes more = (reports [outcome] ++ (s'.owes more).1, (s'.owes more).2) := by
  rw [owes_eq s, owes_eq s']
  cases h with
  | report howed =>
    rw [howed]
    rfl
  | nothing _ hsame =>
    rw [hsame]
    cases s.closed <;> rfl

/-! ## Reading -/

/-- Receiving gives the first report of the decoder and the channel together, or uses both up. -/
theorem receive_eq {d : Decoder} (h : d.clock ≠ 0) (channel : List (List UInt8)) : ∃ r d' rest,
    receive d channel = .ok (r, d', rest) ∧ d'.clock = d.clock ∧
      (d.push channel.flatten).drain = (r.toList ++ (d'.push rest.flatten).drain.1, (d'.push rest.flatten).drain.2) ∧
        (r = none → rest = [] ∧ d'.drain = ([], d')) := by
  -- along the channel, as `receive` goes: each buffer is pushed to a decoder that has no report left
  induction channel generalizing d with
  | nil =>
    refine ⟨d.advance.1, d.advance.2, [], ?_, d.clock_advance, d.drain_push_advance _, fun hnone => ?_⟩
    · rw [receive, Decoder.next_of_clock h]
      rfl
    · exact ⟨rfl, d.drain_of_advance_none hnone⟩
  | cons buffer channel ih =>
    cases hr : d.advance.1 with
    | some r =>
      have hadvance : d.advance = (some r, d.advance.2) := Prod.ext hr rfl
      refine ⟨some r, d.advance.2, buffer :: channel, ?_, d.clock_advance, ?_, nofun⟩
      · rw [receive, Decoder.next_of_clock h, hadvance]
        rfl
      · rw [← hr]
        exact d.drain_push_advance _
    | none =>
      have hadvance : d.advance = (none, d.advance.2) := Prod.ext hr rfl
      obtain ⟨r, d', rest, hreceive, hclock, hdrain, hnone⟩ :=
        ih (d := d.advance.2.push buffer) (by rwa [← d.clock_advance] at h)
      refine ⟨r, d', rest, ?_, hclock.trans d.clock_advance, ?_, hnone⟩
      · rw [receive, Decoder.next_of_clock h, hadvance]
        exact hreceive
      · rw [List.flatten_cons, d.drain_push_advance, hr, ← Decoder.push_push, hdrain]
        rfl

theorem poll_eq (h : s.decoder.clock ≠ 0) : ∃ outcome s', s.poll = .ok (outcome, s') ∧
    s'.decoder.clock = s.decoder.clock ∧ s'.closed = s.closed ∧ s.Answers outcome s' := by
  obtain ⟨r, d, channel, hreceive, hclock, hdrain, hnone⟩ := receive_eq h s.channel
  cases r with
  | some r =>
    refine ⟨.report r, { s with decoder := d, channel }, ?_, hclock, rfl, .report ?_⟩
    · rw [poll, hreceive]
      rfl
    · rw [owed_eq, hdrain, owed_eq]
      rfl
  | none =>
    obtain ⟨rfl, hd⟩ := hnone rfl
    have hpush : d.push [] = d := by simp [Decoder.push]
    rw [List.flatten_nil, hpush, hd] at hdrain
    refine ⟨_, { s with decoder := d, channel := [] }, ?_, hclock, rfl, .nothing ?_ ?_ rfl⟩
    · rw [poll, hreceive]
      rfl
    · rw [owed_eq, hdrain]
      rfl
    · rw [owed_eq, owed_eq, hdrain, List.flatten_nil, hpush, hd]
      rfl

/-- While the sender is there, a read gives a report or is left waiting. -/
theorem next_of_open (hopen : s.closed = false) (hpoll : s.poll = .ok (outcome, s')) (h : s.Answers outcome s') :
    s.next = .ok (outcome, s') ∧ (outcome = .waiting ∨ ∃ r, outcome = .report r) := by
  rw [next, hpoll]
  cases h with
  | report => exact ⟨rfl, .inr ⟨_, rfl⟩⟩
  | nothing =>
    rw [hopen]
    exact ⟨rfl, .inl rfl⟩

/-- What is owed together with what an action sends is what the action reports and what is owed after it. -/
theorem act_eq (h : s.decoder.clock ≠ 0) (hopen : s.closed = false) (a : Action) : ∃ outcome s',
    s.act a = .ok (outcome, s') ∧ s'.decoder.clock = s.decoder.clock ∧ s'.closed = false ∧
      (∀ o ∈ outcome, o = .waiting ∨ ∃ r, o = .report r) ∧
        ∀ more, s.owes (a.bytes ++ more) = (reports outcome.toList ++ (s'.owes more).1, (s'.owes more).2) := by
  obtain ⟨o, s', hpoll, hclock, hclosed, hanswers⟩ := poll_eq h
  obtain ⟨hnext, ho⟩ := next_of_open hopen hpoll hanswers
  cases a with
  | send bytes => exact ⟨none, s.send bytes, rfl, rfl, hopen, nofun, fun more => (owes_send s bytes more).symm⟩
  | poll =>
    refine ⟨some o, s', ?_, hclock, hclosed.trans hopen, fun _ hmem => by cases hmem; exact ho, hanswers.owes⟩
    rw [act, hpoll]
    rfl
  | next =>
    refine ⟨some o, s', ?_, hclock, hclosed.trans hopen, fun _ hmem => by cases hmem; exact ho, hanswers.owes⟩
    rw [act, hnext]
    rfl

theorem reports_append (earlier later : List Outcome) : reports (earlier ++ later) = reports earlier ++ reports later :=
  List.filterMap_append

/-- **While the sender is there, reads give the first of all reports owed**, and leave the others. -/
theorem run_eq (h : s.decoder.clock ≠ 0) (hopen : s.closed = false) (actions : List Action) : ∃ outcomes s',
    s.run actions = .ok (outcomes, s') ∧ s'.decoder.clock = s.decoder.clock ∧
      (∀ o ∈ outcomes, o = .waiting ∨ ∃ r, o = .report r) ∧
        s.owes (sent actions) = (reports outcomes ++ s'.owed.1, s'.owed.2) := by
  induction actions generalizing s with
  | nil => exact ⟨[], s, rfl, rfl, by simp, rfl⟩
  | cons a rest ih =>
    obtain ⟨outcome, s₁, hact, hclock₁, hopen₁, hone, howes₁⟩ := act_eq h hopen a
    obtain ⟨outcomes, s₂, hrun, hclock₂, hall, howes₂⟩ := ih (by rwa [hclock₁]) hopen₁
    refine ⟨outcome.toList ++ outcomes, s₂, ?_, hclock₂.trans hclock₁, ?_, ?_⟩
    · rw [run, hact]
      show (s₁.run rest >>= _) = _
      rw [hrun]
      rfl
    · intro o ho
      obtain hfirst | hlater := List.mem_append.1 ho
      · exact hone o (Option.mem_toList.1 hfirst)
      · exact hall o hlater
    · rw [sent, List.flatMap_cons, howes₁, ← sent, howes₂, reports_append, List.append_assoc]

theorem head_cut (left : Nat) :
    (cut left).head?.getD .ended = if left = 0 then .ended else .error (.cutRecord left) := by
  unfold cut
  split <;> rfl

theorem tail_cut (left : Nat) : (cut left).tail = [] := by
  unfold cut
  split <;> rfl

/-- Nothing is told of bytes that were dropped. -/
theorem told_discardRest (hchannel : s.channel = []) :
    told { s with decoder := s.decoder.discardRest.2 } = [] := by
  have hnone : s.decoder.discardRest.2.record? = none := rfl
  have howed : owed { s with decoder := s.decoder.discardRest.2 } = ([], s.decoder.discardRest.2) := by
    rw [owed_eq, hchannel, List.flatten_nil]
    exact Decoder.drain_of_none hnone
  rw [told, howed]
  rfl

/-- Once the sender has gone, a read gives the first of what is told, or the end when nothing is. -/
theorem next_of_closed (h : s.decoder.clock ≠ 0) (hclosed : s.closed = true) : ∃ s',
    s.next = .ok (s.told.head?.getD .ended, s') ∧ s'.decoder.clock = s.decoder.clock ∧ s'.closed = true ∧
      s'.told = s.told.tail := by
  obtain ⟨o, s', hpoll, hclock, hclosed', hanswers⟩ := poll_eq h
  cases hanswers with
  | report howed =>
    refine ⟨s', ?_, hclock, hclosed'.trans hclosed, ?_⟩
    · rw [next, hpoll, told, howed]
      rfl
    · rw [told, told, howed]
      rfl
  | nothing howed _ hchannel =>
    -- the bytes left are dropped when they are told of, so that is once
    have htold : s.told = cut s'.decoder.pending := by
      rw [told, howed]
      rfl
    refine ⟨{ s' with decoder := s'.decoder.discardRest.2 }, ?_, hclock, hclosed'.trans hclosed, ?_⟩
    · rw [next, hpoll, hclosed, htold, head_cut]
      rfl
    · rw [told_discardRest hchannel, htold, tail_cut]

/-- **Once the sender has gone, reads give all that is told, and then the end.** -/
theorem run_close (h : s.decoder.clock ≠ 0) (hclosed : s.closed = true) (n : Nat) : ∃ s',
    s.run (List.replicate n .next) = .ok (s.told.takeD n .ended, s') := by
  induction n generalizing s with
  | zero => exact ⟨s, rfl⟩
  | succ n ih =>
    obtain ⟨s₁, hnext, hclock, hclosed₁, htold⟩ := next_of_closed h hclosed
    obtain ⟨s₂, hrun⟩ := ih (by rwa [hclock]) hclosed₁
    refine ⟨s₂, ?_⟩
    rw [List.replicate_succ, run, act, hnext]
    show (s₁.run (List.replicate n .next) >>= _) = _
    rw [hrun, htold, List.takeD_succ]
    rfl

/-- **A feed gives the reports of all that was sent to it**, those of a decoder to which all the bytes are pushed at
once, whenever it is read while its sender is there.  When the sender has gone it gives the rest of them, then one error
with the number of the bytes left over, if any are, and from then on the end. -/
theorem feeds_all (clock : UInt32) (hclock : clock ≠ 0) (actions : List Action) : ∃ early s late last,
    run { decoder := { clock } } actions = .ok (early, s) ∧ (∀ o ∈ early, o = .waiting ∨ ∃ r, o = .report r) ∧
      Decoder.Decodes clock (sent actions) (reports early ++ late) last ∧
        (∀ n, ∃ s', s.close.run (List.replicate n .next) =
          .ok ((late.map Outcome.report ++ cut last.pending).takeD n .ended, s')) ∧
          (Refusal.cutRecord last.pending).message =
            s!"Capture ended with {last.pending} bytes of an incomplete record" := by
  obtain ⟨early, s, hrun, hs, hearly, howes⟩ := run_eq (s := { decoder := { clock } }) hclock rfl actions
  have hpushed : (Decoder.push { clock } (sent actions)).drain = (reports early ++ s.owed.1, s.owed.2) := howes
  have hdecodes := Decoder.decodes_drain hclock (sent actions)
  rw [hpushed] at hdecodes
  exact ⟨early, s, s.owed.1, s.owed.2, hrun, hearly, hdecodes, run_close (s := s.close) (hs ▸ hclock) rfl, rfl⟩

/-- A packet of two bytes in three buffers, one of them empty, and the first byte of an event. -/
def cutEvent : List Action := [.send [0, 2, 0], .poll, .send [], .next, .send [0, 1, 2, 0xFF], .poll, .next]

theorem feeds_cutEvent : (60000000 : UInt32) ≠ 0 ∧ ∃ early s late s',
    run { decoder := { clock := 60000000 } } cutEvent = .ok (early, s) ∧
      reports early ++ late = [.packet 0 [1, 2]] ∧
        s.close.run [.next, .next, .next] =
          .ok ((late.map Outcome.report ++ [.error (.cutRecord 1), .ended, .ended]).take 3, s') := by
  obtain ⟨early, s, late, last, hrun, -, hdecodes, hclose, -⟩ := feeds_all 60000000 (by decide) cutEvent
  obtain ⟨s', hs'⟩ := hclose 3
  have hdecoded : Record.decodeAll (sent cutEvent) = [.packet 0 [1, 2]] := by
    have hpacket : Record.decode? (sent cutEvent) = some (.packet 0 [1, 2], [0xFF]) := by decide
    have hcut : Record.decode? [0xFF] = none := rfl
    rw [Record.decodeAll_of_some hpacket, Record.decodeAll_of_none hcut]
  have hreports := hdecodes.timed
  have hpending := hdecodes.pending
  rw [hdecoded] at hreports hpending
  replace hreports : reports early ++ late = [.packet 0 [1, 2]] := hreports.trans (by decide)
  have hlast : last.pending = 1 := by
    change last.pending + 6 = 7 at hpending
    omega
  refine ⟨by decide, early, s, late, s', hrun, hreports, ?_⟩
  rw [hlast] at hs'
  refine hs'.trans ?_
  -- the packet was given before the sender went or is given first of all after it
  obtain ⟨-, rfl⟩ | ⟨-, rfl⟩ := List.append_eq_singleton_iff.1 hreports
  · rfl
  · rfl

end ReportFeed
end UsbRecorder
