import Mathlib.Algebra.GroupWithZero.Nat
import Mathlib.Data.List.Forall2
import UsbRecorder.Proofs.Stream.Decode
import UsbRecorder.Report.Decoder
/-!
# Chunks — the same reports however the stream is cut

Records are read back from any part of their stream, as far as they lie wholly in it (`decodeAll_part`).  A decoder
reports the records of the bytes pushed into it, whatever they are (`drain_eq`), and neither where the bytes were cut
nor when a report was asked for changes anything (`drain_push`, `run_eq`).
-/
namespace UsbRecorder

/-! ## Parts of a stream of records -/

namespace Record

/-- The record is one that is reported. -/
def isReported : Record → Bool
  | packet .. => true
  | event _ code => (BusEvent.reportable? code).isSome

/-- **The records found are those that lie wholly in a part of their stream**, which begins where the stream does. -/
def WholeIn (rs : List Record) (part : List UInt8) (found : List Record) : Prop :=
  ∃ k ≤ rs.length, found = rs.take k ∧
    ∀ i < rs.length, i < k ↔ ((rs.take (i + 1)).flatMap toBytes).length ≤ part.length

theorem whole_or_cut {bytes tail part rest : List UInt8} (h : bytes ++ tail = part ++ rest) :
    (∃ more, part = bytes ++ more ∧ tail = more ++ rest) ∨ ∃ cut, bytes = part ++ cut ∧ cut ≠ [] := by
  obtain hwhole | ⟨cut, hcut, hrest⟩ := List.append_eq_append_iff.1 h
  · exact .inl hwhole
  · by_cases hnil : cut = []
    · subst hnil
      exact .inl ⟨[], by simp [hcut], by simpa using hrest.symm⟩
    · exact .inr ⟨cut, hcut, hnil⟩

theorem decodeAll_part : ∀ (rs : List Record), (∀ r ∈ rs, r.Framable) → ∀ {part rest : List UInt8},
    rs.flatMap toBytes = part ++ rest → WholeIn rs part (decodeAll part)
  | [], _, part, rest, h => by
    obtain ⟨rfl, -⟩ := List.append_eq_nil_iff.1 h.symm
    exact ⟨0, Nat.le_refl 0, decodeAll_of_none rfl, fun i hi => by cases hi⟩
  | r :: rs, hrs, part, rest, h => by
    have hr := hrs r List.mem_cons_self
    obtain ⟨more, rfl, hmore⟩ | ⟨cut, hcut, hne⟩ := whole_or_cut (List.flatMap_cons ▸ h)
    · obtain ⟨k, hk, hfound, hends⟩ := decodeAll_part rs (fun x hx => hrs x (List.mem_cons_of_mem r hx)) hmore
      refine ⟨k + 1, Nat.succ_le_succ hk, ?_, fun i hi => ?_⟩
      · rw [decodeAll_toBytes_append hr, hfound, List.take_succ_cons]
      · cases i with
        | zero => simp
        | succ i =>
          have hi' := hends i (Nat.lt_of_succ_lt_succ hi)
          rw [List.take_succ_cons, List.flatMap_cons, List.length_append, List.length_append]
          omega
    · have hlong : part.length < r.toBytes.length := by
        have := List.length_pos_of_ne_nil hne
        rw [hcut, List.length_append]
        omega
      refine ⟨0, Nat.zero_le _, decodeAll_of_none (decode?_cut hr hcut hne), fun i _ => ?_⟩
      rw [List.take_succ_cons, List.flatMap_cons, List.length_append]
      omega

theorem size_of_decode? {bytes rest : List UInt8} {r : Record} (h : decode? bytes = some (r, rest)) :
    r.size + rest.length = bytes.length := by
  unfold decode? at h
  split at h
  · split at h
    · cases h
      simp [size, eventSize]
      omega
    · rename_i a b hi lo body _
      dsimp only at h
      generalize (wordOf a b).toNat = length at h
      split at h
      · rename_i hwhole
        cases h
        rw [List.length_take] at hwhole
        simp [size, packetSize, headerSize]
        omega
      · cases h
  · cases h

theorem decodeAll_of_some {bytes rest : List UInt8} {r : Record} (h : decode? bytes = some (r, rest)) :
    decodeAll bytes = r :: decodeAll rest := by
  rw [decodeAll]
  split
  · rename_i hnone
    cases hnone.symm.trans h
  · rename_i hsome
    cases hsome.symm.trans h
    rfl

end Record

/-! ## The reports of records -/

namespace Report

/-- The reports of records that follow one another, the clock having counted so many ticks before them. -/
def timeline (clock : UInt32) : Nat → List Record → List Report
  | _, [] => []
  | ticks, r :: rs =>
    let ticks := ticks + r.time.toNat
    (ofRecord? (nsOf clock ticks) r).toList ++ timeline clock ticks rs

theorem ofRecord?_of_isReported {r : Record} (h : r.isReported = true) (ns : Nat) :
    ∃ report, ofRecord? ns r = some report ∧ report.ns = ns := by
  cases r with
  | packet time payload => exact ⟨packet ns payload, rfl, rfl⟩
  | event time code =>
    obtain ⟨e, he⟩ := Option.isSome_iff_exists.1 h
    exact ⟨event ns e, by simp [ofRecord?, he], rfl⟩

theorem ofRecord?_of_not_isReported {r : Record} (h : r.isReported = false) (ns : Nat) : ofRecord? ns r = none := by
  cases r with
  | packet => cases h
  | event time code => simpa [ofRecord?, Record.isReported] using h

/-- **There is one report for each record that is reported**, in order, and it tells of that record. -/
theorem forall₂_timeline (clock : UInt32) : ∀ (ticks : Nat) (rs : List Record),
    List.Forall₂ (fun report r => ofRecord? report.ns r = some report) (timeline clock ticks rs)
      (rs.filter Record.isReported)
  | _, [] => .nil
  | ticks, r :: rs => by
    have ih := forall₂_timeline clock (ticks + r.time.toNat) rs
    rw [timeline]
    cases hr : r.isReported with
    | true =>
      obtain ⟨report, hreport, hns⟩ := ofRecord?_of_isReported hr (nsOf clock (ticks + r.time.toNat))
      rw [hreport, List.filter_cons_of_pos hr]
      exact .cons (by rw [hns, hreport]) ih
    | false =>
      rw [ofRecord?_of_not_isReported hr, List.filter_cons_of_neg (by simp [hr])]
      exact ih

end Report

/-! ## A decoder and what is done with it -/

namespace Decoder

/-- What is done with a decoder. -/
inductive Action where
  | push (bytes : List UInt8)
  | next
  deriving Repr

def act (d : Decoder) : Action → Except Fault (Option Report × Decoder)
  | .push bytes => .ok (none, d.push bytes)
  | .next => d.next

/-- Actions one after another, with all that they report. -/
def run (d : Decoder) : List Action → Except Fault (List Report × Decoder)
  | [] => .ok ([], d)
  | a :: rest => do
    let (report, d) ← d.act a
    let (reports, d) ← d.run rest
    return (report.toList ++ reports, d)

/-- The bytes pushed by actions, one after another. -/
def pushed : List Action → List UInt8
  | [] => []
  | .push bytes :: rest => bytes ++ pushed rest
  | .next :: rest => pushed rest

/-- **Asking for reports until there is none.** -/
inductive Drains : Decoder → List Report → Decoder → Prop
  | done {d d' : Decoder} (h : d.next = .ok (none, d')) : Drains d [] d'
  | more {d d' last : Decoder} {report : Report} {reports : List Report} (h : d.next = .ok (some report, d'))
      (hrest : Drains d' reports last) : Drains d (report :: reports) last

variable {d d' : Decoder} {ns : Nat} {r : Record}

theorem push_push (d : Decoder) (a b : List UInt8) : (d.push a).push b = d.push (a ++ b) := by
  simp [push]

theorem decode?_of_record? (h : d.record? = some (ns, r, d')) : Record.decode? d.buffer = some (r, d'.buffer) ∧
    ns = Report.nsOf d.clock (d.ticks + r.time.toNat) ∧ d'.clock = d.clock ∧ d'.ticks = d.ticks + r.time.toNat := by
  unfold record? at h
  obtain ⟨⟨found, rest⟩, hfound, heq⟩ := Option.map_eq_some_iff.1 h
  cases heq
  exact ⟨hfound, rfl, rfl, rfl⟩

theorem record?_push (h : d.record? = some (ns, r, d')) (more : List UInt8) :
    (d.push more).record? = some (ns, r, d'.push more) := by
  unfold record? at h ⊢
  obtain ⟨⟨found, rest⟩, hfound, heq⟩ := Option.map_eq_some_iff.1 h
  cases heq
  have hbuffer : (d.push more).buffer = d.buffer ++ more := rfl
  rw [hbuffer, Record.decode?_append hfound]
  rfl

theorem drain_of_none (h : d.record? = none) : d.drain = ([], d) := by
  rw [drain]
  split
  · rfl
  · rename_i hsome
    cases h.symm.trans hsome

theorem drain_of_some (h : d.record? = some (ns, r, d')) :
    d.drain = ((Report.ofRecord? ns r).toList ++ d'.drain.1, d'.drain.2) := by
  rw [drain]
  split
  · rename_i hnone
    cases hnone.symm.trans h
  · rename_i hsome
    cases hsome.symm.trans h
    rfl

theorem advance_of_none (h : d.record? = none) : d.advance = (none, d) := by
  rw [advance]
  split
  · rfl
  · rename_i hsome
    cases h.symm.trans hsome

theorem advance_of_some (h : d.record? = some (ns, r, d')) :
    d.advance = match Report.ofRecord? ns r with
      | some report => (some report, d')
      | none => d'.advance := by
  rw [advance]
  split
  · rename_i hnone
    cases hnone.symm.trans h
  · rename_i hsome
    cases hsome.symm.trans h
    rfl

/-- An induction along the records of the buffer. -/
theorem record_induction {motive : Decoder → Prop} (hnone : ∀ d : Decoder, d.record? = none → motive d)
    (hsome : ∀ (d d' : Decoder) ns r, d.record? = some (ns, r, d') → motive d' → motive d) (d : Decoder) :
    motive d := by
  induction hn : d.buffer.length using Nat.strongRecOn generalizing d with
  | _ n ih =>
    cases hd : d.record? with
    | none => exact hnone d hd
    | some found =>
      obtain ⟨ns, r, d'⟩ := found
      exact hsome d d' ns r hd (ih d'.buffer.length (hn ▸ length_lt_of_record? hd) d' rfl)

/-! ## Draining -/

/-- **Draining is independent of where the bytes are cut.** -/
theorem drain_push (d : Decoder) (more : List UInt8) :
    (d.push more).drain = (d.drain.1 ++ (d.drain.2.push more).drain.1, (d.drain.2.push more).drain.2) := by
  induction d using record_induction with
  | hnone d hd => simp [drain_of_none hd]
  | hsome d d' ns r hd ih =>
    rw [drain_of_some hd, drain_of_some (record?_push hd more), ih]
    simp

/-- **A report asked for early is the first of those to come.** -/
theorem drain_advance (d : Decoder) :
    d.drain = (d.advance.1.toList ++ d.advance.2.drain.1, d.advance.2.drain.2) := by
  induction d using record_induction with
  | hnone d hd => simp [advance_of_none hd, drain_of_none hd]
  | hsome d d' ns r hd ih =>
    rw [drain_of_some hd, advance_of_some hd]
    cases hr : Report.ofRecord? ns r with
    | some report => simp
    | none =>
      rw [ih]
      simp

theorem drain_push_advance (d : Decoder) (more : List UInt8) :
    (d.push more).drain =
      (d.advance.1.toList ++ (d.advance.2.push more).drain.1, (d.advance.2.push more).drain.2) := by
  rw [drain_push, drain_advance, drain_push d.advance.2, List.append_assoc]

/-- A decoder without a report to give has used up the records of its buffer. -/
theorem drain_of_advance_none (d : Decoder) (h : d.advance.1 = none) : d.advance.2.drain = ([], d.advance.2) := by
  induction d using record_induction with
  | hnone d hd => rw [advance_of_none hd, drain_of_none hd]
  | hsome d d' ns r hd ih =>
    rw [advance_of_some hd] at h ⊢
    cases hr : Report.ofRecord? ns r with
    | some report =>
      rw [hr] at h
      cases h
    | none =>
      rw [hr] at h
      exact ih h

theorem clock_advance (d : Decoder) : d.advance.2.clock = d.clock := by
  induction d using record_induction with
  | hnone d hd => rw [advance_of_none hd]
  | hsome d d' ns r hd ih =>
    have hclock := (decode?_of_record? hd).2.2.1
    rw [advance_of_some hd]
    cases hr : Report.ofRecord? ns r with
    | some report => exact hclock
    | none => exact ih.trans hclock

/-- **What a decoder reports are the records in its bytes**, and it keeps the bytes after them. -/
theorem drain_eq (d : Decoder) : d.drain.1 = Report.timeline d.clock d.ticks (Record.decodeAll d.buffer) ∧
    d.drain.2.pending + ((Record.decodeAll d.buffer).map Record.size).sum = d.buffer.length := by
  induction d using record_induction with
  | hnone d hd =>
    have hnone : Record.decode? d.buffer = none := by simpa [record?] using hd
    rw [drain_of_none hd, Record.decodeAll_of_none hnone]
    exact ⟨rfl, rfl⟩
  | hsome d d' ns r hd ih =>
    obtain ⟨hdecode, hns, hclock, hticks⟩ := decode?_of_record? hd
    have hsize := Record.size_of_decode? hdecode
    rw [drain_of_some hd, Record.decodeAll_of_some hdecode]
    constructor
    · rw [ih.1, hns, hclock, hticks]
      rfl
    · have hrest := ih.2
      rw [List.map_cons, List.sum_cons]
      dsimp only
      omega

theorem next_of_clock (h : d.clock ≠ 0) : d.next = .ok d.advance := by
  unfold next
  rw [if_neg fun hstopped => h hstopped.1]

theorem Drains.of_next_eq {reports : List Report} {last : Decoder} (h : d'.Drains reports last)
    (hnext : d.next = d'.next) : d.Drains reports last := by
  cases h with
  | done hd => exact .done (hnext.trans hd)
  | more hd hrest => exact .more (hnext.trans hd) hrest

/-- Asking for reports until there is none gives those of a drain. -/
theorem drains_drain (h : d.clock ≠ 0) : d.Drains d.drain.1 d.drain.2 := by
  induction d using record_induction with
  | hnone d hd =>
    rw [drain_of_none hd]
    exact .done (by rw [next_of_clock h, advance_of_none hd])
  | hsome d d' ns r hd ih =>
    have hrest := ih (by rwa [(decode?_of_record? hd).2.2.1])
    have hnext := next_of_clock h
    rw [advance_of_some hd] at hnext
    rw [drain_of_some hd]
    cases hr : Report.ofRecord? ns r with
    | some report =>
      rw [hr] at hnext
      exact .more hnext hrest
    | none =>
      -- a record that is not reported is passed over, so the first request is that of the decoder after it
      rw [hr] at hnext
      refine hrest.of_next_eq ?_
      rw [hnext, next_of_clock (by rwa [(decode?_of_record? hd).2.2.1])]

/-- **A run of pushes and requests** takes the first of the reports of all that it pushed, and leaves the others. -/
theorem run_eq (h : d.clock ≠ 0) (actions : List Action) : ∃ reports d', d.run actions = .ok (reports, d') ∧
    d'.clock = d.clock ∧ (d.push (pushed actions)).drain = (reports ++ d'.drain.1, d'.drain.2) := by
  induction actions generalizing d with
  | nil => exact ⟨[], d, rfl, rfl, by simp [push, pushed]⟩
  | cons a rest ih =>
    cases a with
    | push bytes =>
      obtain ⟨reports, d', hrun, hclock, hdrain⟩ := ih (d := d.push bytes) h
      refine ⟨reports, d', ?_, hclock, ?_⟩
      · show ((d.push bytes).run rest >>= _) = _
        rw [hrun]
        rfl
      · rwa [push_push] at hdrain
    | next =>
      obtain ⟨reports, d', hrun, hclock, hdrain⟩ := ih (d := d.advance.2) (by rwa [clock_advance])
      refine ⟨d.advance.1.toList ++ reports, d', ?_, hclock.trans d.clock_advance, ?_⟩
      · simp only [run, act, next_of_clock h]
        show (d.advance.2.run rest >>= _) = _
        rw [hrun]
        rfl
      · rw [pushed, drain_push_advance, hdrain, List.append_assoc]

/-- **All of a decoder's reports**, with the decoder after the last of them, where the bytes came at once. -/
structure Decodes (clock : UInt32) (bytes : List UInt8) (reports : List Report) (last : Decoder) : Prop where
  atOnce : (Decoder.push { clock } bytes).Drains reports last
  timed : reports = Report.timeline clock 0 (Record.decodeAll bytes)
  told : List.Forall₂ (fun report r => Report.ofRecord? report.ns r = some report) reports
    ((Record.decodeAll bytes).filter Record.isReported)
  pending : last.pending + ((Record.decodeAll bytes).map Record.size).sum = bytes.length

theorem decodes_drain {clock : UInt32} (hclock : clock ≠ 0) (bytes : List UInt8) :
    Decodes clock bytes (Decoder.push { clock } bytes).drain.1 (Decoder.push { clock } bytes).drain.2 where
  atOnce := drains_drain hclock
  timed := (drain_eq _).1
  told := by
    rw [(drain_eq _).1]
    exact Report.forall₂_timeline clock 0 _
  pending := (drain_eq _).2

/-- **Records are read back from every part of their stream, and the same reports come of any bytes however they are
pushed** and whenever a report is asked for. -/
theorem decodes_chunks : (∀ rs : List Record, (∀ r ∈ rs, r.Framable) →
      Record.decodeAll (rs.flatMap Record.toBytes) = rs ∧ ∀ part rest, rs.flatMap Record.toBytes = part ++ rest →
        Record.WholeIn rs part (Record.decodeAll part)) ∧
    ∀ (clock : UInt32), clock ≠ 0 → ∀ actions : List Action, ∃ early d late last,
      run { clock } actions = .ok (early, d) ∧ d.Drains late last ∧
        Decodes clock (pushed actions) (early ++ late) last := by
  constructor
  · intro rs hrs
    have hnone : Record.decode? [] = none := rfl
    have hall := Record.decodeAll_records hnone rs hrs
    rw [List.append_nil] at hall
    exact ⟨hall, fun part rest h => Record.decodeAll_part rs hrs h⟩
  · intro clock hclock actions
    obtain ⟨early, d, hrun, hd, hdrain⟩ := run_eq (d := { clock }) hclock actions
    have hdecodes := decodes_drain hclock (pushed actions)
    rw [hdrain] at hdecodes
    exact ⟨early, d, d.drain.1, d.drain.2, hrun, drains_drain (hd ▸ hclock), hdecodes⟩

/-- A packet with its pad byte, a placeholder and a reset. -/
def threeRecords : List Record := [.packet 3 [0xAB], .event 0xFFFF 0, .event 2 25]

/-- Their bytes in three pieces, cut before the pad byte and within the placeholder. -/
def threePieces : List Action :=
  [.push [0, 1, 0, 3, 0xAB], .next, .push [0, 0xFF, 0], .next, .push [0xFF, 0xFF, 0xFF, 25, 0, 2], .next]

theorem decodes_threeRecords : (∀ r ∈ threeRecords, r.Framable) ∧
    Record.WholeIn threeRecords [0, 1, 0, 3, 0xAB] (Record.decodeAll [0, 1, 0, 3, 0xAB]) ∧
    ∃ early d late last, run { clock := 60000000 } threePieces = .ok (early, d) ∧ d.Drains late last ∧
      early ++ late = [.packet 50 [0xAB], .event 1092333 .reset] ∧ last.pending = 0 := by
  have hframable : ∀ r ∈ threeRecords, r.Framable := by simp [threeRecords, Record.Framable]
  have hpieces : pushed threePieces = threeRecords.flatMap Record.toBytes := by decide
  obtain ⟨hall, hparts⟩ := decodes_chunks.1 threeRecords hframable
  obtain ⟨early, d, late, last, hrun, hdrains, hdecodes⟩ := decodes_chunks.2 60000000 (by decide) threePieces
  have htimed := hdecodes.timed
  have hpending := hdecodes.pending
  rw [hpieces, hall] at htimed hpending
  refine ⟨hframable, hparts _ [0, 0xFF, 0, 0xFF, 0xFF, 0xFF, 25, 0, 2] (by decide), early, d, late, last, hrun,
    hdrains, htimed.trans (by decide), ?_⟩
  change last.pending + 14 = 14 at hpending
  omega

end Decoder
end UsbRecorder
