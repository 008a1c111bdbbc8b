import UsbRecorder.Proofs.Report.Chunks
/-!
# Times — the time of a report is that of all ticks up to its record, rounded down

The ticks of the nominal clock are converted by thirds, those of other clocks by a division; both give the same
(`nominalNs_eq`).  Records that are not reported take time as the others do, so a report has the time of all records up
to its own (`timeline_eq`), and the times never decrease.
-/
namespace UsbRecorder

namespace Record

/-- Ticks that records take together. -/
def duration (rs : List Record) : Nat := (rs.map fun r => r.time.toNat).sum

/-- Ticks up to the record with an index, those of that record included. -/
def elapsed (rs : List Record) (k : Nat) : Nat := duration (rs.take (k + 1))

theorem elapsed_cons_succ (r : Record) (rs : List Record) (k : Nat) :
    elapsed (r :: rs) (k + 1) = r.time.toNat + elapsed rs k := by
  simp [elapsed, duration]

theorem duration_append (a b : List Record) : duration (a ++ b) = duration a + duration b := by
  simp [duration]

theorem elapsed_le_duration (rs : List Record) (k : Nat) : elapsed rs k ≤ duration rs := by
  conv => rhs; rw [← List.take_append_drop (k + 1) rs, duration_append]
  exact Nat.le_add_right _ _

theorem elapsed_mono (rs : List Record) {j k : Nat} (h : j ≤ k) : elapsed rs j ≤ elapsed rs k := by
  have htake : rs.take (j + 1) = (rs.take (k + 1)).take (j + 1) := by
    rw [List.take_take, Nat.min_eq_left (Nat.succ_le_succ h)]
  unfold elapsed
  rw [htake]
  exact elapsed_le_duration (rs.take (k + 1)) j

end Record

namespace Report

open Record (elapsed duration)

/-- Nanoseconds of a number of ticks, rounded down. -/
def exactNs (clock : UInt32) (ticks : Nat) : Nat := ticks * 1000000000 / clock.toNat

theorem exactNs_mono (clock : UInt32) {a b : Nat} (h : a ≤ b) : exactNs clock a ≤ exactNs clock b :=
  Nat.div_le_div_right (Nat.mul_le_mul_right _ h)

/-- **Thirds of a cycle are exact**: three ticks of the nominal clock take fifty nanoseconds. -/
theorem nominalNs_eq (ticks : Nat) : nominalNs ticks = exactNs Thresholds.nominalClock ticks := by
  have hclock : Thresholds.nominalClock.toNat = 60000000 := rfl
  unfold nominalNs exactNs
  rw [hclock]
  split_ifs <;> omega

theorem nsOf_eq (clock : UInt32) (ticks : Nat) : nsOf clock ticks = exactNs clock ticks % UInt64.size := by
  unfold nsOf
  split
  · rename_i hclock
    rw [nominalNs_eq, hclock]
  · rfl

theorem nsOf_of_lt {clock : UInt32} {ticks : Nat} (h : exactNs clock ticks < UInt64.size) :
    nsOf clock ticks = exactNs clock ticks := by
  rw [nsOf_eq, Nat.mod_eq_of_lt h]

theorem ns_of_ofRecord? {ns : Nat} {r : Record} {report : Report} (h : ofRecord? ns r = some report) :
    report.ns = ns := by
  cases r with
  | packet time payload =>
    cases h
    rfl
  | event time code =>
    obtain ⟨e, -, rfl⟩ := Option.map_eq_some_iff.1 h
    rfl

/-- The report of a record, if it is one that is reported, with a time that depends on where it stands. -/
def reportAt (rs : List Record) (time : Nat → Nat) (k : Nat) : Option Report := rs[k]?.bind (ofRecord? (time k))

/-- **A report has the time of all records up to its own**, whether they are reported or not. -/
theorem timeline_eq (clock : UInt32) (ticks : Nat) (rs : List Record) : timeline clock ticks rs =
    (List.range rs.length).filterMap (reportAt rs fun k => nsOf clock (ticks + elapsed rs k)) := by
  induction rs generalizing ticks with
  | nil => rfl
  | cons r rs ih =>
    rw [timeline, ih, List.length_cons, List.range_succ_eq_map, List.filterMap_cons, List.filterMap_map]
    have hfirst : reportAt (r :: rs) (fun k => nsOf clock (ticks + elapsed (r :: rs) k)) 0 =
        ofRecord? (nsOf clock (ticks + r.time.toNat)) r := by
      simp [reportAt, elapsed, duration]
    have hlater : reportAt (r :: rs) (fun k => nsOf clock (ticks + elapsed (r :: rs) k)) ∘ Nat.succ =
        reportAt rs fun k => nsOf clock (ticks + r.time.toNat + elapsed rs k) := by
      funext k
      simp only [Function.comp_apply, reportAt, Nat.succ_eq_add_one, List.getElem?_cons_succ, Record.elapsed_cons_succ,
        Nat.add_assoc]
    rw [hfirst, hlater]
    cases ofRecord? (nsOf clock (ticks + r.time.toNat)) r <;> rfl

/-- **The times of reports**: each is exact, rounded down to a nanosecond, and none is before the one ahead of it. -/
structure ExactlyTimed (clock : UInt32) (rs : List Record) (reports : List Report) : Prop where
  exact : reports = (List.range rs.length).filterMap (reportAt rs fun k => exactNs clock (elapsed rs k))
  monotone : (reports.map Report.ns).Pairwise (· ≤ ·)

theorem exactlyTimed_timeline {clock : UInt32} {rs : List Record} (hfits : exactNs clock (duration rs) < UInt64.size) :
    ExactlyTimed clock rs (timeline clock 0 rs) := by
  have hexact : timeline clock 0 rs =
      (List.range rs.length).filterMap (reportAt rs fun k => exactNs clock (elapsed rs k)) := by
    rw [timeline_eq]
    congr 1
    funext k
    have hk : exactNs clock (elapsed rs k) < UInt64.size :=
      Nat.lt_of_le_of_lt (exactNs_mono clock (Record.elapsed_le_duration rs k)) hfits
    simp only [reportAt, Nat.zero_add, nsOf_of_lt hk]
  refine ⟨hexact, ?_⟩
  rw [hexact, List.pairwise_map, List.pairwise_filterMap]
  refine List.pairwise_lt_range.imp ?_
  intro j k hjk a ha b hb
  obtain ⟨r, -, hr⟩ := Option.bind_eq_some_iff.1 ha
  obtain ⟨r', -, hr'⟩ := Option.bind_eq_some_iff.1 hb
  rw [ns_of_ofRecord? hr, ns_of_ofRecord? hr']
  exact exactNs_mono clock (Record.elapsed_mono rs (Nat.le_of_lt hjk))

end Report

namespace Decoder

open Report (exactNs ExactlyTimed)
open Record (decodeAll duration)

/-- **Times are exact and never decrease**, at every clock that runs, however the bytes are pushed and whenever a report
is asked for, as long as the time of all records fits in 64 bits of nanoseconds. -/
theorem exactlyTimed_chunks (clock : UInt32) (hclock : clock ≠ 0) (actions : List Action)
    (hfits : exactNs clock (duration (decodeAll (pushed actions))) < UInt64.size) :
    (∀ ticks, Report.nominalNs ticks = exactNs Thresholds.nominalClock ticks) ∧
      ∃ early d late last, run { clock } actions = .ok (early, d) ∧ d.Drains late last ∧
        ExactlyTimed clock (decodeAll (pushed actions)) (early ++ late) := by
  obtain ⟨early, d, hrun, hd, hdrain⟩ := run_eq (d := { clock }) hclock actions
  refine ⟨Report.nominalNs_eq, early, d, d.drain.1, d.drain.2, hrun, drains_drain (hd ▸ hclock), ?_⟩
  have htimed := (drain_eq (Decoder.push { clock } (pushed actions))).1
  rw [hdrain] at htimed
  have hall : early ++ d.drain.1 = Report.timeline clock 0 (decodeAll (pushed actions)) := htimed
  rw [hall]
  exact Report.exactlyTimed_timeline hfits

/-- An event of an unknown code, a placeholder, a reset and a packet, cut within the placeholder. -/
def skippedPieces : List Action :=
  [.push [0xFF, 200, 0, 2, 0xFF, 0], .next, .push [0xFF, 0xFF, 0xFF, 25, 0, 1], .next, .push [0, 1, 0, 3, 0xAB, 0], .next]

/-- The records of `skippedPieces`. -/
theorem decodeAll_skippedPieces :
    decodeAll (pushed skippedPieces) = [.event 2 200, .event 0xFFFF 0, .event 1 25, .packet 3 [0xAB]] := by
  have hunknown : Record.decode? (pushed skippedPieces) =
      some (.event 2 200, [0xFF, 0, 0xFF, 0xFF, 0xFF, 25, 0, 1, 0, 1, 0, 3, 0xAB, 0]) := by decide
  have hplaceholder : Record.decode? [0xFF, 0, 0xFF, 0xFF, 0xFF, 25, 0, 1, 0, 1, 0, 3, 0xAB, 0] =
      some (.event 0xFFFF 0, [0xFF, 25, 0, 1, 0, 1, 0, 3, 0xAB, 0]) := by decide
  have hreset : Record.decode? [0xFF, 25, 0, 1, 0, 1, 0, 3, 0xAB, 0] =
      some (.event 1 25, [0, 1, 0, 3, 0xAB, 0]) := by decide
  have hpacket : Record.decode? [0, 1, 0, 3, 0xAB, 0] = some (.packet 3 [0xAB], []) := by decide
  have hnone : Record.decode? [] = none := rfl
  rw [Record.decodeAll_of_some hunknown, Record.decodeAll_of_some hplaceholder, Record.decodeAll_of_some hreset,
    Record.decodeAll_of_some hpacket, Record.decodeAll_of_none hnone]

/-- At 48 MHz the reset is at 65538 ticks, 1365375 ns, and the packet at 65541, half a nanosecond after 1365437 ns. -/
theorem exactlyTimed_skippedPieces : (48000000 : UInt32) ≠ 0 ∧
    exactNs 48000000 (duration (decodeAll (pushed skippedPieces))) < UInt64.size ∧
    ∃ early d late last, run { clock := 48000000 } skippedPieces = .ok (early, d) ∧ d.Drains late last ∧
      early ++ late = [.event 1365375 .reset, .packet 1365437 [0xAB]] := by
  have hfits : exactNs 48000000 (duration (decodeAll (pushed skippedPieces))) < UInt64.size := by
    rw [decodeAll_skippedPieces]
    decide
  obtain ⟨-, early, d, late, last, hrun, hdrains, htimed⟩ :=
    exactlyTimed_chunks 48000000 (by decide) skippedPieces hfits
  refine ⟨by decide, hfits, early, d, late, last, hrun, hdrains, ?_⟩
  rw [htimed.exact, decodeAll_skippedPieces]
  decide

end Decoder
end UsbRecorder
