import UsbRecorder.Proofs.Recorder.Dated
/-!
# Timing — the times of records count the ticks between them

`exactTimes_of_create`: the time of an event or a placeholder is the number of whole ticks strictly between the item
before it and itself.  So is that of a packet, if the ticks without reception since the last item that is no
placeholder were enough to bring it in range; `framings_longReception` is a run where they were not.
-/
namespace UsbRecorder
namespace Recorder

variable {samples : List Sample} {entries before after : List Entry} {prev e : Entry}

theorem toNat_time (n : Nat) : (UInt16.ofNat (min n Record.maxTime)).toNat = min n Record.maxTime :=
  UInt16.toNat_ofNat_of_lt (Nat.lt_of_le_of_lt (Nat.min_le_right _ _) (by decide))

namespace Follows

theorem toNat_time (h : Follows prev e) (harmed : e.item ≠ .armed) (hstop : ∀ cause, e.item ≠ .stopped cause) :
    e.time.toNat = min (e.tick - prev.tick - 1) Record.maxTime := by
  rw [h.time harmed hstop, Recorder.toNat_time]

/-- **A time is exact where its tick is in range.** -/
theorem exact_iff (h : Follows prev e) (harmed : e.item ≠ .armed) (hstop : ∀ cause, e.item ≠ .stopped cause) :
    e.time.toNat = e.tick - prev.tick - 1 ↔ e.tick ≤ prev.tick + span := by
  have hspan : span = Record.maxTime + 1 := rfl
  rw [h.toNat_time harmed hstop, hspan]
  omega

end Follows

/-- **What the times of a run say.** -/
structure ExactTimes (samples : List Sample) (entries : List Entry) : Prop where
  /-- time is counted from the beginning of a capture -/
  first : ∀ e ∈ entries.head?, e.item = .armed
  /-- the time of an event, a start or a placeholder is exact -/
  events : ∀ before prev e after, entries = before ++ prev :: e :: after → ∀ event, e.item.event? = some event →
    (∀ cause, e.item ≠ .stopped cause) → e.time.toNat = e.tick - prev.tick - 1
  /-- a placeholder stands for the last tick that is in range of the item before it -/
  marks : ∀ before prev e after, entries = before ++ prev :: e :: after → e.item = .placeholder →
    e.tick = prev.tick + span
  /-- the time of a packet is exact unless it lies behind the item framed last that is no placeholder by more than one
  placeholder can count for each tick without reception in between, and one time more; it is the greatest time then -/
  packets : ∀ before e after, entries = before ++ e :: after → ∀ payload, e.item = .packet payload →
    ∃ prev m, before.getLast? = some prev ∧ anchor? before = some m ∧
      e.time.toNat = min (e.tick - prev.tick - 1) Record.maxTime ∧
      (e.time.toNat = e.tick - prev.tick - 1 ↔ e.tick ≤ m.tick + span * (quiet samples m.tick e.tick + 1))

theorem Chronicle.exactTimes (h : Chronicle samples entries) : ExactTimes samples entries := by
  refine ⟨fun e he => ?first, ?events, ?marks, ?packets⟩
  case first =>
    obtain ⟨after, rfl⟩ := List.head?_eq_some_iff.1 he
    exact (h [] e ⟨after, rfl⟩).first rfl
  case events =>
    intro before prev e after hsplit event hevent hstop
    have hprev := h.follows_of_split hsplit
    have harmed : e.item ≠ .armed := by
      intro harmed
      rw [harmed] at hevent
      cases hevent
    exact (hprev.exact_iff harmed hstop).2 (hprev.near event hevent hstop)
  case marks => exact fun before prev e after hsplit => (h.follows_of_split hsplit).mark
  case packets =>
    intro before e after hsplit payload hitem
    have htold := h before e ⟨after, by rw [hsplit]; simp⟩
    obtain ⟨prev, m, hlast, hanchor, hrange⟩ := htold.packet payload hitem
    have hprev := htold.follows prev hlast
    have harmed : e.item ≠ .armed := by rw [hitem]; nofun
    have hstop : ∀ cause, e.item ≠ .stopped cause := by rw [hitem]; nofun
    exact ⟨prev, m, hlast, hanchor, hprev.toNat_time harmed hstop, (hprev.exact_iff harmed hstop).trans hrange⟩

/-- **The times of every run are exact**, but for those of packets that too few placeholders went before. -/
theorem exactTimes_of_create {size : Nat} {captureEvents : Bool} {r₀ : Recorder}
    (h : create size captureEvents = .ok r₀) (actions : List Action) : ∃ entries, Account r₀ actions entries ∧
      r₀.framings actions = entries.filterMap Entry.framing? ∧ ExactTimes (sampled actions) entries := by
  obtain ⟨entries, haccount, -, hcurrent⟩ := account_of_create h actions
  exact ⟨entries, haccount, haccount.framings, hcurrent.told.exactTimes⟩

/-- An event and a packet, two ticks and none after the item before them. -/
theorem exactTimes_event_packet : ∃ r₀, create 64 true = .ok r₀ ∧
    (∃ entries,
      Account r₀ (armed ++ [.tick {} none, .tick {} none, .tick {} (some .reset), receiving 7, .tick {} none])
        entries ∧
      r₀.framings (armed ++ [.tick {} none, .tick {} none, .tick {} (some .reset), receiving 7, .tick {} none]) =
        entries.filterMap Entry.framing? ∧
      ExactTimes (sampled (armed ++ [.tick {} none, .tick {} none, .tick {} (some .reset), receiving 7, .tick {} none]))
        entries) ∧
    r₀.framings (armed ++ [.tick {} none, .tick {} none, .tick {} (some .reset), receiving 7, .tick {} none]) =
      [⟨(Record.event 0 (BusEvent.started .auto).code).toBytes, 0⟩, ⟨(Record.event 2 BusEvent.reset.code).toBytes, 3⟩,
        ⟨(Record.packet 0 [7]).toBytes, 4⟩] := by
  have hcreate : create 64 true = .ok { ring := { size := 64 }, captureEvents := true } := rfl
  exact ⟨_, hcreate, exactTimes_of_create hcreate _, by decide +kernel⟩

/-! ## A packet out of range -/

/-- A tick of reception on which no byte comes. -/
def receivingNothing : Action := .tick { active := true } none

/-- Reception without data that goes on for 131072 ticks, one tick without reception, and a packet of two bytes. -/
def longReception : List Action :=
  armed ++ [receivingNothing] ++ List.replicate 131071 receivingNothing ++
    [.tick {} none, receiving 1, receiving 2, .tick {} none]

theorem tick_receivingNothing {r : Recorder} (hphase : r.phase = .capturing) (hframed : r.framed = []) :
    (r.tick { active := true } none).2 = { r with now := r.now + 1 } := by
  have hsame : { r with framed := [] } = r := by rw [← hframed]
  have hidle : r.finish none = r := catchUp_of_ne_waiting (by rw [hphase]; decide)
  obtain ⟨-, hnext⟩ := tick_eq r { active := true } none
  rw [hsame, act_capturing hphase] at hnext
  refine hnext.trans ?_
  show { r.finish none with now := (r.finish none).now + 1 } = _
  rw [hidle]

theorem after_receivingNothing {r : Recorder} (hphase : r.phase = .capturing) (hframed : r.framed = []) (n : Nat) :
    r.after (List.replicate n receivingNothing) = { r with now := r.now + n } ∧
      r.framings (List.replicate n receivingNothing) = [] := by
  induction n generalizing r with
  | zero => exact ⟨rfl, rfl⟩
  | succ n ih =>
    obtain ⟨hafter, hframings⟩ := ih (r := { r with now := r.now + 1 }) hphase hframed
    rw [List.replicate_succ, receivingNothing, framings, tick_receivingNothing hphase hframed]
    refine ⟨?_, List.append_eq_nil_iff.2 ⟨by rw [hframed]; rfl, hframings⟩⟩
    show after (r.tick { active := true } none).2 (List.replicate n receivingNothing) = _
    rw [tick_receivingNothing hphase hframed, hafter, Nat.add_assoc, Nat.add_comm 1 n]

/-- **A packet out of range**: the tick without reception has brought one placeholder, where two were needed; the
packet comes 65536 whole ticks after it, with the greatest time. -/
theorem framings_longReception : ∃ r₀, create 1024 false = .ok r₀ ∧
    r₀.framings longReception =
      [⟨(Record.packet 0 []).toBytes, 1⟩, ⟨(Record.event 0xFFFF BusEvent.placeholder.code).toBytes, 65537⟩,
        ⟨(Record.packet 0xFFFF [1, 2]).toBytes, 131074⟩] ∧
    (0xFFFF : UInt16).toNat ≠ 131074 - 65537 - 1 := by
  refine ⟨{ ring := { size := 1024 }, captureEvents := false }, rfl, ?_, by decide⟩
  obtain ⟨hafter, hnone⟩ := after_receivingNothing
    (r := after { ring := { size := 1024 }, captureEvents := false } (armed ++ [receivingNothing])) (by decide +kernel)
    (by decide +kernel) 131071
  rw [longReception, framings_append, framings_append, hnone, after_append, hafter]
  decide +kernel

end Recorder
end UsbRecorder
