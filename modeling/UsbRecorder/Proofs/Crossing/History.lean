import UsbRecorder.Proofs.Crossing.Window
/-!
# History — a queue under any interleaving of what its two sides do

Whatever the two sides do in whatever order, bytes leave a queue in the order in which they were sent and as they were
sent, and what each side takes for the fill is on its safe side of the true one.
-/
namespace UsbRecorder

/-! ## What leaves a line -/

/-- What has left a line, a beat or none for a byte that was dropped, against what was put into it: the beat that left as
the `n`-th was put in as the `n`-th. -/
def LeftInOrder (left : List (Option Beat)) (sent : List Beat) : Prop :=
  ∀ (n : Nat) (b : Beat), left[n]? = some (some b) → sent[n]? = some b

namespace LeftInOrder

variable {left : List (Option Beat)} {sent : List Beat}

theorem sent_append (h : LeftInOrder left sent) (more : List Beat) : LeftInOrder left (sent ++ more) := by
  intro n b hn
  have hs := h n b hn
  obtain ⟨hlt, -⟩ := List.getElem?_eq_some_iff.1 hs
  rw [List.getElem?_append_left hlt, hs]

theorem taken (h : LeftInOrder left sent) {b : Beat} (hb : sent[left.length]? = some b) :
    LeftInOrder (left ++ [some b]) sent := by
  intro n x hn
  rcases Nat.lt_or_ge n left.length with hold | hnew
  · rw [List.getElem?_append_left hold] at hn
    exact h n x hn
  · rw [List.getElem?_append_right hnew] at hn
    obtain ⟨hz, hx⟩ := List.getElem?_eq_some_iff.1 hn
    simp only [List.length_singleton, Nat.lt_one_iff] at hz
    simp only [hz, List.getElem_cons_zero, Option.some.injEq] at hx
    rw [show n = left.length by omega, hb, hx]

theorem dropped (h : LeftInOrder left sent) (count : Nat) : LeftInOrder (left ++ List.replicate count none) sent := by
  intro n b hn
  rcases Nat.lt_or_ge n left.length with hold | hnew
  · rw [List.getElem?_append_left hold] at hn
    exact h n b hn
  · rw [List.getElem?_append_right hnew] at hn
    have := List.mem_of_getElem? hn
    simp at this

end LeftInOrder

namespace Crossing

/-- What the two sides can do, one call at a time. -/
inductive Action where
  | senderTick
  | push (b : Beat)
  | markStale (following : Nat)
  | close
  | receiverTick
  | take
  | reset
  deriving Repr

/-- A queue with what has gone in and come out. -/
structure History where
  queue : Crossing
  /-- the beats that were pushed and not turned away, in order -/
  sent : List Beat := []
  /-- what has left, in order: a beat that was taken, or none for a byte that a reset dropped -/
  left : List (Option Beat) := []

namespace History

/-- One call. -/
def step (h : History) : Action → History
  | .senderTick => { h with queue := h.queue.senderTick }
  | .push b => { h with
      queue := (h.queue.push b).2
      sent := if (h.queue.push b).1 then h.sent ++ [b] else h.sent }
  | .markStale following => { h with queue := h.queue.markStale following }
  | .close => { h with queue := h.queue.close }
  | .receiverTick => { h with queue := h.queue.receiverTick }
  | .take => { h with queue := h.queue.take.2, left := h.left ++ h.queue.take.1.toList.map some }
  | .reset => { h with queue := h.queue.reset.2, left := h.left ++ List.replicate h.queue.reset.1 none }

/-- The history after calls. -/
def after (h : History) (actions : List Action) : History := actions.foldl step h

/-- The bytes that are in the queue. -/
def occupancy (h : History) : Nat := h.sent.length - h.left.length

/-- **What a queue of a depth owes to its two sides.** -/
structure Conserved (h : History) (depth : Nat) : Prop where
  /-- nothing leaves that was not sent -/
  left_le : h.left.length ≤ h.sent.length
  /-- what is taken as the `n`-th byte to leave is what was sent as the `n`-th -/
  in_order : LeftInOrder h.left h.sent
  /-- a byte that has not left is still in its slot -/
  kept : ∀ (n : Nat) (b : Beat), h.left.length ≤ n → h.sent[n]? = some b → h.queue.slots.read (n % depth) = b.toWord
  occupancy_le : h.occupancy ≤ depth
  receiverLevel_le : h.queue.receiverLevel ≤ h.occupancy
  le_senderLevel : h.occupancy ≤ h.queue.senderLevel
  senderLevel_le : h.queue.senderLevel ≤ depth
  isFull_iff : h.queue.isFull = true ↔ h.queue.senderLevel = depth
  isEmpty_iff : h.queue.isEmpty = true ↔ h.queue.receiverLevel = 0

/-- What every call preserves: the counts stand in their window, and what has left was sent. -/
def Inv (h : History) (depth : Nat) : Prop :=
  h.queue.depth = depth ∧ LeftInOrder h.left h.sent ∧
    ∃ seenGone seenSent, Window h.queue h.sent h.left.length seenGone seenSent

theorem depth_push (q : Crossing) (b : Beat) : (q.push b).2.depth = q.depth := by
  unfold push
  split <;> rfl

theorem depth_take (q : Crossing) : q.take.2.depth = q.depth := by
  unfold take
  split <;> rfl

variable {h : History} {depth : Nat}

theorem Inv.push (hi : h.Inv depth) (b : Beat) : (h.step (.push b)).Inv depth := by
  obtain ⟨hd, hord, g, s, hw⟩ := hi
  refine ⟨(depth_push _ _).trans hd, ?_, g, s, ?_⟩
  · show LeftInOrder h.left (if (h.queue.push b).1 then h.sent ++ [b] else h.sent)
    split
    · exact hord.sent_append [b]
    · exact hord
  · show Window (h.queue.push b).2 (if (h.queue.push b).1 then h.sent ++ [b] else h.sent) h.left.length g s
    by_cases hfull : h.queue.isFull = true
    · obtain ⟨hno, hw'⟩ := hw.push_of_isFull hfull b
      rw [hno]
      exact hw'
    · obtain ⟨hyes, hw'⟩ := hw.push_of_not_isFull hfull b
      rw [hyes]
      exact hw'

theorem Inv.take (hi : h.Inv depth) : (h.step .take).Inv depth := by
  obtain ⟨hd, hord, g, s, hw⟩ := hi
  refine ⟨(depth_take _).trans hd, ?_⟩
  rcases Nat.eq_or_lt_of_le hw.gone_le with heq | hlt
  · have hnone := hw.take_of_eq heq
    have hstep : h.step .take = h := by
      unfold step
      rw [hnone]
      simp
    rw [hstep]
    exact ⟨hord, g, s, hw⟩
  · obtain ⟨hbeat, hw'⟩ := hw.take_of_lt hlt
    have hlen : h.left.length < h.sent.length := Nat.lt_of_lt_of_le hlt hw.seenSent_le
    rw [List.getElem?_eq_getElem hlen] at hbeat
    have hleft : (h.step .take).left = h.left ++ [some h.sent[h.left.length]] := by
      show h.left ++ h.queue.take.1.toList.map some = _
      rw [hbeat]
      rfl
    rw [hleft, List.length_append]
    exact ⟨hord.taken (List.getElem?_eq_getElem hlen), g, s, hw'⟩

theorem Inv.reset (hi : h.Inv depth) : (h.step .reset).Inv depth := by
  obtain ⟨hd, hord, g, s, hw⟩ := hi
  obtain ⟨hcount, hw'⟩ := hw.reset
  have hlen : (h.step .reset).left.length = s := by
    show (h.left ++ List.replicate h.queue.reset.1 none).length = s
    rw [List.length_append, List.length_replicate, hcount]
    have := hw.gone_le
    omega
  refine ⟨hd, hord.dropped _, g, s, ?_⟩
  rw [hlen]
  exact hw'

/-- **Every call keeps the invariant.** -/
theorem Inv.step (hi : h.Inv depth) (a : Action) : (h.step a).Inv depth := by
  cases a with
  | push b => exact hi.push b
  | take => exact hi.take
  | reset => exact hi.reset
  | senderTick =>
    obtain ⟨hd, hord, g, s, hw⟩ := hi
    obtain ⟨g', -, hw'⟩ := hw.senderTick
    exact ⟨hd, hord, g', s, hw'⟩
  | receiverTick =>
    obtain ⟨hd, hord, g, s, hw⟩ := hi
    obtain ⟨s', -, hw'⟩ := hw.receiverTick
    exact ⟨hd, hord, g, s', hw'⟩
  | markStale following =>
    obtain ⟨hd, hord, g, s, hw⟩ := hi
    exact ⟨hd, hord, g, s, hw.markStale following⟩
  | close =>
    obtain ⟨hd, hord, g, s, hw⟩ := hi
    exact ⟨hd, hord, g, s, hw.close⟩

theorem Inv.after (hi : h.Inv depth) (actions : List Action) : (h.after actions).Inv depth := by
  induction actions generalizing h with
  | nil => exact hi
  | cons a actions ih => exact ih (hi.step a)

theorem Inv.conserved (hi : h.Inv depth) : h.Conserved depth := by
  obtain ⟨hd, hord, g, s, hw⟩ := hi
  have h1 := hw.seenGone_le
  have h2 := hw.gone_le
  have h3 := hw.seenSent_le
  have h4 := hw.sent_le
  rw [hd] at h4
  refine ⟨by omega, hord, ?_, ?_, ?_, ?_, ?_, ?_, ?_⟩
  · intro n b hn hb
    obtain ⟨hlt, rfl⟩ := List.getElem?_eq_some_iff.1 hb
    rw [← hd]
    exact hw.slots n hn hlt
  · show h.sent.length - h.left.length ≤ depth
    omega
  · rw [hw.receiverLevel_eq]
    show s - h.left.length ≤ h.sent.length - h.left.length
    omega
  · rw [hw.senderLevel_eq]
    show h.sent.length - h.left.length ≤ h.sent.length - g
    omega
  · rw [hw.senderLevel_eq]
    omega
  · rw [hw.isFull_iff, hw.senderLevel_eq, hd]
    omega
  · rw [hw.isEmpty_iff, hw.receiverLevel_eq]
    omega

/-- **A queue conserves what is sent, under every interleaving**: for every depth that can be built and every list of
calls of its two sides. -/
theorem conserved_of_create {depth : Nat} {q : Crossing} (hq : create depth = .ok q) (actions : List Action) :
    (History.after { queue := q } actions).Conserved depth := by
  have hstart : History.Inv { queue := q } depth :=
    ⟨depth_create hq, fun n b hn => by simp at hn, 0, 0, window_create hq⟩
  exact (hstart.after actions).conserved

/-- Two slots: the third push is turned away, one beat is taken, and a reset drops the other. -/
def turnedAway : List Action :=
  [.push ⟨1, false⟩, .push ⟨2, true⟩, .push ⟨3, false⟩, .receiverTick, .receiverTick, .take, .reset]

theorem conserved_two_slots :
    create 2 = .ok { width := 1 } ∧
      (History.after { queue := { width := 1 } } turnedAway).left = [some ⟨1, false⟩, none] ∧
      (History.after { queue := { width := 1 } } turnedAway).Conserved 2 :=
  ⟨rfl, by decide +kernel, conserved_of_create rfl turnedAway⟩

end History
end Crossing
end UsbRecorder
