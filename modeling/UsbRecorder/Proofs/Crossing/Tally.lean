import UsbRecorder.Proofs.Crossing.History
/-!
# Tally — the counters of a queue against the bytes that are in it

The two sides count what they push, take and drop, each for itself.  Whatever they do to a new queue, the bytes pushed
are the bytes taken, the bytes dropped by resets and those between the two pointers (`tally_of_create`).
-/
namespace UsbRecorder
namespace Crossing

/-- The slots in use, by the two pointers themselves, of which each side sees the other's late. -/
def occupancy (q : Crossing) : Nat := (q.sender.pointer + q.modulus - q.receiver.pointer) % q.modulus

/-- The bytes that have left, as the receiver counts them. -/
def departed (q : Crossing) : Nat := q.receiver.popped + q.receiver.resetBytes

def call (q : Crossing) : Action → Crossing
  | .senderTick => q.senderTick
  | .push b => (q.push b).2
  | .markStale following => q.markStale following
  | .close => q.close
  | .receiverTick => q.receiverTick
  | .take => q.take.2
  | .reset => q.reset.2

def calls (q : Crossing) (actions : List Action) : Crossing := actions.foldl call q

/-- A call of the sending side, but for its last one. -/
def Action.isSenders : Action → Bool
  | .senderTick | .push _ | .markStale _ => true
  | _ => false

def Action.isReceivers : Action → Bool
  | .receiverTick | .take | .reset => true
  | _ => false

variable {q : Crossing} {depth : Nat}

theorem calls_append (q : Crossing) (a b : List Action) : q.calls (a ++ b) = (q.calls a).calls b :=
  List.foldl_append ..

/-- **One queue comes from another** by calls of one kind. -/
def Called (kind : Action → Bool) (q q' : Crossing) : Prop :=
  ∃ actions, q' = q.calls actions ∧ ∀ a ∈ actions, kind a = true

namespace Called

variable {kind : Action → Bool} {q' q'' : Crossing}

theorem refl (kind : Action → Bool) (q : Crossing) : Called kind q q := ⟨[], rfl, nofun⟩

theorem call (q : Crossing) {a : Action} (ha : kind a = true) : Called kind q (q.call a) :=
  ⟨[a], rfl, List.forall_mem_singleton.2 ha⟩

theorem trans (h₁ : Called kind q q') (h₂ : Called kind q' q'') : Called kind q q'' := by
  obtain ⟨actions, rfl, hkind⟩ := h₁
  obtain ⟨more, rfl, hmore⟩ := h₂
  exact ⟨actions ++ more, (calls_append q actions more).symm, List.forall_mem_append.2 ⟨hkind, hmore⟩⟩

/-- What each call of the kind preserves, they preserve together. -/
theorem invariant {P : Crossing → Prop} (h : Called kind q q') (hcall : ∀ q a, kind a = true → P q → P (q.call a))
    (hq : P q) : P q' := by
  obtain ⟨actions, rfl, hkind⟩ := h
  induction actions generalizing q with
  | nil => exact hq
  | cons a actions ih =>
    obtain ⟨ha, hrest⟩ := List.forall_mem_cons.1 hkind
    exact ih (hcall q a ha hq) hrest

end Called

theorem receiver_call {a : Action} (ha : a.isSenders = true) : (q.call a).receiver = q.receiver := by
  cases a with
  | senderTick | markStale => rfl
  | push b =>
    show (q.push b).2.receiver = _
    unfold push
    split <;> rfl
  | _ => cases ha

theorem sender_call {a : Action} (ha : a.isReceivers = true) : (q.call a).sender = q.sender := by
  cases a with
  | receiverTick | reset => rfl
  | take =>
    show q.take.2.sender = _
    unfold take
    split <;> rfl
  | _ => cases ha

theorem closed_call {a : Action} (ha : a ≠ .close) : (q.call a).closed = q.closed := by
  cases a with
  | close => exact absurd rfl ha
  | push b =>
    show (q.push b).2.closed = _
    unfold push
    split <;> rfl
  | take =>
    show q.take.2.closed = _
    unfold take
    split <;> rfl
  | _ => rfl

theorem Called.closed {kind : Action → Bool} {q' : Crossing} (h : Called kind q q') (hkind : kind .close = false) :
    q'.closed = q.closed := by
  refine h.invariant (P := fun r => r.closed = q.closed) (fun r a ha hr => (closed_call fun hclose => ?_).trans hr) rfl
  rw [hclose, hkind] at ha
  cases ha

theorem Window.occupancy_eq {sent : List Beat} {gone seenGone seenSent : Nat}
    (h : Window q sent gone seenGone seenSent) : q.occupancy = sent.length - gone := by
  unfold occupancy
  rw [h.senderPointer, h.receiverPointer]
  have := h.seenGone_le; have := h.gone_le; have := h.seenSent_le; have := h.sent_le
  have := q.modulus_eq; have := q.depth_pos
  exact mod_add_sub_mod (by omega) (by omega)

namespace History

variable {h : History}

theorem queue_step (h : History) (a : Action) : (h.step a).queue = h.queue.call a := by
  cases a <;> rfl

theorem queue_after (h : History) (actions : List Action) : (h.after actions).queue = h.queue.calls actions := by
  induction actions generalizing h with
  | nil => rfl
  | cons a actions ih =>
    show ((h.step a).after actions).queue = (h.queue.call a).calls actions
    rw [ih, queue_step]

/-- The receiver's counters tell how many bytes have left. -/
def Counted (h : History) : Prop := h.queue.receiver.popped + h.queue.receiver.resetBytes = h.left.length

theorem Counted.take (hc : h.Counted) : (h.step .take).Counted := by
  unfold Counted at hc ⊢
  show h.queue.take.2.receiver.popped + h.queue.take.2.receiver.resetBytes =
    (h.left ++ h.queue.take.1.toList.map some).length
  unfold Crossing.take
  cases h.queue.offered with
  | none => simpa using hc
  | some b =>
    simp only [Option.toList_some, List.map_singleton, List.length_append, List.length_singleton]
    omega

theorem Counted.step (hc : h.Counted) (a : Action) : (h.step a).Counted := by
  cases a with
  | take => exact hc.take
  | reset =>
    unfold Counted at hc ⊢
    show h.queue.receiver.popped + (h.queue.receiver.resetBytes + h.queue.receiverLevel) =
      (h.left ++ List.replicate h.queue.receiverLevel none).length
    rw [List.length_append, List.length_replicate, ← Nat.add_assoc, hc]
  | push b =>
    have hreceiver : (h.queue.push b).2.receiver = h.queue.receiver := receiver_call (a := .push b) rfl
    unfold Counted at hc ⊢
    show (h.queue.push b).2.receiver.popped + (h.queue.push b).2.receiver.resetBytes = _
    rw [hreceiver]
    exact hc
  | _ => exact hc

theorem Counted.after (hc : h.Counted) (actions : List Action) : (h.after actions).Counted := by
  induction actions generalizing h with
  | nil => exact hc
  | cons a actions ih => exact ih (hc.step a)

end History

theorem counters_create (hq : create depth = .ok q) : q.receiver = {} ∧ q.closed = false ∧ q.sentGray = 0 := by
  unfold create at hq
  split at hq
  · cases hq
    exact ⟨rfl, rfl, rfl⟩
  · cases hq

/-- **A queue that comes from a new one stands in its window**, with the bytes that its receiver has counted gone. -/
theorem window_calls (hq : create depth = .ok q) (actions : List Action) :
    (q.calls actions).depth = depth ∧ ∃ seenGone seenSent,
      Window (q.calls actions) (History.after { queue := q } actions).sent (q.calls actions).departed seenGone
        seenSent := by
  have hinv : History.Inv { queue := q } depth := ⟨depth_create hq, nofun, 0, 0, window_create hq⟩
  have hcounted : History.Counted { queue := q } := by
    unfold History.Counted
    dsimp only
    rw [(counters_create hq).1]
    rfl
  have hleft := hcounted.after actions
  obtain ⟨hdepth, -, seenGone, seenSent, hw⟩ := hinv.after actions
  unfold History.Counted at hleft
  rw [History.queue_after] at hdepth hw hleft
  refine ⟨hdepth, seenGone, seenSent, ?_⟩
  rw [departed, hleft]
  exact hw

/-- **Every byte pushed was taken, was dropped by a reset, or is in the queue.** -/
theorem tally_of_create (hq : create depth = .ok q) (actions : List Action) :
    (q.calls actions).sender.pushed = (q.calls actions).receiver.popped + (q.calls actions).receiver.resetBytes +
      (q.calls actions).occupancy := by
  obtain ⟨-, seenGone, seenSent, hw⟩ := window_calls hq actions
  rw [hw.pushed, hw.occupancy_eq]
  exact (Nat.add_sub_cancel' (Nat.le_trans hw.gone_le hw.seenSent_le)).symm

end Crossing
end UsbRecorder
