import UsbRecorder.Proofs.Crossing.Tally
/-!
# Closing — a queue whose sender has gone

The receiver counts its ticks from the closing of the queue on.  After `n` of them the last `n` stages of its delay line
hold the pointer that was published last (`Closing`), so once the count is greater than the number of stages the
receiver sees all that was sent: an empty queue is one that everything has left (`Window.gone_of_isOver`), and stays so.
-/
namespace UsbRecorder
namespace DelayLine

variable {α : Type}

/-- What the stages hold, the last stage first. -/
def stages (d : DelayLine α) : List α := d.output :: d.behind

theorem stages_clock (d : DelayLine α) (x : α) : (d.clock x).stages = d.stages.tail ++ [x] := by
  unfold stages clock
  cases d.behind <;> rfl

end DelayLine

namespace Crossing

/-- **What the receiver's count of ticks since the closing says of its delay line.** -/
structure Closing (q : Crossing) : Prop where
  length : q.receiver.view.stages.length = crossingStages
  early : q.closed = false → q.receiver.closedFor = 0
  through : ∀ w ∈ q.receiver.view.stages.drop (crossingStages - q.receiver.closedFor), w = q.sentGray

variable {q : Crossing} {depth : Nat}

theorem closing_create (hq : create depth = .ok q) : q.Closing := by
  obtain ⟨hreceiver, -, -⟩ := counters_create hq
  refine ⟨by rw [hreceiver]; rfl, fun _ => by rw [hreceiver], ?_⟩
  rw [hreceiver]
  exact nofun

namespace Closing

/-- Before the closing nothing is said of the delay line. -/
theorem of_open (h : q.Closing) (hopen : q.closed = false) :
    q.receiver.view.stages.drop (crossingStages - q.receiver.closedFor) = [] := by
  rw [h.early hopen, Nat.sub_zero, ← h.length, List.drop_length]

/-- **A tick moves the pointer published last one stage on.** -/
theorem receiverTick (h : q.Closing) : q.receiverTick.Closing := by
  have hstages : q.receiverTick.receiver.view.stages = q.receiver.view.stages.tail ++ [q.sentGray] :=
    q.receiver.view.stages_clock _
  have hlength : q.receiverTick.receiver.view.stages.length = crossingStages := by
    rw [hstages, List.length_append, List.length_tail, h.length]
    rfl
  have hcount : q.receiverTick.receiver.closedFor =
      if q.closed then min (q.receiver.closedFor + 1) (crossingStages + 1) else q.receiver.closedFor := rfl
  have hearly : q.closed = false → q.receiverTick.receiver.closedFor = 0 := by
    intro hopen
    rw [hcount, hopen]
    exact h.early hopen
  refine ⟨hlength, hearly, fun w hw => ?_⟩
  show w = q.sentGray
  cases hclosed : q.closed with
  | false =>
    rw [hearly hclosed, Nat.sub_zero, ← hlength, List.drop_length] at hw
    cases hw
  | true =>
    rw [hcount, hclosed, if_pos rfl, hstages, List.drop_append] at hw
    rcases List.mem_append.1 hw with hold | hnew
    · rw [List.drop_tail] at hold
      refine h.through w (List.drop_subset_drop_left _ ?_ hold)
      omega
    · exact List.mem_singleton.1 (List.mem_of_mem_drop hnew)

/-- **Every call keeps it**, for nothing is pushed once the queue is closed. -/
theorem call (h : q.Closing) (a : Action) (hsends : ∀ b, a = .push b → q.closed = false) : (q.call a).Closing := by
  cases a with
  | receiverTick => exact h.receiverTick
  | push b =>
    have hopen := hsends b rfl
    have hreceiver : (q.push b).2.receiver = q.receiver := receiver_call (a := .push b) rfl
    refine ⟨?_, fun _ => ?_, ?_⟩
    · show (q.push b).2.receiver.view.stages.length = _
      rw [hreceiver]
      exact h.length
    · show (q.push b).2.receiver.closedFor = 0
      rw [hreceiver]
      exact h.early hopen
    · show ∀ w ∈ (q.push b).2.receiver.view.stages.drop (crossingStages - (q.push b).2.receiver.closedFor), _
      rw [hreceiver, h.of_open hopen]
      exact nofun
  | take =>
    show q.take.2.Closing
    unfold take
    split
    · exact h
    · exact ⟨h.length, h.early, h.through⟩
  | close => exact ⟨h.length, nofun, h.through⟩
  | senderTick => exact ⟨h.length, h.early, h.through⟩
  | markStale following => exact ⟨h.length, h.early, h.through⟩
  | reset => exact ⟨h.length, h.early, h.through⟩

theorem sent {q' : Crossing} (h : q.Closing) (hopen : q.closed = false) (hcalled : Called Action.isSenders q q') :
    q'.Closing := by
  refine (hcalled.invariant (P := fun q => q.Closing ∧ q.closed = false) (fun q a ha hq => ?_) ⟨h, hopen⟩).1
  refine ⟨hq.1.call a fun _ _ => hq.2, (closed_call fun hclose => ?_).trans hq.2⟩
  subst hclose
  cases ha

theorem received {q' : Crossing} (h : q.Closing) (hcalled : Called Action.isReceivers q q') : q'.Closing := by
  refine hcalled.invariant (P := Closing) (fun q a ha hq => hq.call a fun b hb => ?_) h
  subst hb
  cases ha

/-- A queue that is over was closed, and its receiver sees the pointer published last. -/
theorem of_isOver (h : q.Closing) (hover : q.isOver = true) :
    q.closed = true ∧ crossingStages < q.receiver.closedFor ∧ q.receiver.view.output = q.sentGray := by
  simp only [isOver, Bool.and_eq_true, decide_eq_true_eq] at hover
  obtain ⟨hcount, -⟩ := hover
  refine ⟨?_, hcount, h.through _ ?_⟩
  · by_contra hopen
    rw [h.early (by simpa using hopen)] at hcount
    exact absurd hcount (Nat.not_lt_zero _)
  · rw [Nat.sub_eq_zero_of_le (Nat.le_of_lt hcount)]
    exact List.mem_cons_self

/-- **What is over stays over** when the receiver's clock ticks. -/
theorem isOver_receiverTick (h : q.Closing) (hover : q.isOver = true) : q.receiverTick.isOver = true := by
  obtain ⟨hclosed, hcount, hview⟩ := h.of_isOver hover
  have hcount' : q.receiverTick.receiver.closedFor = crossingStages + 1 := by
    show (if q.closed then min (q.receiver.closedFor + 1) (crossingStages + 1) else q.receiver.closedFor) = _
    rw [hclosed, if_pos rfl]
    omega
  have hview' : q.receiverTick.receiver.view.output = q.sentGray := by
    refine h.receiverTick.through _ ?_
    rw [hcount', Nat.sub_eq_zero_of_le (Nat.le_succ _)]
    exact List.mem_cons_self
  have hempty : q.receiverTick.isEmpty = q.isEmpty := by
    show (_ == q.receiverTick.receiver.view.output) = (_ == q.receiver.view.output)
    rw [hview, hview']
    rfl
  simp only [isOver, Bool.and_eq_true, decide_eq_true_eq] at hover ⊢
  exact ⟨by rw [hcount']; exact Nat.lt_succ_self _, hempty.trans hover.2⟩

end Closing

/-- **Everything has left a queue that is over.** -/
theorem Window.gone_of_isOver {sent : List Beat} {gone seenGone seenSent : Nat}
    (h : Window q sent gone seenGone seenSent) (hc : q.Closing) (hover : q.isOver = true) : gone = sent.length := by
  obtain ⟨-, -, hview⟩ := hc.of_isOver hover
  have hempty : q.isEmpty = true := by
    simp only [isOver, Bool.and_eq_true] at hover
    exact hover.2
  have hlt : ∀ n : Nat, n % q.modulus < 2 ^ (q.width + 1) := fun n => Nat.mod_lt n (Nat.two_pow_pos _)
  rw [h.receiverView.1, h.sentGray, word, word, gray_eq_gray_iff h.width_le (hlt _) (hlt _)] at hview
  have := h.seenGone_le; have := h.gone_le; have := h.sent_le
  have := q.modulus_eq; have := q.depth_pos
  rw [h.isEmpty_iff.1 hempty]
  exact (mod_eq_mod_iff h.seenSent_le (by omega)).1 hview

end Crossing
end UsbRecorder
