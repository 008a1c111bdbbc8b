import Mathlib.Data.List.Induction
import UsbRecorder.Proofs.Crossing.Closing
/-!
# Visibility — when a side of a queue sees what the other has published

A delay line puts out what was clocked in as many ticks ago as it has stages, and what it was reset to until then
(`getElem?_outputs_reset`).  A side of a queue clocks in, tick by tick, what the other has published (`view_calls`), so
what it sees of it is as it was at the side's last tick but one.  Pointers are wide enough to tell which count that is,
so that the receiver has in sight what had been sent at that tick (`shown_eq_pushedInView`), and a byte shows at the
second tick after it was sent.
-/
namespace UsbRecorder
namespace DelayLine

variable {α β : Type}

/-- A line after values are clocked in. -/
def feed (d : DelayLine α) (xs : List α) : DelayLine α := xs.foldl clock d

theorem stages_feed (d : DelayLine α) (xs : List α) : (d.feed xs).stages = (d.stages ++ xs).drop xs.length := by
  induction xs generalizing d with
  | nil => rw [List.append_nil]; rfl
  | cons x xs ih =>
    show ((d.clock x).feed xs).stages = (d.behind ++ x :: xs).drop xs.length
    rw [ih, stages_clock, List.append_assoc]
    rfl

theorem getElem?_outputs (d : DelayLine α) {xs : List α} {n : Nat} (hn : n ≤ xs.length) :
    (d.outputs xs)[n]? = some (d.feed (xs.take n)).output := by
  induction xs generalizing d n with
  | nil => rw [Nat.le_zero.1 hn]; rfl
  | cons x xs ih =>
    cases n with
    | zero => rfl
    | succ n => exact ih (d.clock x) (Nat.le_of_succ_le_succ hn)

variable {stages : Nat}

/-- **What comes out is what went in as many ticks ago as there are stages**, and before that what was there. -/
theorem output_feed (hs : 1 ≤ stages) (x : α) (xs : List α) :
    some ((reset stages x).feed xs).output = if xs.length < stages then some x else xs[xs.length - stages]? := by
  have hreset : (reset stages x).stages = List.replicate stages x := by
    show x :: List.replicate (stages - 1) x = _
    rw [← List.replicate_succ, Nat.sub_add_cancel hs]
  have hhead : some ((reset stages x).feed xs).output = ((reset stages x).feed xs).stages[0]? := rfl
  rw [hhead, stages_feed, List.getElem?_drop, Nat.add_zero, hreset, List.getElem?_append, List.length_replicate,
    List.getElem?_replicate]
  split <;> rfl

theorem getElem?_outputs_reset (hs : 1 ≤ stages) (x : α) {xs : List α} {n : Nat} (hn : n ≤ xs.length) :
    ((reset stages x).outputs xs)[n]? = if n < stages then some x else xs[n - stages]? := by
  rw [getElem?_outputs _ hn, output_feed hs, List.length_take_of_le hn]
  split
  · rfl
  · rw [List.getElem?_take_of_lt (by omega)]

theorem output_feed_mem_right (hs : 1 ≤ stages) (x : α) (xs : List α) {ys : List α} (h : stages ≤ ys.length) :
    ((reset stages x).feed (xs ++ ys)).output ∈ ys := by
  have hout := output_feed hs x (xs ++ ys)
  rw [List.length_append, if_neg (by omega), List.getElem?_append_right (by omega)] at hout
  exact List.mem_of_getElem? hout.symm

theorem output_feed_mem_left (hs : 1 ≤ stages) (x : α) (xs : List α) {ys : List α} (h : ys.length < stages) :
    ((reset stages x).feed (xs ++ ys)).output ∈ x :: xs := by
  have hout := output_feed hs x (xs ++ ys)
  rw [List.length_append] at hout
  split at hout
  · exact List.mem_cons.2 (Or.inl (Option.some_inj.1 hout))
  · rw [List.getElem?_append_left (by omega)] at hout
    exact List.mem_cons_of_mem x (List.mem_of_getElem? hout.symm)

theorem output_feed_map (hs : 1 ≤ stages) (f : α → β) (x : α) (xs : List α) :
    ((reset stages (f x)).feed (xs.map f)).output = f ((reset stages x).feed xs).output := by
  have hout := congrArg (Option.map f) (output_feed hs x xs)
  rw [apply_ite (Option.map f), Option.map_some, Option.map_some, ← List.getElem?_map] at hout
  rw [← Option.some_inj, output_feed hs, List.length_map, ← hout]

/-- What a line of rising numbers puts out does not fall. -/
theorem output_le_clock {d : DelayLine Nat} {n : Nat} (h : (d.stages ++ [n]).Pairwise (· ≤ ·)) :
    d.output ≤ (d.clock n).output := by
  have hle := (List.pairwise_cons.1 h).1
  unfold clock
  cases hbehind : d.behind with
  | nil => exact hle n (by simp)
  | cons m ms => exact hle m (by simp [hbehind])

end DelayLine

namespace Crossing

inductive Side where
  | sender
  | receiver

namespace Side

def other : Side → Side
  | sender => receiver
  | receiver => sender

/-- The call with which the clock of a side ticks. -/
def tick : Side → Action
  | sender => .senderTick
  | receiver => .receiverTick

def isTick : Side → Action → Bool
  | sender, .senderTick | receiver, .receiverTick => true
  | _, _ => false

def ticks (side : Side) (actions : List Action) : Nat := actions.countP side.isTick

def pointer : Side → Crossing → Nat
  | sender, q => q.sender.pointer
  | receiver, q => q.receiver.pointer

/-- The word that a side shows of its pointer. -/
def published : Side → Crossing → UInt32
  | sender, q => q.sentGray
  | receiver, q => q.goneGray

/-- What a side sees of the other, and all its decisions about the fill rest on. -/
def view : Side → Crossing → DelayLine UInt32
  | sender, q => q.sender.view
  | receiver, q => q.receiver.view

/-- A queue as it stood at each tick of a side. -/
def atTicks (side : Side) (q : Crossing) : List Action → List Crossing
  | [] => []
  | a :: actions => if side.isTick a then q :: side.atTicks (q.call a) actions else side.atTicks (q.call a) actions

variable {side : Side} {q : Crossing}

theorem isTick_tick (side : Side) : side.isTick side.tick = true := by
  cases side <;> rfl

theorem view_call (side : Side) (q : Crossing) (a : Action) :
    side.view (q.call a) = if side.isTick a then (side.view q).clock (side.other.published q) else side.view q := by
  cases side with
  | sender =>
    cases a with
    | push b =>
      show (q.push b).2.sender.view = q.sender.view
      unfold push
      split <;> rfl
    | take => exact congrArg Sender.view (sender_call (a := .take) rfl)
    | _ => rfl
  | receiver =>
    cases a with
    | push b => exact congrArg Receiver.view (receiver_call (a := .push b) rfl)
    | take =>
      show q.take.2.receiver.view = q.receiver.view
      unfold take
      split <;> rfl
    | _ => rfl

/-- **A side sees, tick by tick, what the other has published.** -/
theorem view_calls (side : Side) (q : Crossing) (actions : List Action) :
    side.view (q.calls actions) = (side.view q).feed ((side.atTicks q actions).map side.other.published) := by
  induction actions generalizing q with
  | nil => rfl
  | cons a actions ih =>
    show side.view ((q.call a).calls actions) = _
    rw [ih, view_call, atTicks]
    split <;> rfl

theorem length_atTicks (side : Side) (q : Crossing) (actions : List Action) :
    (side.atTicks q actions).length = side.ticks actions := by
  induction actions generalizing q with
  | nil => rfl
  | cons a actions ih =>
    rw [atTicks, ticks, List.countP_cons, ← ticks, ← ih (q.call a)]
    split <;> rfl

theorem atTicks_append (side : Side) (q : Crossing) (a b : List Action) :
    side.atTicks q (a ++ b) = side.atTicks q a ++ side.atTicks (q.calls a) b := by
  induction a generalizing q with
  | nil => rfl
  | cons x a ih =>
    show (if side.isTick x then q :: side.atTicks (q.call x) (a ++ b) else side.atTicks (q.call x) (a ++ b)) =
      (if side.isTick x then q :: side.atTicks (q.call x) a else side.atTicks (q.call x) a) ++ _
    rw [ih]
    split <;> rfl

theorem atTicks_tick (side : Side) (q : Crossing) (actions : List Action) :
    side.atTicks q (side.tick :: actions) = q :: side.atTicks (q.call side.tick) actions := by
  rw [atTicks, if_pos side.isTick_tick]

theorem atTicks_eq_nil {actions : List Action} (h : side.ticks actions = 0) (q : Crossing) :
    side.atTicks q actions = [] := by
  rw [← List.length_eq_zero_iff, length_atTicks, h]

theorem mem_atTicks {actions : List Action} {r : Crossing} (h : r ∈ side.atTicks q actions) :
    ∃ before, before <+: actions ∧ r = q.calls before := by
  induction actions generalizing q with
  | nil => cases h
  | cons a actions ih =>
    have hcases : r = q ∨ r ∈ side.atTicks (q.call a) actions := by
      rw [atTicks] at h
      split at h
      · exact List.mem_cons.1 h
      · exact Or.inr h
    rcases hcases with rfl | hlater
    · exact ⟨[], List.nil_prefix, rfl⟩
    · obtain ⟨before, hprefix, rfl⟩ := ih hlater
      exact ⟨a :: before, List.cons_prefix_cons.2 ⟨rfl, hprefix⟩, rfl⟩

/-- **A side sees in one queue what the other showed in another**: the word, and the pointer it stands for. -/
def Sees (side : Side) (q r : Crossing) : Prop :=
  (side.view q).output = side.other.published r ∧ ungray (side.view q).output = side.other.pointer r

end Side

variable {q : Crossing} {depth : Nat}

/-- The bytes that the receiver has had in sight, since the beginning. -/
def shown (q : Crossing) : Nat := q.departed + q.receiverLevel

namespace Window

variable {sent : List Beat} {seenGone seenSent : Nat}

theorem ungray_published {gone : Nat} (h : Window q sent gone seenGone seenSent) (side : Side) :
    ungray (side.published q) = side.pointer q := by
  cases side with
  | sender =>
    show ungray q.sentGray = q.sender.pointer
    rw [h.sentGray, ungray_word h.width_le, h.senderPointer]
  | receiver =>
    show ungray q.goneGray = q.receiver.pointer
    rw [h.goneGray, ungray_word h.width_le, h.receiverPointer]

theorem shown_eq (h : Window q sent q.departed seenGone seenSent) : q.shown = seenSent := by
  rw [shown, h.receiverLevel_eq, Nat.add_sub_cancel' h.gone_le]

theorem departed_call_le (h : Window q sent q.departed seenGone seenSent) (a : Action) :
    (q.call a).departed ≤ q.shown := by
  have hle : q.departed ≤ q.shown := Nat.le_add_right ..
  cases a with
  | reset => exact Nat.le_of_eq (Nat.add_assoc ..).symm
  | push b =>
    show (q.push b).2.receiver.popped + (q.push b).2.receiver.resetBytes ≤ _
    rw [show (q.push b).2.receiver = q.receiver from receiver_call (a := .push b) rfl]
    exact hle
  | take =>
    show q.take.2.departed ≤ _
    rcases Nat.eq_or_lt_of_le h.gone_le with heq | hlt
    · rw [h.take_of_eq heq]
      exact hle
    · have hlater : q.take.2.departed ≤ q.departed + 1 := by
        unfold take departed
        split <;> dsimp only <;> omega
      rw [h.shown_eq]
      omega
  | _ => exact hle

end Window

theorem pushed_call (q : Crossing) (a : Action) : q.sender.pushed ≤ (q.call a).sender.pushed := by
  cases a with
  | push b =>
    show _ ≤ (q.push b).2.sender.pushed
    unfold push
    split
    · exact Nat.le_refl _
    · exact Nat.le_succ _
  | take => exact Nat.le_of_eq (congrArg Sender.pushed (sender_call (a := .take) rfl)).symm
  | _ => exact Nat.le_refl _

theorem pushed_calls (q : Crossing) (actions : List Action) : q.sender.pushed ≤ (q.calls actions).sender.pushed := by
  induction actions generalizing q with
  | nil => exact Nat.le_refl _
  | cons a actions ih => exact Nat.le_trans (pushed_call q a) (ih (q.call a))

/-- How many bytes had been sent at each tick of the receiver. -/
def pushedAtTicks (q : Crossing) (actions : List Action) : List Nat :=
  (Side.receiver.atTicks q actions).map (·.sender.pushed)

theorem pushedAtTicks_append (q : Crossing) (a b : List Action) :
    pushedAtTicks q (a ++ b) = pushedAtTicks q a ++ pushedAtTicks (q.calls a) b := by
  rw [pushedAtTicks, Side.atTicks_append, List.map_append]
  rfl

theorem pushedAtTicks_bounds {actions : List Action} {n : Nat} (h : n ∈ pushedAtTicks q actions) :
    q.sender.pushed ≤ n ∧ n ≤ (q.calls actions).sender.pushed := by
  obtain ⟨r, hr, rfl⟩ := List.mem_map.1 h
  obtain ⟨before, ⟨rest, rfl⟩, rfl⟩ := Side.mem_atTicks hr
  rw [calls_append]
  exact ⟨pushed_calls q before, pushed_calls _ rest⟩

theorem pairwise_pushedAtTicks (q : Crossing) (actions : List Action) :
    (pushedAtTicks q actions ++ [(q.calls actions).sender.pushed]).Pairwise (· ≤ ·) := by
  refine List.pairwise_append.2 ⟨?_, List.pairwise_singleton _ _, fun n hn m hm => ?_⟩
  · induction actions generalizing q with
    | nil => exact List.Pairwise.nil
    | cons a actions ih =>
      unfold pushedAtTicks Side.atTicks
      split
      · exact List.Pairwise.cons
          (fun n hn => Nat.le_trans (pushed_call q a) (pushedAtTicks_bounds hn).1) (ih (q.call a))
      · exact ih (q.call a)
  · rw [List.mem_singleton.1 hm]
    exact (pushedAtTicks_bounds hn).2

/-- The bytes that had been sent at the last tick but one of the receiver. -/
def pushedInView (q : Crossing) (actions : List Action) : Nat :=
  ((DelayLine.reset crossingStages 0).feed (pushedAtTicks q actions)).output

theorem pushedInView_le_append (q : Crossing) (actions : List Action) (a : Action) :
    pushedInView q actions ≤ pushedInView q (actions ++ [a]) := by
  unfold pushedInView
  rw [pushedAtTicks_append]
  by_cases htick : Side.receiver.isTick a = true
  · have hone : pushedAtTicks (q.calls actions) [a] = [(q.calls actions).sender.pushed] := by
      rw [pushedAtTicks, Side.atTicks, if_pos htick]
      rfl
    rw [hone, DelayLine.feed, DelayLine.feed, List.foldl_append]
    refine DelayLine.output_le_clock ?_
    show ((DelayLine.feed _ (pushedAtTicks q actions)).stages ++ [(q.calls actions).sender.pushed]).Pairwise _
    rw [DelayLine.stages_feed]
    refine List.Pairwise.sublist ((List.drop_sublist ..).append_right _) ?_
    rw [List.append_assoc]
    refine List.pairwise_append.2 ⟨by decide, pairwise_pushedAtTicks q actions, fun n hn m _ => ?_⟩
    rw [List.eq_of_mem_replicate (n := 2) hn]
    exact Nat.zero_le m
  · have hnone : pushedAtTicks (q.calls actions) [a] = [] := by
      rw [pushedAtTicks, Side.atTicks, if_neg htick]
      rfl
    rw [hnone, List.append_nil]

/-! ## What becomes of a new queue -/

theorem side_create (hq : create depth = .ok q) (side : Side) :
    side.view q = .reset crossingStages 0 ∧ side.published q = 0 ∧ side.pointer q = 0 := by
  unfold create at hq
  split at hq
  · cases hq
    cases side <;> exact ⟨rfl, rfl, rfl⟩
  · cases hq

theorem view_eq_word (hq : create depth = .ok q) (actions : List Action) :
    (q.calls actions).receiver.view.output = word (depth * 2) (pushedInView q actions) := by
  have hword : (Side.receiver.atTicks q actions).map Side.sender.published =
      (pushedAtTicks q actions).map (word (depth * 2)) := by
    rw [pushedAtTicks, List.map_map]
    refine List.map_congr_left fun r hr => ?_
    obtain ⟨before, -, rfl⟩ := Side.mem_atTicks hr
    obtain ⟨hdepth, _, _, hw⟩ := window_calls hq before
    show (q.calls before).sentGray = word (depth * 2) (q.calls before).sender.pushed
    rw [hw.sentGray, hw.pushed, modulus_eq, hdepth]
  have hzero : (0 : UInt32) = word (depth * 2) 0 := by simp [word, gray, Gray.encode]
  show (Side.receiver.view (q.calls actions)).output = _
  rw [Side.view_calls, (side_create hq .receiver).1, Side.other, hword, hzero,
    DelayLine.output_feed_map (by decide), pushedInView]

theorem pushedInView_le (q : Crossing) (actions : List Action) :
    pushedInView q actions ≤ (q.calls actions).sender.pushed := by
  have hmem := DelayLine.output_feed_mem_left (by decide) 0 (pushedAtTicks q actions)
    (show ([] : List Nat).length < crossingStages by decide)
  rw [List.append_nil] at hmem
  rcases List.mem_cons.1 hmem with hzero | hmem
  · exact Nat.le_trans (Nat.le_of_eq hzero) (Nat.zero_le _)
  · exact (pushedAtTicks_bounds hmem).2

theorem shown_eq_of_departed_le (hq : create depth = .ok q) {actions : List Action}
    (hle : (q.calls actions).departed ≤ pushedInView q actions) :
    (q.calls actions).shown = pushedInView q actions := by
  obtain ⟨hdepth, seenGone, seenSent, hw⟩ := window_calls hq actions
  have hmod : seenSent % (q.calls actions).modulus = pushedInView q actions % (q.calls actions).modulus := by
    have hview := view_eq_word hq actions
    rw [← hdepth, ← modulus_eq, hw.receiverView.1] at hview
    rw [← ungray_word hw.width_le, hview, ungray_word hw.width_le]
  have := hw.seenGone_le; have := hw.gone_le; have := hw.seenSent_le; have := hw.sent_le
  have := (q.calls actions).modulus_eq; have := (q.calls actions).depth_pos
  have hsent := pushedInView_le q actions
  rw [hw.pushed] at hsent
  rw [hw.shown_eq]
  -- both counts lie between what is gone and what was sent, which are less than a modulus apart
  rcases Nat.le_total seenSent (pushedInView q actions) with h | h
  · exact (mod_eq_mod_iff h (by omega)).1 hmod
  · exact ((mod_eq_mod_iff h (by omega)).1 hmod.symm).symm

/-- **The receiver has had in sight what had been sent at its last tick but one.** -/
theorem shown_eq_pushedInView (hq : create depth = .ok q) (actions : List Action) :
    (q.calls actions).shown = pushedInView q actions := by
  refine shown_eq_of_departed_le hq ?_
  -- a call takes no more than is in sight, and what is in view at one tick does not fall at the next
  induction actions using List.reverseRecOn with
  | nil =>
    have hstart : q.departed = 0 := by
      rw [departed, (counters_create hq).1]
      rfl
    exact Nat.le_trans (Nat.le_of_eq hstart) (Nat.zero_le _)
  | append_singleton actions a ih =>
    obtain ⟨-, _, _, hw⟩ := window_calls hq actions
    rw [calls_append]
    calc ((q.calls actions).call a).departed ≤ (q.calls actions).shown := hw.departed_call_le a
      _ = pushedInView q actions := shown_eq_of_departed_le hq ih
      _ ≤ pushedInView q (actions ++ [a]) := pushedInView_le_append q actions a

theorem pushed_lt_shown_iff (hq : create depth = .ok q) {before : List Action} {b : Beat}
    (hsent : ((q.calls before).push b).1 = true) (later : List Action) :
    (q.calls before).sender.pushed < (q.calls (before ++ .push b :: later)).shown ↔ 2 ≤ Side.receiver.ticks later := by
  have hpushed : ((q.calls before).call (.push b)).sender.pushed = (q.calls before).sender.pushed + 1 := by
    show ((q.calls before).push b).2.sender.pushed = _
    unfold push at hsent ⊢
    split at hsent
    · cases hsent
    · rw [if_neg ‹_›]
  have hticks : pushedAtTicks q (before ++ .push b :: later) =
      pushedAtTicks q before ++ pushedAtTicks ((q.calls before).call (.push b)) later :=
    pushedAtTicks_append q before _
  have hlength : (pushedAtTicks ((q.calls before).call (.push b)) later).length = Side.receiver.ticks later := by
    rw [pushedAtTicks, List.length_map, Side.length_atTicks]
  rw [shown_eq_pushedInView hq, pushedInView, hticks, ← hlength]
  show _ ↔ crossingStages ≤ _
  -- the count in view was taken at a tick after the push just where two of these have come
  constructor
  · intro hlt
    by_contra hfew
    rcases List.mem_cons.1 (DelayLine.output_feed_mem_left (by decide) 0 _ (Nat.lt_of_not_le hfew)) with hzero | hmem
    · rw [hzero] at hlt
      exact Nat.not_lt_zero _ hlt
    · exact absurd (pushedAtTicks_bounds hmem).2 (Nat.not_le_of_lt hlt)
  · intro hmany
    have hmem := DelayLine.output_feed_mem_right (by decide) 0 (pushedAtTicks q before) hmany
    exact Nat.lt_of_lt_of_le (hpushed ▸ Nat.lt_succ_self _) (pushedAtTicks_bounds hmem).1

theorem History.sent_after (h : History) (actions : List Action) : h.sent <+: (h.after actions).sent := by
  induction actions generalizing h with
  | nil => exact List.prefix_refl _
  | cons a actions ih =>
    refine List.IsPrefix.trans ?_ (ih (h.step a))
    cases a with
    | push b =>
      show h.sent <+: if (h.queue.push b).1 then h.sent ++ [b] else h.sent
      split
      · exact List.prefix_append ..
      · exact List.prefix_refl _
    | _ => exact List.prefix_refl _

theorem offered_eq (hq : create depth = .ok q) {before later : List Action} {b : Beat}
    (hsent : ((q.calls before).push b).1 = true)
    (hleft : (q.calls (before ++ .push b :: later)).departed = (q.calls before).sender.pushed) :
    (q.calls (before ++ .push b :: later)).offered = if 2 ≤ Side.receiver.ticks later then some b else none := by
  obtain ⟨-, _, _, hbefore⟩ := window_calls hq before
  obtain ⟨-, _, _, hw⟩ := window_calls hq (before ++ .push b :: later)
  have hshown := pushed_lt_shown_iff hq hsent later
  rw [hw.shown_eq, ← hleft] at hshown
  by_cases hticks : 2 ≤ Side.receiver.ticks later
  · rw [hw.offered_of_lt (hshown.2 hticks), if_pos hticks, hleft, hbefore.pushed]
    have hstep : ((History.after { queue := q } before).step (.push b)).sent =
        (History.after { queue := q } before).sent ++ [b] := by
      rw [← History.queue_after { queue := q } before] at hsent
      exact if_pos hsent
    have hprefix := ((History.after { queue := q } before).step (.push b)).sent_after later
    rw [hstep] at hprefix
    obtain ⟨rest, hrest⟩ := hprefix
    have hafter : (History.after { queue := q } (before ++ .push b :: later)).sent =
        (History.after { queue := q } before).sent ++ [b] ++ rest := by
      rw [hrest]
      unfold History.after
      rw [List.foldl_append]
      rfl
    rw [hafter, List.append_assoc, List.getElem?_append_right (Nat.le_refl _), Nat.sub_self]
    rfl
  · rw [if_neg hticks]
    refine hw.offered_of_eq (Nat.le_antisymm hw.gone_le ?_)
    exact Nat.le_of_not_lt fun h => hticks (hshown.1 h)

theorem sees_of_view (hq : create depth = .ok q) {side : Side} {r : Crossing} (before : List Action)
    (h : some (side.view r).output = some (side.other.published (q.calls before))) : side.Sees r (q.calls before) := by
  obtain ⟨-, _, _, hw⟩ := window_calls hq before
  have hview := Option.some_inj.1 h
  exact ⟨hview, hview ▸ hw.ungray_published side.other⟩

theorem sees_early (hq : create depth = .ok q) {side : Side} {actions : List Action}
    (hfew : side.ticks actions < crossingStages) : side.Sees (q.calls actions) q := by
  refine sees_of_view hq [] ?_
  rw [Side.view_calls, (side_create hq side).1, DelayLine.output_feed (by decide), List.length_map,
    Side.length_atTicks, if_pos hfew]
  exact congrArg some (side_create hq side.other).2.1.symm

theorem sees_late (hq : create depth = .ok q) {side : Side} (before : List Action) {between since : List Action}
    (hbetween : side.ticks between = 0) (hsince : side.ticks since = 0) :
    side.Sees (q.calls (before ++ side.tick :: between ++ side.tick :: since)) (q.calls before) := by
  refine sees_of_view hq before ?_
  have hticks : side.atTicks q (before ++ side.tick :: between ++ side.tick :: since) =
      side.atTicks q before ++ [q.calls before, q.calls (before ++ side.tick :: between)] := by
    rw [Side.atTicks_append, Side.atTicks_append, Side.atTicks_tick, Side.atTicks_tick, Side.atTicks_eq_nil hbetween,
      Side.atTicks_eq_nil hsince, List.append_assoc]
    rfl
  have hlength : (side.atTicks q (before ++ side.tick :: between ++ side.tick :: since)).length =
      (side.atTicks q before).length + crossingStages := by
    rw [hticks, List.length_append]
    rfl
  rw [Side.view_calls, (side_create hq side).1, DelayLine.output_feed (by decide), List.length_map, hlength,
    if_neg (by omega), Nat.add_sub_cancel, List.getElem?_map, hticks, List.getElem?_append_right (Nat.le_refl _),
    Nat.sub_self]
  rfl

/-- **How late each side of a queue sees the other.** -/
structure Delayed (q : Crossing) : Prop where
  /-- until its clock has ticked twice, a side sees the pointer that the other began with -/
  early : ∀ side actions, Side.ticks side actions < 2 → side.Sees (q.calls actions) q
  /-- then it sees the pointer that the other had published at its last tick but one -/
  late : ∀ side before between since, Side.ticks side between = 0 → Side.ticks side since = 0 →
    side.Sees (q.calls (before ++ side.tick :: between ++ side.tick :: since)) (q.calls before)
  /-- a byte comes into sight at the second tick of the receiver after it was sent -/
  shown : ∀ before b later, ((q.calls before).push b).1 = true →
    ((q.calls before).sender.pushed < (q.calls (before ++ .push b :: later)).shown ↔ 2 ≤ Side.receiver.ticks later)
  /-- and is on offer from then on, once all that was sent before it has left -/
  offered : ∀ before b later, ((q.calls before).push b).1 = true →
    (q.calls (before ++ .push b :: later)).departed = (q.calls before).sender.pushed →
    (q.calls (before ++ .push b :: later)).offered = if 2 ≤ Side.receiver.ticks later then some b else none

/-- **A delay line puts out what was put in as many ticks ago as it has stages, and a queue's two sides see each other
through such lines**, whatever they do in whatever order. -/
theorem delayed_of_create (hq : create depth = .ok q) :
    (∀ (stages : Nat) (x : UInt32) (inputs : List UInt32) (n : Nat), 1 ≤ stages → n ≤ inputs.length →
      ((DelayLine.reset stages x).outputs inputs)[n]? = if n < stages then some x else inputs[n - stages]?) ∧
    q.Delayed where
  left := fun _ x _ _ hs hn => DelayLine.getElem?_outputs_reset hs x hn
  right :=
    { early := fun _ _ hfew => sees_early hq hfew
      late := fun _ before _ _ hbetween hsince => sees_late hq before hbetween hsince
      shown := fun _ _ later hsent => pushed_lt_shown_iff hq hsent later
      offered := fun _ _ _ hsent hleft => offered_eq hq hsent hleft }

/-- Two slots are filled, and a reset moves the receiver's pointer past both. -/
def jumped : List Action :=
  [.push ⟨1, false⟩, .push ⟨2, true⟩, .receiverTick, .receiverTick, .reset, .senderTick, .senderTick]

theorem delayed_two_slots :
    create 2 = .ok { width := 1 } ∧ Delayed { width := 1 } ∧
      ((calls { width := 1 } jumped).push ⟨7, false⟩).1 = true ∧
      (calls { width := 1 } (jumped ++ [.push ⟨7, false⟩, .receiverTick])).offered = none ∧
      (calls { width := 1 } (jumped ++ [.push ⟨7, false⟩, .receiverTick, .receiverTick])).offered = some ⟨7, false⟩ :=
  ⟨rfl, (delayed_of_create (show create 2 = .ok { width := 1 } from rfl)).2, by decide +kernel, by decide +kernel, by decide +kernel⟩

end Crossing
end UsbRecorder
