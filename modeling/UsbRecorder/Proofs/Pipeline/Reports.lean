import UsbRecorder.Pipeline.ReportSide
import UsbRecorder.Proofs.Crossing.Window
import UsbRecorder.Proofs.Overflow.SpillView
/-!
# Reports — what a tick of the reporting clock does with the bytes that were sent

`Carried` says where the bytes are that have not passed the reader: first those in the store, then those in the queue.
`passes_tick` is all that a tick does: it drops bytes below the mark, unless the reader is within a record, and then it
delivers the next byte or none.
-/
namespace UsbRecorder

/-- What a store holds of the bytes that were sent: those that have left the queue and not passed the reader. -/
def Stored (store : Option Spill) (sent : List Beat) (passed gone : Nat) : Prop :=
  match store with
  | none => gone = passed
  | some s => passed ≤ gone ∧ s.Holds ((sent.take gone).drop passed)

/-- **The bytes that have not passed the reader are in the store and in the queue, in order.** -/
def Carried (store : Option Spill) (q : Crossing) (sent : List Beat) (passed : Nat) : Prop :=
  ∃ gone seenGone seenSent, Crossing.Window q sent gone seenGone seenSent ∧ Stored store sent passed gone

/-- **A tick of the reporting clock drops `count` bytes and then delivers one or none.** -/
structure ReportSide.Passes (r : ReportSide) (sent : List Beat) (stale count : Nat) (b : Option Beat) (r' : ReportSide) :
    Prop where
  staleBelow : r'.staleBelow = stale
  passed : r'.passed = r.passed + count + b.toList.length
  discarded : r'.discarded = r.discarded + count
  dropped : 0 < count → r.inRecord = false ∧ r.passed + count ≤ stale
  silent : b = none → r'.inRecord = r.inRecord
  delivered : ∀ x, b = some x → sent[r.passed + count]? = some x ∧ r'.inRecord = !x.last ∧
    (r.inRecord = false → stale ≤ r.passed + count)

theorem Stored.contents_eq {store : Option Spill} {sent : List Beat} {passed gone : Nat} (h : Stored store sent passed gone) :
    (store.map Spill.contents).getD [] = (sent.take gone).drop passed := by
  cases store with
  | none =>
    have heq : gone = passed := h
    simp [heq]
  | some s => exact h.2.contents_eq

theorem Stored.sent_append {store : Option Spill} {sent : List Beat} {passed gone : Nat} (h : Stored store sent passed gone)
    (hle : gone ≤ sent.length) (more : List Beat) : Stored store (sent ++ more) passed gone := by
  cases store with
  | none => exact h
  | some s =>
    obtain ⟨hpassed, hholds⟩ := h
    refine ⟨hpassed, ?_⟩
    rwa [List.take_append_of_le_length hle]

namespace Crossing

@[simp] theorem mark_take (q : Crossing) : q.take.2.mark = q.mark := by
  unfold take
  split <;> rfl

end Crossing

variable {store : Option Spill} {q : Crossing} {sent : List Beat} {passed : Nat}

theorem Carried.receiverTick (h : Carried store q sent passed) : Carried store q.receiverTick sent passed := by
  obtain ⟨gone, seenGone, seenSent, hw, hstored⟩ := h
  obtain ⟨seenSent', -, hw'⟩ := hw.receiverTick
  exact ⟨gone, seenGone, seenSent', hw', hstored⟩

/-! ## The queue and the store -/

theorem Carried.take_queue (h : Carried none q sent passed) :
    q.take.1 = none ∧ Carried none q.take.2 sent passed ∨
      ∃ b, q.take.1 = some b ∧ sent[passed]? = some b ∧ Carried none q.take.2 sent (passed + 1) := by
  obtain ⟨gone, seenGone, seenSent, hw, rfl⟩ := h
  rcases Nat.lt_or_eq_of_le hw.gone_le with hlt | heq
  · obtain ⟨htake, hw'⟩ := hw.take_of_lt hlt
    have hlen : gone < sent.length := Nat.lt_of_lt_of_le hlt hw.seenSent_le
    rw [List.getElem?_eq_getElem hlen] at htake
    exact .inr ⟨_, htake, List.getElem?_eq_getElem hlen, _, _, _, hw', rfl⟩
  · rw [hw.take_of_eq heq]
    exact .inl ⟨rfl, _, _, _, hw, rfl⟩

theorem Carried.tick_store {s : Spill} (h : Carried (some s) q sent passed) :
    Carried (some (s.tick q).1) (s.tick q).2 sent passed ∧ (s.tick q).2.mark = q.mark := by
  obtain ⟨gone, seenGone, seenSent, hw, hle, hholds⟩ := h
  rcases hholds.tick q with ⟨hq, hs⟩ | ⟨hq, hs⟩
  · rw [hq]
    exact ⟨⟨gone, seenGone, seenSent, hw, hle, hs⟩, rfl⟩
  · rw [hq]
    refine ⟨?_, Crossing.mark_take q⟩
    change Spill.Holds _ (_ ++ q.take.1.toList) at hs
    change Carried _ q.take.2 _ _
    rcases Nat.lt_or_eq_of_le hw.gone_le with hlt | heq
    · obtain ⟨htake, hw'⟩ := hw.take_of_lt hlt
      have hlen : gone < sent.length := Nat.lt_of_lt_of_le hlt hw.seenSent_le
      refine ⟨gone + 1, seenGone, seenSent, hw', Nat.le_succ_of_le hle, ?_⟩
      rw [htake, List.getElem?_eq_getElem hlen] at hs
      rwa [List.take_succ_eq_append_getElem hlen, List.drop_append_of_le_length (by simp; omega)]
    · rw [hw.take_of_eq heq] at hs ⊢
      rw [Option.toList_none, List.append_nil] at hs
      exact ⟨gone, seenGone, seenSent, hw, hle, hs⟩

theorem Carried.take_store {s : Spill} (h : Carried (some s) q sent passed) :
    s.take.1 = none ∧ Carried (some s.take.2) q sent passed ∨
      ∃ b, s.take.1 = some b ∧ sent[passed]? = some b ∧ Carried (some s.take.2) q sent (passed + 1) := by
  obtain ⟨gone, seenGone, seenSent, hw, hle, hholds⟩ := h
  rcases hholds.take with ⟨hnone, hs⟩ | ⟨b, rest, heq, hsome, hs⟩
  · exact .inl ⟨hnone, gone, seenGone, seenSent, hw, hle, hs⟩
  · have hlt : passed < (sent.take gone).length := by
      by_contra hge
      rw [List.drop_eq_nil_of_le (Nat.le_of_not_lt hge)] at heq
      cases heq
    rw [List.drop_eq_getElem_cons hlt] at heq
    obtain ⟨hb, hrest⟩ := List.cons.inj heq
    rw [List.length_take] at hlt
    refine .inr ⟨b, hsome, ?_, gone, seenGone, seenSent, hw, by omega, hrest ▸ hs⟩
    rw [← hb, List.getElem_take, List.getElem?_eq_getElem]

namespace ReportSide

variable {r : ReportSide}

theorem stored_eq {gone : Nat} (h : Stored r.store sent r.passed gone) (hle : gone ≤ sent.length) :
    r.passed ≤ gone ∧ r.stored = gone - r.passed := by
  unfold stored
  cases hs : r.store with
  | none =>
    rw [hs] at h
    have heq : gone = r.passed := h
    subst heq
    exact ⟨Nat.le_refl _, (Nat.sub_self _).symm⟩
  | some s =>
    rw [hs] at h
    obtain ⟨hpassed, hholds⟩ := h
    refine ⟨hpassed, ?_⟩
    show s.held = _
    rw [hholds.held_eq, List.length_drop, List.length_take, Nat.min_eq_left hle]

theorem skipping_iff : r.skipping = true ↔ r.passed < r.staleBelow ∧ r.inRecord = false := by
  simp [skipping]

theorem Passes.refl (r : ReportSide) (sent : List Beat) : r.Passes sent r.staleBelow 0 none r :=
  ⟨rfl, rfl, rfl, nofun, fun _ => rfl, nofun⟩

/-- **All that is seen is dropped, if all of it is stale.** -/
theorem passes_dropStale (h : Carried r.store q sent r.passed) (hskip : r.skipping = true) :
    ∃ count, r.Passes sent r.staleBelow count none (r.dropStale q).1 ∧
      Carried (r.dropStale q).1.store (r.dropStale q).2 sent (r.dropStale q).1.passed ∧ (r.dropStale q).2.mark = q.mark := by
  obtain ⟨hbelow, hfree⟩ := skipping_iff.1 hskip
  have hkept := h
  obtain ⟨gone, seenGone, seenSent, hw, hstored⟩ := h
  have hgone := hw.gone_le
  have hseen := hw.seenSent_le
  obtain ⟨hpassed, hheld⟩ := stored_eq hstored (Nat.le_trans hgone hseen)
  have hlevel := hw.receiverLevel_eq
  unfold dropStale
  dsimp only
  split
  · exact ⟨0, .refl r sent, hkept, rfl⟩
  · rename_i hvisible
    rw [not_or, Nat.not_lt] at hvisible
    have hsum : r.passed + (r.stored + q.receiverLevel) = seenSent := by omega
    refine ⟨r.stored + q.receiverLevel, ⟨rfl, rfl, rfl, fun _ => ⟨hfree, by omega⟩, fun _ => rfl, nofun⟩, ?_, ?_⟩
    · dsimp only
      rw [hsum]
      have hcleared : Stored (r.store.map fun s => s.clear.2) sent seenSent seenSent := by
        cases hs : r.store with
        | none => rfl
        | some s =>
          rw [hs] at hstored
          have hnothing : (sent.take seenSent).drop seenSent = [] := by simp
          refine ⟨Nat.le_refl _, ?_⟩
          rw [hnothing]
          exact hstored.2.clear.2
      split
      · exact ⟨seenSent, seenGone, seenSent, hw.reset.2, hcleared⟩
      · have heq : gone = seenSent := by omega
        exact ⟨seenSent, seenGone, seenSent, heq ▸ hw, hcleared⟩
    · dsimp only
      split <;> rfl

/-- **A byte is fetched, if one is wanted and offered**: the next one that has not passed. -/
theorem fetch_spec (h : Carried r.store q sent r.passed) (wanted : Bool) :
    ∃ store, (r.fetch q wanted).2.1 = { r with store } ∧ (r.fetch q wanted).2.2.mark = q.mark ∧
      ((r.fetch q wanted).1 = none ∧ Carried store (r.fetch q wanted).2.2 sent r.passed ∨
        ∃ b, (r.fetch q wanted).1 = some b ∧ wanted = true ∧ sent[r.passed]? = some b ∧
          Carried store (r.fetch q wanted).2.2 sent (r.passed + 1)) := by
  unfold fetch
  cases hs : r.store with
  | none =>
    rw [hs] at h
    have hsame : r = { r with store := none } := by rw [← hs]
    cases wanted with
    | false => exact ⟨none, hsame, rfl, .inl ⟨rfl, h⟩⟩
    | true => exact ⟨none, hsame, q.mark_take, h.take_queue.imp id fun ⟨b, hb⟩ => ⟨b, hb.1, rfl, hb.2⟩⟩
  | some s =>
    rw [hs] at h
    obtain ⟨hcarried, hmark⟩ := h.tick_store
    cases wanted with
    | false => exact ⟨some (s.tick q).1, rfl, hmark, .inl ⟨rfl, hcarried⟩⟩
    | true =>
      exact ⟨some (s.tick q).1.take.2, rfl, hmark, hcarried.take_store.imp id fun ⟨b, hb⟩ => ⟨b, hb.1, rfl, hb.2⟩⟩

/-- What is seen of stale bytes is dropped at once, before a byte is fetched. -/
def clean (r : ReportSide) (q : Crossing) : ReportSide × Crossing := if r.skipping then r.dropStale q else (r, q)

theorem passes_clean (h : Carried r.store q sent r.passed) :
    ∃ count, r.Passes sent r.staleBelow count none (r.clean q).1 ∧
      Carried (r.clean q).1.store (r.clean q).2 sent (r.clean q).1.passed ∧ (r.clean q).2.mark = q.mark := by
  unfold clean
  split
  · rename_i hskip
    exact passes_dropStale h hskip
  · exact ⟨0, .refl r sent, h, rfl⟩

theorem passes_deliver {r₂ : ReportSide} {stale count : Nat} (h : r.Passes sent stale count none r₂) {b : Beat}
    (hb : sent[r₂.passed]? = some b) (store : Option Spill) :
    ∃ count', r.Passes sent stale count' (deliver { r₂ with store } r₂.skipping b).1
      (deliver { r₂ with store } r₂.skipping b).2 := by
  have hpassed : r₂.passed = r.passed + count := h.passed
  have hsame : r₂.inRecord = r.inRecord := h.silent rfl
  have hstale := h.staleBelow
  unfold deliver
  cases hskip : r₂.skipping with
  | true =>
    obtain ⟨hbelow, hfree⟩ := skipping_iff.1 hskip
    refine ⟨count + 1, hstale, ?_, ?_, fun _ => ⟨hsame ▸ hfree, by omega⟩, fun _ => hsame, nofun⟩
    · show r₂.passed + 1 = r.passed + (count + 1) + 0
      omega
    · show r₂.discarded + 1 = r.discarded + (count + 1)
      rw [h.discarded, Nat.add_assoc]
  | false =>
    refine ⟨count, hstale, ?_, h.discarded, h.dropped, nofun, fun x hx => ?_⟩
    · show r₂.passed + 1 = r.passed + count + 1
      rw [hpassed]
    · cases hx
      refine ⟨hpassed ▸ hb, rfl, fun hfree => ?_⟩
      by_contra hlt
      rw [skipping_iff.2 ⟨by omega, hsame.trans hfree⟩] at hskip
      cases hskip

theorem passed_deliver (r : ReportSide) (skipping : Bool) (b : Beat) :
    (r.deliver skipping b).2.passed = r.passed + 1 ∧ (r.deliver skipping b).2.store = r.store := by
  unfold deliver
  split <;> exact ⟨rfl, rfl⟩

theorem tick_of_none {r₂ r' : ReportSide} {q₂ q' : Crossing} {ready : Bool}
    (hclean : (r.hear q.mark).clean q.receiverTick = (r₂, q₂))
    (hfetch : r₂.fetch q₂ (ready || r₂.skipping) = (none, r', q')) : r.tick q ready = (none, r', q') := by
  unfold clean at hclean
  have hmark : q.receiverTick.mark = q.mark := rfl
  unfold tick
  dsimp only
  rw [hmark, hclean]
  dsimp only
  rw [hfetch]

theorem tick_of_some {r₂ r' : ReportSide} {q₂ q' : Crossing} {ready : Bool} {b : Beat}
    (hclean : (r.hear q.mark).clean q.receiverTick = (r₂, q₂))
    (hfetch : r₂.fetch q₂ (ready || r₂.skipping) = (some b, r', q')) :
    r.tick q ready = ((r'.deliver r₂.skipping b).1, (r'.deliver r₂.skipping b).2, q') := by
  unfold clean at hclean
  have hmark : q.receiverTick.mark = q.mark := rfl
  unfold tick
  dsimp only
  rw [hmark, hclean]
  dsimp only
  rw [hfetch]

/-- **All that a tick of the reporting clock does.** -/
theorem passes_tick (h : Carried r.store q sent r.passed) (ready : Bool) :
    ∃ count, r.Passes sent (max r.staleBelow q.mark) count (r.tick q ready).1 (r.tick q ready).2.1 ∧
      Carried (r.tick q ready).2.1.store (r.tick q ready).2.2 sent (r.tick q ready).2.1.passed ∧
      (r.tick q ready).2.2.mark = q.mark := by
  have hheard : Carried (r.hear q.mark).store q.receiverTick sent (r.hear q.mark).passed := h.receiverTick
  obtain ⟨count, hclean, hcarried, hmark⟩ := passes_clean hheard
  generalize hcleaned : (r.hear q.mark).clean q.receiverTick = cleaned at *
  obtain ⟨r₂, q₂⟩ := cleaned
  have hpasses : r.Passes sent (max r.staleBelow q.mark) count none r₂ :=
    ⟨hclean.staleBelow, hclean.passed, hclean.discarded, hclean.dropped, hclean.silent, hclean.delivered⟩
  obtain ⟨store, hr, hmark', hcase⟩ := fetch_spec hcarried (ready || r₂.skipping)
  generalize hfetch : r₂.fetch q₂ (ready || r₂.skipping) = fetched at *
  obtain ⟨b, r', q'⟩ := fetched
  dsimp only at *
  subst hr
  rcases hcase with ⟨rfl, hnext⟩ | ⟨b, rfl, -, hb, hnext⟩
  · rw [tick_of_none hcleaned hfetch]
    exact ⟨count, ⟨hpasses.staleBelow, hpasses.passed, hpasses.discarded, hpasses.dropped, hpasses.silent, nofun⟩, hnext,
      hmark'.trans hmark⟩
  · rw [tick_of_some hcleaned hfetch]
    obtain ⟨count', hdelivered⟩ := passes_deliver hpasses hb store
    obtain ⟨hpassed, hstore⟩ := passed_deliver { r₂ with store } r₂.skipping b
    refine ⟨count', hdelivered, ?_, hmark'.trans hmark⟩
    rw [hpassed, hstore]
    exact hnext

end ReportSide
end UsbRecorder
