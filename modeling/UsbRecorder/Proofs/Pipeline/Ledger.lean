import UsbRecorder.Proofs.Pipeline.Reading
import UsbRecorder.Proofs.Recorder.Outcome
/-!
# Ledger — the records that a recorder has framed, and what of them was handed over

Records are numbered as they are framed and bytes as they are handed over.  `Ledger.Tells l r` says that the ring of `r`
holds what the ledger has down for it.  What was handed over are records in the order of their numbers, none of them
twice, and a discard leaves out those that it drops.
-/
namespace UsbRecorder

/-- What a recorder has framed, and what of it was handed over. -/
structure Ledger where
  /-- the records put into the ring, in order; the number of a record is its place here -/
  committed : List Recorder.Framing := []
  /-- the numbers of the records in the ring -/
  held : List Nat := []
  /-- bytes handed over of the first record in the ring -/
  taken : Nat := 0
  /-- the numbers of the records handed over, in whole or in part -/
  handed : List Nat := []
  /-- the bytes handed over, in order; the number of a byte is its place here -/
  sent : List Beat := []

namespace Ledger

/-- A record by its number. -/
def bytes (l : Ledger) (k : Nat) : List UInt8 := (l.committed[k]?.map Recorder.Framing.bytes).getD []

/-- The records handed over, in whole or in part. -/
def records (l : Ledger) : List (List UInt8) := l.handed.map l.bytes

/-- The number of the first byte of a record handed over, given as its place among those. -/
def start (l : Ledger) (i : Nat) : Nat := (streamOf (l.records.take i)).length

/-- The numbers of the records of which nothing was handed over yet. -/
def fresh (l : Ledger) : List Nat := if l.taken = 0 then l.held else l.held.tail

/-- What is still to come of a record handed over in part. -/
def unsent (l : Ledger) : List Beat := (streamOf ((Ring.Holds.kept l.held l.taken).map l.bytes)).drop l.taken

/-- Records are framed on a tick, which may discard those of the ring. -/
def frame (l : Ledger) (discarding : Bool) (new : List Recorder.Framing) : Ledger :=
  { l with
    committed := l.committed ++ new
    held := Recorder.surviving l.held l.taken discarding ++ List.range' l.committed.length new.length }

/-- The next byte is handed over. -/
def handOver (l : Ledger) (b : Beat) : Ledger :=
  { l with
    sent := l.sent ++ [b]
    handed := if l.taken = 0 then l.handed ++ l.held.take 1 else l.handed
    held := if b.last then l.held.tail else l.held
    taken := if b.last then 0 else l.taken + 1 }

/-- **The ring of a recorder holds what the ledger has down for it.** -/
structure Tells (l : Ledger) (r : Recorder) : Prop where
  taken : r.ring.taken = l.taken
  holds : ∃ payload, r.Holds (l.held.map l.bytes) payload
  isRecord : ∀ f ∈ l.committed, f.IsRecord
  order : (l.handed ++ l.fresh).Pairwise (· < ·)
  known : ∀ k ∈ l.handed ++ l.held, k < l.committed.length
  stream : l.sent ++ l.unsent = streamOf l.records

variable {l l' : Ledger} {r : Recorder}

theorem fresh_subset (l : Ledger) : ∀ k ∈ l.fresh, k ∈ l.held := by
  intro k hk
  unfold fresh at hk
  split at hk
  · exact hk
  · exact List.mem_of_mem_tail hk

/-! ## Framing -/

theorem map_bytes_of_prefix (hinit : l.committed <+: l'.committed) {ks : List Nat}
    (hks : ∀ k ∈ ks, k < l.committed.length) : ks.map l'.bytes = ks.map l.bytes := by
  obtain ⟨new, hnew⟩ := hinit
  refine List.map_congr_left fun k hk => ?_
  unfold bytes
  rw [← hnew, List.getElem?_append_left (hks k hk)]

theorem map_bytes_frame (discarding : Bool) (new : List Recorder.Framing) {ks : List Nat}
    (hks : ∀ k ∈ ks, k < l.committed.length) : ks.map (l.frame discarding new).bytes = ks.map l.bytes :=
  map_bytes_of_prefix (List.prefix_append _ _) hks

theorem map_bytes_range' (discarding : Bool) (new : List Recorder.Framing) :
    (List.range' l.committed.length new.length).map (l.frame discarding new).bytes = new.map Recorder.Framing.bytes := by
  refine List.ext_getElem (by simp) fun i hi hi' => ?_
  have hlt : i < new.length := by simpa using hi'
  simp [bytes, frame, hlt]

theorem map_surviving (ks : List Nat) (taken : Nat) (discarding : Bool) :
    (Recorder.surviving ks taken discarding).map l.bytes = Recorder.surviving (ks.map l.bytes) taken discarding := by
  unfold Recorder.surviving Ring.Holds.kept
  split
  · split
    · rfl
    · rw [List.map_take]
  · rfl

theorem kept_surviving {ks new : List Nat} {taken : Nat} (hne : taken ≠ 0 → ks ≠ []) (discarding : Bool) :
    Ring.Holds.kept (Recorder.surviving ks taken discarding ++ new) taken = Ring.Holds.kept ks taken := by
  unfold Recorder.surviving Ring.Holds.kept
  by_cases hz : taken = 0
  · rw [if_pos hz, if_pos hz]
  · obtain ⟨k, rest, rfl⟩ := List.exists_cons_of_ne_nil (hne hz)
    cases discarding <;> simp [hz]

/-- A discard leaves no record of which nothing was handed over. -/
theorem fresh_frame (hne : l.taken ≠ 0 → l.held ≠ []) (discarding : Bool) (new : List Recorder.Framing) :
    (l.frame discarding new).fresh =
      (if discarding then [] else l.fresh) ++ List.range' l.committed.length new.length := by
  unfold fresh frame Recorder.surviving Ring.Holds.kept
  dsimp only
  by_cases hz : l.taken = 0
  · cases discarding <;> simp [hz]
  · obtain ⟨k, rest, hheld⟩ := List.exists_cons_of_ne_nil (hne hz)
    cases discarding <;> simp [hz, hheld]

/-! ## A byte that is handed over -/

/-- What was handed over and what was not begun are together as before. -/
theorem handed_fresh_handOver {k : Nat} {ks : List Nat} (hheld : l.held = k :: ks) (b : Beat) :
    (l.handOver b).handed ++ (l.handOver b).fresh = l.handed ++ l.fresh := by
  unfold handOver fresh
  dsimp only
  by_cases hz : l.taken = 0 <;> cases b.last <;> simp [hz, hheld]

theorem mem_of_mem_handOver {b : Beat} {k : Nat} (hk : k ∈ (l.handOver b).handed ++ (l.handOver b).held) :
    k ∈ l.handed ++ l.held := by
  rcases List.mem_append.1 hk with hhanded | hheld
  · replace hhanded : k ∈ if l.taken = 0 then l.handed ++ l.held.take 1 else l.handed := hhanded
    split at hhanded
    · exact List.mem_append.2 ((List.mem_append.1 hhanded).imp_right List.mem_of_mem_take)
    · exact List.mem_append_left _ hhanded
  · replace hheld : k ∈ if b.last then l.held.tail else l.held := hheld
    split at hheld
    · exact List.mem_append_right _ (List.mem_of_mem_tail hheld)
    · exact List.mem_append_right _ hheld

theorem unsent_handOver {k : Nat} {ks : List Nat} (hheld : l.held = k :: ks) {b : Beat}
    (hlast : b.last = true ↔ l.taken + 1 = (l.bytes k).length) :
    (l.handOver b).unsent = (Beat.ofRecord (l.bytes k)).drop (l.taken + 1) := by
  unfold unsent handOver Ring.Holds.kept
  dsimp only
  by_cases hend : b.last = true
  · rw [if_pos hend, if_pos hend, if_pos rfl, hlast.1 hend]
    simp
  · rw [if_neg hend, if_neg hend, if_neg (Nat.succ_ne_zero _), hheld]
    simp [streamOf]
    rfl

theorem streamOf_records_handOver {k : Nat} {ks : List Nat} (hheld : l.held = k :: ks)
    (hstream : l.sent ++ l.unsent = streamOf l.records) (b : Beat) :
    streamOf (l.handOver b).records = l.sent ++ (Beat.ofRecord (l.bytes k)).drop l.taken := by
  show streamOf ((if l.taken = 0 then l.handed ++ l.held.take 1 else l.handed).map l.bytes) = _
  unfold unsent Ring.Holds.kept at hstream
  by_cases hz : l.taken = 0
  · rw [if_pos hz, List.map_nil, streamOf_nil, List.drop_nil, List.append_nil] at hstream
    rw [if_pos hz, hheld, hz, hstream, List.map_append, streamOf_append]
    simp [records]
  · rw [if_neg hz, hheld] at hstream
    rw [if_neg hz]
    simpa [records] using hstream.symm

namespace Tells

theorem held_ne_nil (h : l.Tells r) : l.taken ≠ 0 → l.held ≠ [] := by
  intro hz hnil
  obtain ⟨payload, hholds⟩ := h.holds
  rw [hnil] at hholds
  exact hz (h.taken ▸ hholds.ring.taken_eq_zero)

theorem handed_lt (h : l.Tells r) : ∀ k ∈ l.handed, k < l.committed.length := fun k hk =>
  h.known k (List.mem_append_left _ hk)

theorem held_lt (h : l.Tells r) : ∀ k ∈ l.held, k < l.committed.length := fun k hk =>
  h.known k (List.mem_append_right _ hk)

theorem kept_lt (h : l.Tells r) : ∀ k ∈ Ring.Holds.kept l.held l.taken, k < l.committed.length := by
  intro k hk
  unfold Ring.Holds.kept at hk
  split at hk
  · cases hk
  · exact h.held_lt k (List.mem_of_mem_take hk)

/-- **The end of the record being handed over**: what was handed over of it, and what is still to come. -/
theorem length_sent (h : l.Tells r) : l.sent.length + r.ring.restOfBegun = (streamOf l.records).length := by
  obtain ⟨payload, hholds⟩ := h.holds
  have hrest := hholds.ring.restOfBegun_eq
  have hlen : r.ring.restOfBegun = l.unsent.length := by
    rw [hrest, h.taken, unsent, List.length_drop]
    unfold Ring.Holds.kept
    split
    · simp
    · simp [streamOf, List.map_take]
  rw [hlen, ← List.length_append, h.stream]

theorem surviving_lt (h : l.Tells r) (discarding : Bool) :
    ∀ k ∈ Recorder.surviving l.held l.taken discarding, k < l.committed.length := by
  intro k hk
  unfold Recorder.surviving at hk
  split at hk
  · exact h.kept_lt k hk
  · exact h.held_lt k hk

theorem map_bytes_held_frame (h : l.Tells r) (discarding : Bool) (new : List Recorder.Framing) :
    (l.frame discarding new).held.map (l.frame discarding new).bytes =
      Recorder.surviving (l.held.map l.bytes) l.taken discarding ++ new.map Recorder.Framing.bytes := by
  rw [← map_surviving, ← map_bytes_range' discarding new, ← map_bytes_frame discarding new (h.surviving_lt discarding),
    ← List.map_append]
  rfl

/-- The numbers of the records framed last are above all those before. -/
theorem order_frame (h : l.Tells r) (discarding : Bool) (new : List Recorder.Framing) :
    ((l.frame discarding new).handed ++ (l.frame discarding new).fresh).Pairwise (· < ·) := by
  have hsub : (if discarding then [] else l.fresh).Sublist l.fresh := by cases discarding <;> simp
  rw [fresh_frame h.held_ne_nil, ← List.append_assoc]
  refine List.pairwise_append.2 ⟨h.order.sublist (hsub.append_left l.handed), List.pairwise_lt_range', ?_⟩
  intro a ha b hb
  have ha' : a < l.committed.length := by
    rcases List.mem_append.1 ha with hhanded | hfresh
    · exact h.handed_lt a hhanded
    · exact h.held_lt a (l.fresh_subset a (hsub.subset hfresh))
  exact Nat.lt_of_lt_of_le ha' (List.mem_range'_1.1 hb).1

theorem known_frame (h : l.Tells r) (discarding : Bool) (new : List Recorder.Framing) :
    ∀ k ∈ (l.frame discarding new).handed ++ (l.frame discarding new).held,
      k < (l.frame discarding new).committed.length := by
  intro k hk
  have hlen : (l.frame discarding new).committed.length = l.committed.length + new.length := List.length_append
  rw [hlen]
  rcases List.mem_append.1 hk with hhanded | hheld
  · exact Nat.lt_add_right _ (h.handed_lt k hhanded)
  · rcases List.mem_append.1 hheld with hold | hframed
    · exact Nat.lt_add_right _ (h.surviving_lt discarding k hold)
    · exact (List.mem_range'_1.1 hframed).2

/-- The record being handed over stays the first in the ring. -/
theorem unsent_frame (h : l.Tells r) (discarding : Bool) (new : List Recorder.Framing) :
    (l.frame discarding new).unsent = l.unsent := by
  have hkept : Ring.Holds.kept (l.frame discarding new).held l.taken = Ring.Holds.kept l.held l.taken :=
    kept_surviving h.held_ne_nil discarding
  unfold unsent
  rw [show (l.frame discarding new).taken = l.taken from rfl, hkept, map_bytes_frame discarding new h.kept_lt]

/-- **A tick frames its records behind those that it keeps.** -/
theorem frame (h : l.Tells r) (s : Sample) (event : Option BusEvent) :
    (l.frame (r.tick s event).1.discarding (r.tick s event).2.framed.reverse).Tells (r.tick s event).2 := by
  obtain ⟨payload, hholds⟩ := h.holds
  obtain ⟨payload', hnext⟩ := Recorder.holds_tick hholds s event
  have hisRecord := Recorder.isRecord_tick hholds s event
  have htaken : (r.tick s event).2.ring.taken = l.taken := (Recorder.steady_tick hholds s event).taken.trans h.taken
  rw [h.taken] at hnext
  refine ⟨htaken, ⟨payload', ?_⟩, fun f hf => ?_, h.order_frame _ _, h.known_frame _ _, ?_⟩
  · rw [h.map_bytes_held_frame]
    exact hnext
  · rcases List.mem_append.1 hf with hold | hnew
    · exact h.isRecord f hold
    · exact hisRecord f (List.mem_reverse.1 hnew)
  · have hrecords : (l.frame (r.tick s event).1.discarding (r.tick s event).2.framed.reverse).records = l.records :=
      map_bytes_frame _ _ h.handed_lt
    rw [h.unsent_frame, hrecords]
    exact h.stream

/-! ## Handing over -/

theorem of_eq {r' : Recorder} (h : l.Tells r) (hring : r'.ring = r.ring) (hphase : r'.phase = r.phase)
    (hlength : r'.length = r.length) (hhead : r'.headerAt = r.headerAt) (hcapture : r'.captureEvents = r.captureEvents) :
    l.Tells r' := by
  obtain ⟨payload, hholds⟩ := h.holds
  exact { h with
    taken := by rw [hring]; exact h.taken
    holds := ⟨payload, hholds.of_eq hring hphase hlength hhead hcapture⟩ }

theorem held_of_offered (h : l.Tells r) {b : Beat} (hb : r.ring.offered = some b) : ∃ k ks, l.held = k :: ks := by
  obtain ⟨payload, hholds⟩ := h.holds
  refine List.exists_cons_of_ne_nil fun hnil => ?_
  rw [hnil] at hholds
  rw [hholds.ring.offered_nil] at hb
  cases hb

/-- **The byte that is handed over is the next one of the first record in the ring.** -/
theorem handOver (h : l.Tells r) {b : Beat} (hb : r.ring.offered = some b) : (l.handOver b).Tells r.take.2 := by
  obtain ⟨k, ks, hheld⟩ := h.held_of_offered hb
  obtain ⟨payload, hholds⟩ := h.holds
  rw [hheld, List.map_cons] at hholds
  have hlt : l.taken < (l.bytes k).length := h.taken ▸ hholds.ring.taken
  obtain ⟨-, hrest, htaken⟩ := hholds.take
  rw [hholds.ring.offered_cons, h.taken] at hb
  rw [h.taken] at hrest htaken
  have hdrop : (Beat.ofRecord (l.bytes k)).drop l.taken = b :: (Beat.ofRecord (l.bytes k)).drop (l.taken + 1) := by
    obtain ⟨hi, hget⟩ := List.getElem?_eq_some_iff.1 hb
    rw [← hget, List.drop_eq_getElem_cons hi]
  have hlast : b.last = true ↔ l.taken + 1 = (l.bytes k).length := by
    rw [Beat.getElem?_ofRecord hlt] at hb
    cases hb
    exact beq_iff_eq
  refine ⟨?_, ⟨payload, ?_⟩, h.isRecord, ?_, ?_, ?_⟩
  · rw [htaken]
    show _ = if b.last then 0 else l.taken + 1
    by_cases hend : b.last = true
    · rw [if_pos hend, if_pos (hlast.1 hend)]
    · rw [if_neg hend, if_neg fun hl => hend (hlast.2 hl)]
  · show r.take.2.Holds ((if b.last then l.held.tail else l.held).map l.bytes) payload
    rw [hheld]
    dsimp only [Ring.Holds.rest] at hrest
    by_cases hend : b.last = true
    · rw [if_pos (hlast.1 hend)] at hrest
      rwa [if_pos hend]
    · rw [if_neg fun hl => hend (hlast.2 hl)] at hrest
      rwa [if_neg hend]
  · rw [handed_fresh_handOver hheld]
    exact h.order
  · exact fun j hj => h.known j (mem_of_mem_handOver hj)
  · rw [unsent_handOver hheld hlast, streamOf_records_handOver hheld h.stream, hdrop]
    show l.sent ++ [b] ++ _ = _
    rw [List.append_assoc]
    rfl

/-- **The records that were handed over are records that were framed, in order and none of them twice.** -/
theorem records_sublist (h : l.Tells r) : l.records.Sublist (l.committed.map Recorder.Framing.bytes) := by
  have hpair : l.handed.Pairwise (· < ·) := (List.pairwise_append.1 h.order).1
  let places : List (Fin l.committed.length) := l.handed.pmap (fun k hk => ⟨k, hk⟩) h.handed_lt
  have hplaces : places.Pairwise (· < ·) := hpair.pmap h.handed_lt fun _ _ _ _ hlt => hlt
  have heq : (places.map (l.committed[·])).map Recorder.Framing.bytes = l.records := by
    refine List.ext_getElem (by simp [places, records]) fun i hi _ => ?_
    have hi' : i < l.handed.length := by simpa [places] using hi
    have hlt : l.handed[i] < l.committed.length := h.handed_lt _ (List.getElem_mem hi')
    simp [places, records, bytes, hlt]
  rw [← heq]
  exact (List.map_getElem_sublist hplaces).map _

theorem exists_record (h : l.Tells r) {bytes : List UInt8} (hbytes : bytes ∈ l.records) :
    ∃ record : Record, record.Framable ∧ bytes = record.toBytes := by
  obtain ⟨f, hf, rfl⟩ := List.mem_map.1 (h.records_sublist.subset hbytes)
  exact h.isRecord f hf

theorem records_ne_nil (h : l.Tells r) : ∀ rec ∈ l.records, rec ≠ [] := by
  intro rec hrec
  obtain ⟨record, -, rfl⟩ := h.exists_record hrec
  exact record.toBytes_ne_nil

end Tells

/-! ## What only grows -/

/-- **A later ledger**: what was framed and handed over stays, and what is handed over more was either waiting before or
has been framed since. -/
structure Extends (l l' : Ledger) : Prop where
  committed : l.committed <+: l'.committed
  sent : l.sent <+: l'.sent
  handed : ∃ more, l'.handed = l.handed ++ more ∧ ∀ k ∈ more ++ l'.fresh, k ∈ l.fresh ∨ l.committed.length ≤ k

theorem Extends.refl (l : Ledger) : l.Extends l :=
  ⟨List.prefix_refl _, List.prefix_refl _, [], (List.append_nil _).symm, fun _ hk => .inl hk⟩

theorem Extends.trans {a b c : Ledger} (h₁ : a.Extends b) (h₂ : b.Extends c) : a.Extends c := by
  obtain ⟨more₁, hmore₁, hfrom₁⟩ := h₁.handed
  obtain ⟨more₂, hmore₂, hfrom₂⟩ := h₂.handed
  refine ⟨h₁.committed.trans h₂.committed, h₁.sent.trans h₂.sent, more₁ ++ more₂, ?_, fun k hk => ?_⟩
  · rw [hmore₂, hmore₁, List.append_assoc]
  · rw [List.append_assoc] at hk
    rcases List.mem_append.1 hk with hk | hk
    · exact hfrom₁ k (List.mem_append_left _ hk)
    · rcases hfrom₂ k hk with hk | hk
      · exact hfrom₁ k (List.mem_append_right _ hk)
      · exact .inr (Nat.le_trans h₁.committed.length_le hk)

theorem Extends.records (h : l.Extends l') (htells : l.Tells r) : l.records <+: l'.records := by
  obtain ⟨more, hmore, -⟩ := h.handed
  refine ⟨more.map l'.bytes, ?_⟩
  unfold Ledger.records
  rw [hmore, List.map_append, map_bytes_of_prefix h.committed htells.handed_lt]

theorem extends_frame (hne : l.taken ≠ 0 → l.held ≠ []) (discarding : Bool) (new : List Recorder.Framing) :
    l.Extends (l.frame discarding new) := by
  refine ⟨List.prefix_append _ _, List.prefix_refl _, [], (List.append_nil _).symm, fun k hk => ?_⟩
  rw [List.nil_append, fresh_frame hne] at hk
  rcases List.mem_append.1 hk with hk | hk
  · left
    split at hk
    · cases hk
    · exact hk
  · exact .inr (List.mem_range'_1.1 hk).1

theorem extends_handOver {k : Nat} {ks : List Nat} (hheld : l.held = k :: ks) (b : Beat) : l.Extends (l.handOver b) := by
  have htogether := handed_fresh_handOver hheld b
  have hmore : (l.handOver b).handed = l.handed ++ if l.taken = 0 then [k] else [] := by
    show (if l.taken = 0 then l.handed ++ l.held.take 1 else l.handed) = _
    rw [hheld]
    split <;> simp
  refine ⟨List.prefix_refl _, List.prefix_append _ _, _, hmore, fun j hj => .inl ?_⟩
  rw [hmore, List.append_assoc] at htogether
  rwa [← List.append_cancel_left htogether]

end Ledger
end UsbRecorder
