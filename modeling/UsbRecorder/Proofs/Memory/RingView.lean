import UsbRecorder.Memory.Ring
import UsbRecorder.Proofs.Memory.Circle
import UsbRecorder.Proofs.Stream.Decode
/-!
# RingView — a ring as the records it holds and the bytes still being written

`Ring.Holds r recs tail`: the ring holds the records `recs`, of which the reader has taken `r.taken` bytes of the first,
and after them the pending bytes `tail`.  One lemma for each operation says which lists it holds afterwards.
-/
namespace UsbRecorder
namespace Ring

/-- **A ring holds whole records and a tail still being written.** -/
structure Holds (r : Ring) (recs : List (List UInt8)) (tail : List UInt8) : Prop where
  readAt_lt : r.readAt < r.size
  writeAt : r.writeAt = (r.readAt + (r.committed + r.pending)) % r.size
  room : r.committed + r.pending ≤ r.size
  records : r.records.toList = recs.map List.length
  /-- the reader has not taken all of a record that is still held -/
  taken : r.taken < ((recs.head?).map List.length).getD 1
  nonempty : ∀ rec ∈ recs, rec ≠ []
  committed : r.taken + r.committed = recs.flatten.length
  pending : r.pending = tail.length
  spells : r.cells.Spells r.size r.readAt (recs.flatten.drop r.taken ++ tail)

theorem holds_empty (r : Ring) (hpos : 0 < r.size) :
    { r with records := .empty, taken := 0, pending := 0, committed := 0, writeAt := 0, readAt := 0 }.Holds [] [] where
  readAt_lt := hpos
  writeAt := (Nat.zero_mod _).symm
  room := Nat.zero_le _
  records := rfl
  taken := Nat.zero_lt_one
  nonempty := fun _ h => by cases h
  committed := rfl
  pending := rfl
  spells := Cells.spells_nil _ _ _

theorem holds_create {size : Nat} {r : Ring} (h : create size = .ok r) : r.Holds [] [] ∧ r.size = size := by
  unfold create at h
  split at h
  · rename_i hp
    cases h
    have hpos : 0 < size := by
      obtain ⟨k, rfl⟩ := hp
      exact Nat.two_pow_pos k
    exact ⟨holds_empty { size } hpos, rfl⟩
  · cases h

theorem fits_iff (r : Ring) (extra : Nat) : r.fits extra = true ↔ r.committed + r.pending + extra ≤ r.size :=
  decide_eq_true_iff

/-! ## What writing leaves alone -/

@[simp] theorem size_pushAll (r : Ring) (bytes : List UInt8) : (r.pushAll bytes).size = r.size := by
  induction bytes generalizing r with
  | nil => rfl
  | cons b bytes ih => exact ih (r.push b)

@[simp] theorem readAt_pushAll (r : Ring) (bytes : List UInt8) : (r.pushAll bytes).readAt = r.readAt := by
  induction bytes generalizing r with
  | nil => rfl
  | cons b bytes ih => exact ih (r.push b)

@[simp] theorem committed_pushAll (r : Ring) (bytes : List UInt8) : (r.pushAll bytes).committed = r.committed := by
  induction bytes generalizing r with
  | nil => rfl
  | cons b bytes ih => exact ih (r.push b)

@[simp] theorem taken_pushAll (r : Ring) (bytes : List UInt8) : (r.pushAll bytes).taken = r.taken := by
  induction bytes generalizing r with
  | nil => rfl
  | cons b bytes ih => exact ih (r.push b)

@[simp] theorem size_commit (r : Ring) : r.commit.size = r.size := by
  unfold commit
  split <;> rfl

@[simp] theorem taken_commit (r : Ring) : r.commit.taken = r.taken := by
  unfold commit
  split <;> rfl

@[simp] theorem size_append (r : Ring) (bytes : List UInt8) : (r.append bytes).size = r.size := by simp [append]

@[simp] theorem taken_append (r : Ring) (bytes : List UInt8) : (r.append bytes).taken = r.taken := by simp [append]

theorem take_frame (r : Ring) :
    r.take.2.size = r.size ∧ r.take.2.writeAt = r.writeAt ∧ r.take.2.pending = r.pending ∧
      r.take.2.committed ≤ r.committed := by
  unfold Ring.take
  split
  · exact ⟨rfl, rfl, rfl, Nat.le_refl _⟩
  · dsimp only
    split
    · exact ⟨rfl, rfl, rfl, Nat.sub_le _ _⟩
    · exact ⟨rfl, rfl, rfl, Nat.sub_le _ _⟩

theorem take_fst (r : Ring) : r.take.1 = r.offered := by
  unfold Ring.take
  cases r.offered <;> rfl

theorem cursors_take {r : Ring} {b : Beat} (h : r.offered = some b) :
    r.take.2.readAt = (r.readAt + 1) % r.size ∧ r.take.2.committed = r.committed - 1 := by
  unfold Ring.take
  rw [h]
  dsimp only
  split <;> exact ⟨rfl, rfl⟩

theorem size_discard (r : Ring) : r.discard.size = r.size := by
  unfold Ring.discard
  split <;> rfl

theorem readAt_discard {r : Ring} (h : 0 < r.restOfBegun) : r.discard.readAt = r.readAt := by
  obtain ⟨n, hn⟩ : ∃ n, r.restOfBegun = n + 1 := ⟨r.restOfBegun - 1, by omega⟩
  unfold Ring.discard
  cases hhead : r.records.head? with
  | none =>
    have hz : r.restOfBegun = 0 := by
      unfold restOfBegun
      rw [hhead]
      exact ite_self 0
    omega
  | some length => rw [hn]

namespace Holds

variable {r : Ring} {recs : List (List UInt8)} {tail : List UInt8}

theorem size_pos (h : r.Holds recs tail) : 0 < r.size := Nat.lt_of_le_of_lt (Nat.zero_le _) h.readAt_lt

theorem taken_le (h : r.Holds recs tail) : r.taken ≤ recs.flatten.length := by
  have := h.committed
  omega

theorem length_unread (h : r.Holds recs tail) : (recs.flatten.drop r.taken).length = r.committed := by
  rw [List.length_drop]
  have := h.committed
  omega

theorem taken_eq_zero (h : r.Holds [] tail) : r.taken = 0 := by
  have := h.taken
  simp at this
  exact this

/-! ## Writing -/

theorem push (h : r.Holds recs tail) (hroom : r.committed + r.pending < r.size) (byte : UInt8) :
    (r.push byte).Holds recs (tail ++ [byte]) := by
  have hlen : (recs.flatten.drop r.taken ++ tail).length = r.committed + r.pending := by
    rw [List.length_append, h.length_unread, h.pending]
  refine { h with writeAt := ?_, room := hroom, pending := ?_, spells := ?_ }
  · show (r.writeAt + 1) % r.size = (r.readAt + (r.committed + (r.pending + 1))) % r.size
    rw [h.writeAt, Nat.mod_add_mod]
    rfl
  · show r.pending + 1 = (tail ++ [byte]).length
    rw [h.pending, List.length_append, List.length_singleton]
  · show (r.cells.write r.writeAt byte).Spells r.size r.readAt _
    have := h.spells.write (by rw [hlen]; exact hroom) byte
    rwa [hlen, ← h.writeAt, List.append_assoc] at this

theorem pushAll : ∀ {bytes tail : List UInt8} {r : Ring}, r.Holds recs tail →
    r.committed + r.pending + bytes.length ≤ r.size → (r.pushAll bytes).Holds recs (tail ++ bytes)
  | [], tail, r, h, _ => by
    rw [List.append_nil]
    exact h
  | b :: bytes, tail, r, h, hroom => by
    rw [List.length_cons] at hroom
    have hstep := h.push (by omega) b
    have hroom' : (r.push b).committed + (r.push b).pending + bytes.length ≤ (r.push b).size := by
      show r.committed + (r.pending + 1) + bytes.length ≤ r.size
      omega
    have := hstep.pushAll hroom'
    rwa [List.append_assoc] at this

theorem fill {a old new b : List UInt8} {position : Nat} (h : r.Holds recs (a ++ (old ++ b)))
    (hlen : old.length = new.length) (hpos : position % r.size = (r.readAt + r.committed + a.length) % r.size) :
    (r.fill position new).Holds recs (a ++ (new ++ b)) := by
  have hpend := h.pending
  simp only [List.length_append] at hpend
  refine { h with pending := ?_, spells := ?_ }
  · show r.pending = (a ++ (new ++ b)).length
    simp only [List.length_append]
    omega
  · have hunread : (recs.flatten.drop r.taken ++ a).length = r.committed + a.length := by
      rw [List.length_append, h.length_unread]
    have hs := h.spells
    rw [← List.append_assoc] at hs
    have hroom := h.room
    have hstart : position % r.size = (r.readAt + (recs.flatten.drop r.taken ++ a).length) % r.size := by
      rw [hunread, ← Nat.add_assoc]
      exact hpos
    have := hs.fill hlen (by rw [hunread]; omega) hstart
    rwa [List.append_assoc] at this

/-- One byte filled in anywhere but over the bytes to be read replaces the pending byte that was put there, if any. -/
theorem fill_one (h : r.Holds recs tail) {position : Nat}
    (hfree : ∀ i < r.committed, (r.readAt + i) % r.size ≠ position % r.size) (byte : UInt8) :
    (r.fill position [byte]).Holds recs
      (tail.mapIdx fun i b => if (r.readAt + r.committed + i) % r.size = position % r.size then byte else b) := by
  refine { h with pending := ?_, spells := ?_ }
  · rw [List.length_mapIdx]
    exact h.pending
  · have hs := h.spells.write_over (position % r.size) byte
    have hunread : ((recs.flatten.drop r.taken).mapIdx fun i b =>
        if (r.readAt + i) % r.size = position % r.size then byte else b) = recs.flatten.drop r.taken := by
      refine List.ext_getElem (by simp) fun i hi _ => ?_
      rw [List.length_mapIdx, h.length_unread] at hi
      rw [List.getElem_mapIdx, if_neg (hfree i hi)]
    have hplace : ∀ i, r.readAt + (i + r.committed) = r.readAt + r.committed + i := fun i => by omega
    rw [List.mapIdx_append, hunread, h.length_unread] at hs
    simp only [hplace] at hs
    exact hs

theorem commit (h : r.Holds recs tail) (htail : tail ≠ []) : r.commit.Holds (recs ++ [tail]) [] := by
  have hpos : r.pending ≠ 0 := by
    rw [h.pending]
    exact fun hz => htail (List.eq_nil_of_length_eq_zero hz)
  have hflat : (recs ++ [tail]).flatten = recs.flatten ++ tail := by simp
  unfold Ring.commit
  rw [if_neg hpos]
  refine {
    readAt_lt := h.readAt_lt, writeAt := h.writeAt, room := h.room, records := ?records, taken := ?taken,
    nonempty := ?nonempty, committed := ?committed, pending := rfl, spells := ?spells }
  case records => simp [h.records, h.pending]
  case taken =>
    cases recs with
    | nil =>
      show r.taken < tail.length
      rw [h.taken_eq_zero]
      exact List.length_pos_iff.2 htail
    | cons f rest => exact h.taken
  case nonempty =>
    intro rec hrec
    rcases List.mem_append.1 hrec with hrec | hrec
    · exact h.nonempty rec hrec
    · rwa [List.mem_singleton.1 hrec]
  case committed =>
    rw [hflat, List.length_append, ← h.pending, ← h.committed, Nat.add_assoc]
  case spells =>
    rw [hflat, List.drop_append_of_le_length h.taken_le, List.append_nil]
    exact h.spells

theorem append {bytes : List UInt8} (h : r.Holds recs []) (hbytes : bytes ≠ [])
    (hroom : r.committed + r.pending + bytes.length ≤ r.size) : (r.append bytes).Holds (recs ++ [bytes]) [] := by
  have := h.pushAll hroom
  rw [List.nil_append] at this
  exact this.commit hbytes

/-- **The pending bytes are taken back, and nothing else.** -/
theorem abandon (h : r.Holds recs tail) : r.abandon.Holds recs [] := by
  have hback : (r.writeAt + (r.size - r.pending % r.size)) % r.size = (r.readAt + (r.committed + 0)) % r.size := by
    have hlt := Nat.mod_lt r.pending h.size_pos
    rw [h.writeAt, Nat.mod_add_mod]
    have hsum : r.readAt + (r.committed + r.pending) + (r.size - r.pending % r.size) =
        r.readAt + r.committed + r.size * (r.pending / r.size + 1) := by
      have := Nat.div_add_mod r.pending r.size
      rw [Nat.mul_add, Nat.mul_one]
      omega
    rw [hsum, Nat.add_mul_mod_self_left]
    rfl
  refine { h with writeAt := hback, room := Nat.le_trans (Nat.le_add_right _ _) h.room, pending := rfl, spells := ?_ }
  have := (Cells.spells_append.1 h.spells).1
  rwa [List.append_nil]

/-! ## Reading -/

theorem offered_nil (h : r.Holds [] tail) : r.offered = none := by
  unfold Ring.offered
  rw [Fifo.head?_eq, h.records]
  rfl

theorem spells_next {first : List UInt8} {others : List (List UInt8)} (h : r.Holds (first :: others) tail) :
    some (r.cells.read r.readAt) = first[r.taken]? ∧
      r.cells.Spells r.size ((r.readAt + 1) % r.size) (first.drop (r.taken + 1) ++ others.flatten ++ tail) := by
  have htaken : r.taken < first.length := h.taken
  have hs := h.spells
  rw [List.flatten_cons, List.drop_append_of_le_length (Nat.le_of_lt htaken), List.drop_eq_getElem_cons htaken,
    List.cons_append, List.cons_append, Cells.spells_cons, Nat.mod_eq_of_lt h.readAt_lt] at hs
  obtain ⟨hread, hrest⟩ := hs
  refine ⟨?_, hrest.congr (Nat.mod_mod _ _).symm⟩
  rw [hread, List.getElem?_eq_getElem htaken]

/-- **The byte offered is the next one of the first record**, marked where it is its last. -/
theorem offered_cons {first : List UInt8} {rest : List (List UInt8)} (h : r.Holds (first :: rest) tail) :
    r.offered = (Beat.ofRecord first)[r.taken]? := by
  have htaken : r.taken < first.length := h.taken
  have hread := h.spells_next.1
  rw [List.getElem?_eq_getElem htaken, Option.some.injEq] at hread
  unfold Ring.offered
  rw [Fifo.head?_eq, h.records, Beat.getElem?_ofRecord htaken, hread]
  rfl

theorem take_nil (h : r.Holds [] tail) : r.take = (none, r) := by
  unfold Ring.take
  rw [h.offered_nil]

/-- What a ring holds after the reader has taken a byte of the first record, of which `taken` were taken before. -/
def rest (recs : List (List UInt8)) (taken : Nat) : List (List UInt8) :=
  match recs with
  | first :: others => if taken + 1 = first.length then others else first :: others
  | [] => []

theorem writeAt_next {first : List UInt8} {others : List (List UInt8)} (h : r.Holds (first :: others) tail) :
    r.writeAt = ((r.readAt + 1) % r.size + (r.committed - 1 + r.pending)) % r.size ∧ 0 < r.committed := by
  have htaken : r.taken < first.length := h.taken
  have hcomm := h.committed
  rw [List.flatten_cons, List.length_append] at hcomm
  refine ⟨?_, by omega⟩
  rw [Nat.mod_add_mod, h.writeAt, show r.readAt + 1 + (r.committed - 1 + r.pending) =
    r.readAt + (r.committed + r.pending) by omega]

theorem take_last {first : List UInt8} {others : List (List UInt8)} (h : r.Holds (first :: others) tail)
    (hlast : r.taken + 1 = first.length) :
    { r with readAt := (r.readAt + 1) % r.size, committed := r.committed - 1, records := r.records.tail, taken := 0 }.Holds
      others tail := by
  obtain ⟨hwrite, hpos⟩ := h.writeAt_next
  have hcomm := h.committed
  rw [List.flatten_cons, List.length_append] at hcomm
  have hroom := h.room
  have hnext := h.spells_next.2
  rw [List.drop_eq_nil_of_le (Nat.le_of_eq hlast.symm), List.nil_append] at hnext
  refine {
    readAt_lt := Nat.mod_lt _ h.size_pos, writeAt := hwrite, room := ?_, records := ?_, taken := ?_,
    nonempty := fun rec hrec => h.nonempty rec (List.mem_cons_of_mem _ hrec), committed := ?_,
    pending := h.pending, spells := hnext }
  · show r.committed - 1 + r.pending ≤ r.size
    omega
  · simp [h.records]
  · cases others with
    | nil => exact Nat.zero_lt_one
    | cons s more => exact List.length_pos_iff.2 (h.nonempty s (by simp))
  · show 0 + (r.committed - 1) = others.flatten.length
    omega

theorem take_more {first : List UInt8} {others : List (List UInt8)} (h : r.Holds (first :: others) tail)
    (hmore : r.taken + 1 < first.length) :
    { r with readAt := (r.readAt + 1) % r.size, committed := r.committed - 1, taken := r.taken + 1 }.Holds
      (first :: others) tail := by
  obtain ⟨hwrite, hpos⟩ := h.writeAt_next
  have hcomm := h.committed
  have hroom := h.room
  refine {
    readAt_lt := Nat.mod_lt _ h.size_pos, writeAt := hwrite, room := ?_, records := h.records, taken := hmore,
    nonempty := h.nonempty, committed := ?_, pending := h.pending, spells := ?_ }
  · show r.committed - 1 + r.pending ≤ r.size
    omega
  · show r.taken + 1 + (r.committed - 1) = (first :: others).flatten.length
    omega
  · show r.cells.Spells r.size _ ((first :: others).flatten.drop (r.taken + 1) ++ tail)
    rw [List.flatten_cons, List.drop_append_of_le_length (Nat.le_of_lt hmore)]
    exact h.spells_next.2

/-- **The reader takes the next byte of the first record**, and the record with its last one. -/
theorem take_cons {first : List UInt8} {others : List (List UInt8)} (h : r.Holds (first :: others) tail) :
    r.take.1 = (Beat.ofRecord first)[r.taken]? ∧ r.take.2.Holds (rest (first :: others) r.taken) tail ∧
      r.take.2.taken = if r.taken + 1 = first.length then 0 else r.taken + 1 := by
  have htaken : r.taken < first.length := h.taken
  have hoff := h.offered_cons
  rw [Beat.getElem?_ofRecord htaken] at hoff ⊢
  unfold Ring.take
  rw [hoff]
  refine ⟨rfl, ?_⟩
  dsimp only [rest]
  by_cases hlast : r.taken + 1 = first.length
  · rw [if_pos (beq_iff_eq.2 hlast), if_pos hlast, if_pos hlast]
    exact ⟨h.take_last hlast, rfl⟩
  · rw [if_neg (by simpa using hlast), if_neg hlast, if_neg hlast]
    exact ⟨h.take_more (Nat.lt_of_le_of_ne htaken hlast), rfl⟩

/-! ## Discarding -/

/-- What a discard leaves of the records: the first of them, if the reader has begun it. -/
def kept {α : Type} (recs : List α) (taken : Nat) : List α := if taken = 0 then [] else recs.take 1

theorem restOfBegun_eq (h : r.Holds recs tail) :
    r.restOfBegun = (kept recs r.taken).flatten.length - r.taken := by
  unfold Ring.restOfBegun kept
  by_cases hz : r.taken = 0
  · rw [if_pos hz, if_pos hz, List.flatten_nil, List.length_nil, Nat.zero_sub]
  · rw [if_neg hz, if_neg hz, Fifo.head?_eq, h.records]
    cases recs with
    | nil => exact absurd h.taken_eq_zero hz
    | cons f rest => simp

theorem restOfBegun_le (h : r.Holds recs tail) : r.restOfBegun ≤ r.committed := by
  have hkept : (kept recs r.taken).flatten.length ≤ recs.flatten.length := by
    unfold kept
    split
    · exact Nat.zero_le _
    · cases recs <;> simp
  have := h.committed
  rw [h.restOfBegun_eq]
  omega

theorem discard_of_eq_zero (h : r.Holds recs tail) (hz : r.taken = 0) :
    r.discard.Holds [] [] ∧ r.discard.taken = 0 ∧ r.discard.committed = 0 := by
  have hzero : r.restOfBegun = 0 := by
    unfold Ring.restOfBegun
    rw [if_pos hz]
  unfold Ring.discard
  rw [hzero]
  exact ⟨holds_empty r h.size_pos, rfl, rfl⟩

theorem discard_cons {first : List UInt8} {others : List (List UInt8)} (h : r.Holds (first :: others) tail)
    (hrest : r.restOfBegun = first.length - r.taken) :
    r.discard.Holds [first] [] ∧ r.discard.taken = r.taken ∧ r.discard.committed = r.restOfBegun := by
  have htaken : r.taken < first.length := h.taken
  have hhead : r.records.head? = some first.length := by
    rw [Fifo.head?_eq, h.records]
    rfl
  have hdis : r.discard = { r with
      records := .single first.length, pending := 0, committed := r.restOfBegun,
      writeAt := (r.readAt + r.restOfBegun) % r.size } := by
    unfold Ring.discard
    obtain ⟨n, hn⟩ : ∃ n, r.restOfBegun = n + 1 := ⟨r.restOfBegun - 1, by omega⟩
    rw [hn, hhead]
  have hle : r.restOfBegun ≤ r.committed := h.restOfBegun_le
  have hroom := h.room
  rw [hdis]
  refine ⟨?_, rfl, rfl⟩
  refine {
    readAt_lt := h.readAt_lt, writeAt := rfl, room := ?_, records := rfl, taken := h.taken,
    nonempty := fun rec hrec => h.nonempty rec (by rw [List.mem_singleton.1 hrec]; simp),
    committed := ?_, pending := rfl, spells := ?_ }
  · show r.restOfBegun + 0 ≤ r.size
    omega
  · show r.taken + r.restOfBegun = [first].flatten.length
    rw [List.flatten_singleton]
    omega
  · show r.cells.Spells r.size r.readAt ([first].flatten.drop r.taken ++ [])
    have hs := h.spells
    rw [List.flatten_cons, List.drop_append_of_le_length (Nat.le_of_lt htaken), List.append_assoc,
      Cells.spells_append] at hs
    rw [List.flatten_singleton, List.append_nil]
    exact hs.1

/-- **A discard leaves the record that the reader has begun, and nothing else.** -/
theorem discard (h : r.Holds recs tail) :
    r.discard.Holds (kept recs r.taken) [] ∧ r.discard.taken = r.taken ∧ r.discard.committed = r.restOfBegun := by
  have hrest := h.restOfBegun_eq
  unfold kept at hrest ⊢
  by_cases hz : r.taken = 0
  · rw [if_pos hz, List.flatten_nil, List.length_nil, Nat.zero_sub] at hrest
    rw [if_pos hz, hz, hrest]
    exact h.discard_of_eq_zero hz
  · rw [if_neg hz] at hrest ⊢
    cases recs with
    | nil => exact absurd h.taken_eq_zero hz
    | cons first others =>
      rw [List.take_succ_cons, List.take_zero, List.flatten_singleton] at hrest
      exact h.discard_cons hrest

/-! ## The bytes as they are read off the ring -/

theorem slice_eq {c : Nat} {xs : List UInt8} (hs : r.cells.Spells r.size c xs) : r.slice c xs.length = xs := by
  induction xs generalizing c with
  | nil => rfl
  | cons x xs ih =>
    obtain ⟨hx, hrest⟩ := Cells.spells_cons.1 hs
    rw [List.length_cons, slice, hx, ih hrest]

theorem contents_eq (h : r.Holds recs tail) : r.contents = recs.flatten.drop r.taken := by
  have := slice_eq (Cells.spells_append.1 h.spells).1
  rwa [h.length_unread] at this

theorem contents_take (h : r.Holds recs tail) : r.take.2.contents = r.contents.tail := by
  cases recs with
  | nil => rw [h.take_nil, h.contents_eq, List.flatten_nil, List.drop_nil, List.tail_nil]
  | cons first others =>
    have hlt : r.taken < first.length := h.taken
    obtain ⟨-, hrest, htaken⟩ := h.take_cons
    rw [hrest.contents_eq, htaken, h.contents_eq, List.tail_drop]
    dsimp only [rest]
    by_cases hdone : r.taken + 1 = first.length
    · rw [if_pos hdone, if_pos hdone, List.flatten_cons, hdone, List.drop_left, List.drop_zero]
    · rw [if_neg hdone, if_neg hdone]

theorem tailBytes_eq (h : r.Holds recs tail) : r.tailBytes = tail := by
  have := slice_eq (Cells.spells_append.1 h.spells).2
  rwa [h.length_unread, ← h.pending] at this

/-- What a discard keeps is what is unread of the record that the reader has begun. -/
theorem contents_kept (h : r.Holds recs tail) :
    r.taken ≤ (kept recs r.taken).flatten.length ∧
      (kept recs r.taken).flatten.drop r.taken = r.contents.take r.restOfBegun := by
  rw [h.contents_eq, h.restOfBegun_eq]
  unfold kept
  by_cases hz : r.taken = 0
  · rw [if_pos hz, hz]
    exact ⟨Nat.zero_le _, rfl⟩
  · rw [if_neg hz]
    cases recs with
    | nil => exact absurd h.taken_eq_zero hz
    | cons first others =>
      have htaken : r.taken < first.length := h.taken
      rw [List.take_succ_cons, List.take_zero, List.flatten_singleton, List.flatten_cons,
        List.drop_append_of_le_length (Nat.le_of_lt htaken), ← List.length_drop, List.take_left]
      exact ⟨Nat.le_of_lt htaken, rfl⟩

end Holds
end Ring
end UsbRecorder
