import UsbRecorder.Proofs.Crossing.History
import UsbRecorder.Proofs.Stream.Decode
/-!
# Reading — where a reader stands in a stream of records

The bytes of a stream pass a reader in order, and each is delivered or dropped.  `Reading` says where that has got to:
between two records, or within one that is delivered, or at a place below which all is to be dropped.  As long as only
stale bytes are dropped, and none within a record that is being delivered, what is delivered are whole records.
-/
namespace UsbRecorder

/-- Records one after another, byte by byte, with their ends marked. -/
def streamOf (records : List (List UInt8)) : List Beat := records.flatMap Beat.ofRecord

@[simp] theorem streamOf_nil : streamOf [] = [] := rfl

@[simp] theorem streamOf_append (a b : List (List UInt8)) : streamOf (a ++ b) = streamOf a ++ streamOf b :=
  List.flatMap_append

@[simp] theorem streamOf_singleton (r : List UInt8) : streamOf [r] = Beat.ofRecord r := List.flatMap_singleton ..

/-- A place in a stream at which a record begins, or all of them have ended. -/
def Boundary (records : List (List UInt8)) (n : Nat) : Prop := ∃ before, before <+: records ∧ n = (streamOf before).length

variable {records more : List (List UInt8)} {n : Nat}

theorem boundary_zero (records : List (List UInt8)) : Boundary records 0 := ⟨[], List.nil_prefix, rfl⟩

theorem boundary_length (records : List (List UInt8)) : Boundary records (streamOf records).length :=
  ⟨records, List.prefix_refl _, rfl⟩

theorem Boundary.append (h : Boundary records n) (more : List (List UInt8)) : Boundary (records ++ more) n := by
  obtain ⟨before, hinit, hn⟩ := h
  exact ⟨before, hinit.trans (List.prefix_append _ _), hn⟩

theorem Boundary.le (h : Boundary records n) : n ≤ (streamOf records).length := by
  obtain ⟨before, ⟨after, rfl⟩, rfl⟩ := h
  simp

theorem length_streamOf_le {a b : List (List UInt8)} (h : a <+: b) : (streamOf a).length ≤ (streamOf b).length := by
  obtain ⟨more, rfl⟩ := h
  simp

/-- Of two beginnings of a stream of records, none of them empty, the shorter is one of the longer. -/
theorem prefix_of_length_le (hne : ∀ r ∈ records, r ≠ []) {a b : List (List UInt8)} (ha : a <+: records)
    (hb : b <+: records) (hle : (streamOf a).length ≤ (streamOf b).length) : a <+: b := by
  rcases List.prefix_or_prefix_of_prefix ha hb with hab | ⟨more, rfl⟩
  · exact hab
  · cases more with
    | nil => simp
    | cons r more =>
      have hr : r ≠ [] := hne r (ha.subset (by simp))
      have := List.length_pos_iff.2 hr
      simp [streamOf] at hle
      exact absurd hle.1 hr

/-- Records that follow make no new boundary among those before. -/
theorem Boundary.of_append (hne : ∀ r ∈ records ++ more, r ≠ []) (h : Boundary (records ++ more) n)
    (hle : n ≤ (streamOf records).length) : Boundary records n := by
  obtain ⟨before, hinit, rfl⟩ := h
  exact ⟨before, prefix_of_length_le hne hinit (List.prefix_append _ _) hle, rfl⟩

theorem not_boundary_within (hne : ∀ r ∈ records, r ≠ []) {before : List (List UInt8)} {r : List UInt8}
    (hr : before ++ [r] <+: records) {k : Nat} (hpos : 0 < k) (hk : k < r.length) :
    ¬ Boundary records ((streamOf before).length + k) := by
  rintro ⟨other, hother, heq⟩
  have hbefore : before <+: records := (List.prefix_append _ _).trans hr
  obtain ⟨part, rfl⟩ := prefix_of_length_le hne hbefore hother (by omega)
  have hpart : before ++ part <+: before ++ [r] := prefix_of_length_le hne hother hr (by simp at heq ⊢; omega)
  rw [List.prefix_append_right_inj] at hpart
  rcases List.prefix_cons_iff.1 hpart with rfl | ⟨rest, rfl, hrest⟩
  · simp at heq
    omega
  · rw [List.prefix_nil.1 hrest] at heq
    simp at heq
    omega

theorem getElem?_streamOf {before : List (List UInt8)} {r : List UInt8} (hr : before ++ [r] <+: records) {k : Nat}
    (hk : k < r.length) : (streamOf records)[(streamOf before).length + k]? = (Beat.ofRecord r)[k]? := by
  obtain ⟨after, rfl⟩ := hr
  rw [streamOf_append, streamOf_append, streamOf_singleton, List.append_assoc,
    List.getElem?_append_right (Nat.le_add_right _ _), Nat.add_sub_cancel_left, List.getElem?_append_left (by simpa using hk)]

theorem ofRecord_ne_nil {r : List UInt8} (hr : r ≠ []) : Beat.ofRecord r ≠ [] := by
  rw [← List.length_pos_iff, Beat.length_ofRecord]
  exact List.length_pos_iff.2 hr

theorem exists_record_of_getElem? (hne : ∀ r ∈ records, r ≠ []) {before : List (List UInt8)} (hbefore : before <+: records)
    {b : Beat} (hb : (streamOf records)[(streamOf before).length]? = some b) :
    ∃ r rest, before ++ [r] <+: records ∧ Beat.ofRecord r = b :: rest := by
  obtain ⟨after, rfl⟩ := hbefore
  rw [streamOf_append, List.getElem?_append_right (Nat.le_refl _), Nat.sub_self] at hb
  cases after with
  | nil => cases hb
  | cons r after =>
    have hr : Beat.ofRecord r ≠ [] := ofRecord_ne_nil (hne r (by simp))
    obtain ⟨x, rest, hrec⟩ := List.exists_cons_of_ne_nil hr
    refine ⟨r, rest, ⟨after, by simp⟩, ?_⟩
    have hx : (streamOf (r :: after))[0]? = some x := by simp [streamOf, hrec]
    rw [hx] at hb
    cases hb
    exact hrec

theorem length_of_split {r : List UInt8} {part rest : List Beat} (h : Beat.ofRecord r = part ++ rest) :
    r.length = part.length + rest.length := by
  rw [← List.length_append, ← h, Beat.length_ofRecord]

theorem last_iff_of_ofRecord {r : List UInt8} {part rest : List Beat} {b : Beat} (h : Beat.ofRecord r = part ++ b :: rest) :
    b.last = true ↔ rest = [] := by
  have hlen := length_of_split h
  rw [List.length_cons] at hlen
  have hk : part.length < r.length := by omega
  have hb : (Beat.ofRecord r)[part.length]? = some b := by rw [h]; simp
  rw [Beat.getElem?_ofRecord hk] at hb
  cases hb
  rw [beq_iff_eq, ← List.length_eq_zero_iff]
  omega

/-! ## What has passed -/

/-- What of the passing bytes was delivered. -/
def deliveredOf (passed : List (Option Beat)) : List Beat := passed.filterMap id

/-- **Where a reader stands**, with all to be dropped below a place, and within a record or not. -/
inductive Reading (records : List (List UInt8)) (passed : List (Option Beat)) (stale : Nat) : Bool → Prop where
  /-- between two records, or among bytes that are dropped -/
  | between {whole before : List (List UInt8)} (prefix_before : before <+: records) (sublist : whole.Sublist before)
      (delivered : deliveredOf passed = streamOf whole) (reached : (streamOf before).length ≤ passed.length)
      (place : passed.length = (streamOf before).length ∨ passed.length < stale) : Reading records passed stale false
  /-- within a record, all of whose bytes so far were delivered -/
  | within {whole before : List (List UInt8)} {r : List UInt8} {part rest : List Beat} {old : List (Option Beat)}
      (prefix_record : before ++ [r] <+: records) (sublist : whole.Sublist before) (split : Beat.ofRecord r = part ++ rest)
      (part_ne : part ≠ []) (rest_ne : rest ≠ []) (passed_eq : passed = old ++ part.map some)
      (length_old : old.length = (streamOf before).length) (delivered : deliveredOf old = streamOf whole) :
      Reading records passed stale true

variable {passed : List (Option Beat)} {stale : Nat} {inRecord : Bool}

theorem deliveredOf_append (a b : List (Option Beat)) : deliveredOf (a ++ b) = deliveredOf a ++ deliveredOf b :=
  List.filterMap_append

theorem deliveredOf_map_some (bs : List Beat) : deliveredOf (bs.map some) = bs := by simp [deliveredOf]

theorem deliveredOf_replicate_none (count : Nat) : deliveredOf (List.replicate count none) = [] := by
  simp [deliveredOf]

theorem lt_of_delivered {count n : Nat} {b : Beat} (h : (passed ++ List.replicate count none)[n]? = some (some b)) :
    n < passed.length := by
  by_contra hge
  rw [List.getElem?_append_right (Nat.le_of_not_lt hge)] at h
  have := List.mem_of_getElem? h
  simp at this

theorem length_within {before : List (List UInt8)} {part : List Beat} {old : List (Option Beat)}
    (hpassed : passed = old ++ part.map some) (hold : old.length = (streamOf before).length) :
    passed.length = (streamOf before).length + part.length := by
  rw [hpassed, List.length_append, List.length_map, hold]

theorem reading_nil (records : List (List UInt8)) (stale : Nat) : Reading records [] stale false :=
  .between List.nil_prefix (List.Sublist.refl []) rfl (Nat.le_refl 0) (.inl rfl)

namespace Reading

theorem append (h : Reading records passed stale inRecord) (more : List (List UInt8)) :
    Reading (records ++ more) passed stale inRecord := by
  have hgrow : records <+: records ++ more := List.prefix_append _ _
  cases h with
  | between hinit hsub hdel hreached hplace => exact .between (hinit.trans hgrow) hsub hdel hreached hplace
  | within hinit hsub hsplit hpart hrest hpassed hold hdel =>
    exact .within (hinit.trans hgrow) hsub hsplit hpart hrest hpassed hold hdel

theorem hear (h : Reading records passed stale inRecord) {stale' : Nat} (hle : stale ≤ stale') :
    Reading records passed stale' inRecord := by
  cases h with
  | between hinit hsub hdel hreached hplace =>
    exact .between hinit hsub hdel hreached (hplace.imp_right fun h => Nat.lt_of_lt_of_le h hle)
  | within hinit hsub hsplit hpart hrest hpassed hold hdel =>
    exact .within hinit hsub hsplit hpart hrest hpassed hold hdel

/-- **Bytes are dropped up to where a record begins.** -/
theorem drop (h : Reading records passed stale false) (hne : ∀ r ∈ records, r ≠ []) (hstale : Boundary records stale)
    {count : Nat} (hle : passed.length + count ≤ stale) :
    Reading records (passed ++ List.replicate count none) stale false := by
  have hdropped : deliveredOf (passed ++ List.replicate count none) = deliveredOf passed := by
    rw [deliveredOf_append, deliveredOf_replicate_none, List.append_nil]
  have hlen : (passed ++ List.replicate count none).length = passed.length + count := by simp
  cases h with
  | between hinit hsub hdel hreached hplace =>
    rcases Nat.lt_or_eq_of_le hle with hlt | heq
    · refine .between hinit hsub (hdropped.trans hdel) ?_ (.inr ?_)
      · omega
      · rwa [hlen]
    · -- at the end of the stale bytes the reader is where a record begins, behind all that it has passed
      obtain ⟨upto, hupto, hstale⟩ := hstale
      have hbefore := prefix_of_length_le hne hinit hupto (by omega)
      refine .between hupto (hsub.trans hbefore.sublist) (hdropped.trans hdel) ?_ (.inl ?_)
      · omega
      · omega

theorem skip (h : Reading records passed stale inRecord) (hne : ∀ r ∈ records, r ≠ []) (hstale : Boundary records stale)
    {count : Nat} (hskip : 0 < count → inRecord = false ∧ passed.length + count ≤ stale) :
    Reading records (passed ++ List.replicate count none) stale inRecord := by
  rcases Nat.eq_zero_or_pos count with rfl | hpos
  · rwa [List.replicate_zero, List.append_nil]
  · obtain ⟨rfl, hle⟩ := hskip hpos
    exact h.drop hne hstale hle

/-- A byte of a record is delivered after all those before it. -/
theorem within_deliver {whole before : List (List UInt8)} {r : List UInt8} {part rest : List Beat} {b : Beat}
    {old : List (Option Beat)} (hinit : before ++ [r] <+: records) (hsub : whole.Sublist before)
    (hsplit : Beat.ofRecord r = part ++ b :: rest) (hold : old.length = (streamOf before).length)
    (hdel : deliveredOf old = streamOf whole) :
    Reading records (old ++ part.map some ++ [some b]) stale (!b.last) := by
  have hpassed : old ++ part.map some ++ [some b] = old ++ (part ++ [b]).map some := by simp
  rw [hpassed]
  by_cases hlast : b.last = true
  · have hrest := (last_iff_of_ofRecord hsplit).1 hlast
    subst hrest
    have hlen := congrArg List.length hsplit
    rw [hlast]
    refine .between hinit (hsub.append_right [r]) ?_ ?_ (.inl ?_)
    · rw [deliveredOf_append, deliveredOf_map_some, hdel, streamOf_append, streamOf_singleton, hsplit]
    · simp at hlen ⊢
      omega
    · simp at hlen ⊢
      omega
  · have hrest : rest ≠ [] := fun h => hlast ((last_iff_of_ofRecord hsplit).2 h)
    rw [Bool.eq_false_of_not_eq_true hlast]
    refine .within hinit hsub ?_ (by simp) hrest rfl hold hdel
    rw [hsplit, List.append_assoc]
    rfl

/-- **A byte is delivered**, unless it is one to be dropped. -/
theorem deliver (h : Reading records passed stale inRecord) (hne : ∀ r ∈ records, r ≠ [])
    (hkeep : inRecord = false → stale ≤ passed.length) {b : Beat} (hb : (streamOf records)[passed.length]? = some b) :
    Reading records (passed ++ [some b]) stale (!b.last) := by
  cases h with
  | between hinit hsub hdel hreached hplace =>
    have hstart := hplace.resolve_right (Nat.not_lt_of_le (hkeep rfl))
    rw [hstart] at hb
    obtain ⟨r, rest, hr, hrec⟩ := exists_record_of_getElem? hne hinit hb
    have hfirst : Beat.ofRecord r = [] ++ b :: rest := hrec
    have hdelivered : Reading records (passed ++ ([] : List Beat).map some ++ [some b]) stale (!b.last) :=
      within_deliver hr hsub hfirst hstart hdel
    rwa [List.map_nil, List.append_nil] at hdelivered
  | @within whole before r part rest old hinit hsub hsplit hpart hrest hpassed hold hdel =>
    obtain ⟨x, rest, rfl⟩ := List.exists_cons_of_ne_nil hrest
    have hk : part.length < r.length := by simp [length_of_split hsplit]
    rw [length_within hpassed hold, getElem?_streamOf hinit hk, hsplit] at hb
    simp at hb
    subst hb
    rw [hpassed]
    exact within_deliver hinit hsub hsplit hold hdel

/-- Within a record a reader is not where one begins. -/
theorem not_boundary (h : Reading records passed stale true) (hne : ∀ r ∈ records, r ≠ []) :
    ¬ Boundary records passed.length := by
  cases h with
  | @within whole before r part rest old hinit hsub hsplit hpart hrest hpassed hold hdel =>
    have hsize := length_of_split hsplit
    have := List.length_pos_iff.2 hpart
    have := List.length_pos_iff.2 hrest
    rw [length_within hpassed hold]
    exact not_boundary_within hne hinit (by omega) (by omega)

/-- **What is delivered are whole records, and at most a part of another**, all of them in order. -/
theorem whole_records (h : Reading records passed stale inRecord) :
    ∃ whole part, deliveredOf passed = streamOf whole ++ part ∧
      (part = [] ∧ whole.Sublist records ∨
        ∃ r rest, part ≠ [] ∧ rest ≠ [] ∧ Beat.ofRecord r = part ++ rest ∧ (whole ++ [r]).Sublist records) := by
  cases h with
  | @between whole before hinit hsub hdel hreached hplace =>
    exact ⟨whole, [], by rw [hdel, List.append_nil], .inl ⟨rfl, hsub.trans hinit.sublist⟩⟩
  | @within whole before r part rest old hinit hsub hsplit hpart hrest hpassed hold hdel =>
    refine ⟨whole, part, ?_, .inr ⟨r, rest, hpart, hrest, hsplit, (hsub.append_right [r]).trans hinit.sublist⟩⟩
    rw [hpassed, deliveredOf_append, deliveredOf_map_some, hdel]

end Reading

/-! ## The records that are delivered -/

/-- **A byte that was delivered came after the bytes of its record before it**, each of which was delivered too. -/
def FromStart (records : List (List UInt8)) (passed : List (Option Beat)) : Prop :=
  ∀ (n : Nat) (b : Beat), passed[n]? = some (some b) → ∃ before r, before ++ [r] <+: records ∧
    (streamOf before).length ≤ n ∧ n < (streamOf before).length + r.length ∧
    ∀ i, (streamOf before).length ≤ i → i ≤ n → ∃ x, passed[i]? = some (some x)

namespace FromStart

theorem append (h : FromStart records passed) (more : List (List UInt8)) : FromStart (records ++ more) passed := by
  intro n b hn
  obtain ⟨before, r, hinit, hle, hlt, hall⟩ := h n b hn
  exact ⟨before, r, hinit.trans (List.prefix_append _ _), hle, hlt, hall⟩

theorem before_append (h : FromStart records passed) {n : Nat} (hold : n < passed.length) {later : List (Option Beat)}
    {b : Beat} (hn : (passed ++ later)[n]? = some (some b)) : ∃ before r, before ++ [r] <+: records ∧
      (streamOf before).length ≤ n ∧ n < (streamOf before).length + r.length ∧
      ∀ i, (streamOf before).length ≤ i → i ≤ n → ∃ x, (passed ++ later)[i]? = some (some x) := by
  rw [List.getElem?_append_left hold] at hn
  obtain ⟨before, r, hinit, hle, hlt, hall⟩ := h n b hn
  refine ⟨before, r, hinit, hle, hlt, fun i hi hin => ?_⟩
  rw [List.getElem?_append_left (Nat.lt_of_le_of_lt hin hold)]
  exact hall i hi hin

theorem drop (h : FromStart records passed) (count : Nat) : FromStart records (passed ++ List.replicate count none) :=
  fun _ _ hn => h.before_append (lt_of_delivered hn) hn

theorem deliver (h : FromStart records passed) (hread : Reading records passed stale inRecord) (hne : ∀ r ∈ records, r ≠ [])
    (hkeep : inRecord = false → stale ≤ passed.length) {b : Beat} (hb : (streamOf records)[passed.length]? = some b) :
    FromStart records (passed ++ [some b]) := by
  have hnew : (passed ++ [some b])[passed.length]? = some (some b) := List.getElem?_concat_length
  intro n x hn
  rcases Nat.lt_or_ge n passed.length with hold | hge
  · exact h.before_append hold hn
  · obtain ⟨hlt, -⟩ := List.getElem?_eq_some_iff.1 hn
    have heq : n = passed.length := by
      simp at hlt
      omega
    subst heq
    cases hread with
    | @between whole before hinit hsub hdel hreached hplace =>
      have hstart := hplace.resolve_right (Nat.not_lt_of_le (hkeep rfl))
      rw [hstart] at hb
      obtain ⟨r, rest, hr, hrec⟩ := exists_record_of_getElem? hne hinit hb
      have hsize : r.length = rest.length + 1 := by rw [← Beat.length_ofRecord, hrec, List.length_cons]
      refine ⟨before, r, hr, by omega, by omega, fun i hi hin => ?_⟩
      rw [show i = passed.length by omega]
      exact ⟨b, hnew⟩
    | @within whole before r part rest old hinit hsub hsplit hpart hrest hpassed hold hdel =>
      have hlen := length_within hpassed hold
      have hsize := length_of_split hsplit
      have := List.length_pos_iff.2 hrest
      refine ⟨before, r, hinit, by omega, by omega, fun i hi hin => ?_⟩
      rcases Nat.lt_or_eq_of_le hin with hbefore | rfl
      · rw [List.getElem?_append_left hbefore, hpassed, List.getElem?_append_right (by omega), List.getElem?_map]
        have hi' : i - old.length < part.length := by omega
        exact ⟨part[i - old.length], by rw [List.getElem?_eq_getElem hi']; rfl⟩
      · exact ⟨b, hnew⟩

end FromStart

/-! ## The passage of a stream -/

/-- **The bytes sent of a stream of records pass a reader**: in order, each delivered or dropped, and dropped only below the
place up to which all is stale. -/
structure Passage (records : List (List UInt8)) (sent : List Beat) (passed : List (Option Beat)) (stale : Nat)
    (inRecord : Bool) : Prop where
  in_order : LeftInOrder passed sent
  boundary : Boundary records stale
  dropped : ∀ n, passed[n]? = some none → n < stale
  reading : Reading records passed stale inRecord
  fromStart : FromStart records passed

namespace Passage

variable {sent : List Beat}

theorem start (sent : List Beat) : Passage [] sent [] 0 false :=
  ⟨fun _ _ h => by simp at h, boundary_zero _, fun _ h => by simp at h, reading_nil _ _, fun _ _ h => by simp at h⟩

theorem append (h : Passage records sent passed stale inRecord) (more : List (List UInt8)) (newer : List Beat) :
    Passage (records ++ more) (sent ++ newer) passed stale inRecord :=
  ⟨h.in_order.sent_append newer, h.boundary.append more, h.dropped, h.reading.append more, h.fromStart.append more⟩

theorem hear (h : Passage records sent passed stale inRecord) {stale' : Nat} (hstale : Boundary records stale')
    (hle : stale ≤ stale') : Passage records sent passed stale' inRecord :=
  ⟨h.in_order, hstale, fun n hn => Nat.lt_of_lt_of_le (h.dropped n hn) hle, h.reading.hear hle, h.fromStart⟩

theorem skip (h : Passage records sent passed stale inRecord) (hne : ∀ r ∈ records, r ≠ []) {count : Nat}
    (hskip : 0 < count → inRecord = false ∧ passed.length + count ≤ stale) :
    Passage records sent (passed ++ List.replicate count none) stale inRecord := by
  refine ⟨h.in_order.dropped count, h.boundary, fun n hn => ?_, h.reading.skip hne h.boundary hskip, h.fromStart.drop count⟩
  rcases Nat.lt_or_ge n passed.length with hold | hnew
  · rw [List.getElem?_append_left hold] at hn
    exact h.dropped n hn
  · obtain ⟨hlt, -⟩ := List.getElem?_eq_some_iff.1 hn
    rw [List.length_append, List.length_replicate] at hlt
    have := (hskip (by omega)).2
    omega

theorem deliver (h : Passage records sent passed stale inRecord) (hne : ∀ r ∈ records, r ≠ [])
    (hsent : sent <+: streamOf records) (hkeep : inRecord = false → stale ≤ passed.length) {b : Beat}
    (hb : sent[passed.length]? = some b) : Passage records sent (passed ++ [some b]) stale (!b.last) := by
  have hstream : (streamOf records)[passed.length]? = some b := by
    obtain ⟨later, hlater⟩ := hsent
    obtain ⟨hlt, -⟩ := List.getElem?_eq_some_iff.1 hb
    rw [← hlater, List.getElem?_append_left hlt, hb]
  refine ⟨h.in_order.taken hb, h.boundary, fun n hn => ?_, h.reading.deliver hne hkeep hstream,
    h.fromStart.deliver h.reading hne hkeep hstream⟩
  rcases Nat.lt_or_ge n passed.length with hold | hnew
  · rw [List.getElem?_append_left hold] at hn
    exact h.dropped n hn
  · rw [List.getElem?_append_right hnew] at hn
    have := List.mem_of_getElem? hn
    simp at this

end Passage
end UsbRecorder
