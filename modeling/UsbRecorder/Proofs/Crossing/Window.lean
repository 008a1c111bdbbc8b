import UsbRecorder.Proofs.Crossing.Gray
/-!
# Window — the counts behind the pointers of a queue

`Window q sent gone seenGone seenSent` says of a queue which beats were sent and how many bytes are gone, and which
counts the two sides see of each other.  They stand in one order, `seenGone ≤ gone ≤ seenSent ≤ sent`, over no more
than one depth, so every pointer determines its count and no slot in use is written.  One lemma for each operation
says what becomes of the counts.
-/
namespace UsbRecorder
namespace Crossing

/-- The published form of a count. -/
def word (modulus count : Nat) : UInt32 := gray (count % modulus)

/-! ## Counts on their way -/

/-- A delay line holds published counts that never fell, from `low`, which it shows, up to `high`. -/
def Carries (modulus : Nat) (line : DelayLine UInt32) (low high : Nat) : Prop :=
  line.output = word modulus low ∧
    ∃ counts : List Nat, line.behind = counts.map (word modulus) ∧ (low :: (counts ++ [high])).Pairwise (· ≤ ·)

variable {modulus low high : Nat} {line : DelayLine UInt32}

theorem Carries.le (h : Carries modulus line low high) : low ≤ high := by
  obtain ⟨-, counts, -, hs⟩ := h
  exact (List.pairwise_cons.1 hs).1 high (by simp)

theorem Carries.mono {high' : Nat} (h : Carries modulus line low high) (hle : high ≤ high') :
    Carries modulus line low high' := by
  obtain ⟨hout, counts, hbeh, hs⟩ := h
  refine ⟨hout, counts, hbeh, ?_⟩
  rw [← List.cons_append, List.pairwise_append] at hs ⊢
  refine ⟨hs.1, List.pairwise_singleton _ _, fun a ha b hb => ?_⟩
  rw [List.mem_singleton.1 hb]
  exact Nat.le_trans (hs.2.2 a ha high (by simp)) hle

theorem Carries.clock (h : Carries modulus line low high) :
    ∃ low', low ≤ low' ∧ low' ≤ high ∧ Carries modulus (line.clock (word modulus high)) low' high := by
  obtain ⟨hout, counts, hbeh, hs⟩ := h
  unfold DelayLine.clock
  cases counts with
  | nil =>
    rw [hbeh]
    exact ⟨high, (List.pairwise_cons.1 hs).1 high (by simp), Nat.le_refl _, rfl, [], rfl, by simp⟩
  | cons c counts =>
    rw [hbeh]
    obtain ⟨hlow, hs'⟩ := List.pairwise_cons.1 hs
    obtain ⟨hc, htail⟩ := List.pairwise_cons.1 hs'
    refine ⟨c, hlow c (by simp), hc high (by simp), rfl, counts ++ [high], by simp, ?_⟩
    refine List.pairwise_cons.2 ⟨fun a ha => hc a (by simpa using ha), ?_⟩
    rw [List.pairwise_append]
    refine ⟨htail, List.pairwise_singleton _ _, fun a ha b hb => ?_⟩
    rw [List.mem_singleton.1 hb]
    rcases List.mem_append.1 ha with ha | ha
    · exact (List.pairwise_append.1 htail).2.2 a ha high (by simp)
    · rw [List.mem_singleton.1 ha]

theorem carries_reset (modulus stages : Nat) : Carries modulus (.reset stages 0) 0 0 := by
  refine ⟨?_, List.replicate (stages - 1) 0, ?_, ?_⟩
  · simp [DelayLine.reset, word, gray, Gray.encode]
  · simp [DelayLine.reset, word, gray, Gray.encode]
  · rw [show [0] = List.replicate 1 0 from rfl, List.replicate_append_replicate, ← List.replicate_succ]
    exact List.pairwise_replicate.2 (Or.inr (Nat.le_refl 0))

/-! ## Counts and pointers -/

theorem mod_add_sub_mod {a b m : Nat} (hab : a ≤ b) (hm : b - a < m) : (b % m + m - a % m) % m = b - a := by
  obtain ⟨d, rfl⟩ := Nat.exists_eq_add_of_le hab
  have hlt := Nat.mod_lt a (show 0 < m by omega)
  rw [Nat.add_sub_cancel_left] at hm ⊢
  rw [← Nat.mod_add_mod]
  by_cases hw : a % m + d < m
  · rw [Nat.mod_eq_of_lt hw, show a % m + d + m - a % m = d + m by omega, Nat.add_mod_right, Nat.mod_eq_of_lt hm]
  · have hwrap : (a % m + d) % m = a % m + d - m := by
      rw [Nat.mod_eq_sub_mod (Nat.le_of_not_lt hw), Nat.mod_eq_of_lt (by omega)]
    rw [hwrap, show a % m + d - m + m - a % m = d by omega, Nat.mod_eq_of_lt hm]

theorem mod_ne_mod {a b m : Nat} (hab : a < b) (hm : b - a < m) : a % m ≠ b % m := by
  intro h
  have := mod_add_sub_mod (Nat.le_of_lt hab) hm
  rw [← h, Nat.add_sub_cancel_left, Nat.mod_self] at this
  omega

theorem mod_eq_mod_iff {a b m : Nat} (hab : a ≤ b) (hm : b - a < m) : a % m = b % m ↔ a = b := by
  refine ⟨fun h => ?_, fun h => by rw [h]⟩
  by_contra hne
  exact mod_ne_mod (by omega) hm h

/-- **A queue whose pointers tell its counts**: `sent` went in, `gone` bytes are out, the sender sees `seenGone` of
these and the receiver `seenSent` of those. -/
structure Window (q : Crossing) (sent : List Beat) (gone seenGone seenSent : Nat) : Prop where
  width_pos : 1 ≤ q.width
  width_le : q.width ≤ maxWidth
  pushed : q.sender.pushed = sent.length
  senderPointer : q.sender.pointer = sent.length % q.modulus
  receiverPointer : q.receiver.pointer = gone % q.modulus
  sentGray : q.sentGray = word q.modulus sent.length
  goneGray : q.goneGray = word q.modulus gone
  senderView : Carries q.modulus q.sender.view seenGone gone
  receiverView : Carries q.modulus q.receiver.view seenSent sent.length
  gone_le : gone ≤ seenSent
  sent_le : sent.length ≤ seenGone + q.depth
  slots : ∀ i, gone ≤ i → ∀ h : i < sent.length, q.slots.read (i % q.depth) = sent[i].toWord

theorem depth_pos (q : Crossing) : 0 < q.depth := Nat.two_pow_pos _

theorem modulus_eq (q : Crossing) : q.modulus = q.depth * 2 := Nat.pow_succ ..

theorem ungray_word {q : Crossing} (hw : q.width ≤ maxWidth) (count : Nat) :
    ungray (word q.modulus count) = count % q.modulus :=
  ungray_gray hw (Nat.mod_lt _ (Nat.two_pow_pos _))

theorem isPowerOfTwo_log2 {n : Nat} (h : n.isPowerOfTwo) : 2 ^ n.log2 = n := by
  obtain ⟨k, rfl⟩ := h
  rw [Nat.log2_two_pow]

theorem depth_create {depth : Nat} {q : Crossing} (h : create depth = .ok q) : q.depth = depth := by
  unfold create at h
  split at h
  · rename_i hd
    cases h
    exact isPowerOfTwo_log2 hd.2.1
  · cases h

theorem window_create {depth : Nat} {q : Crossing} (h : create depth = .ok q) : Window q [] 0 0 0 := by
  unfold create at h
  split at h
  · rename_i hd
    cases h
    have hlog := isPowerOfTwo_log2 hd.2.1
    have hpos : 1 ≤ depth.log2 := by
      by_contra hz
      rw [Nat.lt_one_iff.1 (Nat.lt_of_not_le hz)] at hlog
      omega
    have hmax : depth.log2 ≤ maxWidth := by
      by_contra hgt
      have hlt : 2 ^ maxWidth < 2 ^ depth.log2 := Nat.pow_lt_pow_right (by decide) (Nat.lt_of_not_le hgt)
      have hle : depth ≤ 2 ^ maxWidth := hd.2.2
      omega
    exact {
      width_pos := hpos
      width_le := hmax
      pushed := rfl
      senderPointer := (Nat.zero_mod _).symm
      receiverPointer := (Nat.zero_mod _).symm
      sentGray := by simp [word, gray, Gray.encode]
      goneGray := by simp [word, gray, Gray.encode]
      senderView := carries_reset _ _
      receiverView := carries_reset _ _
      gone_le := Nat.le_refl 0
      sent_le := Nat.zero_le _
      slots := fun _ _ h => absurd h (Nat.not_lt_zero _) }
  · cases h

namespace Window

variable {q : Crossing} {sent : List Beat} {gone seenGone seenSent : Nat}

theorem seenGone_le (h : Window q sent gone seenGone seenSent) : seenGone ≤ gone := h.senderView.le

theorem seenSent_le (h : Window q sent gone seenGone seenSent) : seenSent ≤ sent.length := h.receiverView.le

/-! ## What the two sides read off -/

theorem senderLevel_eq (h : Window q sent gone seenGone seenSent) : q.senderLevel = sent.length - seenGone := by
  unfold senderLevel
  rw [h.senderView.1, ungray_word h.width_le, h.senderPointer]
  have := h.seenGone_le; have := h.gone_le; have := h.seenSent_le; have := h.sent_le
  have := q.modulus_eq; have := q.depth_pos
  exact mod_add_sub_mod (by omega) (by omega)

theorem receiverLevel_eq (h : Window q sent gone seenGone seenSent) : q.receiverLevel = seenSent - gone := by
  unfold receiverLevel
  rw [h.receiverView.1, ungray_word h.width_le, h.receiverPointer]
  have := h.seenGone_le; have := h.seenSent_le; have := h.sent_le
  have := q.modulus_eq; have := q.depth_pos
  exact mod_add_sub_mod h.gone_le (by omega)

theorem isFull_iff (h : Window q sent gone seenGone seenSent) :
    q.isFull = true ↔ sent.length = seenGone + q.depth := by
  have hlevel := h.senderLevel_eq
  have hlt : ∀ n : Nat, n % q.modulus < 2 ^ (q.width + 1) := fun n => Nat.mod_lt n (Nat.two_pow_pos _)
  unfold senderLevel at hlevel
  rw [h.senderView.1, ungray_word h.width_le, h.senderPointer] at hlevel
  unfold isFull
  rw [beq_iff_eq, h.senderPointer, h.senderView.1]
  unfold word
  rw [gray_xor_eq_full_iff h.width_pos h.width_le (hlt _) (hlt _)]
  show (sent.length % q.modulus + q.modulus - seenGone % q.modulus) % q.modulus = q.depth ↔ _
  have := h.seenGone_le; have := h.gone_le; have := h.seenSent_le; have := h.sent_le; have := q.depth_pos
  omega

theorem isEmpty_iff (h : Window q sent gone seenGone seenSent) : q.isEmpty = true ↔ gone = seenSent := by
  unfold isEmpty
  have hlt : ∀ n : Nat, n % q.modulus < 2 ^ (q.width + 1) := fun n => Nat.mod_lt n (Nat.two_pow_pos _)
  rw [beq_iff_eq, h.receiverPointer, h.receiverView.1]
  unfold word
  rw [gray_eq_gray_iff h.width_le (hlt _) (hlt _)]
  have := h.seenGone_le; have := h.seenSent_le; have := h.sent_le
  have := q.modulus_eq; have := q.depth_pos
  exact mod_eq_mod_iff h.gone_le (by omega)

/-! ## What each operation does to the counts -/

theorem senderTick (h : Window q sent gone seenGone seenSent) :
    ∃ seenGone', seenGone ≤ seenGone' ∧ Window q.senderTick sent gone seenGone' seenSent := by
  obtain ⟨low, hle, -, hview⟩ := h.senderView.clock
  refine ⟨low, hle, { h with senderView := ?_, sent_le := ?_ }⟩
  · show Carries q.modulus (q.sender.view.clock q.goneGray) low gone
    rw [h.goneGray]
    exact hview
  · exact Nat.le_trans h.sent_le (Nat.add_le_add_right hle _)

theorem receiverTick (h : Window q sent gone seenGone seenSent) :
    ∃ seenSent', seenSent ≤ seenSent' ∧ Window q.receiverTick sent gone seenGone seenSent' := by
  obtain ⟨low, hle, -, hview⟩ := h.receiverView.clock
  refine ⟨low, hle, { h with receiverView := ?_, gone_le := ?_ }⟩
  · show Carries q.modulus (q.receiver.view.clock q.sentGray) low sent.length
    rw [h.sentGray]
    exact hview
  · exact Nat.le_trans h.gone_le hle

theorem markStale (h : Window q sent gone seenGone seenSent) (following : Nat) :
    Window (q.markStale following) sent gone seenGone seenSent := { h with }

theorem close (h : Window q sent gone seenGone seenSent) : Window q.close sent gone seenGone seenSent := { h with }

theorem push_of_isFull (h : Window q sent gone seenGone seenSent) (hfull : q.isFull = true) (b : Beat) :
    (q.push b).1 = false ∧ Window (q.push b).2 sent gone seenGone seenSent := by
  unfold push
  rw [if_pos hfull]
  exact ⟨rfl, { h with }⟩

/-- **A push fills a slot that no byte is in**, for the sender sees no more bytes gone than are. -/
theorem push_of_not_isFull (h : Window q sent gone seenGone seenSent) (hfull : ¬ q.isFull = true) (b : Beat) :
    (q.push b).1 = true ∧ Window (q.push b).2 (sent ++ [b]) gone seenGone seenSent := by
  have hroom : sent.length < seenGone + q.depth := by
    rw [h.isFull_iff] at hfull
    have := h.sent_le
    omega
  have hlen : (sent ++ [b]).length = sent.length + 1 := by simp
  unfold push
  rw [if_neg hfull]
  refine ⟨rfl, { h with
    pushed := ?pushed, senderPointer := ?pointer, sentGray := ?word, receiverView := ?view, sent_le := ?bound,
    slots := ?slots }⟩
  case pushed => simp [h.pushed]
  case pointer => simp only [h.senderPointer, hlen, Nat.mod_add_mod]; rfl
  case word => simp only [h.senderPointer, hlen, Nat.mod_add_mod, word]; rfl
  case view => exact h.receiverView.mono (by omega)
  case bound =>
    rw [hlen]
    exact hroom
  case slots =>
    intro i hi hlt
    show (q.slots.write (q.sender.pointer % q.depth) b.toWord).read (i % q.depth) = _
    have hslot : q.sender.pointer % q.depth = sent.length % q.depth := by
      rw [h.senderPointer, Nat.mod_mod_of_dvd _ ⟨2, q.modulus_eq⟩]
    rw [hslot, Cells.read_write]
    rw [hlen] at hlt
    rcases Nat.lt_succ_iff_lt_or_eq.1 hlt with hold | rfl
    · have := h.seenGone_le
      have hne : sent.length % q.depth ≠ i % q.depth := (mod_ne_mod hold (by omega)).symm
      rw [if_neg hne, h.slots i hi hold, List.getElem_append_left hold]
    · rw [if_pos rfl, List.getElem_append_right (Nat.le_refl _)]
      simp

theorem offered_of_eq (h : Window q sent gone seenGone seenSent) (heq : gone = seenSent) : q.offered = none := by
  unfold offered
  rw [if_pos (h.isEmpty_iff.2 heq)]

/-- **The beat offered is the oldest that was sent and is not gone.** -/
theorem offered_of_lt (h : Window q sent gone seenGone seenSent) (hlt : gone < seenSent) : q.offered = sent[gone]? := by
  have hlen : gone < sent.length := Nat.lt_of_lt_of_le hlt h.seenSent_le
  have hne : ¬ q.isEmpty = true := by rw [h.isEmpty_iff]; omega
  unfold offered
  rw [if_neg hne, h.receiverPointer, Nat.mod_mod_of_dvd _ ⟨2, q.modulus_eq⟩, h.slots gone (Nat.le_refl _) hlen,
    Beat.ofWord_toWord, List.getElem?_eq_getElem hlen]

theorem take_of_eq (h : Window q sent gone seenGone seenSent) (heq : gone = seenSent) : q.take = (none, q) := by
  unfold take
  rw [h.offered_of_eq heq]

theorem take_of_lt (h : Window q sent gone seenGone seenSent) (hlt : gone < seenSent) :
    q.take.1 = sent[gone]? ∧ Window q.take.2 sent (gone + 1) seenGone seenSent := by
  have hlen : gone < sent.length := Nat.lt_of_lt_of_le hlt h.seenSent_le
  have hoff := h.offered_of_lt hlt
  rw [List.getElem?_eq_getElem hlen] at hoff ⊢
  unfold take
  rw [hoff]
  refine ⟨rfl, { h with
    receiverPointer := ?pointer, goneGray := ?word, senderView := ?view, gone_le := ?bound, slots := ?slots }⟩
  case pointer => simp only [h.receiverPointer, Nat.mod_add_mod]; rfl
  case word => simp only [h.receiverPointer, Nat.mod_add_mod, word]; rfl
  case view => exact h.senderView.mono (Nat.le_succ _)
  case bound => exact hlt
  case slots => exact fun i hi => h.slots i (Nat.le_of_succ_le hi)

/-- **A reset drops what the receiver sees, and nothing else.** -/
theorem reset (h : Window q sent gone seenGone seenSent) :
    q.reset.1 = seenSent - gone ∧ Window q.reset.2 sent seenSent seenGone seenSent := by
  refine ⟨h.receiverLevel_eq, { h with
    receiverPointer := ?pointer, goneGray := ?word, senderView := ?view, gone_le := Nat.le_refl _, slots := ?slots }⟩
  case pointer =>
    show ungray q.receiver.view.output % q.modulus = _
    rw [h.receiverView.1, ungray_word h.width_le, Nat.mod_mod]
    rfl
  case word => exact h.receiverView.1
  case view => exact h.senderView.mono h.gone_le
  case slots => exact fun i hi => h.slots i (Nat.le_trans h.gone_le hi)

end Window
end Crossing
end UsbRecorder
