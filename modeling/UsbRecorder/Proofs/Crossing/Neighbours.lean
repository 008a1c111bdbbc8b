import UsbRecorder.Proofs.Crossing.Gray
/-!
# Neighbours — code words that follow on each other, the turn from the last to the first included

Counting on by one turns over the bits of a pointer up to some place, and the turn from the last pointer to the first
turns over all of them (`exists_turned`).  Coding takes every bit together with the one above it, so the two code words
differ in that place alone, and a word caught between them is one of them (`pointerCode`).
-/
namespace UsbRecorder
namespace Crossing

/-- The pointer of `w + 1` bits that follows. -/
def next (w p : Nat) : Nat := (p + 1) % 2 ^ (w + 1)

/-- A word read while `x` changes to `y`: every bit of it is the old or the new one. -/
def Between (x y word : UInt32) : Prop :=
  ∀ i, word.toNat.testBit i = x.toNat.testBit i ∨ word.toNat.testBit i = y.toNat.testBit i

theorem next_lt (w p : Nat) : next w p < 2 ^ (w + 1) := Nat.mod_lt _ (Nat.two_pow_pos _)

theorem next_half {w p : Nat} (hp : p < 2 ^ (w + 1 + 1)) :
    next (w + 1) p % 2 ≠ p % 2 ∧ next (w + 1) p / 2 = if p % 2 = 0 then p / 2 else next w (p / 2) := by
  have hpow : 2 ^ (w + 1 + 1) = 2 * 2 ^ (w + 1) := Nat.pow_succ'
  rw [hpow] at hp
  have hparity : next (w + 1) p % 2 = (p + 1) % 2 := by
    rw [next, hpow]
    exact Nat.mod_mul_right_mod ..
  have hhalf : next (w + 1) p / 2 = (p + 1) / 2 % 2 ^ (w + 1) := by
    rw [next, hpow]
    exact Nat.mod_mul_right_div_self ..
  refine ⟨by omega, ?_⟩
  rw [hhalf]
  split
  · rw [show (p + 1) / 2 = p / 2 by omega]
    exact Nat.mod_eq_of_lt (by omega)
  · rw [show (p + 1) / 2 = p / 2 + 1 by omega, next]

/-- **Counting on turns over the bits up to some place, and no other.** -/
theorem exists_turned {w p : Nat} (hp : p < 2 ^ (w + 1)) :
    ∃ i ≤ w, ∀ j, (p ^^^ next w p).testBit j = decide (j ≤ i) := by
  -- the lowest bit always turns over, and where it was set the others do as those of the half
  induction w generalizing p with
  | zero =>
    refine ⟨0, Nat.le_refl 0, fun j => ?_⟩
    have hone : p ^^^ next 0 p = 2 ^ 0 := by
      interval_cases p <;> rfl
    rw [hone, Nat.testBit_two_pow]
    exact decide_eq_decide.2 (by omega)
  | succ w ih =>
    obtain ⟨hparity, hhalf⟩ := next_half hp
    have hlow : (p ^^^ next (w + 1) p).testBit 0 = true := by
      rw [Nat.testBit_xor, Nat.testBit_zero, Nat.testBit_zero, Bool.xor_iff_ne, Ne, decide_eq_decide]
      omega
    by_cases heven : p % 2 = 0
    · refine ⟨0, Nat.zero_le _, fun j => ?_⟩
      cases j with
      | zero => exact hlow
      | succ j => rw [Nat.testBit_succ, Nat.xor_div_two, hhalf, if_pos heven, Nat.xor_self, Nat.zero_testBit]; simp
    · obtain ⟨i, hi, hbits⟩ := ih (p := p / 2) (by omega)
      refine ⟨i + 1, Nat.succ_le_succ hi, fun j => ?_⟩
      cases j with
      | zero => rw [hlow]; simp
      | succ j =>
        rw [Nat.testBit_succ, Nat.xor_div_two, hhalf, if_neg heven, hbits]
        exact decide_eq_decide.2 (Nat.succ_le_succ_iff.symm)

variable {w : Nat}

theorem toNat_gray {p : Nat} (hw : w ≤ maxWidth) (hp : p < 2 ^ (w + 1)) : (gray p).toNat = p ^^^ p >>> 1 := by
  rw [gray, Gray.toNat_encode, toNat_ofNat_pointer hw hp]

theorem exists_changed {p : Nat} (hw : w ≤ maxWidth) (hp : p < 2 ^ (w + 1)) :
    ∃ i ≤ w, ∀ j, (gray p).toNat.testBit j ≠ (gray (next w p)).toNat.testBit j ↔ j = i := by
  obtain ⟨i, hi, hturned⟩ := exists_turned hp
  refine ⟨i, hi, fun j => ?_⟩
  have hxor : (gray p).toNat ^^^ (gray (next w p)).toNat = (p ^^^ next w p) ^^^ (p ^^^ next w p) >>> 1 := by
    rw [toNat_gray hw hp, toNat_gray hw (next_lt w p), Nat.shiftRight_xor_distrib]
    ac_rfl
  rw [← Bool.xor_iff_ne, ← Nat.testBit_xor, hxor, Nat.testBit_xor, Nat.testBit_shiftRight, hturned, hturned,
    Bool.xor_iff_ne, Ne, decide_eq_decide]
  omega

theorem Between.eq_or_eq {x y word : UInt32} (h : Between x y word) {i : Nat}
    (hone : ∀ j, x.toNat.testBit j ≠ y.toNat.testBit j ↔ j = i) : word = x ∨ word = y := by
  have hsame : ∀ j, j ≠ i → x.toNat.testBit j = y.toNat.testBit j := fun j hj => by
    by_contra hne
    exact hj ((hone j).1 hne)
  refine (h i).imp (fun hx => ?_) (fun hy => ?_)
  · refine UInt32.toNat_inj.1 (Nat.eq_of_testBit_eq fun j => ?_)
    by_cases hj : j = i
    · rw [hj, hx]
    · exact (h j).elim id fun hy => hy.trans (hsame j hj).symm
  · refine UInt32.toNat_inj.1 (Nat.eq_of_testBit_eq fun j => ?_)
    by_cases hj : j = i
    · rw [hj, hy]
    · exact (h j).elim (fun hx => hx.trans (hsame j hj)) id

/-- **What the code words of pointers of `w + 1` bits tell.** -/
structure PointerCode (w : Nat) : Prop where
  decode_encode : ∀ n, Gray.decode (Gray.encode n) = n
  encode_decode : ∀ word, Gray.encode (Gray.decode word) = word
  /-- two words differ in their two highest bits alone exactly where the pointers are one depth apart -/
  full_iff : ∀ p c, p < 2 ^ (w + 1) → c < 2 ^ (w + 1) →
    (gray p ^^^ gray c = UInt32.ofNat (3 <<< (w - 1)) ↔ ((p : Int) - c) % 2 ^ (w + 1) = 2 ^ w)
  eq_iff : ∀ p c, p < 2 ^ (w + 1) → c < 2 ^ (w + 1) → (gray p = gray c ↔ p = c)
  changed : ∀ p, p < 2 ^ (w + 1) → ∃ i ≤ w, ∀ j, (gray p).toNat.testBit j ≠ (gray (next w p)).toNat.testBit j ↔ j = i
  /-- a pointer caught while it changes to the next reads as the old or as the new one -/
  caught : ∀ p word, p < 2 ^ (w + 1) → Between (gray p) (gray (next w p)) word →
    word = gray p ∧ ungray word = p ∨ word = gray (next w p) ∧ ungray word = next w p

/-- **Words of pointers tell what the two sides read off them**, at every width that a queue can have. -/
theorem pointerCode (hw : 1 ≤ w) (hw' : w ≤ maxWidth) : PointerCode w := by
  refine ⟨Gray.decode_encode, Gray.encode_decode, ?full, ?eq, ?changed, ?caught⟩
  case full =>
    intro p c hp hc
    rw [gray_xor_eq_full_iff hw hw' hp hc, ← Int.add_emod_right, ← Int.natCast_inj]
    have hsub : (p : Int) - c + 2 ^ (w + 1) = ((p + 2 ^ (w + 1) - c : Nat) : Int) := by
      rw [Nat.cast_sub (by omega)]
      push_cast
      omega
    rw [hsub]
    push_cast
    rfl
  case eq => exact fun p c => gray_eq_gray_iff hw'
  case changed => exact fun p => exists_changed hw'
  case caught =>
    intro p word hp hbetween
    obtain ⟨i, -, hone⟩ := exists_changed hw' hp
    refine (hbetween.eq_or_eq hone).imp (fun h => ⟨h, ?_⟩) (fun h => ⟨h, ?_⟩)
    · rw [h, ungray_gray hw' hp]
    · rw [h, ungray_gray hw' (next_lt w p)]

/-- The widest pointer turns from all bits set to none, and its word in the highest bit. -/
theorem pointerCode_widest :
    (1 ≤ 30 ∧ 30 ≤ maxWidth) ∧ PointerCode 30 ∧ next 30 (2 ^ 31 - 1) = 0 ∧ gray (2 ^ 31 - 1) ^^^ gray 0 = 0x40000000 :=
  ⟨by decide, pointerCode (by decide) (by decide), by decide, by decide⟩

end Crossing
end UsbRecorder
