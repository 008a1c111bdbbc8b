import Mathlib.Tactic.IntervalCases
import UsbRecorder.Crossing.Queue
/-!
# Gray — the code word of a pointer and back, and what the full test reads off two code words

Coding is one `foldOnto` by one place and decoding undoes it place by place, since folding twice by `k` is folding once
by `2k`.  Coding is linear for the exclusive or, so two code words differ by the word of `2^w` exactly where the
pointers do, and pointers of `w + 1` bits do exactly where they are `2^w` apart (`gray_xor_eq_full_iff`).
-/
namespace UsbRecorder
namespace Gray

theorem foldOnto_xor (a b k : UInt32) : foldOnto (a ^^^ b) k = foldOnto a k ^^^ foldOnto b k := by
  unfold foldOnto
  rw [UInt32.shiftRight_xor]
  ac_rfl

theorem toNat_foldOnto (n k : UInt32) : (foldOnto n k).toNat = n.toNat ^^^ (n.toNat >>> (k.toNat % 32)) := by
  simp [foldOnto]

theorem foldOnto_foldOnto {k m : UInt32} (hk : k.toNat < 32) (hm : m.toNat < 32) (hkm : m.toNat = k.toNat + k.toNat)
    (n : UInt32) : foldOnto (foldOnto n k) k = foldOnto n m := by
  apply UInt32.toNat_inj.1
  rw [toNat_foldOnto, toNat_foldOnto, toNat_foldOnto, Nat.mod_eq_of_lt hk, Nat.mod_eq_of_lt hm, Nat.shiftRight_xor_distrib,
    ← Nat.shiftRight_add, ← hkm, Nat.xor_assoc, ← Nat.xor_assoc (n.toNat >>> k.toNat), Nat.xor_self, Nat.zero_xor]

theorem foldOnto_half (n : UInt32) : foldOnto (foldOnto n 16) 16 = n := by
  apply UInt32.toNat_inj.1
  have hsh : n.toNat >>> (16 + 16) = 0 := Nat.shiftRight_eq_zero _ _ n.toNat_lt
  rw [toNat_foldOnto, toNat_foldOnto, show (16 : UInt32).toNat % 32 = 16 from rfl, Nat.shiftRight_xor_distrib,
    ← Nat.shiftRight_add, hsh, Nat.xor_zero, Nat.xor_assoc, Nat.xor_self, Nat.xor_zero]

/-- **Decoding undoes coding.** -/
@[simp] theorem decode_encode (n : UInt32) : decode (encode n) = n := by
  show foldOnto (foldOnto (foldOnto (foldOnto (foldOnto (foldOnto n 1) 1) 2) 4) 8) 16 = n
  rw [foldOnto_foldOnto (m := 2) (by decide) (by decide) (by decide),
    foldOnto_foldOnto (m := 4) (by decide) (by decide) (by decide),
    foldOnto_foldOnto (m := 8) (by decide) (by decide) (by decide),
    foldOnto_foldOnto (m := 16) (by decide) (by decide) (by decide), foldOnto_half]

theorem foldOnto_comm (n k m : UInt32) : foldOnto (foldOnto n k) m = foldOnto (foldOnto n m) k := by
  apply UInt32.toNat_inj.1
  simp only [toNat_foldOnto, Nat.shiftRight_xor_distrib, ← Nat.shiftRight_add, Nat.add_comm (k.toNat % 32)]
  ac_rfl

theorem encode_foldl (ks : List UInt32) (n : UInt32) : encode (ks.foldl foldOnto n) = ks.foldl foldOnto (encode n) := by
  induction ks generalizing n with
  | nil => rfl
  | cons k ks ih =>
    show encode (ks.foldl foldOnto (foldOnto n k)) = ks.foldl foldOnto (foldOnto (foldOnto n 1) k)
    rw [ih, ← foldOnto_comm n k 1]
    rfl

/-- **Coding undoes decoding**, for the foldings of the two commute. -/
@[simp] theorem encode_decode (g : UInt32) : encode (decode g) = g := by
  rw [decode, encode_foldl]
  exact decode_encode g

theorem toNat_encode (n : UInt32) : (encode n).toNat = n.toNat ^^^ n.toNat >>> 1 := toNat_foldOnto n 1

theorem encode_injective {a b : UInt32} (h : encode a = encode b) : a = b := by
  have := congrArg decode h
  rwa [decode_encode, decode_encode] at this

theorem encode_xor (a b : UInt32) : encode (a ^^^ b) = encode a ^^^ encode b := foldOnto_xor a b 1

theorem encode_two_pow {w : Nat} (hw : 1 ≤ w) (hw' : w ≤ 30) :
    encode (UInt32.ofNat (2 ^ w)) = UInt32.ofNat (3 <<< (w - 1)) := by
  interval_cases w <;> rfl

end Gray

namespace Crossing

/-- Flipping bit `w` of a number of `w + 1` bits adds `2^w` modulo `2^(w+1)`. -/
theorem xor_two_pow {w c : Nat} (hc : c < 2 ^ (w + 1)) : c ^^^ 2 ^ w = (c + 2 ^ w) % 2 ^ (w + 1) := by
  have hpos : 0 < 2 ^ w := Nat.two_pow_pos w
  rw [Nat.pow_succ] at hc ⊢
  have hsplit := Nat.div_add_mod (c ^^^ 2 ^ w) (2 ^ w)
  rw [Nat.xor_div_two_pow, Nat.xor_mod_two_pow, Nat.div_self hpos, Nat.mod_self, Nat.xor_zero] at hsplit
  have hdiv := Nat.div_add_mod c (2 ^ w)
  by_cases hlow : c < 2 ^ w
  · rw [Nat.div_eq_of_lt hlow, Nat.mod_eq_of_lt hlow, Nat.zero_xor] at hsplit
    rw [Nat.mod_eq_of_lt (by omega)]
    omega
  · have hone : c / 2 ^ w = 1 := Nat.div_eq_of_lt_le (by omega) (by omega)
    rw [hone] at hsplit hdiv
    rw [Nat.xor_self] at hsplit
    rw [show c + 2 ^ w = c - 2 ^ w + 2 ^ w * 2 by omega, Nat.add_mod_right, Nat.mod_eq_of_lt (by omega)]
    omega

/-- Numbers of `w + 1` bits differ in bit `w` alone exactly where they are `2^w` apart. -/
theorem xor_eq_two_pow_iff {w p c : Nat} (hp : p < 2 ^ (w + 1)) (hc : c < 2 ^ (w + 1)) :
    p ^^^ c = 2 ^ w ↔ (p + 2 ^ (w + 1) - c) % 2 ^ (w + 1) = 2 ^ w := by
  have hflip : p ^^^ c = 2 ^ w ↔ p = c ^^^ 2 ^ w := by
    constructor <;> intro h
    · rw [← h, Nat.xor_comm p c, ← Nat.xor_assoc, Nat.xor_self, Nat.zero_xor]
    · rw [h, Nat.xor_comm c, Nat.xor_assoc, Nat.xor_self, Nat.xor_zero]
  rw [hflip, xor_two_pow hc]
  have hpos : 0 < 2 ^ w := Nat.two_pow_pos w
  rw [Nat.pow_succ] at *
  generalize 2 ^ w = m at *
  have hsum : (c + m) % (m * 2) = if c < m then c + m else c - m := by
    split
    · exact Nat.mod_eq_of_lt (by omega)
    · rw [show c + m = c - m + m * 2 by omega, Nat.add_mod_right, Nat.mod_eq_of_lt (by omega)]
  have hdiff : (p + m * 2 - c) % (m * 2) = if c ≤ p then p - c else p + m * 2 - c := by
    split
    · rw [show p + m * 2 - c = p - c + m * 2 by omega, Nat.add_mod_right, Nat.mod_eq_of_lt (by omega)]
    · exact Nat.mod_eq_of_lt (by omega)
  rw [hsum, hdiff]
  split <;> split <;> omega

theorem toNat_ofNat_pointer {w p : Nat} (hw : w ≤ maxWidth) (hp : p < 2 ^ (w + 1)) : (UInt32.ofNat p).toNat = p := by
  apply UInt32.toNat_ofNat_of_lt
  calc p < 2 ^ (w + 1) := hp
    _ ≤ 2 ^ 31 := Nat.pow_le_pow_right (by decide) (by unfold maxWidth at hw; omega)
    _ < UInt32.size := by decide

theorem ungray_gray {w p : Nat} (hw : w ≤ maxWidth) (hp : p < 2 ^ (w + 1)) : ungray (gray p) = p := by
  rw [ungray, gray, Gray.decode_encode, toNat_ofNat_pointer hw hp]

theorem gray_eq_gray_iff {w p c : Nat} (hw : w ≤ maxWidth) (hp : p < 2 ^ (w + 1)) (hc : c < 2 ^ (w + 1)) :
    gray p = gray c ↔ p = c := by
  refine ⟨fun h => ?_, fun h => by rw [h]⟩
  rw [← ungray_gray hw hp, h, ungray_gray hw hc]

/-- **The full test on code words is the full test on pointers.** -/
theorem gray_xor_eq_full_iff {w p c : Nat} (hw : 1 ≤ w) (hw' : w ≤ maxWidth) (hp : p < 2 ^ (w + 1))
    (hc : c < 2 ^ (w + 1)) :
    gray p ^^^ gray c = UInt32.ofNat (3 <<< (w - 1)) ↔ (p + 2 ^ (w + 1) - c) % 2 ^ (w + 1) = 2 ^ w := by
  rw [gray, gray, ← Gray.encode_xor, ← Gray.encode_two_pow hw hw', ← xor_eq_two_pow_iff hp hc]
  have h2 : (UInt32.ofNat (2 ^ w)).toNat = 2 ^ w :=
    toNat_ofNat_pointer hw' (Nat.pow_lt_pow_right (by decide) (by omega))
  constructor
  · intro h
    have := congrArg UInt32.toNat (Gray.encode_injective h)
    rwa [UInt32.toNat_xor, toNat_ofNat_pointer hw' hp, toNat_ofNat_pointer hw' hc, h2] at this
  · intro h
    congr 1
    apply UInt32.toNat_inj.1
    rw [UInt32.toNat_xor, toNat_ofNat_pointer hw' hp, toNat_ofNat_pointer hw' hc, h2, h]

end Crossing
end UsbRecorder
