import UsbRecorder.Memory.Cells
/-!
# Circle — what the cells of a circle spell from a position on

`Spells c size start xs` reads a list off a circle of `size` cells.  A value written behind a list that leaves a cell
free extends it (`Spells.write`), and values filled in over its middle replace that part (`Spells.fill`).
-/
namespace UsbRecorder

theorem mod_add_congr {a b size : Nat} (h : a % size = b % size) (i : Nat) : (a + i) % size = (b + i) % size := by
  rw [Nat.add_mod, h, ← Nat.add_mod]

theorem circle_ne {start size i j : Nat} (hij : i < j) (hj : j < size) : (start + i) % size ≠ (start + j) % size := by
  intro h
  have hd := Nat.sub_mod_eq_zero_of_mod_eq h.symm
  rw [show start + j - (start + i) = j - i by omega, Nat.mod_eq_of_lt (by omega)] at hd
  omega

namespace Cells
variable {α : Type} [OfNat α 0]

/-- The cells from a position on hold a list. -/
def Spells (c : Cells α) (size start : Nat) (xs : List α) : Prop :=
  ∀ (i : Nat) (h : i < xs.length), c.read ((start + i) % size) = xs[i]

variable {c : Cells α} {size start : Nat} {xs ys : List α}

theorem spells_nil (c : Cells α) (size start : Nat) : c.Spells size start [] := fun _ h => absurd h (Nat.not_lt_zero _)

theorem spells_append : c.Spells size start (xs ++ ys) ↔ c.Spells size start xs ∧ c.Spells size (start + xs.length) ys := by
  constructor
  · intro h
    refine ⟨fun i hi => ?_, fun i hi => ?_⟩
    · rw [h i (by rw [List.length_append]; omega), List.getElem_append_left hi]
    · rw [Nat.add_assoc, h (xs.length + i) (by rw [List.length_append]; omega),
        List.getElem_append_right (Nat.le_add_right _ _)]
      simp
  · rintro ⟨hx, hy⟩ i hi
    by_cases hlt : i < xs.length
    · rw [hx i hlt, List.getElem_append_left hlt]
    · rw [List.length_append] at hi
      have := hy (i - xs.length) (by omega)
      rw [show start + xs.length + (i - xs.length) = start + i by omega] at this
      rw [this, List.getElem_append_right (Nat.le_of_not_lt hlt)]

theorem spells_cons {x : α} :
    c.Spells size start (x :: xs) ↔ c.read (start % size) = x ∧ c.Spells size (start + 1) xs := by
  rw [← List.singleton_append, spells_append]
  refine and_congr ⟨fun h => h 0 (by simp), fun h i hi => ?_⟩ (by rw [List.length_singleton])
  have hz : i = 0 := by simpa using hi
  subst hz
  exact h

theorem Spells.congr {start' : Nat} (h : c.Spells size start xs) (hs : start % size = start' % size) :
    c.Spells size start' xs := by
  intro i hi
  rw [← mod_add_congr hs i]
  exact h i hi

theorem Spells.write_free (h : c.Spells size start xs) {j : Nat} (hj : xs.length ≤ j) (hlt : j < size) (x : α) :
    (c.write ((start + j) % size) x).Spells size start xs := by
  intro i hi
  rw [read_write_ne c (circle_ne (Nat.lt_of_lt_of_le hi hj) hlt).symm]
  exact h i hi

/-- **A value written behind the list extends it.** -/
theorem Spells.write (h : c.Spells size start xs) (hlt : xs.length < size) (x : α) :
    (c.write ((start + xs.length) % size) x).Spells size start (xs ++ [x]) := by
  rw [spells_append]
  refine ⟨h.write_free (Nat.le_refl _) hlt x, ?_⟩
  rw [spells_cons]
  exact ⟨read_write_self _ _ _, spells_nil _ _ _⟩

theorem Spells.overwrite {old : α} (h : c.Spells size start (xs ++ old :: ys))
    (hlen : xs.length + (ys.length + 1) ≤ size) (x : α) :
    (c.write ((start + xs.length) % size) x).Spells size start (xs ++ x :: ys) := by
  obtain ⟨hxs, hrest⟩ := spells_append.1 h
  obtain ⟨-, hys⟩ := spells_cons.1 hrest
  rw [spells_append, spells_cons]
  refine ⟨hxs.write_free (Nat.le_refl _) (by omega) x, read_write_self _ _ _, fun i hi => ?_⟩
  have hne : (start + xs.length) % size ≠ (start + (xs.length + 1 + i)) % size := circle_ne (by omega) (by omega)
  rw [show start + xs.length + 1 + i = start + (xs.length + 1 + i) by omega, read_write_ne c hne]
  have := hys i hi
  rwa [show start + xs.length + 1 + i = start + (xs.length + 1 + i) by omega] at this

/-- **A value written into any cell replaces what that cell spells.** -/
theorem Spells.write_over (h : c.Spells size start xs) (j : Nat) (x : α) :
    (c.write j x).Spells size start (xs.mapIdx fun i y => if (start + i) % size = j then x else y) := by
  intro i hi
  rw [List.length_mapIdx] at hi
  rw [List.getElem_mapIdx, read_write]
  by_cases hj : (start + i) % size = j
  · rw [if_pos hj.symm, if_pos hj]
  · rw [if_neg (Ne.symm hj), if_neg hj]
    exact h i hi

/-- **Values filled in over a part of the list replace it.** -/
theorem Spells.fill {position : Nat} :
    ∀ {old new xs : List α} {c : Cells α}, c.Spells size start (xs ++ (old ++ ys)) → old.length = new.length →
      xs.length + (old.length + ys.length) ≤ size → position % size = (start + xs.length) % size →
      (c.fill size position new).Spells size start (xs ++ (new ++ ys))
  | [], [], xs, c, h, _, _, _ => h
  | o :: old, n :: new, xs, c, h, hlen, hsize, hpos => by
    simp only [List.length_cons, Nat.add_right_cancel_iff] at hlen
    simp only [List.length_cons] at hsize
    have hwrite : (c.write (position % size) n).Spells size start ((xs ++ [n]) ++ (old ++ ys)) := by
      have hlt : xs.length + ((old ++ ys).length + 1) ≤ size := by
        rw [List.length_append]
        omega
      rw [hpos, List.append_assoc]
      exact Spells.overwrite h hlt n
    have hnext : (position + 1) % size = (start + (xs ++ [n]).length) % size := by
      rw [List.length_append, ← Nat.add_assoc]
      exact mod_add_congr hpos 1
    have := hwrite.fill hlen (by rw [List.length_append, List.length_singleton]; omega) hnext
    rwa [List.append_assoc] at this
  | [], _ :: _, _, _, _, hlen, _, _ => by cases hlen
  | _ :: _, [], _, _, _, hlen, _, _ => by cases hlen

end Cells
end UsbRecorder
