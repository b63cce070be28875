import Peaks.Double

/-!
# Numbers by their places

Whole numbers and doubles are compared by the places at which they lie, and these stand in one line.
A number that lies nowhere is neither less than, nor equal to, any number.

- `Double.Place.lt_trans`, `Double.Place.eq_of_not_lt` : the places in one line
- `Number.lt_iff`, `Number.eq_iff` : comparing numbers is comparing places
-/

namespace Peaks

namespace Double.Place

variable {x y z : Place}

theorem lt_irrefl (x : Place) : x.lt x = false := by
  cases x with
  | bottom => rfl
  | grid n => simp [Place.lt]
  | top => rfl

theorem lt_trans (hxy : x.lt y = true) (hyz : y.lt z = true) : x.lt z = true := by
  cases x with
  | bottom =>
      cases y <;> cases z <;> simp_all [Place.lt]
  | grid m =>
      cases y <;> cases z <;> simp_all [Place.lt]
      omega
  | top =>
      simp [Place.lt] at hxy

theorem lt_asymm (h : x.lt y = true) : y.lt x = false :=
  Bool.eq_false_iff.2 fun hyx => Bool.eq_false_iff.1 (lt_irrefl x) (lt_trans h hyx)

/-- Of two different places one is before the other. -/
theorem eq_of_not_lt (hxy : x.lt y = false) (hyx : y.lt x = false) : x = y := by
  cases x with
  | bottom =>
      cases y <;> simp_all [Place.lt]
  | grid m =>
      cases y <;> simp_all [Place.lt]
      omega
  | top =>
      cases y <;> simp_all [Place.lt]

theorem lt_or_lt_of_lt (h : x.lt z = true) (y : Place) : x.lt y = true ∨ y.lt z = true := by
  cases hxy : x.lt y with
  | true =>
      exact Or.inl rfl
  | false =>
      refine Or.inr ?_
      cases hyx : y.lt x with
      | true => exact lt_trans hyx h
      | false => exact eq_of_not_lt hxy hyx ▸ h

end Double.Place

theorem twoTo_pos (k : Nat) : 0 < (twoTo k : Int) :=
  Int.natCast_pos.2 (Nat.pow_pos Nat.zero_lt_two)

namespace Number

variable {a b c : Number}

theorem lt_iff : a.lt b = true ↔ ∃ x y, a.place? = some x ∧ b.place? = some y ∧ x.lt y = true := by
  unfold lt
  split
  · next m n =>
    -- two whole numbers are not scaled before they are compared
    simp only [place?, Option.some.injEq, exists_and_left, exists_eq_left', Double.Place.lt,
      decide_eq_true_iff]
    exact (Int.mul_lt_mul_right (twoTo_pos 1074)).symm
  · split
    · next x y hx hy =>
      simp [hx, hy]
    · next hnone =>
      constructor
      · exact fun h => absurd h (by simp)
      · rintro ⟨x, y, hx, hy, _⟩
        exact (hnone x y hx hy).elim

theorem eq_iff : a.eq b = true ↔ ∃ x, a.place? = some x ∧ b.place? = some x := by
  unfold eq
  split
  · next m n =>
    simp only [place?, Option.some.injEq, exists_eq_left', beq_iff_eq, Double.Place.grid.injEq]
    constructor
    · exact fun h => by rw [h]
    · exact fun h => (Int.eq_of_mul_eq_mul_right (Int.ne_of_gt (twoTo_pos 1074)) h).symm
  · split
    · next x y hx hy =>
      simp only [hx, hy, Option.some.injEq, exists_eq_left', beq_iff_eq]
      exact eq_comm
    · next hnone =>
      constructor
      · exact fun h => absurd h (by simp)
      · rintro ⟨x, hx, hy⟩
        exact (hnone x x hx hy).elim

theorem eq_symm (h : a.eq b = true) : b.eq a = true := by
  rcases eq_iff.1 h with ⟨x, ha, hb⟩
  exact eq_iff.2 ⟨x, hb, ha⟩

theorem eq_trans (hab : a.eq b = true) (hbc : b.eq c = true) : a.eq c = true := by
  rcases eq_iff.1 hab with ⟨x, ha, hb⟩
  rcases eq_iff.1 hbc with ⟨y, hb', hc⟩
  exact eq_iff.2 ⟨x, ha, by rw [hc, ← hb', hb]⟩

end Number

end Peaks
