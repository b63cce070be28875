import Peaks.Proofs.NumberRanking
import Peaks.Proofs.Search
import Peaks.Scan

/-!
# The mask and the test at a position

The mask of an array asks for each number whether its neighbours are at most as great. The test at a
position asks whether its neighbours are not greater. Between numbers that lie somewhere the two are
the same question; beside NaN, or for NaN itself, the answer to the first is always no and to the
second always yes.

- `Scalar.le_iff`               : how the two questions differ
- `Scan.isLocalMaximum_append`  : the test at a position is the test against its two neighbours
- `NumericArray.peakMaskAfter_append` : and so is the entry of the mask there
- `NumericArray.ComparableAt`   : no pair of neighbours at a position has NaN in it
- `NumericArray.peakMask_iff`   : the mask against the test, at every position of every array
-/

namespace Peaks

/-! ## Two numbers -/

namespace Scalar

variable {a b : Scalar}

theorem lt_asymm (h : a.lt b = true) : b.lt a = false := by
  obtain ⟨x, y, hx, hy, hxy⟩ := Number.lt_iff.1 h
  refine Bool.eq_false_iff.2 fun hba => ?_
  obtain ⟨y', x', hy', hx', hyx⟩ := Number.lt_iff.1 hba
  obtain rfl := Option.some.inj (hx.symm.trans hx')
  obtain rfl := Option.some.inj (hy.symm.trans hy')
  rw [Double.Place.lt_asymm hxy] at hyx
  cases hyx

theorem eq_eq_false_of_isNaN (h : a.isNaN = true ∨ b.isNaN = true) : a.eq b = false := by
  refine Bool.eq_false_iff.2 fun heq => ?_
  obtain ⟨x, hx, hy⟩ := Number.eq_iff.1 heq
  rcases h with ha | hb
  · exact absurd (((isNaN_iff a).1 ha).symm.trans hx) (by simp)
  · exact absurd (((isNaN_iff b).1 hb).symm.trans hy) (by simp)

/-- A number is at most as great as another if it is not greater and neither of them is NaN. -/
theorem le_iff : a.le b = true ↔ b.lt a = false ∧ a.isNaN = false ∧ b.isNaN = false := by
  by_cases hnan : a.isNaN = true ∨ b.isNaN = true
  · have hle : a.le b = false := by
      rw [le, lt_eq_false_of_isNaN hnan, eq_eq_false_of_isNaN hnan, Bool.or_self]
    rw [hle]
    refine iff_of_false Bool.false_ne_true ?_
    rintro ⟨_, ha, hb⟩
    rcases hnan with h | h
    · rw [ha] at h
      cases h
    · rw [hb] at h
      cases h
  · rw [not_or, Bool.not_eq_true, Bool.not_eq_true] at hnan
    have hlt : b.lt a = b.rank.lt a.rank := Bool.eq_iff_iff.2 (lt_iff_rank hnan.2 hnan.1)
    rw [le_iff_rank hnan.1 hnan.2, hlt]
    exact (and_iff_left hnan).symm

theorem number?_payload (s : Scalar) : s.payload.number? = some s.number := by
  cases s <;> rfl

theorem compare?_payload (a b : Scalar) :
    a.payload.compare? b.payload = .ok (if a.lt b then -1 else if b.lt a then 1 else 0) := by
  rw [Payload.compare?, Payload.lt?_of_number? a.number?_payload b.number?_payload,
    Payload.lt?_of_number? b.number?_payload a.number?_payload]
  change _ = Except.ok (if a.number.lt b.number then -1 else if b.number.lt a.number then 1 else 0)
  cases a.number.lt b.number with
  | true =>
      rfl
  | false =>
      cases b.number.lt a.number with
      | true => rfl
      | false => rfl

/-- The natural ordering asks only whether the second number comes first. -/
theorem natural_lessEqual (a b : Scalar) :
    Comparator.lessEqual (Order.compare .natural) a.payload b.payload = pure (!b.lt a) := by
  rw [Comparator.lessEqual, Order.compare, compare?_payload, Attempt.ofExcept, pure_bind]
  cases hab : a.lt b with
  | true =>
      rw [lt_asymm hab]
      rfl
  | false =>
      cases b.lt a with
      | true => rfl
      | false => rfl

theorem natural_isBoundedBy (s : Scalar) (neighbour : Option Scalar) :
    Scan.isBoundedBy (Order.compare .natural) s.payload (neighbour.map payload) =
      pure (neighbour.all fun n => !s.lt n) := by
  cases neighbour with
  | none => rfl
  | some n => exact natural_lessEqual n s

theorem natural_isPeak (left right : Option Scalar) (s : Scalar) :
    Scan.isPeak (Order.compare .natural) (left.map payload) s.payload (right.map payload) =
      pure ((left.all fun n => !s.lt n) && right.all fun n => !s.lt n) := by
  rw [Scan.isPeak, natural_isBoundedBy, natural_isBoundedBy, pure_bind]
  cases left.all fun n => !s.lt n with
  | true => rfl
  | false => rfl

end Scalar

/-! ## One position -/

theorem Position.get_append {α : Type} (front back : List α) (x : α) :
    Position.get (front ++ x :: back) front.length = .ok x := by
  have hresolve : Position.resolve? (front ++ x :: back).length front.length =
      some front.length := by
    have hlt : front.length < (front ++ x :: back).length := by simp
    have hnonneg : ¬ (front.length : Int) < 0 := by omega
    unfold Position.resolve?
    simp only [if_neg hnonneg]
    rw [if_pos ⟨by omega, by omega⟩, Int.toNat_natCast]
  rw [Position.get, hresolve, Option.bind_some,
    List.getElem?_append_right (Nat.le_refl _), Nat.sub_self,
    List.getElem?_cons_zero]

namespace Scan

variable {σ : Type}

/-- What is left of the test at a position after the left neighbour has passed. -/
theorem rightTest_eq (compare : Comparator σ) (front back : List Payload) (x : Payload) :
    (if (front.length : Int) + 1 < (front ++ x :: back).length then do
        let right ← Attempt.ofExcept (Position.get (front ++ x :: back) (front.length + 1))
        Comparator.lessEqual compare right x
      else pure true : Attempt σ Bool) = isBoundedBy compare x back.head? := by
  cases back with
  | nil =>
      rw [if_neg (by simp)]
      rfl
  | cons r back =>
      have hget : Position.get (front ++ x :: r :: back) (front.length + 1) = .ok r := by
        simpa using Position.get_append (front ++ [x]) back r
      have hlt : (front.length : Int) + 1 < (front ++ x :: r :: back).length := by
        rw [List.length_append, List.length_cons, List.length_cons]
        omega
      rw [if_pos hlt, hget, Attempt.ofExcept, pure_bind]
      rfl

theorem isLocalMaximum_append (compare : Comparator σ) (front back : List Payload) (x : Payload) :
    isLocalMaximum compare (front ++ x :: back) front.length =
      isPeak compare front.getLast? x back.head? := by
  rw [isLocalMaximum, Position.get_append, Attempt.ofExcept, pure_bind]
  rcases List.eq_nil_or_concat' front with rfl | ⟨front, l, rfl⟩
  · rw [if_neg (by simp)]
    exact rightTest_eq compare [] back x
  · have hget : Position.get ((front ++ [l]) ++ x :: back) ((front ++ [l]).length - 1) = .ok l := by
      simpa using Position.get_append front (x :: back) l
    rw [if_pos (by simp), hget, Attempt.ofExcept, pure_bind, List.getLast?_concat]
    refine congrArg (Comparator.lessEqual compare l x >>= ·) (funext fun bounded => ?_)
    cases bounded with
    | false => rfl
    | true => exact rightTest_eq compare (front ++ [l]) back x

end Scan

namespace NumericArray

theorem length_peakMaskAfter (left : Option Scalar) (scalars : List Scalar) :
    (peakMaskAfter left scalars).length = scalars.length := by
  induction scalars generalizing left with
  | nil =>
      rfl
  | cons s scalars ih =>
      rw [peakMaskAfter, List.length_cons, List.length_cons, ih]

theorem peakMaskAfter_append (left : Option Scalar) (front back : List Scalar) (s : Scalar) :
    (peakMaskAfter left (front ++ s :: back))[front.length]? =
      some ((front.getLast?.or left).all (·.le s) && back.head?.all (·.le s)) := by
  induction front generalizing left with
  | nil =>
      rfl
  | cons r front ih =>
      rw [List.cons_append, peakMaskAfter, List.length_cons, List.getElem?_cons_succ, ih]
      cases front with
      | nil => rfl
      | cons q front =>
          rw [List.getLast?_cons_cons, List.getLast?_cons, Option.some_or, Option.some_or]

/-! ## Arrays with one axis -/

/-- Neither the number at a position nor a neighbour is NaN, unless there is no neighbour. -/
def ComparableAt (scalars : List Scalar) (i : Nat) : Prop :=
  ∀ j, j + 1 = i ∨ i + 1 = j → ∀ s ∈ scalars[i]?, ∀ n ∈ scalars[j]?, n.isNaN = false ∧
    s.isNaN = false

theorem comparableAt_append (front back : List Scalar) (s : Scalar) :
    ComparableAt (front ++ s :: back) front.length ↔
      (∀ n ∈ front.getLast?, n.isNaN = false ∧ s.isNaN = false) ∧
        ∀ n ∈ back.head?, n.isNaN = false ∧ s.isNaN = false := by
  have hself : (front ++ s :: back)[front.length]? = some s := by simp
  have hright : (front ++ s :: back)[front.length + 1]? = back.head? := by
    rw [List.getElem?_append_right (Nat.le_add_right _ 1), Nat.add_sub_cancel_left,
      List.getElem?_cons_succ,
      List.head?_eq_getElem?]
  have hleft : ∀ j, j + 1 = front.length → (front ++ s :: back)[j]? = front.getLast? := by
    intro j hj
    rw [List.getElem?_append_left (by omega), List.getLast?_eq_getElem?, ← hj, Nat.add_sub_cancel]
  constructor
  · intro h
    refine ⟨fun n hn => ?_, fun n hn => h _ (Or.inr rfl) s hself n (hright ▸ hn)⟩
    have hpos : 0 < front.length := List.length_pos_of_mem (List.mem_of_getLast? hn)
    have hlast : front.length - 1 + 1 = front.length := Nat.sub_add_cancel hpos
    exact h _ (Or.inl hlast) s hself n (hleft _ hlast ▸ hn)
  · rintro ⟨hfront, hback⟩ j hj t ht n hn
    obtain rfl : s = t := Option.some.inj (hself.symm.trans ht)
    rcases hj with hj | rfl
    · exact hfront n (hleft j hj ▸ hn)
    · exact hback n (hright ▸ hn)

theorem all_le_iff (s : Scalar) (neighbour : Option Scalar) :
    neighbour.all (·.le s) = true ↔
      (neighbour.all fun n => !s.lt n) = true ∧ ∀ n ∈ neighbour, n.isNaN = false ∧
      s.isNaN = false := by
  cases neighbour with
  | none => simp
  | some n => simp [Scalar.le_iff]

theorem scalars_rows (items : List Scalar) :
    Nested.scalars (.rows (items.map .scalar)) = items := by
  rw [Nested.scalars]
  induction items with
  | nil => rfl
  | cons s items ih =>
      rw [List.map_cons, Nested.allScalars, Nested.scalars, ih, List.singleton_append]

theorem shape_rows (items : List Scalar) :
    Nested.shape (.rows (items.map .scalar)) = [items.length] := by
  cases items with
  | nil => rfl
  | cons s items => simp [Nested.shape]

theorem length_unify (scalars : List Scalar) : (unify scalars).length = scalars.length := by
  unfold unify
  split
  · exact List.length_map _
  split
  · exact List.length_map _
  · rfl

/-- The mask of a list of numbers has an entry for each. It holds at a position exactly if the test
there, which always answers, says yes and no pair of neighbours at that position has NaN in it. -/
theorem peakMask_iff (items : List Scalar) :
    ∃ mask, (ofNested (.rows (items.map .scalar))).peakMask? = .ok mask ∧
      mask.length = items.length ∧
      ∀ i < items.length, ∃ peak,
        (∀ host, Scan.isLocalMaximum (Order.compare .natural)
          ((ofNested (.rows (items.map .scalar))).scalars.map Scalar.payload) i host =
          .ok peak host) ∧
        (mask[i]? = some true ↔ peak = true ∧ ComparableAt
          (ofNested (.rows (items.map .scalar))).scalars i) := by
  rw [ofNested, shape_rows, scalars_rows]
  refine ⟨peakMask (unify items), rfl, (length_peakMaskAfter none _).trans (length_unify items),
    fun i hi => ?_⟩
  obtain ⟨front, s, back, hsplit, rfl⟩ := exists_zipper ((length_unify items).symm ▸ hi)
  have htest : Scan.isLocalMaximum (Order.compare .natural) ((unify items).map Scalar.payload)
      front.length =
      pure ((front.getLast?.all fun n => !s.lt n) && back.head?.all fun n => !s.lt n) := by
    have happend := Scan.isLocalMaximum_append (Order.compare .natural) (front.map Scalar.payload)
      (back.map Scalar.payload) s.payload
    rw [List.length_map, List.getLast?_map, List.head?_map, Scalar.natural_isPeak] at happend
    rw [hsplit, List.map_append, List.map_cons, happend]
  refine ⟨_, fun host => congrFun htest host, ?_⟩
  dsimp only
  rw [hsplit, peakMask, peakMaskAfter_append, Option.or_none, Option.some.injEq, Bool.and_eq_true,
    Bool.and_eq_true,
    all_le_iff, all_le_iff, comparableAt_append]
  tauto

def one : Scalar :=
  .double ⟨0x3ff0000000000000⟩

def nan : Scalar :=
  .double ⟨0x7ff8000000000000⟩

def mixed : NumericArray :=
  ofNested (.rows ([.whole 1, .whole 2, one, nan, nan].map .scalar))

theorem peakMask_iff_mixed :
    mixed.peakMask?.toOption = some [false, true, false, false, false] ∧
    ∃ mask peak, mixed.peakMask? = .ok mask ∧
      (∀ host, Scan.isLocalMaximum (Order.compare .natural)
        (mixed.scalars.map Scalar.payload) 2 host =
        .ok peak host) ∧
      (mask[2]? = some true ↔ peak = true ∧ ComparableAt mixed.scalars 2) := by
  obtain ⟨mask, hmask, _, htest⟩ := peakMask_iff [.whole 1, .whole 2, one, nan, nan]
  obtain ⟨peak, hpeak, hiff⟩ := htest 2 (by decide)
  exact ⟨by decide +kernel, mask, peak, hmask, hpeak, hiff⟩

/-- The answers of the test at all positions. -/
def testAll (a : NumericArray) : List (Option Bool) :=
  (List.range a.scalars.length).map fun i =>
    ((Scan.isLocalMaximum (Order.compare .natural) (a.scalars.map Scalar.payload) i).outcome
      {}).toOption.map (·.1)

/-- One number beside NaN: the mask selects neither, the test selects both. -/
theorem peakMask_differs :
    (ofNested (.rows [.scalar one, .scalar nan])).peakMask?.toOption = some [false, false] ∧
    testAll (ofNested (.rows [.scalar one, .scalar nan])) = [some true, some true] := by
  decide +kernel

end NumericArray

end Peaks
