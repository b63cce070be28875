import Peaks.Proofs.NumberRanking
import Peaks.Proofs.LocalMaxima

/-!
# Columns of numbers

Sorting pairs of numbers by their arguments keeps pairs with equal arguments in turn, so that the
last of each run is the last of all pairs with that argument; and one look at the shifted columns
finds the local maxima.

- `NumericArray.Plain`            : no number of the pairs is NaN
- `NumericArray.IsLast`           : a pair without an equal argument behind it
- `NumericArray.sortColumns_ordered`, `NumericArray.isLast_sortColumns` : the stable sort
- `NumericArray.mem_lastOfEach_iff` : what is left of pairs in order
- `NumericArray.peakMask_selects` : the mask selects the local maxima
-/

namespace Peaks

namespace NumericArray

variable {pairs : List (Scalar × Scalar)} {pair other : Scalar × Scalar}

/-- All numbers lie somewhere. -/
def Plain (pairs : List (Scalar × Scalar)) : Prop :=
  ∀ pair ∈ pairs, pair.1.isNaN = false ∧ pair.2.isNaN = false

/-- A pair without an equal argument behind it. -/
def IsLast (pairs : List (Scalar × Scalar)) (pair : Scalar × Scalar) : Prop :=
  ∃ front back, pairs = front ++ pair :: back ∧ ∀ other ∈ back, other.1.eq pair.1 = false

theorem IsLast.mem (h : IsLast pairs pair) : pair ∈ pairs := by
  rcases h with ⟨front, back, rfl, _⟩
  simp

/-- The last of all pairs with its argument. -/
theorem isLast_iff (hself : pair.1.eq pair.1 = true) :
    IsLast pairs pair ↔ (pairs.filter fun other => other.1.eq pair.1).getLast? = some pair := by
  rw [List.getLast?_filter, List.find?_eq_some_iff_append]
  constructor
  · rintro ⟨front, back, rfl, hback⟩
    exact ⟨hself, back.reverse, front.reverse, by simp, fun other hother => by
      simp [hback other (List.mem_reverse.1 hother)]⟩
  · rintro ⟨-, behind, ahead, hsplit, hbehind⟩
    refine ⟨ahead.reverse, behind.reverse, ?_, fun other hother => ?_⟩
    · rw [← List.reverse_inj, hsplit]
      simp
    · simpa using hbehind other (List.mem_reverse.1 hother)

/-! ## Sorting -/

/-- An entry may stand in front of another: NaN in front of NaN only, and a number in front of no
lesser one. -/
theorem sortsAfter_eq_false_iff {a b : Scalar} :
    a.sortsAfter b = false ↔ b.isNaN = true ∨ a.isNaN = false ∧ b.isNaN = false ∧
    b.rank.lt a.rank = false := by
  cases hb : b.isNaN with
  | true =>
      simp [Scalar.sortsAfter, Scalar.lt_eq_false_of_isNaN (Or.inl hb), hb]
  | false =>
      cases ha : a.isNaN with
      | true =>
          simp [Scalar.sortsAfter, ha, hb]
      | false =>
          have hlt : b.lt a = b.rank.lt a.rank := Bool.eq_iff_iff.2 (Scalar.lt_iff_rank hb ha)
          simp [Scalar.sortsAfter, ha, hb, hlt]

theorem sorts_trans (p q r : Scalar × Scalar) (hpq : (!p.1.sortsAfter q.1) = true)
    (hqr : (!q.1.sortsAfter r.1) = true) : (!p.1.sortsAfter r.1) = true := by
  simp only [Bool.not_eq_true', sortsAfter_eq_false_iff] at hpq hqr ⊢
  rcases hqr with hr | ⟨hq, hr, hqr⟩
  · exact Or.inl hr
  · rcases hpq with hq' | ⟨hp, _, hpq⟩
    · rw [hq] at hq'
      cases hq'
    · refine Or.inr ⟨hp, hr, Bool.eq_false_iff.2 fun hlt => ?_⟩
      rcases Double.Place.lt_or_lt_of_lt hlt q.1.rank with hrq | hqp
      · exact Bool.eq_false_iff.1 hqr hrq
      · exact Bool.eq_false_iff.1 hpq hqp

theorem sorts_total (p q : Scalar × Scalar) :
    (!p.1.sortsAfter q.1 || !q.1.sortsAfter p.1) = true := by
  simp only [Bool.or_eq_true, Bool.not_eq_true', sortsAfter_eq_false_iff]
  cases hp : p.1.isNaN with
  | true =>
      simp
  | false =>
      cases hq : q.1.isNaN with
      | true =>
          simp
      | false =>
          cases hqp : q.1.rank.lt p.1.rank with
          | true => simp [Double.Place.lt_asymm hqp]
          | false => simp

theorem Plain.of_mem {others : List (Scalar × Scalar)} (h : Plain pairs)
    (hmem : ∀ p ∈ others, p ∈ pairs) :
    Plain others :=
  fun p hp => h p (hmem p hp)

theorem sortColumns_perm (pairs : List (Scalar × Scalar)) : (sortColumns pairs).Perm pairs :=
  List.mergeSort_perm pairs _

theorem Plain.sortColumns (h : Plain pairs) : Plain (sortColumns pairs) :=
  h.of_mem fun _ hp => (sortColumns_perm pairs).mem_iff.1 hp

/-- No argument comes after a greater one. -/
def Ordered (pairs : List (Scalar × Scalar)) : Prop :=
  pairs.Pairwise fun p q => q.1.rank.lt p.1.rank = false

theorem sortColumns_ordered (h : Plain pairs) : Ordered (NumericArray.sortColumns pairs) := by
  refine (List.pairwise_mergeSort sorts_trans sorts_total pairs).imp_of_mem
    fun {p q} hp hq hpq => ?_
  simp only [Bool.not_eq_true', sortsAfter_eq_false_iff] at hpq
  rcases hpq with hq' | ⟨_, _, hpq⟩
  · rw [(h.sortColumns q hq).1] at hq'
    cases hq'
  · exact hpq

/-- Pairs with one argument stay in turn. -/
theorem filter_sortColumns (h : Plain pairs) (hpair : pair.1.isNaN = false) :
    ((sortColumns pairs).filter fun other => other.1.eq pair.1) = pairs.filter
      fun other => other.1.eq pair.1 := by
  have hrank : ∀ p ∈ pairs.filter (fun other => other.1.eq pair.1),
      p.1.isNaN = false ∧ p.1.rank = pair.1.rank := by
    intro p hp
    obtain ⟨hmem, heq⟩ := List.mem_filter.1 hp
    have hplain := (h p hmem).1
    exact ⟨hplain, (Scalar.eq_iff_rank hplain hpair).1 heq⟩
  have hclass : (pairs.filter fun other => other.1.eq pair.1).Pairwise fun p q =>
      (!p.1.sortsAfter q.1) = true := by
    refine List.pairwise_of_forall_mem_list fun p hp q hq => ?_
    obtain ⟨hp', hprank⟩ := hrank p hp
    obtain ⟨hq', hqrank⟩ := hrank q hq
    rw [Bool.not_eq_true', sortsAfter_eq_false_iff, hprank, hqrank]
    exact Or.inr ⟨hp', hq', Double.Place.lt_irrefl _⟩
  -- a stable sort keeps what is already in order, and here nothing is added to it
  have hsub := (List.sublist_mergeSort sorts_trans sorts_total hclass List.filter_sublist).filter
    fun other => other.1.eq pair.1
  rw [List.filter_filter] at hsub
  simp only [Bool.and_self] at hsub
  exact (hsub.eq_of_length ((sortColumns_perm pairs).filter _).length_eq.symm).symm

theorem isLast_sortColumns (h : Plain pairs) (hpair : pair.1.isNaN = false) :
    IsLast (NumericArray.sortColumns pairs) pair ↔ IsLast pairs pair := by
  have hself : pair.1.eq pair.1 = true := (Scalar.eq_iff_rank hpair hpair).2 rfl
  rw [isLast_iff hself, isLast_iff hself, filter_sortColumns h hpair]

/-! ## One pair for each argument -/

theorem lastOfEach_sublist (pairs : List (Scalar × Scalar)) : (lastOfEach pairs).Sublist pairs := by
  fun_induction lastOfEach pairs with
  | case1 p q rest heq ih =>
      exact ih.cons p
  | case2 p q rest hne ih =>
      exact ih.cons_cons p
  | case3 pairs hshort =>
      exact List.Sublist.refl pairs

/-- In order and not equal to its neighbour, an argument comes before all that follow. -/
theorem Ordered.before_rest {p q : Scalar × Scalar} {rest : List (Scalar × Scalar)}
    (h : Ordered (p :: q :: rest)) (hp : p.1.isNaN = false) (hq : q.1.isNaN = false)
    (hne : ¬ p.1.eq q.1 = true) : ∀ other ∈ q :: rest, p.1.rank.lt other.1.rank = true := by
  have hcons := List.pairwise_cons.1 h
  have hpq : p.1.rank.lt q.1.rank = true := by
    by_contra hlt
    refine hne
      ((Scalar.eq_iff_rank hp hq).2 (Double.Place.eq_of_not_lt (Bool.eq_false_iff.2 hlt) ?_))
    exact hcons.1 q (by simp)
  intro other hother
  rcases List.mem_cons.1 hother with rfl | hother
  · exact hpq
  · rcases Double.Place.lt_or_lt_of_lt hpq other.1.rank with hlt | hlt
    · exact hlt
    · exact absurd hlt (Bool.eq_false_iff.1 ((List.pairwise_cons.1 hcons.2).1 other hother))

theorem lastOfEach_increasing (hplain : Plain pairs) (h : Ordered pairs) :
    (lastOfEach pairs).Pairwise fun p q => p.1.rank.lt q.1.rank = true := by
  fun_induction lastOfEach pairs with
  | case1 p q rest heq ih =>
      exact ih (hplain.of_mem fun x hx => by simp [hx]) (List.pairwise_cons.1 h).2
  | case2 p q rest hne ih =>
      have hrest := ih (hplain.of_mem fun x hx => by simp [hx]) (List.pairwise_cons.1 h).2
      refine List.pairwise_cons.2 ⟨fun x hx => ?_, hrest⟩
      exact h.before_rest (hplain p (by simp)).1 (hplain q (by simp)).1 hne x
        ((lastOfEach_sublist _).subset hx)
  | case3 pairs hshort =>
      cases pairs with
      | nil =>
          exact .nil
      | cons p rest =>
          cases rest with
          | nil => exact List.pairwise_singleton _ _
          | cons q rest => exact (hshort p q rest rfl).elim

theorem isLast_cons (p : Scalar × Scalar) (pairs : List (Scalar × Scalar)) :
    IsLast (p :: pairs) pair ↔ (pair = p ∧ ∀ other ∈ pairs, other.1.eq p.1 = false) ∨
    IsLast pairs pair := by
  constructor
  · rintro ⟨front, back, hsplit, hback⟩
    cases front with
    | nil =>
        obtain ⟨rfl, rfl⟩ := List.cons.inj hsplit
        exact Or.inl ⟨rfl, hback⟩
    | cons q front =>
        obtain ⟨rfl, rfl⟩ := List.cons.inj hsplit
        exact Or.inr ⟨front, back, rfl, hback⟩
  · rintro (⟨rfl, hpairs⟩ | ⟨front, back, rfl, hback⟩)
    · exact ⟨[], pairs, rfl, hpairs⟩
    · exact ⟨p :: front, back, rfl, hback⟩

theorem mem_lastOfEach_iff (hplain : Plain pairs) (h : Ordered pairs) :
    pair ∈ lastOfEach pairs ↔ IsLast pairs pair := by
  fun_induction lastOfEach pairs with
  | case1 p q rest heq ih =>
      rw [ih (hplain.of_mem fun x hx => by simp [hx]) (List.pairwise_cons.1 h).2, isLast_cons p]
      refine (or_iff_right ?_).symm
      -- the neighbour has the same argument
      rintro ⟨-, hnone⟩
      have hqp := hnone q (by simp)
      rw [show q.1.eq p.1 = true from Number.eq_symm heq] at hqp
      cases hqp
  | case2 p q rest hne ih =>
      have hp := (hplain p (by simp)).1
      rw [List.mem_cons, ih (hplain.of_mem fun x hx => by simp [hx]) (List.pairwise_cons.1 h).2,
        isLast_cons p]
      have hnone : ∀ other ∈ q :: rest, other.1.eq p.1 = false := by
        intro other hother
        have hlt := h.before_rest hp (hplain q (by simp)).1 hne other hother
        refine Bool.eq_false_iff.2 fun heq => ?_
        rw [(Scalar.eq_iff_rank (hplain other (by simp [hother])).1 hp).1 heq] at hlt
        exact Bool.eq_false_iff.1 (Double.Place.lt_irrefl _) hlt
      rw [and_iff_left hnone]
  | case3 pairs hshort =>
      cases pairs with
      | nil =>
          simp [IsLast]
      | cons p rest =>
          cases rest with
          | nil =>
              rw [isLast_cons]
              simp [IsLast]
          | cons q rest => exact (hshort p q rest rfl).elim

/-! ## Local maxima -/

/-- A point with the numbers of a pair, whatever objects hold them. -/
structure Shows (pair : Scalar × Scalar) (p : Point) : Prop where
  argument : p.argument.content = pair.1.payload
  value : p.value.content = pair.2.payload

/-- A payload with the number of an entry that lies somewhere. -/
structure Stands (s : Scalar) (v : Payload) : Prop where
  plain : s.isNaN = false
  content : v.content = s.payload

theorem bounds_iff {s : Scalar} {p : Point} (hp : Stands s p.value) {neighbour : Option Scalar}
    {neighbour' : Option Payload} (h : Option.Rel Stands neighbour neighbour') :
    Rankings.numbers.Bounds p neighbour' ↔ neighbour.all (·.le s) = true := by
  cases h with
  | none =>
      simp [Rankings.Bounds]
  | some hneighbour =>
      simp only [Rankings.Bounds, Option.mem_def, Option.some.injEq, forall_eq', Option.all_some,
        Scalar.le_iff_rank hneighbour.plain hp.plain]
      rw [← Bool.not_eq_true]
      exact not_congr (Scalar.before_iff_rank hp.content hneighbour.content)

/-- The two looks at the shifted column find what one pass over the points finds. -/
theorem peakMaskAfter_selects {points : List Point} (hplain : Plain pairs)
    (h : List.Forall₂ Shows pairs points)
    {left : Option Scalar} {left' : Option Payload} (hleft : Option.Rel Stands left left') :
    (points.zip (peakMaskAfter left (pairs.map (·.2)))).filterMap
        (fun (p, isPeak) => if isPeak then some p else none) =
      Rankings.numbers.peaksAfter left' points := by
  induction h generalizing left left' with
  | nil =>
      rfl
  | @cons pair p pairs points hp hrest ih =>
      have hstands : Stands pair.2 p.value := ⟨(hplain pair (by simp)).2, hp.value⟩
      have hplain' : Plain pairs := hplain.of_mem fun x hx => by simp [hx]
      have hright : Option.Rel Stands ((pairs.map (·.2)).head?) (points.head?.map Point.value) := by
        cases hrest with
        | nil => exact .none
        | @cons next q _ _ hq _ => exact .some ⟨(hplain' next (by simp)).2, hq.value⟩
      have hbounds : Rankings.numbers.Bounds p left' ∧
          Rankings.numbers.Bounds p (points.head?.map Point.value) ↔
          (left.all (·.le pair.2) && (pairs.map (·.2)).head?.all (·.le pair.2)) = true := by
        rw [bounds_iff hstands hleft, bounds_iff hstands hright, Bool.and_eq_true]
      rw [List.map_cons, peakMaskAfter, List.zip_cons_cons, Rankings.peaksAfter,
        List.filterMap_cons,
        ih hplain' (.some hstands)]
      by_cases hpeak : (left.all (·.le pair.2) && (pairs.map (·.2)).head?.all (·.le pair.2)) = true
      · rw [if_pos (hbounds.2 hpeak)]
        simp only [hpeak, if_true]
      · rw [if_neg fun h => hpeak (hbounds.1 h)]
        simp only [Bool.eq_false_iff.2 hpeak, Bool.false_eq_true, if_false]

theorem peakMask_selects {points : List Point} (hplain : Plain pairs)
    (h : List.Forall₂ Shows pairs points) :
    (points.zip (peakMask (pairs.map (·.2)))).filterMap
      (fun (p, isPeak) => if isPeak then some p else none) =
      Rankings.numbers.peaks points :=
  peakMaskAfter_selects hplain h .none

end NumericArray

end Peaks
