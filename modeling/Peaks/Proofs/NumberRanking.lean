import Peaks.NumericArray
import Peaks.Proofs.Keys

/-!
# Numbers that lie somewhere

All numbers but NaN are ranked by their places. The natural ordering of such numbers answers by this
ranking and never fails, and the comparisons of array entries ask for the same places.

- `Payload.place?`      : where the number of a payload lies
- `Ranking.numbers`     : the payloads that lie somewhere, by their places
- `Rules.natural_obey`  : natural orderings answer by it, always
- `Scalar.rank`, `Scalar.before_iff_rank` : entries of an array
-/

namespace Peaks

namespace Payload

variable {p q : Payload} {x y : Double.Place}

/-- The place of the number that a payload stands for. -/
def place? (p : Payload) : Option Double.Place :=
  p.number?.bind Number.place?

theorem place?_of_content (h : p.content = q.content) : p.place? = q.place? := by
  rw [place?, place?, number?, number?, h]

theorem lt?_content_left (q : Payload) : ∀ p : Payload, p.content.lt? q = p.lt? q
  | .tagged _ p => by
      rw [lt?]
      exact lt?_content_left q p
  | .null | .bool _ | .int _ | .float _ | .text _ | .tuple _ | .list _ | .weak _ => rfl

theorem lt?_of_number? {m n : Number} (hp : p.number? = some m) (hq : q.number? = some n) :
    p.lt? q = .ok (m.lt n) := by
  rw [← lt?_content_left]
  rw [number?] at hp
  -- only the three kinds of numbers are left
  cases hcontent : p.content <;> rw [hcontent] at hp <;> cases hp
  all_goals rw [lt?, hq]

theorem lt?_of_place? (hp : p.place? = some x) (hq : q.place? = some y) :
    p.lt? q = .ok (x.lt y) := by
  obtain ⟨m, hm, hx⟩ := Option.bind_eq_some_iff.1 hp
  obtain ⟨n, hn, hy⟩ := Option.bind_eq_some_iff.1 hq
  rw [lt?_of_number? hm hn, Except.ok.injEq, Bool.eq_iff_iff, Number.lt_iff]
  simp [hx, hy]

theorem compare?_of_place? (hp : p.place? = some x) (hq : q.place? = some y) :
    p.compare? q = .ok (if x.lt y then -1 else if y.lt x then 1 else 0) := by
  rw [compare?, lt?_of_place? hp hq, lt?_of_place? hq hp]
  cases hxy : x.lt y with
  | true =>
      rfl
  | false =>
      cases hyx : y.lt x with
      | true => rfl
      | false => rfl

end Payload

/-- Numbers by their places. -/
def Ranking.numbers : Ranking where
  domain p := ∃ x, p.place? = some x
  before p q := (p.place?.getD .bottom).lt (q.place?.getD .bottom) = true
  strictWeak :=
    { irrefl := fun p => by simp [Double.Place.lt_irrefl]
      trans := fun _ _ _ => Double.Place.lt_trans
      incomp_trans := fun a b c hab hbc => by
        simp only [Bool.not_eq_true] at hab hbc ⊢
        rw [Double.Place.eq_of_not_lt hab.1 hab.2]
        exact hbc }
  domain_of_same h hdomain := by
    rw [Payload.place?_of_content (Payload.content_of_same h)]
    exact hdomain
  tied_of_same h := by
    rw [Tied, Payload.place?_of_content (Payload.content_of_same h)]
    simp [Double.Place.lt_irrefl]

namespace Ranking

variable {p q : Payload} {x y : Double.Place}

theorem numbers_before_iff (hp : p.place? = some x) (hq : q.place? = some y) :
    numbers.before p q ↔ x.lt y = true := by
  simp only [numbers, hp, hq, Option.getD_some]

theorem numbers_tied_of_content (h : p.content = q.content) : Tied numbers.before p q := by
  simp [Tied, numbers, Payload.place?_of_content h, Double.Place.lt_irrefl]

end Ranking

theorem Order.natural_ensures {a b : Payload} (ha : Ranking.numbers.domain a)
    (hb : Ranking.numbers.domain b) :
    (Order.compare .natural a b).Ensures (fun n _ => Signals Ranking.numbers.before a b n)
      (fun _ _ => False) := by
  obtain ⟨x, hx⟩ : ∃ x, a.place? = some x := ha
  obtain ⟨y, hy⟩ : ∃ y, b.place? = some y := hb
  rw [Order.compare, Payload.compare?_of_place? hx hy]
  refine Attempt.Ensures.pure fun _ => ?_
  rw [Signals, Ranking.numbers_before_iff hx hy, Ranking.numbers_before_iff hy hx]
  cases hxy : x.lt y with
  | true =>
      simp [Double.Place.lt_asymm hxy]
  | false =>
      cases hyx : y.lt x with
      | true => simp
      | false => simp

/-- The rankings of a function from numbers to numbers. -/
def Rankings.numbers : Rankings :=
  ⟨.numbers, .numbers⟩

/-- No comparison of numbers that lie somewhere fails. -/
theorem Rules.natural_obey :
    (Rules.ofOrders .natural .natural).Obey .numbers (fun _ _ => False) where
  argument_ensures := Order.natural_ensures
  value_ensures := Order.natural_ensures

/-! ## Entries of arrays -/

namespace Scalar

variable {a b : Scalar}

def place? (s : Scalar) : Option Double.Place :=
  s.number.place?

/-- The place by which an entry is ranked. -/
def rank (s : Scalar) : Double.Place :=
  s.place?.getD .bottom

theorem place?_payload (s : Scalar) : s.payload.place? = s.place? := by
  cases s <;> rfl

theorem content_payload (s : Scalar) : s.payload.content = s.payload := by
  cases s <;> rfl

/-- NaN is the only number without a place. -/
theorem isNaN_iff (s : Scalar) : s.isNaN = true ↔ s.place? = none := by
  cases s with
  | bool b =>
      exact iff_of_false Bool.false_ne_true (Option.some_ne_none _)
  | whole n =>
      exact iff_of_false Bool.false_ne_true (Option.some_ne_none _)
  | double d =>
      simp only [isNaN, place?, number, Number.place?, Double.isNaN, Double.place?]
      cases d.view with
      | nan => simp
      | infinite negative => cases negative <;> simp
      | finite negative m e => simp

theorem place?_eq_rank (h : a.isNaN = false) : a.place? = some a.rank := by
  cases hplace : a.place? with
  | none =>
      rw [(isNaN_iff a).2 hplace] at h
      cases h
  | some x =>
      rw [rank, hplace, Option.getD_some]

theorem domain_of_content {p : Payload} (ha : a.isNaN = false) (h : p.content = a.payload) :
    Ranking.numbers.domain p := by
  refine ⟨a.rank, ?_⟩
  rw [← place?_eq_rank ha, ← place?_payload]
  exact Payload.place?_of_content (h.trans a.content_payload.symm)

/-- Payloads with the contents of entries are ranked as the entries are. -/
theorem before_iff_rank {p q : Payload} (hp : p.content = a.payload) (hq : q.content = b.payload) :
    Ranking.numbers.before p q ↔ a.rank.lt b.rank = true := by
  have hp' : p.place? = a.place? :=
    (Payload.place?_of_content (hp.trans a.content_payload.symm)).trans a.place?_payload
  have hq' : q.place? = b.place? :=
    (Payload.place?_of_content (hq.trans b.content_payload.symm)).trans b.place?_payload
  simp only [Ranking.numbers, hp', hq', rank]

theorem tied_iff_rank {p q : Payload} (hp : p.content = a.payload) (hq : q.content = b.payload) :
    Tied Ranking.numbers.before p q ↔ a.rank = b.rank := by
  rw [Tied, before_iff_rank hp hq, before_iff_rank hq hp, Bool.not_eq_true, Bool.not_eq_true]
  constructor
  · exact fun h => Double.Place.eq_of_not_lt h.1 h.2
  · intro h
    rw [h]
    exact ⟨Double.Place.lt_irrefl _, Double.Place.lt_irrefl _⟩

theorem lt_eq_false_of_isNaN (h : a.isNaN = true ∨ b.isNaN = true) : a.lt b = false := by
  refine Bool.eq_false_iff.2 fun hlt => ?_
  obtain ⟨x, y, hx, hy, -⟩ := Number.lt_iff.1 hlt
  rcases h with ha | hb
  · exact absurd (((isNaN_iff a).1 ha).symm.trans hx) (by simp)
  · exact absurd (((isNaN_iff b).1 hb).symm.trans hy) (by simp)

section Plain

variable (ha : a.isNaN = false) (hb : b.isNaN = false)
include ha hb

theorem lt_iff_rank : a.lt b = true ↔ a.rank.lt b.rank = true := by
  have ha' : a.number.place? = some a.rank := place?_eq_rank ha
  have hb' : b.number.place? = some b.rank := place?_eq_rank hb
  rw [lt, Number.lt_iff]
  simp [ha', hb']

theorem eq_iff_rank : a.eq b = true ↔ a.rank = b.rank := by
  have ha' : a.number.place? = some a.rank := place?_eq_rank ha
  have hb' : b.number.place? = some b.rank := place?_eq_rank hb
  rw [eq, Number.eq_iff]
  simp [ha', hb', eq_comm]

theorem le_iff_rank : a.le b = true ↔ b.rank.lt a.rank = false := by
  rw [le, Bool.or_eq_true, lt_iff_rank ha hb, eq_iff_rank ha hb]
  constructor
  · rintro (hlt | heq)
    · exact Double.Place.lt_asymm hlt
    · rw [heq]
      exact Double.Place.lt_irrefl _
  · intro hba
    cases hab : a.rank.lt b.rank with
    | true => exact Or.inl rfl
    | false => exact Or.inr (Double.Place.eq_of_not_lt hab hba)

end Plain

end Scalar

end Peaks
