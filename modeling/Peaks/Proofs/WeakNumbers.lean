import Peaks.Proofs.Ranking

/-!
# Weak numbers

Weak numbers are ordered by their tens, so that different ones may be tied. The natural ordering of
weak numbers answers by this ranking, and a meter in front of it only adds failures.

- `Ranking.tens`                : weak numbers by their tens
- `Order.natural_follows_tens`  : the natural ordering answers by it
- `Order.metered_follows`       : so does a metered ordering
- `Rules.metered`               : rules under which every comparison can be made to fail
-/

namespace Peaks

namespace Payload

/-! ## Written forms of one object -/

theorem content_content : ∀ p : Payload, p.content.content = p.content
  | .tagged _ p => content_content p
  | .null => rfl
  | .bool _ => rfl
  | .int _ => rfl
  | .float _ => rfl
  | .text _ => rfl
  | .tuple _ => rfl
  | .list _ => rfl
  | .weak _ => rfl

theorem content_canonical (p : Payload) : p.canonical.content = p.content := by
  unfold canonical
  split
  · exact content_content p
  · rfl

/-- The tens of a weak number. -/
def tens? (p : Payload) : Option Int :=
  match p.content with
  | .weak n => some (n.fdiv 10)
  | _ => none

theorem tens?_of_alike : ∀ p q : Payload, alike p q → p.tens? = q.tens?
  | .tagged s p, q, h => by
      cases q with
      | tagged t q =>
          simp only [alike, Bool.and_eq_true] at h
          exact tens?_of_alike p q h.2
      | _ => simp [alike] at h
  | .weak m, q, h => by
      cases q with
      | weak n =>
          simp only [alike, beq_iff_eq] at h
          rw [h]
      | _ => simp [alike] at h
  | .null, q, h => by cases q <;> simp_all [alike, tens?, content]
  | .bool _, q, h => by cases q <;> simp_all [alike, tens?, content]
  | .int _, q, h => by cases q <;> simp_all [alike, tens?, content]
  | .float _, q, h => by cases q <;> simp_all [alike, tens?, content]
  | .text _, q, h => by cases q <;> simp_all [alike, tens?, content]
  | .tuple _, q, h => by cases q <;> simp_all [alike, tens?, content]
  | .list _, q, h => by cases q <;> simp_all [alike, tens?, content]

theorem tens?_of_same {p q : Payload} (h : p.same q) : p.tens? = q.tens? := by
  have hcanonical : ∀ p : Payload, p.canonical.tens? = p.tens? := fun p => by
    rw [tens?, tens?, content_canonical]
  rw [← hcanonical p, ← hcanonical q]
  exact tens?_of_alike _ _ h

/-! ## Comparing -/

theorem lt?_of_tens? {m n : Int} :
    ∀ p q : Payload, p.tens? = some m → q.tens? = some n → lt? p q = .ok (decide (m < n))
  | .tagged _ p, q, hp, hq => by
      rw [lt?]
      exact lt?_of_tens? p q hp hq
  | .weak k, q, hp, hq => by
      obtain rfl := Option.some.inj hp
      unfold tens? at hq
      split at hq
      · next l hl =>
        obtain rfl := Option.some.inj hq
        rw [lt?, hl]
      · exact absurd hq (by simp)
  | .null, _, hp, _ => by simp [tens?, content] at hp
  | .bool _, _, hp, _ => by simp [tens?, content] at hp
  | .int _, _, hp, _ => by simp [tens?, content] at hp
  | .float _, _, hp, _ => by simp [tens?, content] at hp
  | .text _, _, hp, _ => by simp [tens?, content] at hp
  | .tuple _, _, hp, _ => by simp [tens?, content] at hp
  | .list _, _, hp, _ => by simp [tens?, content] at hp

theorem compare?_of_tens? {m n : Int} {p q : Payload} (hp : p.tens? = some m)
    (hq : q.tens? = some n) :
    p.compare? q = .ok (if m < n then -1 else if n < m then 1 else 0) := by
  rw [compare?, lt?_of_tens? p q hp hq, lt?_of_tens? q p hq hp]
  by_cases hmn : m < n
  · simp [hmn, bind, Except.bind, pure, Except.pure]
  · by_cases hnm : n < m
    · simp [hmn, hnm, bind, Except.bind, pure, Except.pure]
    · simp [hmn, hnm, bind, Except.bind, pure, Except.pure]

end Payload

/-- Weak numbers by their tens. -/
def Ranking.tens : Ranking where
  domain p := ∃ n, p.tens? = some n
  before p q := p.tens?.getD 0 < q.tens?.getD 0
  strictWeak :=
    { irrefl := fun _ => Int.lt_irrefl _
      trans := fun _ _ _ => Int.lt_trans
      incomp_trans := fun _ _ _ hab hbc => by omega }
  domain_of_same h hdomain := by
    rwa [Payload.tens?_of_same h]
  tied_of_same h := by
    rw [Tied, Payload.tens?_of_same h]
    omega

namespace Order

theorem natural_follows_tens : Comparator.Follows (Order.compare .natural) Ranking.tens := by
  intro p q hp hq s k t h
  obtain ⟨m, hp⟩ : ∃ m, p.tens? = some m := hp
  obtain ⟨n, hq⟩ : ∃ n, q.tens? = some n := hq
  rw [Order.compare, Payload.compare?_of_tens? hp hq] at h
  cases h
  simp only [Signals, Ranking.tens, hp, hq, Option.getD_some]
  split
  · omega
  · split <;> omega

/-- A meter lets a comparison pass or fails it. -/
theorem metered_follows {base : Order} {r : Ranking} (h : Comparator.Follows (Order.compare base) r)
    (meter : Nat) : Comparator.Follows (Order.compare (.metered meter base)) r := by
  intro a b ha hb s n t hrun
  cases htick : Surroundings.tickMeter meter s with
  | ok _ s' =>
      rw [Order.compare, Attempt.bind_of_ok htick] at hrun
      exact h a b ha hb s' n t hrun
  | error fault s' =>
      rw [Order.compare, Attempt.bind_of_error htick] at hrun
      exact absurd hrun (by simp)

end Order

/-- Natural orderings, each behind a meter of its own. -/
def Rules.metered : Rules Surroundings :=
  Rules.ofOrders (.metered 0 .natural) (.metered 1 .natural)

theorem Rules.metered_follow : Rules.metered.Follow ⟨Ranking.tens, Ranking.tens⟩ where
  argument := Order.metered_follows Order.natural_follows_tens 0
  value := Order.metered_follows Order.natural_follows_tens 1

/-- A number of one digit too many to be written. -/
def longNumber : Payload :=
  .int (Int.pow 10 Text.digitLimit)

end Peaks
