import Peaks.Proofs.Numbers
import Peaks.Proofs.Pool
import Peaks.Proofs.WeakNumbers

/-!
# Keys that match

Two keys of a pool match when they are of one kind and the same object or equal. That is an
equivalence, although it is put together from identity and an equality that some numbers do not have
to themselves.

- `Payload.same_symm`, `Payload.same_trans` : one object in several written forms
- `Payload.eq_symm`, `Payload.eq_trans`     : equality of contents
- `Pool.keysMatch_refl`, `Pool.keysMatch_symm`, `Pool.keysMatch_trans` : matching keys
-/

namespace Peaks

namespace Payload

/-! ## One object -/

mutual

theorem eq_of_alike : ∀ p q : Payload, alike p q → p = q
  | .null, q, h => by cases q <;> simp_all [alike]
  | .bool _, q, h => by cases q <;> simp_all [alike]
  | .int _, q, h => by cases q <;> simp_all [alike]
  | .float _, q, h => by cases q <;> simp_all [alike]
  | .text _, q, h => by cases q <;> simp_all [alike]
  | .weak _, q, h => by cases q <;> simp_all [alike]
  | .tuple ps, q, h => by
      cases q with
      | tuple qs => rw [eq_of_allAlike ps qs (by simpa [alike] using h)]
      | _ => simp [alike] at h
  | .list ps, q, h => by
      cases q with
      | list qs => rw [eq_of_allAlike ps qs (by simpa [alike] using h)]
      | _ => simp [alike] at h
  | .tagged s p, q, h => by
      cases q with
      | tagged t q =>
          simp only [alike, Bool.and_eq_true, beq_iff_eq] at h
          rw [h.1, eq_of_alike p q h.2]
      | _ => simp [alike] at h

theorem eq_of_allAlike : ∀ ps qs : List Payload, allAlike ps qs → ps = qs
  | [], qs, h => by cases qs <;> simp_all [allAlike]
  | p :: ps, qs, h => by
      cases qs with
      | nil => simp [allAlike] at h
      | cons q qs =>
          simp only [allAlike, Bool.and_eq_true] at h
          rw [eq_of_alike p q h.1, eq_of_allAlike ps qs h.2]

end

variable {p q r : Payload}

theorem same_iff : p.same q ↔ p.canonical = q.canonical := by
  constructor
  · exact eq_of_alike _ _
  · intro h
    rw [same, h]
    exact alike_refl _

theorem same_symm (h : p.same q) : q.same p :=
  same_iff.2 (same_iff.1 h).symm

theorem same_trans (hpq : p.same q) (hqr : q.same r) : p.same r :=
  same_iff.2 ((same_iff.1 hpq).trans (same_iff.1 hqr))

theorem content_of_same (h : p.same q) : p.content = q.content := by
  rw [← content_canonical p, ← content_canonical q, same_iff.1 h]

theorem kind_content : ∀ p : Payload, p.content.kind = p.kind
  | .tagged _ p => kind_content p
  | .null | .bool _ | .int _ | .float _ | .text _ | .tuple _ | .list _ | .weak _ => rfl

theorem hashable?_content : ∀ p : Payload, p.content.hashable? = p.hashable?
  | .tagged _ p => by
      rw [hashable?]
      exact hashable?_content p
  | .null | .bool _ | .int _ | .float _ | .text _ | .tuple _ | .list _ | .weak _ => rfl

theorem isHashable_of_same (h : p.same q) : p.isHashable = q.isHashable := by
  rw [isHashable, isHashable, ← hashable?_content p, ← hashable?_content q, content_of_same h]

/-! ## Equal contents -/

theorem eq_content_left (q : Payload) : ∀ p : Payload, p.content.eq q = p.eq q
  | .tagged _ p => by
      rw [eq]
      exact eq_content_left q p
  | .null | .bool _ | .int _ | .float _ | .text _ | .tuple _ | .list _ | .weak _ => rfl

theorem eq_content_right (q : Payload) : ∀ p : Payload, p.eq q.content = p.eq q
  | .tagged _ p => by
      rw [eq, eq]
      exact eq_content_right q p
  | .null | .bool _ | .int _ | .float _ | .text _ | .tuple _ | .list _ | .weak _ => by
      simp only [eq, number?, content_content]

theorem eq_of_same_left (h : p.same q) : p.eq r = q.eq r := by
  rw [← eq_content_left r p, ← eq_content_left r q, content_of_same h]

theorem eq_of_same_right (h : q.same r) : p.eq q = p.eq r := by
  rw [← eq_content_right q p, ← eq_content_right r p, content_of_same h]

/-- Identity passes an equality on, from either side. -/
theorem same_or_eq_trans (htrans : p.eq q = true → q.eq r = true → p.eq r = true)
    (hpq : p.same q ∨ p.eq q = true) (hqr : q.same r ∨ q.eq r = true) :
    p.same r ∨ p.eq r = true := by
  rcases hpq with hsame | heq
  · exact hqr.imp (same_trans hsame) fun h => (eq_of_same_left hsame).trans h
  · rcases hqr with hsame' | heq'
    · exact Or.inr ((eq_of_same_right hsame').symm.trans heq)
    · exact Or.inr (htrans heq heq')

/-- A number is equal to the numbers at its place only. -/
theorem eq_iff_of_number? {m : Number} (hp : p.number? = some m) :
    p.eq q = true ↔ ∃ n, q.number? = some n ∧ m.eq n = true := by
  rw [← eq_content_left]
  rw [number?] at hp
  -- only the three kinds of numbers are left
  cases hcontent : p.content <;> rw [hcontent] at hp <;> cases hp
  all_goals
    rw [eq]
    cases q.number? <;> simp

theorem eq_symm_of_number? {m : Number} (hp : p.number? = some m) (h : p.eq q = true) :
    q.eq p = true := by
  rcases (eq_iff_of_number? hp).1 h with ⟨n, hq, heq⟩
  exact (eq_iff_of_number? hq).2 ⟨m, hp, Number.eq_symm heq⟩

theorem eq_trans_of_number? {m : Number} (hp : p.number? = some m) (hpq : p.eq q = true)
    (hqr : q.eq r = true) : p.eq r = true := by
  rcases (eq_iff_of_number? hp).1 hpq with ⟨n, hq, hmn⟩
  rcases (eq_iff_of_number? hq).1 hqr with ⟨k, hr, hnk⟩
  exact (eq_iff_of_number? hp).2 ⟨k, hr, Number.eq_trans hmn hnk⟩

mutual

theorem eq_symm : ∀ p q : Payload, p.eq q = true → q.eq p = true
  | .tagged t p, q, h => by
      rw [eq] at h
      have hcontent : q.eq (tagged t p).content = q.eq p := eq_content_right p q
      rw [← eq_content_right, hcontent]
      exact eq_symm p q h
  | .bool _, _, h => eq_symm_of_number? rfl h
  | .int _, _, h => eq_symm_of_number? rfl h
  | .float _, _, h => eq_symm_of_number? rfl h
  | .tuple ps, q, h => by
      rw [← eq_content_left]
      rw [eq] at h
      split at h
      · next qs hq =>
        rw [hq, eq]
        exact allEq_symm ps qs h
      · cases h
  | .list ps, q, h => by
      rw [← eq_content_left]
      rw [eq] at h
      split at h
      · next qs hq =>
        rw [hq, eq]
        exact allEq_symm ps qs h
      · cases h
  | .null, q, h => by
      rw [← eq_content_left]
      cases hq : q.content <;> simp_all [eq, content]
  | .text _, q, h => by
      rw [← eq_content_left]
      cases hq : q.content <;> simp_all [eq, content]
  | .weak _, q, h => by
      rw [← eq_content_left]
      cases hq : q.content <;> simp_all [eq, content]

theorem allEq_symm : ∀ ps qs : List Payload, allEq ps qs = true → allEq qs ps = true
  | [], qs, h => by cases qs <;> simp_all [allEq]
  | p :: ps, qs, h => by
      cases qs with
      | nil => simp [allEq] at h
      | cons q qs =>
          simp only [allEq, Bool.and_eq_true, Bool.or_eq_true] at h ⊢
          exact ⟨h.1.imp same_symm (eq_symm p q), allEq_symm ps qs h.2⟩

end

mutual

theorem eq_trans : ∀ p q r : Payload, p.eq q = true → q.eq r = true → p.eq r = true
  | .tagged _ p, q, r, hpq, hqr => by
      rw [eq] at hpq ⊢
      exact eq_trans p q r hpq hqr
  | .bool _, _, _, hpq, hqr => eq_trans_of_number? rfl hpq hqr
  | .int _, _, _, hpq, hqr => eq_trans_of_number? rfl hpq hqr
  | .float _, _, _, hpq, hqr => eq_trans_of_number? rfl hpq hqr
  | .tuple ps, q, r, hpq, hqr => by
      rw [← eq_content_left] at hqr
      rw [eq] at hpq ⊢
      split at hpq
      · next qs hq =>
        rw [hq, eq] at hqr
        split at hqr
        · next rs hr =>
          exact allEq_trans ps qs rs hpq hqr
        · cases hqr
      · cases hpq
  | .list ps, q, r, hpq, hqr => by
      rw [← eq_content_left] at hqr
      rw [eq] at hpq ⊢
      split at hpq
      · next qs hq =>
        rw [hq, eq] at hqr
        split at hqr
        · next rs hr =>
          exact allEq_trans ps qs rs hpq hqr
        · cases hqr
      · cases hpq
  | .null, q, r, hpq, hqr => by
      rw [← eq_content_left] at hqr
      cases hq : q.content <;> simp_all [eq]
  | .text _, q, r, hpq, hqr => by
      rw [← eq_content_left] at hqr
      cases hq : q.content <;> simp_all [eq]
  | .weak _, q, r, hpq, hqr => by
      rw [← eq_content_left] at hqr
      cases hq : q.content <;> simp_all [eq]

theorem allEq_trans : ∀ ps qs rs : List Payload, allEq ps qs = true → allEq qs rs = true →
    allEq ps rs = true
  | [], qs, rs, hpq, hqr => by cases qs <;> simp_all [allEq]
  | p :: ps, qs, rs, hpq, hqr => by
      cases qs with
      | nil => simp [allEq] at hpq
      | cons q qs =>
          cases rs with
          | nil => simp [allEq] at hqr
          | cons r rs =>
              simp only [allEq, Bool.and_eq_true, Bool.or_eq_true] at hpq hqr ⊢
              exact ⟨same_or_eq_trans (eq_trans p q r) hpq.1 hqr.1,
                allEq_trans ps qs rs hpq.2 hqr.2⟩

end

theorem matchesItem_iff : p.matchesItem q = true ↔ p.same q ∨ p.eq q = true := by
  unfold matchesItem
  split
  · next m n =>
    have hcanonical : ∀ k : Int, (int k).canonical = int k := fun k => ite_self _
    simp [same, hcanonical, alike, eq, number?, content, Number.eq]
  · rw [Bool.or_eq_true]

end Payload

/-! ## Matching keys -/

namespace Pool

variable {p q r : Payload}

theorem keysMatch_iff : keysMatch p q = true ↔ (p.same q ∨ p.eq q = true) ∧ p.kind = q.kind := by
  rw [keysMatch, Bool.and_eq_true, Payload.matchesItem_iff, beq_iff_eq]

theorem keysMatch_of_same (h : p.same q) : keysMatch p q = true := by
  refine keysMatch_iff.2 ⟨Or.inl h, ?_⟩
  rw [← Payload.kind_content p, ← Payload.kind_content q, Payload.content_of_same h]

theorem keysMatch_refl (p : Payload) : keysMatch p p = true :=
  keysMatch_of_same (Payload.same_refl p)

theorem keysMatch_symm (h : keysMatch p q = true) : keysMatch q p = true := by
  rcases keysMatch_iff.1 h with ⟨hmatch, hkind⟩
  exact keysMatch_iff.2 ⟨hmatch.imp Payload.same_symm (Payload.eq_symm p q), hkind.symm⟩

theorem keysMatch_trans (hpq : keysMatch p q = true) (hqr : keysMatch q r = true) :
    keysMatch p r = true := by
  rcases keysMatch_iff.1 hpq with ⟨hpq, hkind⟩
  rcases keysMatch_iff.1 hqr with ⟨hqr, hkind'⟩
  exact keysMatch_iff.2 ⟨Payload.same_or_eq_trans (Payload.eq_trans p q r) hpq hqr,
    hkind.trans hkind'⟩

/-- Matching keys match the same keys. -/
theorem keysMatch_congr (h : keysMatch p q = true) (r : Payload) :
    keysMatch p r = keysMatch q r := by
  rw [Bool.eq_iff_iff]
  exact ⟨keysMatch_trans (keysMatch_symm h), keysMatch_trans h⟩

theorem keysMatch_congr_right (h : keysMatch p q = true) (r : Payload) :
    keysMatch r p = keysMatch r q := by
  rw [Bool.eq_iff_iff]
  exact ⟨fun hp => keysMatch_trans hp h, fun hq => keysMatch_trans hq (keysMatch_symm h)⟩

end Pool

end Peaks
