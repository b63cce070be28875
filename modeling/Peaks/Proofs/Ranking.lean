import Mathlib.Order.RelClasses
import Mathlib.Tactic.Tauto
import Peaks.MaximaIndex
import Peaks.Proofs.Attempt

/-!
# Rankings

What it means that comparisons answer by a fixed strict weak ordering while any of them may fail
instead, and what follows for points.

- `Lexicographic`      : one ordering and, where it ties, another
- `Ranking`            : a strict weak ordering of objects, and the objects that it is used for
- `Comparator.Follows` : whenever the comparison returns, it answers by the ranking
- `Rules.Obey`         : every comparison answers by the rankings, or fails in a given way
- `Rules.Raised`       : a fault that a comparison, or the allocator, ended with
- `Rankings.Precedes`, `Rankings.Outranks` : points by argument, and points in maxima order
-/

namespace Peaks

/-! ## Strict weak orderings -/

section StrictWeak

variable {α : Type} {r s : α → α → Prop} {a b c : α}

/-- Neither comes before the other. -/
def Tied (r : α → α → Prop) (a b : α) : Prop :=
  ¬ r a b ∧ ¬ r b a

theorem Tied.symm (h : Tied r a b) : Tied r b a :=
  ⟨h.2, h.1⟩

/-- The sign of a three-way comparison. -/
def Signals (r : α → α → Prop) (a b : α) (n : Int) : Prop :=
  (n < 0 ↔ r a b) ∧ (0 < n ↔ r b a)

theorem Signals.eq_zero_iff {n : Int} (h : Signals r a b n) : n = 0 ↔ Tied r a b := by
  unfold Tied
  rw [← h.1, ← h.2]
  omega

theorem Signals.le_zero_iff {n : Int} (h : Signals r a b n) : n ≤ 0 ↔ ¬ r b a := by
  rw [← h.2]
  omega

/-- The first ordering decides and, between tied operands, the second. -/
def Lexicographic (r s : α → α → Prop) (a b : α) : Prop :=
  r a b ∨ Tied r a b ∧ s a b

theorem tied_lexicographic_iff : Tied (Lexicographic r s) a b ↔ Tied r a b ∧ Tied s a b := by
  unfold Lexicographic Tied
  tauto

theorem Signals.lexicographic_of_ne {n : Int} (h : Signals r a b n) (hne : n ≠ 0) :
    Signals (Lexicographic r s) a b n := by
  have htie : ¬ Tied r a b := fun htie => hne (h.eq_zero_iff.2 htie)
  unfold Signals Lexicographic
  rw [h.1, h.2]
  unfold Tied at htie ⊢
  tauto

theorem Signals.lexicographic_of_tied {n : Int} (h : Signals s a b n) (htie : Tied r a b) :
    Signals (Lexicographic r s) a b n := by
  unfold Signals Lexicographic
  rw [h.1, h.2]
  unfold Tied at htie ⊢
  tauto

variable [IsStrictWeakOrder α r]

theorem Tied.refl (a : α) : Tied r a a :=
  ⟨irrefl_of r a, irrefl_of r a⟩

theorem Tied.trans (hab : Tied r a b) (hbc : Tied r b c) : Tied r a c :=
  IsStrictWeakOrder.incomp_trans a b c hab hbc

theorem before_of_before_of_not (hab : r a b) (hcb : ¬ r c b) : r a c := by
  by_contra hac
  -- otherwise `c` would be tied with both, and these with each other
  have hca : ¬ r c a := fun h => hcb (trans_of r h hab)
  have hbc : ¬ r b c := fun h => hac (trans_of r hab h)
  have htied : Tied r a b := Tied.trans ⟨hac, hca⟩ ⟨hcb, hbc⟩
  exact htied.1 hab

theorem before_of_not_of_before (hba : ¬ r b a) (hbc : r b c) : r a c := by
  by_contra hac
  exact hba (before_of_before_of_not hbc hac)

theorem before_of_tied_left (hab : Tied r a b) (hbc : r b c) : r a c :=
  before_of_not_of_before hab.2 hbc

theorem before_of_tied_right (hab : r a b) (hbc : Tied r b c) : r a c :=
  before_of_before_of_not hab hbc.2

/-- Tied objects can stand in for each other. -/
theorem before_congr {a' b' : α} (ha : Tied r a a') (hb : Tied r b b') : r a b ↔ r a' b' :=
  ⟨fun h => before_of_tied_left ha.symm (before_of_tied_right h hb),
   fun h => before_of_tied_left ha (before_of_tied_right h hb.symm)⟩

variable [IsStrictWeakOrder α s]

theorem Lexicographic.trans (hab : Lexicographic r s a b) (hbc : Lexicographic r s b c) :
    Lexicographic r s a c := by
  -- the first ordering decides as soon as it decides one of the two steps
  rcases hab with hab | ⟨htie, hab⟩
  · rcases hbc with hbc | ⟨htie', _⟩
    · exact Or.inl (trans_of _ hab hbc)
    · exact Or.inl (before_of_tied_right hab htie')
  · rcases hbc with hbc | ⟨htie', hbc⟩
    · exact Or.inl (before_of_tied_left htie hbc)
    · exact Or.inr ⟨htie.trans htie', trans_of _ hab hbc⟩

instance : IsStrictWeakOrder α (Lexicographic r s) where
  irrefl a := by
    rintro (h | ⟨_, h⟩)
    · exact irrefl_of r a h
    · exact irrefl_of s a h
  trans _ _ _ := Lexicographic.trans
  incomp_trans a b c hab hbc := by
    have hab' := tied_lexicographic_iff.1 hab
    have hbc' := tied_lexicographic_iff.1 hbc
    exact tied_lexicographic_iff.2 ⟨hab'.1.trans hbc'.1, hab'.2.trans hbc'.2⟩

end StrictWeak

/-! ## Rankings of objects -/

/-- A strict weak ordering of objects and the objects that it is used for. One object may be written
in several ways; they stand in one place. -/
structure Ranking where
  domain : Payload → Prop
  before : Payload → Payload → Prop
  strictWeak : IsStrictWeakOrder Payload before
  domain_of_same : ∀ {a b : Payload}, a.same b → domain b → domain a
  tied_of_same : ∀ {a b : Payload}, a.same b → Tied before a b

instance (r : Ranking) : IsStrictWeakOrder Payload r.before :=
  r.strictWeak

/-- Whenever a comparison of two objects in the domain returns, it answers by the ranking. -/
def Comparator.Follows {σ : Type} (compare : Comparator σ) (r : Ranking) : Prop :=
  ∀ a b, r.domain a → r.domain b →
    ∀ s n t, compare a b s = .ok n t → Signals r.before a b n

/-- One ranking for the arguments and one for the values. -/
structure Rankings where
  argument : Ranking
  value : Ranking

structure Rules.Follow {σ : Type} (rules : Rules σ) (R : Rankings) : Prop where
  argument : rules.argument.Follows R.argument
  value : rules.value.Follows R.value

/-- Every comparison of two objects in the domains answers by the rankings, or fails as `failed`
says. -/
structure Rules.Obey {σ : Type} (rules : Rules σ) (R : Rankings)
    (failed : Fault → σ → Prop) : Prop where
  argument_ensures : ∀ {a b : Payload}, R.argument.domain a → R.argument.domain b →
    (rules.argument a b).Ensures (fun n _ => Signals R.argument.before a b n) failed
  value_ensures : ∀ {a b : Payload}, R.value.domain a → R.value.domain b →
    (rules.value a b).Ensures (fun n _ => Signals R.value.before a b n) failed

/-- A comparison, or the allocator, failed with this fault and left this host behind. -/
def Rules.Raised {σ : Type} (rules : Rules σ) (fault : Fault) (host : σ) : Prop :=
  ∃ s, (∃ a b, rules.argument a b s = .error fault host) ∨
    (∃ a b, rules.value a b s = .error fault host) ∨ rules.allocate s = .error fault host

/-! ## Points -/

namespace Rankings

variable (R : Rankings)

/-- Both payloads of a point lie in the domains. -/
def Covers (p : Point) : Prop :=
  R.argument.domain p.argument ∧ R.value.domain p.value

/-- The argument comes first. -/
def Precedes (p q : Point) : Prop :=
  R.argument.before p.argument q.argument

/-- The value is larger or, between tied values, the argument comes first. -/
def Outranks (p q : Point) : Prop :=
  R.value.before q.value p.value ∨
    Tied R.value.before p.value q.value ∧ R.argument.before p.argument q.argument

instance : IsStrictWeakOrder Point R.Precedes where
  irrefl p := irrefl_of R.argument.before p.argument
  trans _ _ _ hpq hqr := trans_of R.argument.before hpq hqr
  incomp_trans _ _ _ hpq hqr := Tied.trans (r := R.argument.before) hpq hqr

/-- The value is larger. -/
def Exceeds (p q : Point) : Prop :=
  R.value.before q.value p.value

instance : IsStrictWeakOrder Point R.Exceeds :=
  inferInstanceAs
    (IsStrictWeakOrder Point (Order.Preimage Point.value (Function.swap R.value.before)))

theorem outranks_eq_lexicographic : R.Outranks = Lexicographic R.Exceeds R.Precedes := by
  funext p q
  exact propext (or_congr_right (and_congr_left' and_comm))

instance : IsStrictWeakOrder Point R.Outranks :=
  R.outranks_eq_lexicographic ▸ inferInstance

variable {R}

/-- Two points are tied in maxima order exactly if they are tied on both sides. -/
theorem tied_outranks_iff {p q : Point} :
    Tied R.Outranks p q ↔ Tied R.value.before p.value q.value ∧ Tied R.Precedes p q := by
  rw [outranks_eq_lexicographic, tied_lexicographic_iff]
  exact and_congr_left' and_comm

theorem Outranks.trans {p q s : Point} (hpq : R.Outranks p q) (hqs : R.Outranks q s) :
    R.Outranks p s :=
  trans_of R.Outranks hpq hqs

/-- A strict order by argument settles the maxima order one way or the other. -/
theorem not_tied_outranks_of_precedes {p q : Point} (h : R.Precedes p q) : ¬ Tied R.Outranks p q :=
  fun htie => (tied_outranks_iff.1 htie).2.1 h

end Rankings

/-! ## Comparisons under rules that follow rankings -/

namespace Comparator

variable {σ : Type} {compare : Comparator σ} {before : Payload → Payload → Prop} {a b : Payload}
variable {failed : Fault → σ → Prop}

theorem equivalent_ensures
    (h : (compare a b).Ensures (fun n _ => Signals before a b n) failed) :
    (equivalent compare a b).Ensures (fun tie _ => tie = true ↔ Tied before a b) failed :=
  h.map fun n _ hn => by
    rw [beq_iff_eq]
    exact hn.eq_zero_iff

theorem lessEqual_ensures
    (h : (compare a b).Ensures (fun n _ => Signals before a b n) failed) :
    (lessEqual compare a b).Ensures (fun le _ => le = true ↔ ¬ before b a) failed :=
  h.map fun n _ hn => by
    rw [decide_eq_true_iff]
    exact hn.le_zero_iff

end Comparator

theorem MaximaIndex.insertAt_ensures {σ : Type} (rules : Rules σ)
    (entries : List Point) (index : Nat)
    (point : Point) :
    (insertAt rules entries index point).Ensures (fun ps _ => ps = entries.insertIdx index point)
      rules.Raised := by
  have hallocate : rules.allocate.Ensures (fun _ _ => True) rules.Raised :=
    .of_runs (fun _ _ _ _ => trivial) (fun s _ _ h => ⟨s, Or.inr (Or.inr h)⟩)
  exact hallocate.map fun _ _ _ => rfl

theorem Rules.Obey.compare_ensures {σ : Type} {rules : Rules σ} {R : Rankings}
    {failed : Fault → σ → Prop}
    (hR : rules.Obey R failed) {p q : Point} (hp : R.Covers p) (hq : R.Covers q) :
    (MaximaIndex.compare rules p q).Ensures (fun n _ => Signals R.Outranks p q n) failed := by
  rw [R.outranks_eq_lexicographic]
  refine (hR.value_ensures hq.2 hp.2).bind fun n hn => ?_
  have hvalue : Signals R.Exceeds p q n := hn
  split
  · next hne =>
    -- values that are not tied decide, larger ones first
    exact .pure fun _ => hvalue.lexicographic_of_ne hne
  · next heq =>
    -- between tied values the arguments decide
    refine (hR.argument_ensures hp.1 hq.1).mono fun m _ hm => ?_
    have hargument : Signals R.Precedes p q m := hm
    exact hargument.lexicographic_of_tied (hvalue.eq_zero_iff.1 (not_not.1 heq))

namespace Rules.Follow

variable {σ : Type} {rules : Rules σ} {R : Rankings} (hR : rules.Follow R)
include hR

theorem argument_ensures {a b : Payload} (ha : R.argument.domain a) (hb : R.argument.domain b) :
    (rules.argument a b).Ensures (fun n _ => Signals R.argument.before a b n) rules.Raised :=
  .of_runs (fun s n t h => hR.argument a b ha hb s n t h)
    (fun s _ _ h => ⟨s, Or.inl ⟨a, b, h⟩⟩)

theorem value_ensures {a b : Payload} (ha : R.value.domain a) (hb : R.value.domain b) :
    (rules.value a b).Ensures (fun n _ => Signals R.value.before a b n) rules.Raised :=
  .of_runs (fun s n t h => hR.value a b ha hb s n t h)
    (fun s _ _ h => ⟨s, Or.inr (Or.inl ⟨a, b, h⟩)⟩)

theorem obey : rules.Obey R rules.Raised :=
  ⟨hR.argument_ensures, hR.value_ensures⟩

theorem compare_ensures {p q : Point} (hp : R.Covers p) (hq : R.Covers q) :
    (MaximaIndex.compare rules p q).Ensures (fun n _ => Signals R.Outranks p q n) rules.Raised :=
  hR.obey.compare_ensures hp hq

end Rules.Follow

end Peaks
