import Mathlib.Data.Int.Order.Basic
import Peaks.Order.Catalogue
import Peaks.Proofs.NumberRanking
import Peaks.Proofs.Ranking

/-!
# Lawful comparisons

An ordering is built from a `<`, a rule or a three-way function by turning it around and by taking
keys, any number of times. If the comparison at the bottom is a strict weak ordering of what reaches
it, then the ordering built on it compares lawfully, and so does the maxima order of two such
orderings.

- `Lawful`          : what is expected of a three-way comparison and of the two tests derived from
  it
- `Answers`         : comparisons that always return and answer by an ordering, and `Answers.lawful`
- `Order.Sound`     : orderings built on a strict weak one
- `Order.Sound.answers`, `MaximaIndex.compare_answers` : the ordering by which they answer
- `Order.compare_lawful` : both at once, and which points the maxima order ties
-/

namespace Peaks

variable {σ α : Type}

theorem Attempt.pure_inj [Nonempty σ] {a b : α} : (pure a : Attempt σ α) = pure b ↔ a = b := by
  obtain ⟨s⟩ := ‹Nonempty σ›
  constructor
  · intro h
    have hrun : (EStateM.Result.ok a s : EStateM.Result Fault σ α) = .ok b s := congrFun h s
    injection hrun
  · rintro rfl
    rfl

/-! ## What is expected of a comparison -/

/-- A three-way comparison of the objects in a domain, with its tests for "before or tied" and for
"tied". Turning the operands around turns the answer around, the first test is total and transitive,
and tied objects can stand in for each other. -/
structure Lawful (domain : α → Prop) (compare : α → α → Attempt σ Int)
    (lessEqual equivalent : α → α → Attempt σ Bool) : Prop where
  flips : ∀ a b : { a // domain a },
    ∃ m n : Int, compare a b = pure m ∧ compare b a = pure n ∧ (m < 0 ↔ 0 < n)
  total : ∀ a b : { a // domain a }, lessEqual a b = pure true ∨ lessEqual b a = pure true
  trans : ∀ a b c : { a // domain a },
    lessEqual a b = pure true → lessEqual b c = pure true → lessEqual a c = pure true
  equivalence : Equivalence fun a b : { a // domain a } => equivalent a b = pure true
  congr : ∀ a a' b b' : { a // domain a }, equivalent a a' = pure true →
    equivalent b b' = pure true →
    ∃ m n : Int, compare a b = pure m ∧ compare a' b' = pure n ∧ m.sign = n.sign

/-- Every comparison of two objects in the domain returns, changes nothing and answers by the
ordering. -/
def Answers (domain : α → Prop) (compare : α → α → Attempt σ Int)
    (r : { a // domain a } → { a // domain a } → Prop) : Prop :=
  ∀ a b : { a // domain a }, ∃ n, compare a b = pure n ∧ Signals r a b n

theorem Signals.sign_eq {r : α → α → Prop} {a b a' b' : α} {m n : Int} (hm : Signals r a b m)
    (hn : Signals r a' b' n) (hleft : r a b ↔ r a' b') (hright : r b a ↔ r b' a') :
    m.sign = n.sign := by
  have hneg : m < 0 ↔ n < 0 := by rw [hm.1, hn.1, hleft]
  have hpos : 0 < m ↔ 0 < n := by rw [hm.2, hn.2, hright]
  rcases Int.lt_trichotomy m 0 with h | h | h
  · rw [Int.sign_eq_neg_one_of_neg h, Int.sign_eq_neg_one_of_neg (hneg.1 h)]
  · have hzero : n = 0 := by omega
    rw [h, hzero]
  · rw [Int.sign_eq_one_of_pos h, Int.sign_eq_one_of_pos (hpos.1 h)]

namespace Answers

variable {domain : α → Prop} {compare : α → α → Attempt σ Int}
  {r : { a // domain a } → { a // domain a } → Prop}

section Tests

variable [Nonempty σ] (h : Answers domain compare r) {lessEqual equivalent : α → α → Attempt σ Bool}
include h

theorem lessEqual_iff (hle : ∀ a b, lessEqual a b = do return (← compare a b) ≤ 0)
    (a b : { a // domain a }) :
    lessEqual a b = pure true ↔ ¬ r b a := by
  obtain ⟨n, hn, hsignals⟩ := h a b
  rw [hle, hn, pure_bind, Attempt.pure_inj, decide_eq_true_iff]
  exact hsignals.le_zero_iff

theorem equivalent_iff (heq : ∀ a b, equivalent a b = do return (← compare a b) == 0)
    (a b : { a // domain a }) :
    equivalent a b = pure true ↔ Tied r a b := by
  obtain ⟨n, hn, hsignals⟩ := h a b
  rw [heq, hn, pure_bind, Attempt.pure_inj, beq_iff_eq]
  exact hsignals.eq_zero_iff

/-- A comparison that answers by a strict weak ordering is lawful. -/
theorem lawful [IsStrictWeakOrder { a // domain a } r]
    (hle : ∀ a b, lessEqual a b = do return (← compare a b) ≤ 0)
    (heq : ∀ a b, equivalent a b = do return (← compare a b) == 0) :
    Lawful domain compare lessEqual equivalent where
  flips a b := by
    obtain ⟨m, hm, hab⟩ := h a b
    obtain ⟨n, hn, hba⟩ := h b a
    exact ⟨m, n, hm, hn, hab.1.trans hba.2.symm⟩
  total a b := by
    rw [h.lessEqual_iff hle, h.lessEqual_iff hle]
    by_contra hnot
    simp only [not_or, not_not] at hnot
    exact asymm_of r hnot.1 hnot.2
  trans a b c := by
    simp only [h.lessEqual_iff hle]
    intro hba hcb hca
    exact hba (before_of_not_of_before hcb hca)
  equivalence := by
    simp only [h.equivalent_iff heq]
    exact ⟨Tied.refl, Tied.symm, Tied.trans⟩
  congr a a' b b' := by
    simp only [h.equivalent_iff heq]
    intro ha hb
    obtain ⟨m, hm, hab⟩ := h a b
    obtain ⟨n, hn, hab'⟩ := h a' b'
    exact ⟨m, n, hm, hn, hab.sign_eq hab' (before_congr ha hb) (before_congr hb ha)⟩

end Tests

end Answers

/-! ## Orderings built on a strict weak one -/

/-- A "less" test that returns on all payloads in the domain and is a strict weak ordering of
them. -/
structure StrictWeakTest (less : Payload → Payload → Except Fault Bool)
    (domain : Payload → Prop) : Prop where
  returns : ∀ a b : { a // domain a }, ∃ answer, less a b = .ok answer
  strictWeak : IsStrictWeakOrder { a // domain a } fun a b => less a b = .ok true

/-- A three-way comparison that returns on all payloads in the domain and whose signs are those of a
strict weak ordering. -/
def ThreeWayRule.StrictWeak (rule : ThreeWayRule) (domain : Payload → Prop) : Prop :=
  ∃ r, IsStrictWeakOrder { a // domain a } r ∧
    ∀ a b : { a // domain a }, ∃ n, rule.compare a b = .ok n ∧ Signals r a b n

/-- The keys of the payloads in a domain. -/
def KeyRule.Image (key : KeyRule) (domain : Payload → Prop) (k : Payload) : Prop :=
  ∃ a, domain a ∧ key.apply a = .ok k

/-- Orderings built from a `<`, a rule or a three-way function by turning around and taking keys,
where the comparison at the bottom is a strict weak ordering of the payloads, or keys, that it
sees. -/
inductive Order.Sound : Order → (Payload → Prop) → Prop
  | natural {domain : Payload → Prop} (less : StrictWeakTest Payload.lt? domain) :
      Sound .natural domain
  | lessThan {rule : LessRule} {domain : Payload → Prop} (less : StrictWeakTest rule.holds domain) :
      Sound (.lessThan rule) domain
  | threeWay {rule : ThreeWayRule} {domain : Payload → Prop} (signs : rule.StrictWeak domain) :
      Sound (.threeWay rule) domain
  | reversed {base : Order} {domain : Payload → Prop} (base_sound : Sound base domain) :
      Sound (.reversed base) domain
  | keyed {key : KeyRule} {base : Order} {domain : Payload → Prop}
      (returns : ∀ a, domain a → ∃ k, key.apply a = .ok k)
      (base_sound : Sound base (key.Image domain)) :
      Sound (.keyed key base) domain

namespace Order

variable {domain : Payload → Prop}

/-- Asked both ways, a strict "less" test tells which of the two comes first. -/
theorem compareByLess_signals {less : Payload → Payload → Except Fault Bool}
    (h : StrictWeakTest less domain)
    (a b : { a // domain a }) :
    ∃ n, compareByLess less a b = .ok n ∧
      Signals (fun a b : { a // domain a } => less a b = .ok true) a b n := by
  have := h.strictWeak
  obtain ⟨x, hx⟩ := h.returns a b
  obtain ⟨y, hy⟩ := h.returns b a
  simp only [compareByLess, Signals, hx, hy]
  -- the second question is asked only if the answer to the first is no, and a strict ordering never
  -- says yes twice
  cases x with
  | true =>
      cases y with
      | true => exact absurd hy (asymm_of (fun a b : { a // domain a } => less a b = .ok true) hx)
      | false => exact ⟨-1, rfl, by simp⟩
  | false =>
      cases y with
      | true => exact ⟨1, rfl, by simp⟩
      | false => exact ⟨0, rfl, by simp⟩

theorem answers_of_signals {o : Order} {answer : Payload → Payload → Except Fault Int}
    {r : { a // domain a } → { a // domain a } → Prop}
    (ho : ∀ a b, o.compare a b = Attempt.ofExcept (answer a b))
    (h : ∀ a b : { a // domain a }, ∃ n, answer a b = .ok n ∧ Signals r a b n) :
    Answers domain o.compare r := by
  intro a b
  obtain ⟨n, hn, hsignals⟩ := h a b
  refine ⟨n, ?_, hsignals⟩
  rw [ho, hn]
  rfl

theorem answers_reversed {base : Order} {r : { a // domain a } → { a // domain a } → Prop}
    (h : Answers domain base.compare r) :
    Answers domain (reversed base).compare (Function.swap r) := by
  intro a b
  obtain ⟨n, hn, hsignals⟩ := h b a
  rw [compare]
  exact ⟨n, hn, hsignals⟩

/-- A base that answers at all is asked for its answer on the keys. -/
theorem compare_keyed {key : KeyRule} {base : Order} {a b ka kb : Payload} {n : Int}
    (ha : key.apply a = .ok ka)
    (hb : key.apply b = .ok kb) (hbase : base.compare ka kb = pure n) :
    (keyed key base).compare a b = pure n := by
  cases base with
  | inert shown kind =>
      -- asked before the keys are looked for, and it has no answer
      have hrun := congrFun hbase default
      rw [compare] at hrun
      cases hrun
  | natural | reversed | keyed | lessThan | threeWay | metered =>
      simp only [compare, ha, hb, Attempt.ofExcept, pure_bind]
      exact hbase

theorem answers_keyed {key : KeyRule} {base : Order}
    {f : { a // domain a } → { k // key.Image domain k }}
    {r : { k // key.Image domain k } → { k // key.Image domain k } → Prop}
    (hf : ∀ a : { a // domain a }, key.apply a = .ok (f a))
    (h : Answers (key.Image domain) base.compare r) :
    Answers domain (keyed key base).compare (Order.Preimage f r) := by
  intro a b
  obtain ⟨n, hn, hsignals⟩ := h (f a) (f b)
  exact ⟨n, compare_keyed (hf a) (hf b) hn, hsignals⟩

/-- Every sound ordering answers by a strict weak ordering of its domain. -/
theorem Sound.answers {o : Order} (h : o.Sound domain) :
    ∃ r, IsStrictWeakOrder { a // domain a } r ∧ Answers domain o.compare r := by
  induction h with
  | natural less =>
      have hcompare : ∀ a b,
          compare .natural a b = Attempt.ofExcept (compareByLess Payload.lt? a b) := fun a b => by
        rw [compare]
        rfl
      exact ⟨_, less.strictWeak, answers_of_signals hcompare (compareByLess_signals less)⟩
  | lessThan less =>
      exact ⟨_, less.strictWeak,
        answers_of_signals (fun _ _ => by rw [compare]) (compareByLess_signals less)⟩
  | threeWay signs =>
      obtain ⟨r, hr, hsignals⟩ := signs
      exact ⟨r, hr, answers_of_signals (fun _ _ => by rw [compare]) hsignals⟩
  | reversed _ ih =>
      obtain ⟨r, hr, hanswers⟩ := ih
      exact ⟨Function.swap r, inferInstance, answers_reversed hanswers⟩
  | @keyed key base domain returns _ ih =>
      obtain ⟨r, hr, hanswers⟩ := ih
      -- the base orders the keys, and the objects are ordered as their keys are
      choose k hk using fun a : { a // domain a } => returns a a.2
      let f (a : { a // domain a }) : { k // key.Image domain k } := ⟨k a, a, a.2, hk a⟩
      exact ⟨Order.Preimage f r, inferInstance, answers_keyed hk hanswers⟩

end Order

/-! ## Numbers at the bottom -/

/-- Numbers that lie somewhere are ordered by their own `<`. -/
theorem StrictWeakTest.numbers {domain : Payload → Prop}
    (h : ∀ a, domain a → Ranking.numbers.domain a) :
    StrictWeakTest Payload.lt? domain where
  returns a b := by
    obtain ⟨x, hx⟩ := h a a.2
    obtain ⟨y, hy⟩ := h b b.2
    exact ⟨x.lt y, Payload.lt?_of_place? hx hy⟩
  strictWeak := by
    have heq : (fun a b : { a // domain a } => a.1.lt? b.1 = .ok true) =
        Order.Preimage Subtype.val Ranking.numbers.before := by
      funext a b
      obtain ⟨x, hx⟩ := h a a.2
      obtain ⟨y, hy⟩ := h b b.2
      rw [Payload.lt?_of_place? hx hy, Except.ok.injEq]
      exact propext (Ranking.numbers_before_iff hx hy).symm
    rw [heq]
    infer_instance

/-- Payloads that stand for whole numbers. -/
def Payload.IsWhole (p : Payload) : Prop :=
  ∃ n, p.whole? = some n

/-- Differences of whole numbers, or of what is computed from them, compare soundly. -/
theorem ThreeWayRule.onWhole_strictWeak {domain : Payload → Prop} (h : ∀ a, domain a → a.IsWhole)
    (name : String)
    (g : Int → Int) : (onWhole name fun m n => g m - g n).StrictWeak domain := by
  choose whole hwhole using fun a : { a // domain a } => h a a.2
  have : IsStrictWeakOrder Int (· < ·) := isStrictWeakOrder_of_isOrderConnected
  refine ⟨Order.Preimage (fun a => g (whole a)) (· < ·), inferInstance, fun a b => ?_⟩
  refine ⟨g (whole a) - g (whole b), ?_, ?_⟩
  · simp only [onWhole, Payload.wholeFor, hwhole]
    rfl
  · simp only [Signals, Order.Preimage]
    omega

theorem KeyRule.onWhole_apply {a : Payload} {n : Int} (h : a.whole? = some n) (name : String)
    (f : Int → Int) :
    (onWhole name f).apply a = .ok (.int (f n)) := by
  simp only [onWhole, Payload.wholeFor, h]
  rfl

theorem KeyRule.image_onWhole {name : String} {f : Int → Int} {k : Payload}
    (h : (onWhole name f).Image Payload.IsWhole k) : ∃ n, k = .int n := by
  obtain ⟨a, ⟨n, hn⟩, hk⟩ := h
  rw [onWhole_apply hn, Except.ok.injEq] at hk
  exact ⟨f n, hk.symm⟩

/-- Whole numbers by a key that is a whole number again. -/
theorem Order.Sound.onWhole {base : Order} (name : String) (f : Int → Int)
    (hbase : ∀ keys : Payload → Prop, (∀ k, keys k → ∃ n, k = .int n) → base.Sound keys) :
    Sound (.keyed (.onWhole name f) base) Payload.IsWhole := by
  refine .keyed ?_ (hbase _ fun _ => KeyRule.image_onWhole)
  rintro a ⟨n, hn⟩
  exact ⟨_, KeyRule.onWhole_apply hn name f⟩

/-! ## The maxima order of two orderings -/

namespace MaximaIndex

/-- Points with an argument and a value from the two domains. -/
def Within (arguments values : Payload → Prop) (p : Point) : Prop :=
  arguments p.argument ∧ values p.value

/-- The first point comes before the second in maxima order or is tied with it. -/
def lessEqual (rules : Rules σ) (p q : Point) : Attempt σ Bool := do
  return (← compare rules p q) ≤ 0

/-- Neither point comes before the other in maxima order. -/
def equivalent (rules : Rules σ) (p q : Point) : Attempt σ Bool := do
  return (← compare rules p q) == 0

variable {arguments values : Payload → Prop}
  {byArgument : { a // arguments a } → { a // arguments a } → Prop}
  {byValue : { v // values v } → { v // values v } → Prop}

def argumentOf (p : { p // Within arguments values p }) : { a // arguments a } :=
  ⟨p.1.argument, p.2.1⟩

def valueOf (p : { p // Within arguments values p }) : { v // values v } :=
  ⟨p.1.value, p.2.2⟩

/-- Larger values come first and, between tied values, smaller arguments. -/
def Ahead (byArgument : { a // arguments a } → { a // arguments a } → Prop)
    (byValue : { v // values v } → { v // values v } → Prop) :
    { p // Within arguments values p } → { p // Within arguments values p } → Prop :=
  Lexicographic (Order.Preimage valueOf (Function.swap byValue))
    (Order.Preimage argumentOf byArgument)

instance [IsStrictWeakOrder { a // arguments a } byArgument]
    [IsStrictWeakOrder { v // values v } byValue] :
    IsStrictWeakOrder { p // Within arguments values p } (Ahead byArgument byValue) :=
  inferInstanceAs (IsStrictWeakOrder _ (Lexicographic _ _))

theorem tied_ahead_iff {p q : { p // Within arguments values p }} :
    Tied (Ahead byArgument byValue) p q ↔
      Tied byValue (valueOf p) (valueOf q) ∧ Tied byArgument (argumentOf p) (argumentOf q) := by
  rw [Ahead, tied_lexicographic_iff]
  -- the values are compared the other way round
  exact and_congr_left' and_comm

theorem compare_answers {rules : Rules σ} (hargument : Answers arguments rules.argument byArgument)
    (hvalue : Answers values rules.value byValue) :
    Answers (Within arguments values) (compare rules) (Ahead byArgument byValue) := by
  intro p q
  obtain ⟨m, hm, hmsignals⟩ := hvalue (valueOf q) (valueOf p)
  obtain ⟨n, hn, hnsignals⟩ := hargument (argumentOf p) (argumentOf q)
  have hvalues : Signals (Order.Preimage valueOf (Function.swap byValue)) p q m := hmsignals
  have harguments : Signals (Order.Preimage argumentOf byArgument) p q n := hnsignals
  -- the answer on the values is handed on as it is, so its sign alone has to be right for the
  -- points
  have hcompare : compare rules p q = if m ≠ 0 then pure m
      else rules.argument p.1.argument q.1.argument := by
    rw [compare]
    exact (congrArg (· >>= _) hm).trans (pure_bind _ _)
  rw [hcompare]
  split
  · next hne =>
    exact ⟨m, rfl, hvalues.lexicographic_of_ne hne⟩
  · next heq =>
    exact ⟨n, hn, harguments.lexicographic_of_tied (hvalues.eq_zero_iff.1 (not_not.1 heq))⟩

end MaximaIndex

/-- An ordering built by turning around and taking keys, any number of times, on a strict weak
ordering compares lawfully. So does the maxima order of two such orderings, which ties exactly the
points that are tied by value and by argument. -/
theorem Order.compare_lawful {argument : Order} {arguments : Payload → Prop}
    (hargument : argument.Sound arguments) :
    Lawful arguments argument.compare (Comparator.lessEqual argument.compare)
        (Comparator.equivalent argument.compare) ∧
      ∀ {value : Order} {values : Payload → Prop}, value.Sound values →
        Lawful (MaximaIndex.Within arguments values)
            (MaximaIndex.compare (.ofOrders argument value))
            (MaximaIndex.lessEqual (.ofOrders argument value))
            (MaximaIndex.equivalent (.ofOrders argument value)) ∧
          ∀ p q : { p // MaximaIndex.Within arguments values p },
            MaximaIndex.compare (.ofOrders argument value) p q = pure 0 ↔
              Comparator.equivalent value.compare p.1.value q.1.value = pure true ∧
                Comparator.equivalent argument.compare p.1.argument q.1.argument = pure true := by
  obtain ⟨byArgument, _, hanswers⟩ := hargument.answers
  refine ⟨hanswers.lawful (fun _ _ => rfl) (fun _ _ => rfl), fun {value values} hvalue => ?_⟩
  obtain ⟨byValue, _, hvalues⟩ := hvalue.answers
  have hboth : Answers (MaximaIndex.Within arguments values)
      (MaximaIndex.compare (.ofOrders argument value))
      (MaximaIndex.Ahead byArgument byValue) :=
    MaximaIndex.compare_answers hanswers hvalues
  refine ⟨hboth.lawful (fun _ _ => rfl) (fun _ _ => rfl), fun p q => ?_⟩
  obtain ⟨n, hn, hsignals⟩ := hboth p q
  rw [hn, Attempt.pure_inj, hsignals.eq_zero_iff, MaximaIndex.tied_ahead_iff]
  have hv := hvalues.equivalent_iff (fun _ _ => rfl) (MaximaIndex.valueOf p) (MaximaIndex.valueOf q)
  have ha := hanswers.equivalent_iff (fun _ _ => rfl) (MaximaIndex.argumentOf p)
    (MaximaIndex.argumentOf q)
  exact and_congr hv.symm ha.symm

/-- Whole numbers, those farthest from zero first. -/
def Order.farthest : Order :=
  .reversed (.keyed (.onWhole "abs" fun n => n.natAbs) .natural)

/-- Whole numbers by their tens. -/
def Order.tens : Order :=
  .keyed (.onWhole "tens" (·.fdiv 10)) (.threeWay (.onWhole "sub" fun m n => m - n))

theorem Order.compare_lawful_farthest :
    Lawful Payload.IsWhole farthest.compare (Comparator.lessEqual farthest.compare)
        (Comparator.equivalent farthest.compare) ∧
      Lawful (MaximaIndex.Within Payload.IsWhole Payload.IsWhole)
        (MaximaIndex.compare (.ofOrders farthest tens))
        (MaximaIndex.lessEqual (.ofOrders farthest tens))
        (MaximaIndex.equivalent (.ofOrders farthest tens)) ∧
      farthest.compare (.int 5) (.int (-3)) = pure (-1) ∧ farthest.compare (.int (-3))
        (.int 5) = pure 1 ∧
      tens.compare (.int 19) (.int 35) = pure (-2) ∧
      Comparator.equivalent tens.compare (.int 25) (.int 21) = pure true ∧
      Comparator.equivalent farthest.compare (.int (-3)) (.int 3) = pure true := by
  have hfarthest : farthest.Sound Payload.IsWhole :=
    .reversed (.onWhole _ _ fun _ hkeys => .natural (.numbers fun k hk => by
      obtain ⟨n, rfl⟩ := hkeys k hk
      exact ⟨_, rfl⟩))
  have htens : tens.Sound Payload.IsWhole :=
    .onWhole _ _ fun _ hkeys => .threeWay (ThreeWayRule.onWhole_strictWeak (fun k hk => by
      obtain ⟨n, rfl⟩ := hkeys k hk
      exact ⟨n, rfl⟩) "sub" id)
  obtain ⟨hargument, hpoints⟩ := compare_lawful hfarthest
  obtain ⟨hmaxima, htied⟩ := hpoints htens
  let p : Point := ⟨0, ⟨0, .int (-3)⟩, ⟨1, .int 25⟩⟩
  let q : Point := ⟨1, ⟨2, .int 3⟩, ⟨3, .int 21⟩⟩
  have hzero : MaximaIndex.compare (.ofOrders farthest tens) p q = pure 0 := rfl
  -- strict steps through the reversal and through both keys, then a tie of two points
  refine ⟨hargument, hmaxima, rfl, rfl, rfl, ?_⟩
  exact (htied ⟨p, ⟨-3, rfl⟩, ⟨25, rfl⟩⟩ ⟨q, ⟨3, rfl⟩, ⟨21, rfl⟩⟩).1 hzero

end Peaks
