import Peaks.Proofs.FiniteMap

/-!
# Loading at once and setting one by one

Of pairs with tied arguments the last one decides, whether all pairs are loaded at once or set one
after another. The two ways keep different objects: a load keeps those of the last pair, while a
value that is set anew leaves the first argument where it is, and a tied value leaves everything. So
the two stores are equal up to ties, place by place, and have their maxima at the same places in the
same order.

- `Rankings.IsLast`          : a pair that no later one overrides
- `Rankings.CarriesLast`     : points made of the very objects of the last pairs
- `Rankings.Represents`      : points that stand for the last pairs up to ties
- `Store.Mirrors`            : two stores that are equal up to ties
- `Editor.setEach_endsFrom`  : setting pairs one after another
- `Editor.load_pairs_endsFrom` : loading them at once
- `Editor.load_mirrors_sets` : both ways end alike
-/

namespace Peaks

/-! ## Lists side by side -/

section SideBySide

variable {α β : Type} {K : α → β → Prop}

theorem forall₂_split {front back : List α} {x : α} {ys : List β}
    (h : List.Forall₂ K (front ++ x :: back) ys) :
    ∃ front' y back', ys = front' ++ y :: back' ∧ List.Forall₂ K front front' ∧ K x y ∧
      List.Forall₂ K back back' := by
  induction front generalizing ys with
  | nil =>
      cases h with
      | cons hxy hback =>
          exact ⟨[], _, _, rfl, .nil, hxy, hback⟩
  | cons z front ih =>
      cases h with
      | cons hz hrest =>
          rcases ih hrest with ⟨front', y, back', rfl, hfront, hxy, hback⟩
          exact ⟨_ :: front', y, back', rfl, .cons hz hfront, hxy, hback⟩

theorem forall₂_partner {xs : List α} {ys : List β} (h : List.Forall₂ K xs ys) {x : α}
    (hx : x ∈ xs) :
    ∃ y ∈ ys, K x y := by
  rcases List.append_of_mem hx with ⟨front, back, rfl⟩
  rcases forall₂_split h with ⟨front', y, back', rfl, _, hxy, _⟩
  exact ⟨y, by simp, hxy⟩

theorem forall₂_head? {xs : List α} {ys : List β} (h : List.Forall₂ K xs ys) :
    ∀ y ∈ ys.head?, ∃ x ∈ xs.head?, K x y := by
  cases h with
  | nil =>
      simp
  | cons hxy _ =>
      simpa using hxy

theorem forall₂_getLast? {xs : List α} {ys : List β} (h : List.Forall₂ K xs ys) :
    ∀ y ∈ ys.getLast?, ∃ x ∈ xs.getLast?, K x y := by
  have hreverse : List.Forall₂ K xs.reverse ys.reverse := List.forall₂_reverse_iff.2 h
  simpa only [List.head?_reverse] using forall₂_head? hreverse

end SideBySide

section Partners

variable {α : Type} {r K : α → α → Prop} [IsStrictWeakOrder α r] {x y z : α} {xs ys : List α}

/-- What comes after the first element has no partner that is tied with the first one. -/
theorem exists_partner_behind (hxz : r x z) (hxy : Tied r x y) (htied : ∀ y, K z y → Tied r z y)
    (h : ∃ y' ∈ y :: ys, K z y') : ∃ y' ∈ ys, K z y' := by
  rcases h with ⟨y', hy', hK⟩
  rcases List.mem_cons.1 hy' with rfl | hy'
  · exact absurd hxz (hxy.trans (htied y' hK).symm).1
  · exact ⟨y', hy', hK⟩

/-- In two lists in strict order the first elements are partners. -/
theorem first_partners (hxs : (x :: xs).Pairwise r) (hys : (y :: ys).Pairwise r)
    (htied : ∀ x y, K x y → Tied r x y) (hx : ∃ y' ∈ y :: ys, K x y')
    (hy : ∃ x' ∈ x :: xs, K x' y) :
    K x y := by
  rcases hx with ⟨y', hy', hK⟩
  rcases hy with ⟨x', hx', hK'⟩
  rcases List.mem_cons.1 hy' with rfl | hy'
  · exact hK
  rcases List.mem_cons.1 hx' with rfl | hx'
  · exact hK'
  -- with partners further back, each of the two would come before the other
  have hyy' : r y y' := (List.pairwise_cons.1 hys).1 y' hy'
  have hxx' : r x x' := (List.pairwise_cons.1 hxs).1 x' hx'
  have hyx : r y x := before_of_tied_right hyy' (htied x y' hK).symm
  have hxy : r x y := before_of_tied_right hxx' (htied x' y hK')
  exact absurd (trans_of r hxy hyx) (irrefl_of r x)

/-- Two lists in strict order in which every element has a partner in the other one stand side by
side. -/
theorem forall₂_of_partners (hxs : xs.Pairwise r) (hys : ys.Pairwise r)
    (htied : ∀ x y, K x y → Tied r x y)
    (hx : ∀ x ∈ xs, ∃ y ∈ ys, K x y) (hy : ∀ y ∈ ys, ∃ x ∈ xs, K x y) : List.Forall₂ K xs ys := by
  induction xs generalizing ys with
  | nil =>
      cases ys with
      | nil =>
          exact .nil
      | cons y ys =>
          rcases hy y (by simp) with ⟨x, hmem, _⟩
          cases hmem
  | cons x xs ih =>
      cases ys with
      | nil =>
          rcases hx x (by simp) with ⟨y, hmem, _⟩
          cases hmem
      | cons y ys =>
          have hxy : K x y := first_partners hxs hys htied (hx x (by simp)) (hy y (by simp))
          rcases List.pairwise_cons.1 hxs with ⟨hfirst, hxs⟩
          rcases List.pairwise_cons.1 hys with ⟨hfirst', hys⟩
          -- the others are partners among themselves, from either side
          refine .cons hxy (ih hxs hys ?_ ?_)
          · intro z hz
            exact exists_partner_behind (hfirst z hz) (htied x y hxy) (htied z)
              (hx z (by simp [hz]))
          · intro z hz
            exact exists_partner_behind (K := fun z x => K x z) (hfirst' z hz) (htied x y hxy).symm
              (fun x' hK => (htied x' z hK).symm) (hy z (by simp [hz]))

end Partners

/-- The point is made of the very objects of the pair. -/
def Point.Carries (p : Point) (pair : Payload × Payload) : Prop :=
  p.argument.same pair.1 ∧ p.value.same pair.2

namespace Rankings

variable (R : Rankings)

/-! ## Pairs that decide -/

/-- The pairs lie in the domains. -/
def CoversPairs (pairs : List (Payload × Payload)) : Prop :=
  ∀ pair ∈ pairs, R.argument.domain pair.1 ∧ R.value.domain pair.2

/-- A pair without a tied argument behind it. -/
def IsLast (pairs : List (Payload × Payload)) (pair : Payload × Payload) : Prop :=
  ∃ front back, pairs = front ++ pair :: back ∧
    ∀ other ∈ back, ¬ Tied R.argument.before other.1 pair.1

/-- The points are made of the very objects of the last pairs, one point for each of them. -/
structure CarriesLast (pairs : List (Payload × Payload)) (points : List Point) : Prop where
  increasing : points.Pairwise R.Precedes
  carries : ∀ p ∈ points, ∃ pair, R.IsLast pairs pair ∧ p.Carries pair
  complete : ∀ pair, R.IsLast pairs pair → ∃ p ∈ points, p.Carries pair

/-- Points that stand for the last pairs up to ties: each of them for one, and each argument with
its point. -/
structure Represents (pairs : List (Payload × Payload)) (points : List Point) : Prop where
  increasing : points.Pairwise R.Precedes
  last : ∀ p ∈ points, ∃ pair, R.IsLast pairs pair ∧ Tied R.argument.before p.argument pair.1 ∧
    Tied R.value.before p.value pair.2
  complete : ∀ pair ∈ pairs, ∃ p ∈ points, Tied R.argument.before p.argument pair.1

/-- Two points with tied arguments and tied values. -/
def Matches (p q : Point) : Prop :=
  Tied R.argument.before p.argument q.argument ∧ Tied R.value.before p.value q.value

variable {R} {pairs : List (Payload × Payload)} {pair other : Payload × Payload} {a v : Payload}

theorem Matches.symm {p q : Point} (h : R.Matches p q) : R.Matches q p :=
  ⟨h.1.symm, h.2.symm⟩

theorem CoversPairs.source (h : R.CoversPairs pairs) : R.CoversSource (.ofPairs pairs) := by
  intro a v hrow
  rcases List.mem_map.1 hrow with ⟨pair, hpair, heq⟩
  cases heq
  exact h pair hpair

theorem IsLast.mem (h : R.IsLast pairs pair) : pair ∈ pairs := by
  rcases h with ⟨front, back, rfl, _⟩
  simp

theorem isLast_concat (pairs : List (Payload × Payload)) (pair : Payload × Payload) :
    R.IsLast (pairs ++ [pair]) pair :=
  ⟨pairs, [], rfl, by simp⟩

theorem IsLast.concat (h : R.IsLast pairs pair) (hnot : ¬ Tied R.argument.before other.1 pair.1) :
    R.IsLast (pairs ++ [other]) pair := by
  rcases h with ⟨front, back, rfl, hback⟩
  refine ⟨front, back ++ [other], by simp, ?_⟩
  intro next hnext
  rcases List.mem_append.1 hnext with hnext | hnext
  · exact hback next hnext
  · rw [List.mem_singleton.1 hnext]
    exact hnot

/-- Of tied arguments one pair only is the last one. -/
theorem IsLast.unique (h : R.IsLast pairs pair) (h' : R.IsLast pairs other)
    (htied : Tied R.argument.before pair.1 other.1) : pair = other := by
  rcases h with ⟨front, back, rfl, hback⟩
  rcases h' with ⟨front', back', heq, hback'⟩
  -- of two different places the one further back speaks against the other
  rcases List.append_eq_append_iff.1 heq with ⟨between, rfl, hrest⟩ | ⟨between, rfl, hrest⟩
  · cases between with
    | nil =>
        exact (List.cons.inj hrest).1
    | cons first between =>
        rw [(List.cons.inj hrest).2] at hback
        exact absurd htied.symm (hback other (by simp))
  · cases between with
    | nil =>
        exact (List.cons.inj hrest).1.symm
    | cons first between =>
        rw [(List.cons.inj hrest).2] at hback'
        exact absurd htied (hback' pair (by simp))

namespace Represents

variable {points points' : List Point}

theorem nil : R.Represents [] [] :=
  ⟨.nil, by simp, by simp⟩

theorem exists_matching (h : R.Represents pairs points)
    (h' : R.Represents pairs points') {p : Point}
    (hp : p ∈ points) : ∃ q ∈ points', R.Matches p q := by
  rcases h.last p hp with ⟨pair, hlast, hargument, hvalue⟩
  rcases h'.complete pair hlast.mem with ⟨q, hq, hargument'⟩
  refine ⟨q, hq, hargument.trans hargument'.symm, ?_⟩
  -- the pair that the other point stands for is tied with this one, and both are last
  rcases h'.last q hq with ⟨pair', hlast', htied, hvalue'⟩
  rw [hlast.unique hlast' (hargument'.symm.trans htied)] at hvalue
  exact hvalue.trans hvalue'.symm

theorem forall₂ (h : R.Represents pairs points) (h' : R.Represents pairs points') :
    List.Forall₂ R.Matches points points' := by
  refine forall₂_of_partners (r := R.Precedes) h.increasing h'.increasing ?_ ?_ ?_
  · intro p q hpq
    exact hpq.1
  · intro p hp
    exact h.exists_matching h' hp
  · intro q hq
    rcases h'.exists_matching h hq with ⟨p, hp, hqp⟩
    exact ⟨p, hp, hqp.symm⟩

end Represents

/-! ## Maxima at the same places -/

/-- Two points at the same place of two lists. -/
def SamePlace (points points' : List Point) (p q : Point) : Prop :=
  ∃ i : Nat, points[i]? = some p ∧ points'[i]? = some q

section Places

variable {points points' : List Point}

/-- Tied values bound tied values. -/
theorem Bounds.of_matches {p q : Point} {neighbour neighbour' : Option Point}
    (h : R.Bounds p (neighbour.map Point.value)) (hpq : R.Matches p q)
    (hneighbour : ∀ y ∈ neighbour', ∃ x ∈ neighbour, R.Matches x y) :
    R.Bounds q (neighbour'.map Point.value) := by
  intro v hv hbefore
  rcases Option.map_eq_some_iff.1 hv with ⟨y, hy, rfl⟩
  rcases hneighbour y hy with ⟨x, hx, hxy⟩
  have hx' : x.value ∈ neighbour.map Point.value := Option.mem_map_of_mem Point.value hx
  refine h x.value hx' ?_
  exact before_of_tied_right (before_of_tied_left hpq.2 hbefore) hxy.2.symm

theorem IsPeak.exists_samePlace {p : Point} (hp : R.IsPeak points p)
    (h : List.Forall₂ R.Matches points points') :
    ∃ q, R.IsPeak points' q ∧ SamePlace points points' p q := by
  rcases hp with ⟨front, back, rfl, hleft, hright⟩
  rcases forall₂_split h with ⟨front', q, back', rfl, hfront, hpq, hback⟩
  refine ⟨q, ⟨front', back', rfl, ?_, ?_⟩, front.length, by simp, ?_⟩
  · exact hleft.of_matches hpq (forall₂_getLast? hfront)
  · exact hright.of_matches hpq (forall₂_head? hback)
  · rw [hfront.length_eq]
    simp

theorem SamePlace.related {K : Point → Point → Prop} {p q : Point}
    (hplace : SamePlace points points' p q)
    (h : List.Forall₂ K points points') : K p q := by
  rcases hplace with ⟨i, hp, hq⟩
  rcases List.getElem?_eq_some_iff.1 hp with ⟨hi, rfl⟩
  rcases List.getElem?_eq_some_iff.1 hq with ⟨hi', rfl⟩
  exact h.get hi hi'

end Places

end Rankings

/-- Two stores that are equal up to ties: their points match place by place, and their maxima are
the points of the same places in the same order. -/
structure Store.Mirrors (R : Rankings) (s s' : Store) : Prop where
  length : s.points.length = s'.points.length
  points : List.Forall₂ R.Matches s.points s'.points
  maxima : List.Forall₂ (Rankings.SamePlace s.points s'.points) s.maxima s'.maxima

/-- Whether a point is a maximum is a matter of ties, and so is its rank among the maxima. -/
theorem Store.Consistent.mirrors {R : Rankings} {s s' : Store} (hs : s.Consistent R)
    (hs' : s'.Consistent R)
    (h : List.Forall₂ R.Matches s.points s'.points) : Store.Mirrors R s s' := by
  have hflip : List.Forall₂ R.Matches s'.points s.points := by
    refine h.flip.imp ?_
    intro q p hpq
    exact Rankings.Matches.symm hpq
  refine ⟨h.length_eq, h, forall₂_of_partners (r := R.Outranks) hs.ranked hs'.ranked ?_ ?_ ?_⟩
  · intro p q hplace
    have hpq := hplace.related h
    exact Rankings.tied_outranks_iff.2 ⟨hpq.2, hpq.1⟩
  · intro p hp
    rcases ((hs.mem_maxima_iff p).1 hp).exists_samePlace h with ⟨q, hpeak, hplace⟩
    exact ⟨q, (hs'.mem_maxima_iff q).2 hpeak, hplace⟩
  · intro q hq
    rcases ((hs'.mem_maxima_iff q).1 hq).exists_samePlace hflip with ⟨p, hpeak, i, hi, hi'⟩
    exact ⟨p, (hs.mem_maxima_iff p).2 hpeak, i, hi', hi⟩

namespace Editor

variable {σ : Type} {rules : Rules σ} {R : Rankings} {e t : Editor σ}
  {pairs : List (Payload × Payload)}
  {a v : Payload}

/-! ## One by one -/

/-- Sets pairs one after another. -/
def setEach (rules : Rules σ) : List (Payload × Payload) → Attempt (Editor σ) Unit
  | [] => pure ()
  | (a, v) :: rest => do
      let _ ← set rules a v
      setEach rules rest

/-- Points that are not tied with the argument are as they were. -/
theorem SetDone.mem_iff {changed : Bool} (h : SetDone R a v e changed t) {p : Point}
    (hp : ¬ Tied R.argument.before p.argument a) : p ∈ e.store.points ↔ p ∈ t.store.points := by
  cases h with
  | kept _ _ =>
      exact Iff.rfl
  | changed change =>
      exact change.mem_iff hp (.refl _)

/-- One more pair is set, and it decides about its argument from now on. -/
theorem SetDone.represents {changed : Bool} (h : SetDone R a v e changed t)
    (hvalid : t.store.Valid R t.mint.nextPoint) (hpairs : R.Represents pairs e.store.points) :
    R.Represents (pairs ++ [(a, v)]) t.store.points := by
  rcases h.exists_tied with ⟨new, hnew, hargument, hvalue⟩
  refine ⟨hvalid.increasing, ?_, ?_⟩
  · intro p hp
    by_cases htied : Tied R.argument.before p.argument a
    · -- arguments increase, so this is the point that was set
      have heq : p = new := by
        rcases eq_or_of_pairwise hvalid.increasing hp hnew with heq | hlt | hlt
        · exact heq
        · exact absurd hlt (htied.trans hargument.symm).1
        · exact absurd hlt (hargument.trans htied.symm).1
      rw [heq]
      exact ⟨(a, v), Rankings.isLast_concat pairs (a, v), hargument, hvalue⟩
    · -- the others are as they were, and the new pair does not override theirs
      rcases hpairs.last p ((h.mem_iff htied).2 hp) with ⟨pair, hlast, htied', hvalue'⟩
      refine ⟨pair, hlast.concat ?_, htied', hvalue'⟩
      intro hpair
      exact htied (htied'.trans hpair.symm)
  · intro pair hmem
    rcases List.mem_append.1 hmem with hmem | hmem
    · rcases hpairs.complete pair hmem with ⟨p, hp, hpair⟩
      by_cases htied : Tied R.argument.before p.argument a
      · exact ⟨new, hnew, hargument.trans (htied.symm.trans hpair)⟩
      · exact ⟨p, (h.mem_iff htied).1 hp, hpair⟩
    · rw [List.mem_singleton.1 hmem]
      exact ⟨new, hnew, hargument⟩

/-- Setting pairs one after another ends with points that stand for the last pairs, together with
those that the pairs before were already set to. -/
theorem setEach_endsFrom (hR : rules.Follow R) (todo : List (Payload × Payload))
    (hvalid : e.store.Valid R e.mint.nextPoint) (hdone : R.Represents pairs e.store.points)
    (htodo : R.CoversPairs todo) :
    (setEach rules todo).EndsFrom e
      (fun _ t => t.store.Valid R t.mint.nextPoint ∧ R.Represents (pairs ++ todo) t.store.points)
      (fun fault t => ∃ cause, fault.StemsFrom cause ∧ rules.Raised cause t.host) := by
  -- `pairs` are those that were set before
  induction todo generalizing e pairs with
  | nil =>
      refine .pure ⟨hvalid, ?_⟩
      rw [List.append_nil]
      exact hdone
  | cons pair rest ih =>
      rcases htodo pair (by simp) with ⟨ha, hv⟩
      have hset := set_endsFrom hR hvalid ha hv
      refine (hset.imp (fun _ _ h => h) fun _ _ h => h.raised).bind fun changed t ht => ?_
      -- from here on the pair counts as one of those
      have hrest := ih (ht.valid hvalid) (ht.represents (ht.valid hvalid) hdone)
        fun other hother => htodo other (by simp [hother])
      rw [List.append_cons]
      exact hrest

/-! ## All at once -/

section Kept

variable {drawn kept : List Point} (h : Kept R (Source.ofPairs pairs).rows drawn kept)
include h

/-- The points were drawn for the pairs, in their order. -/
theorem Kept.carries : List.Forall₂ (fun pair p => Point.Carries p pair) pairs drawn := by
  have hrows : List.Forall₂ (fun pair p => Holds [pair.1, pair.2] p) pairs drawn :=
    List.forall₂_map_left_iff.1 h.rows
  refine hrows.imp ?_
  rintro ⟨a, v⟩ p ⟨a', v', heq, ha, hv⟩
  cases heq
  exact ⟨ha, hv⟩

/-- Every argument kept a point. -/
theorem Kept.exists_tied {pair : Payload × Payload} (hpair : pair ∈ pairs) :
    ∃ p ∈ kept, Tied R.argument.before p.argument pair.1 := by
  rcases forall₂_partner h.carries hpair with ⟨q, hq, hcarries⟩
  rcases h.latest q hq with ⟨p, hp, htied, _⟩
  have hp' : Tied R.argument.before p.argument q.argument := htied.symm
  exact ⟨p, hp, hp'.trans (R.argument.tied_of_same hcarries.1)⟩

/-- A point is kept for the pair that it was drawn for, and no tied pair comes after that. -/
theorem Kept.exists_isLast (hincreasing : kept.Pairwise R.Precedes) {p : Point} (hp : p ∈ kept) :
    ∃ pair, R.IsLast pairs pair ∧ p.Carries pair := by
  have hflip : List.Forall₂ Point.Carries drawn pairs := h.carries.flip
  have hascending := h.ascending
  rcases List.append_of_mem (h.mem p hp) with ⟨front, back, rfl⟩
  rcases forall₂_split hflip with ⟨front', pair, back', rfl, _, hcarries, hback⟩
  refine ⟨pair, ⟨front', back', rfl, ?_⟩, hcarries⟩
  intro other hother htied
  -- a tied pair after it would have drawn a later point, and that one would have been kept
  rcases forall₂_partner hback.flip hother with ⟨q, hq, hcarries'⟩
  have hlater : p.id < q.id := by
    have hrest := (List.pairwise_append.1 hascending).2.1
    exact (List.pairwise_cons.1 hrest).1 q hq
  have hqp : Tied R.argument.before q.argument p.argument := by
    have hq' : Tied R.argument.before q.argument other.1 := R.argument.tied_of_same hcarries'.1
    have hp' : Tied R.argument.before p.argument pair.1 := R.argument.tied_of_same hcarries.1
    exact (hq'.trans htied).trans hp'.symm
  rcases h.latest q (by simp [hq]) with ⟨last, hlast, hqlast, hle⟩
  have hpl : Tied R.argument.before p.argument last.argument := hqp.symm.trans hqlast
  rcases eq_or_of_pairwise hincreasing hp hlast with rfl | hlt | hlt
  · omega
  · exact hpl.1 hlt
  · exact hpl.2 hlt

theorem Kept.carriesLast (hincreasing : kept.Pairwise R.Precedes) : R.CarriesLast pairs kept := by
  refine ⟨hincreasing, fun p hp => h.exists_isLast hincreasing hp, fun pair hlast => ?_⟩
  rcases h.exists_tied hlast.mem with ⟨p, hp, htied⟩
  -- the point of a tied argument was kept for a last pair, and that can only be this one
  rcases h.exists_isLast hincreasing hp with ⟨pair', hlast', hcarries⟩
  have hpair : Tied R.argument.before pair'.1 pair.1 :=
    (R.argument.tied_of_same hcarries.1).symm.trans htied
  rw [hlast'.unique hlast hpair] at hcarries
  exact ⟨p, hp, hcarries⟩

theorem Kept.represents (hincreasing : kept.Pairwise R.Precedes) : R.Represents pairs kept := by
  refine ⟨hincreasing, fun p hp => ?_, fun pair hpair => h.exists_tied hpair⟩
  rcases h.exists_isLast hincreasing hp with ⟨pair, hlast, hcarries⟩
  exact ⟨pair, hlast, R.argument.tied_of_same hcarries.1, R.value.tied_of_same hcarries.2⟩

end Kept

/-- A list of pairs is a source that is never the cause of a fault. -/
theorem not_sourceFault_ofPairs (pairs : List (Payload × Payload)) (fault : Fault) :
    ¬ SourceFault (Source.ofPairs pairs) fault := by
  rintro (⟨row, hrow, herror⟩ | hfailure)
  · rcases List.mem_map.1 hrow with ⟨pair, _, rfl⟩
    cases herror
  · cases hfailure

theorem load_pairs_obeys {raised : Fault → σ → Prop} (hR : rules.Obey R raised)
    (hpairs : R.CoversPairs pairs) :
    (load rules (.ofPairs pairs)).EndsFrom e
      (fun _ t => t.store.Valid R t.mint.nextPoint ∧ R.CarriesLast pairs t.store.points ∧
        R.Represents pairs t.store.points)
      (fun fault t => raised fault t.host) := by
  refine (load_obeys hR hpairs.source).imp ?_ ?_
  · intro _ t ht
    rcases ht.content with ⟨drawn, hkept⟩
    exact ⟨ht.valid, hkept.carriesLast ht.valid.increasing, hkept.represents ht.valid.increasing⟩
  · intro fault t ht
    exact ht.cause.resolve_right (not_sourceFault_ofPairs pairs fault)

theorem load_pairs_endsFrom (hR : rules.Follow R) (hpairs : R.CoversPairs pairs) :
    (load rules (.ofPairs pairs)).EndsFrom e
      (fun _ t => t.store.Consistent R ∧ R.CarriesLast pairs t.store.points ∧
        R.Represents pairs t.store.points)
      (fun fault t => rules.Raised fault t.host) :=
  (load_pairs_obeys hR.obey hpairs).imp (fun _ _ h => ⟨h.1.toConsistent, h.2⟩) fun _ _ h => h

/-! ## Both ways -/

/-- Pairs are loaded into one store and set one after another in another one that is empty. Unless a
comparison or the allocator fails, the loaded points are made of the very objects of the last pairs,
and the two stores are equal up to ties. A set may also fail to tell of such a failure. -/
theorem load_mirrors_sets (hR : rules.Follow R) {e' : Editor σ} (he' : e'.store = {})
    (hpairs : R.CoversPairs pairs) :
    (load rules (.ofPairs pairs)).EndsFrom e
      (fun _ t => R.CarriesLast pairs t.store.points ∧
        (setEach rules pairs).EndsFrom e' (fun _ u => Store.Mirrors R t.store u.store)
          (fun fault u => ∃ cause, fault.StemsFrom cause ∧ rules.Raised cause u.host))
      (fun fault t => rules.Raised fault t.host) ∧
    ((∀ fault host, ¬ rules.Raised fault host) →
      (∃ t, load rules (.ofPairs pairs) e = .ok () t) ∧
      ∃ u, setEach rules pairs e' = .ok () u) := by
  have hload := load_pairs_endsFrom (e := e) hR hpairs
  have hvalid : e'.store.Valid R e'.mint.nextPoint := by
    rw [he']
    exact Store.valid_empty R _
  have hempty : R.Represents [] e'.store.points := by
    rw [he']
    exact .nil
  have hset := setEach_endsFrom hR pairs hvalid hempty hpairs
  refine ⟨hload.imp ?_ fun _ _ h => h, fun hno => ?_⟩
  · rintro _ t ⟨hconsistent, hcarries, hrepresents⟩
    refine ⟨hcarries, hset.imp ?_ fun _ _ h => h⟩
    rintro _ u ⟨hvalid', hrepresents'⟩
    exact hconsistent.mirrors hvalid'.toConsistent (hrepresents.forall₂ hrepresents')
  · rcases hload.exists_ok fun fault t => hno fault t.host with ⟨_, t, ht⟩
    have hquiet : ∀ (fault : Fault) (u : Editor σ),
        ¬ ∃ cause, fault.StemsFrom cause ∧ rules.Raised cause u.host := by
      rintro fault u ⟨cause, _, hraised⟩
      exact hno cause u.host hraised
    rcases hset.exists_ok hquiet with ⟨_, u, hu⟩
    exact ⟨⟨t, ht⟩, u, hu⟩

/-! ## Weak numbers under metered comparisons -/

/-- Tied arguments come twice, with values that go up and with values that go down. -/
def weakOverrides : List (Payload × Payload) :=
  [(.weak 10, .weak 50), (.weak 25, .weak 82), (.weak 12, .weak 58), (.weak 40, .weak 31),
   (.weak 21, .weak 70),
   (.weak 19, .weak 64)]

def weakEditor : Editor Surroundings :=
  { host := { meters := [{}, {}] } }

theorem weakOverrides_covered : Rankings.CoversPairs ⟨.tens, .tens⟩ weakOverrides := by
  simp only [Rankings.CoversPairs, weakOverrides, List.forall_mem_cons, List.not_mem_nil]
  exact ⟨⟨⟨_, rfl⟩, ⟨_, rfl⟩⟩, ⟨⟨_, rfl⟩, ⟨_, rfl⟩⟩, ⟨⟨_, rfl⟩, ⟨_, rfl⟩⟩, ⟨⟨_, rfl⟩, ⟨_, rfl⟩⟩,
    ⟨⟨_, rfl⟩, ⟨_, rfl⟩⟩, ⟨⟨_, rfl⟩, ⟨_, rfl⟩⟩, by simp⟩

theorem load_mirrors_sets_weak :
    ∃ t u, load .metered (.ofPairs weakOverrides) weakEditor = .ok () t ∧
      setEach .metered weakOverrides weakEditor = .ok () u ∧
      Rankings.CarriesLast ⟨.tens, .tens⟩ weakOverrides t.store.points ∧
      Store.Mirrors ⟨.tens, .tens⟩ t.store u.store := by
  have hloads :
      (Attempt.outcome (load .metered (.ofPairs weakOverrides)) weakEditor).isOk = true := by
    decide +kernel
  have hsets : (Attempt.outcome (setEach .metered weakOverrides) weakEditor).isOk = true := by
    decide +kernel
  have hcovers := weakOverrides_covered
  have hempty : weakEditor.store = {} := rfl
  -- both runs are known to return, and need not be computed again
  generalize weakOverrides = pairs at *
  generalize weakEditor = e at *
  rcases Attempt.exists_ok_of_outcome hloads with ⟨_, t, ht⟩
  rcases Attempt.exists_ok_of_outcome hsets with ⟨_, u, hu⟩
  have hloaded := (load_mirrors_sets (e := e) Rules.metered_follow hempty hcovers).1.ok ht
  exact ⟨t, u, ht, hu, hloaded.1, hloaded.2.ok hu⟩

end Editor

end Peaks
