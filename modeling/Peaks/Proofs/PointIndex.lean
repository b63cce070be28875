import Peaks.PointIndex
import Peaks.Proofs.StableSort

/-!
# Points by argument

What the searches in a list of points find, with tied points in the list and when the arguments
increase strictly.

- `Located`                      : the one point tied with an argument, or the place where it would
  go
- `PointIndex.locate_first`      : what looking for an argument finds where several points may be
  tied
- `PointIndex.locate_ensures`    : and where none are
- `PointIndex.insert_ensures`    : where a new point goes
- `PointIndex.Thinned`           : one point for each run of tied ones, the one that came last
- `PointIndex.lastOfEach_ensures` : what is left of points in stable order
-/

namespace Peaks

/-- An argument lies between what stands in front and what stands behind. -/
structure Rankings.Between (R : Rankings) (front : List Point) (a : Payload) (back : List Point) :
    Prop where
  front : ∀ x ∈ front, R.argument.before x.argument a
  back : ∀ x ∈ back, R.argument.before a x.argument

/-- An argument that is tied lies in the same place. -/
theorem Rankings.Between.of_tied {R : Rankings} {front back : List Point} {a b : Payload}
    (h : R.Between front a back) (hab : Tied R.argument.before a b) : R.Between front b back where
  front x hx := before_of_tied_right (h.front x hx) hab
  back x hx := before_of_tied_left hab.symm (h.back x hx)

/-- What a search for an argument finds: nothing tied with it, or the one point that is. -/
inductive Located (R : Rankings) (points : List Point) (a : Payload) : Option (Nat × Point) → Prop
  | absent {front back : List Point} (eq : points = front ++ back)
      (between : R.Between front a back) : Located R points a none
  | present {front back : List Point} {p : Point} (eq : points = front ++ p :: back)
      (tied : Tied R.argument.before p.argument a) (between : R.Between front a back) :
      Located R points a (some (front.length, p))

namespace Located

variable {R : Rankings} {points : List Point} {a b : Payload}

theorem not_tied_of_none (h : Located R points a none) {p : Point} (hp : p ∈ points) :
    ¬ Tied R.argument.before p.argument a := by
  intro htied
  cases h with
  | absent eq between =>
      subst eq
      rcases List.mem_append.1 hp with hp | hp
      · exact htied.1 (between.front p hp)
      · exact htied.2 (between.back p hp)

theorem mem {i : Nat} {p : Point} (h : Located R points a (some (i, p))) : p ∈ points := by
  cases h with
  | present eq _ _ =>
      simp [eq]

theorem tied {i : Nat} {p : Point} (h : Located R points a (some (i, p))) :
    Tied R.argument.before p.argument a := by
  cases h with
  | present _ tied _ =>
      exact tied

/-- No other point is tied with the argument. -/
theorem eq_of_tied {i : Nat} {p q : Point} (h : Located R points a (some (i, p))) (hq : q ∈ points)
    (htied : Tied R.argument.before q.argument a) : q = p := by
  cases h with
  | present eq _ between =>
      subst eq
      rcases List.mem_append.1 hq with hq | hq
      · exact absurd (between.front q hq) htied.1
      · rcases List.mem_cons.1 hq with rfl | hq
        · rfl
        · exact absurd (between.back q hq) htied.2

end Located

namespace PointIndex

variable {σ : Type} {rules : Rules σ} {R : Rankings}

section Searching

variable {compare : Comparator σ} {before : Payload → Payload → Prop} {failed : Fault → σ → Prop}

/-! ## Looking for an argument -/

theorem lowerBound_ensures {front back : List Point} {a : Payload}
    (hcompare : ∀ p ∈ front ++ back,
      (compare p.argument a).Ensures (fun n _ => Signals before p.argument a n) failed)
    (hfront : ∀ x ∈ front, before x.argument a) (hback : ∀ x ∈ back, ¬ before x.argument a) :
    (lowerBound compare (front ++ back) a).Ensures (fun k _ => k = front.length) failed := by
  refine Search.boundary_ensures (fun p hp => ?_) hfront hback
  refine (hcompare p hp).map fun n _ hn => ?_
  rw [decide_eq_true_iff]
  exact hn.1

/-- No point is tied with the argument, or the first one that is; others may follow it. -/
inductive FoundFirst (before : Payload → Payload → Prop) (points : List Point) (a : Payload) :
    Option (Nat × Point) → Prop
  | absent {front back : List Point} (eq : points = front ++ back)
      (front_before : ∀ x ∈ front, before x.argument a)
      (back_after : ∀ x ∈ back, before a x.argument) :
      FoundFirst before points a none
  | present {front back : List Point} {p : Point} (eq : points = front ++ p :: back)
      (tied : Tied before p.argument a) (front_before : ∀ x ∈ front, before x.argument a) :
      FoundFirst before points a (some (front.length, p))

theorem locate_first [IsStrictWeakOrder Payload before] {points : List Point} {a : Payload}
    (hcompare : ∀ p ∈ points, (compare p.argument a).Ensures
      (fun n _ => Signals before p.argument a n) failed)
    (hsorted : points.Pairwise fun p q => ¬ before q.argument p.argument) :
    (locate compare points a).Ensures (fun found _ => FoundFirst before points a found) failed := by
  obtain ⟨front, back, rfl, hfront, hback⟩ :=
    exists_split (P := fun p => before p.argument a) hsorted fun _ _ hxy hy =>
      before_of_not_of_before hxy hy
  -- the first point that does not come before the argument is tied with it, or no point is
  refine (lowerBound_ensures hcompare hfront hback).bind fun k hk => ?_
  subst hk
  cases back with
  | nil =>
      simp only [List.append_nil, List.getElem?_eq_none (Nat.le_refl _)]
      exact .pure fun _ => .absent (List.append_nil front).symm hfront (by simp)
  | cons p back =>
      have hpback : ∀ x ∈ back, ¬ before x.argument p.argument :=
        (List.pairwise_cons.1 (List.pairwise_append.1 hsorted).2.1).1
      simp only [List.getElem?_append_right (Nat.le_refl _), Nat.sub_self, List.getElem?_cons_zero]
      refine (hcompare p (by simp)).bind fun n hn => ?_
      split
      · next hzero =>
        exact .pure fun _ => .present rfl (hn.eq_zero_iff.1 (beq_iff_eq.1 hzero)) hfront
      · next hzero =>
        have htied : ¬ Tied before p.argument a :=
          fun h => hzero (beq_iff_eq.2 (hn.eq_zero_iff.2 h))
        -- not before the argument and not tied with it, so behind it, like all that follows
        have hap : before a p.argument := by
          by_contra hap
          exact htied ⟨hback p (by simp), hap⟩
        refine .pure fun _ => .absent rfl hfront fun x hx => ?_
        rcases List.mem_cons.1 hx with rfl | hx
        · exact hap
        · exact before_of_before_of_not hap (hpback x hx)

theorem locate_ensures (hR : rules.Follow R) {points : List Point} {a : Payload}
    (ha : R.argument.domain a)
    (hcovers : ∀ p ∈ points, R.Covers p) (hsorted : points.Pairwise R.Precedes) :
    (locate rules.argument points a).Ensures (fun found _ => Located R points a found)
      rules.Raised := by
  have hweakly : points.Pairwise fun p q => ¬ R.argument.before q.argument p.argument :=
    hsorted.imp fun hpq hqp => irrefl_of _ _ (trans_of R.argument.before hpq hqp)
  refine (locate_first (fun p hp => hR.argument_ensures (hcovers p hp).1 ha) hweakly).mono
    fun found _ h => ?_
  cases h with
  | absent eq front_before back_after =>
      exact .absent eq ⟨front_before, back_after⟩
  | @present front back p eq tied front_before =>
      -- behind the point that is tied there is no other one
      subst eq
      have hpback : ∀ x ∈ back, R.Precedes p x :=
        (List.pairwise_cons.1 (List.pairwise_append.1 hsorted).2.1).1
      exact .present rfl tied ⟨front_before,
        fun x hx => before_of_tied_left tied.symm (hpback x hx)⟩

theorem find?_ensures (hR : rules.Follow R) {points : List Point} {a : Payload}
    (ha : R.argument.domain a)
    (hcovers : ∀ p ∈ points, R.Covers p) (hsorted : points.Pairwise R.Precedes) :
    (find? rules.argument points a).Ensures
      (fun index _ => ∃ found, Located R points a found ∧ index = found.map (·.1)) rules.Raised :=
  (locate_ensures hR ha hcovers hsorted).map fun found _ h => ⟨found, h, rfl⟩

/-! ## A new point -/

/-- A new point goes behind those that it does not come before. -/
theorem insert_ensures {front back : List Point} {point : Point}
    (hcompare : ∀ p ∈ front ++ back,
      (compare point.argument p.argument).Ensures
        (fun n _ => Signals before point.argument p.argument n) failed)
    (hfront : ∀ x ∈ front, ¬ before point.argument x.argument)
    (hback : ∀ x ∈ back, before point.argument x.argument) :
    (insert compare (front ++ back) point).Ensures
      (fun placed _ => placed = (front.length, front ++ point :: back)) failed := by
  have hprobe : ∀ p ∈ front ++ back,
      (do return !decide ((← compare point.argument p.argument) < 0) : Attempt σ Bool).Ensures
        (fun b _ => b = true ↔ ¬ before point.argument p.argument) failed := fun p hp =>
    (hcompare p hp).map fun n _ hn => by
      rw [Bool.not_eq_true', decide_eq_false_iff_not, hn.1]
  refine (Search.boundary_ensures hprobe hfront fun x hx => not_not.2 (hback x hx)).map
    fun k _ hk => ?_
  rw [hk, insertIdx_append]

end Searching

/-! ## Bulk loading -/

section Loading

variable {came : Point → Point → Prop} {failed : Fault → σ → Prop} (hR : rules.Obey R failed)
include hR

theorem sorted_ensures (points : List Point) (hcovers : ∀ p ∈ points, R.Covers p)
    (hcame : points.Pairwise came) :
    (sorted rules.argument points).Ensures
      (fun ps _ => StablySorts R.Precedes came points ps) failed :=
  StableSort.sort_stable (r := R.Precedes)
    (fun _ _ hp hq => hR.argument_ensures (And.left hp) (And.left hq)) points hcovers hcame

/-- One point of each run of tied ones is left, the one that came last. -/
structure Thinned (R : Rankings) (came : Point → Point → Prop)
    (points kept : List Point) : Prop where
  sublist : kept.Sublist points
  increasing : kept.Pairwise R.Precedes
  latest : ∀ q ∈ points, ∃ p ∈ kept, Tied R.Precedes q p ∧ (q = p ∨ came q p)

omit hR in
/-- Tied with its neighbour, a point gives way to whatever that one gives way to. -/
theorem Thinned.give_way {p q : Point} {rest kept : List Point}
    (h : Thinned R came (p :: rest) kept)
    (htied : Tied R.Precedes q p) (hturn : ∀ x ∈ p :: rest, InTurn R.Precedes came q x) :
    Thinned R came (q :: p :: rest) kept := by
  refine ⟨h.sublist.trans (List.sublist_cons_self _ _), h.increasing, ?_⟩
  intro x hx
  rcases List.mem_cons.1 hx with rfl | hx
  · rcases h.latest p (by simp) with ⟨last, hlast, htied', _⟩
    have hxlast : Tied R.Precedes x last := htied.trans htied'
    refine ⟨last, hlast, hxlast, Or.inr ?_⟩
    exact (hturn last (h.sublist.subset hlast)).came_first hxlast.1
  · exact h.latest x hx

omit hR in
/-- A point that comes before all others is kept. -/
theorem Thinned.keep {q : Point} {points kept : List Point} (h : Thinned R came points kept)
    (hbefore : ∀ x ∈ points, R.Precedes q x) : Thinned R came (q :: points) (q :: kept) := by
  refine ⟨h.sublist.cons_cons q, ?_, ?_⟩
  · refine List.pairwise_cons.2 ⟨fun x hx => ?_, h.increasing⟩
    exact hbefore x (h.sublist.subset hx)
  · intro x hx
    rcases List.mem_cons.1 hx with rfl | hx
    · exact ⟨x, by simp, Tied.refl x, Or.inl rfl⟩
    · rcases h.latest x hx with ⟨p, hp, hlast⟩
      exact ⟨p, by simp [hp], hlast⟩

theorem lastOfEachAfter_ensures (latest : Point) (rest : List Point)
    (hcovers : ∀ p ∈ latest :: rest, R.Covers p)
    (hsorted : (latest :: rest).Pairwise (InTurn R.Precedes came)) :
    (lastOfEachAfter rules.argument latest rest).Ensures
      (fun ps _ => Thinned R came (latest :: rest) ps) failed := by
  induction rest generalizing latest with
  | nil =>
      refine .pure fun _ => ⟨List.Sublist.refl _, List.pairwise_singleton _ _, ?_⟩
      intro q hq
      exact ⟨q, hq, Tied.refl q, Or.inl rfl⟩
  | cons p rest ih =>
      have hlatest := hcovers latest (by simp)
      have hp := hcovers p (by simp)
      have hcons := List.pairwise_cons.1 hsorted
      have hrest := ih p (fun q hq => hcovers q (List.mem_cons_of_mem _ hq)) hcons.2
      rw [lastOfEachAfter]
      refine (Comparator.equivalent_ensures (hR.argument_ensures hlatest.1 hp.1)).bind
        fun tie htie => ?_
      split
      · next htrue =>
        exact hrest.mono fun ps _ hps => hps.give_way (htie.1 htrue) hcons.1
      · next hfalse =>
        -- sorted and not tied, so strictly before its neighbour and all that follow
        have hlp : R.Precedes latest p := by
          by_contra hlp
          exact hfalse (htie.2 ⟨hlp, (hcons.1 p (by simp)).not_before⟩)
        refine hrest.map fun ps _ hps => hps.keep fun x hx => ?_
        rcases List.mem_cons.1 hx with rfl | hx
        · exact hlp
        · exact before_of_before_of_not hlp ((List.pairwise_cons.1 hcons.2).1 x hx).not_before

theorem lastOfEach_ensures (points : List Point) (hcovers : ∀ p ∈ points, R.Covers p)
    (hsorted : points.Pairwise (InTurn R.Precedes came)) :
    (lastOfEach rules.argument points).Ensures (fun ps _ => Thinned R came points ps) failed := by
  cases points with
  | nil =>
      exact .pure fun _ => ⟨List.Sublist.refl _, List.Pairwise.nil, by simp⟩
  | cons p rest =>
      exact lastOfEachAfter_ensures hR p rest hcovers hsorted

end Loading

end PointIndex
end Peaks
