import Mathlib.Data.List.Forall2
import Peaks.Proofs.LocalMaxima
import Peaks.Proofs.NumberRanking

/-!
# Checking a store

A check of a store compares the arguments of neighbours only, and the maxima with the result of a
rescan by the numbers of the points. Under orderings that always answer it finds nothing exactly if
all arguments increase and the maxima are the local maxima of the points in maxima order, whatever
else the store may hold.

- `Store.Unsaid`              : a problem whose text cannot be formed
- `Store.orderProblems_obeys` : neighbours in order are enough
- `Store.samePoints_iff`      : two lists that hold the same points
- `Store.check_obeys`         : what a check finds, of any store
- `Store.check_eq_nil_iff`    : sound and complete, if no comparison fails
-/

namespace Peaks

namespace Store

variable {σ : Type} {rules : Rules σ} {R : Rankings} {failed : Fault → σ → Prop} {s : Store}

/-! ## The parts of a check -/

theorem samePoints_iff {ps qs : List Point} :
    samePoints ps qs = true ↔ List.Forall₂ (fun p q => p.same q = true) ps qs := by
  induction ps generalizing qs with
  | nil =>
      cases qs with
      | nil => simp [samePoints]
      | cons q qs => simp [samePoints]
  | cons p ps ih =>
      cases qs with
      | nil => simp [samePoints]
      | cons q qs => simp [samePoints, ih]

/-- The text about a problem could not be formed, for a number among the payloads of some points has
too many digits. -/
def Unsaid (points : List Point) (fault : Fault) : Prop :=
  fault = .tooManyDigits ∧ ∃ p ∈ points, p.isWritable = false

theorem Unsaid.mono {points points' : List Point} {fault : Fault} (h : Unsaid points fault)
    (hsub : points ⊆ points') : Unsaid points' fault := by
  obtain ⟨hfault, p, hp, hwritable⟩ := h
  exact ⟨hfault, p, hsub hp, hwritable⟩

theorem exists_unwritable_of_text?_eq_none {p : Point} {ps : List Point} (hp : p ∈ ps)
    (h : p.argument.text? = none) : ∃ p ∈ ps, p.isWritable = false := by
  refine ⟨p, hp, ?_⟩
  simp only [Payload.text?, ite_eq_right_iff, reduceCtorEq, imp_false, Bool.not_eq_true] at h
  simp [Point.isWritable, h]

theorem exists_unwritable_of_pairsText?_eq_none {ps : List Point} (h : Point.pairsText? ps = none) :
    ∃ p ∈ ps, p.isWritable = false := by
  simpa [Point.pairsText?] using h

theorem exists_unwritable_of_maximaProblem?_eq_none {maxima expected : List Point}
    (h : maximaProblem? maxima expected = none) : ∃ p ∈ expected ++ maxima,
      p.isWritable = false := by
  cases hmaxima : Point.pairsText? maxima with
  | none =>
      obtain ⟨p, hp, hwritable⟩ := exists_unwritable_of_pairsText?_eq_none hmaxima
      exact ⟨p, List.mem_append_right _ hp, hwritable⟩
  | some maximaText =>
      cases hexpected : Point.pairsText? expected with
      | none =>
          obtain ⟨p, hp, hwritable⟩ := exists_unwritable_of_pairsText?_eq_none hexpected
          exact ⟨p, List.mem_append_left _ hp, hwritable⟩
      | some expectedText =>
          simp [maximaProblem?, hmaxima, hexpected] at h

/-- Two neighbours in order are passed over; what is said of others needs their texts. -/
theorem orderProblem?_ensures (left right : Point) (sign : Int) :
    Attempt.Ensures (σ := σ) (Attempt.ofOption .tooManyDigits (orderProblem? left right sign))
      (fun problem _ => problem = [] ↔ ¬ 0 ≤ sign)
      (fun fault _ => Unsaid [left, right] fault ∧ 0 ≤ sign) := by
  refine (Attempt.Ensures.ofOption _).imp (fun problem _ hproblem => ?_) fun fault _ hfault => ?_
  · unfold orderProblem? at hproblem
    split at hproblem
    · next hout =>
      obtain ⟨leftText, -, hright⟩ := Option.bind_eq_some_iff.1 hproblem
      obtain ⟨rightText, -, hlines⟩ := Option.bind_eq_some_iff.1 hright
      cases hlines
      simp [hout]
    · next hin =>
      cases hproblem
      simp [hin]
  · obtain ⟨rfl, hnone⟩ := hfault
    unfold orderProblem? at hnone
    split at hnone
    · next hout =>
      refine ⟨⟨rfl, ?_⟩, hout⟩
      cases hleft : left.argument.text? with
      | none =>
          exact exists_unwritable_of_text?_eq_none (by simp) hleft
      | some leftText =>
          cases hright : right.argument.text? with
          | none =>
              exact exists_unwritable_of_text?_eq_none (by simp) hright
          | some rightText =>
              simp [hleft, hright] at hnone
    · cases hnone

section Obeying

variable (hR : rules.Obey R failed)
include hR

theorem orderProblems_obeys (points : List Point) (hcovers : ∀ p ∈ points, R.Covers p) :
    (orderProblems rules points).Ensures
      (fun problems _ => problems = [] ↔ points.Pairwise R.Precedes)
      (fun fault host => failed fault host ∨
        Unsaid points fault ∧ ¬ points.Pairwise R.Precedes) := by
  induction points with
  | nil =>
      exact .pure fun _ => by simp
  | cons left rest ih =>
      cases rest with
      | nil =>
          exact .pure fun _ => by simp
      | cons right rest =>
          -- what comes before the next argument comes before all that follow it
          have hall : (left :: right :: rest).Pairwise R.Precedes ↔
              R.Precedes left right ∧ (right :: rest).Pairwise R.Precedes := by
            rw [List.pairwise_cons (a := left), and_congr_left_iff]
            intro hrest
            refine ⟨fun h => h right (by simp), fun hbefore q hq => ?_⟩
            rcases List.mem_cons.1 hq with rfl | hq
            · exact hbefore
            · exact trans_of R.Precedes hbefore ((List.pairwise_cons.1 hrest).1 q hq)
          have hcompare :=
            hR.argument_ensures (hcovers left (by simp)).1 (hcovers right (by simp)).1
          have hrest := ih fun p hp => hcovers p (List.mem_cons_of_mem _ hp)
          rw [hall]
          refine (hcompare.imp (fun _ _ h => h) fun _ _ h => Or.inl h).bind fun sign hsign => ?_
          have hbefore : R.Precedes left right ↔ ¬ 0 ≤ sign := by
            rw [Int.not_le]
            exact hsign.1.symm
          rw [hbefore]
          refine ((orderProblem?_ensures left right sign).imp (fun _ _ h => h) ?_).bind
            fun problem hproblem => ?_
          · rintro fault _ ⟨hunsaid, hout⟩
            refine Or.inr ⟨hunsaid.mono ?_, fun h => h.1 hout⟩
            simp
          · refine (hrest.imp (fun _ _ h => h) fun fault host h => ?_).map
              fun others _ hothers => ?_
            · exact h.imp_right fun ⟨hunsaid, hout⟩ =>
                ⟨hunsaid.mono (List.subset_cons_self _ _), fun h => hout h.2⟩
            · rw [List.append_eq_nil_iff, hproblem, hothers]

/-! ## The check -/

/-- The maxima are held against the one list that is right. If they differ, the text about it may be
missing. -/
theorem check_obeys (hcovers : ∀ p ∈ s.points, R.Covers p) :
    (check rules s).Ensures
      (fun problems _ => problems = [] ↔ ∃ ranked, Consistent R { s with maxima := ranked } ∧
        List.Forall₂ (fun p q => p.same q = true) ranked s.maxima)
      (fun fault host => failed fault host ∨ Unsaid (s.points ++ s.maxima) fault ∧
        ¬ ∃ ranked, Consistent R { s with maxima := ranked } ∧
          List.Forall₂ (fun p q => p.same q = true) ranked s.maxima) := by
  refine ((orderProblems_obeys hR s.points hcovers).imp (fun _ _ h => h) ?_).bind
    fun problems hproblems => ?_
  · rintro fault host (h | ⟨hunsaid, hout⟩)
    · exact Or.inl h
    · refine Or.inr ⟨hunsaid.mono (List.subset_append_left _ _), ?_⟩
      rintro ⟨ranked, hranked, -⟩
      exact hout hranked.increasing
  refine ((rescan_sorts hR s.points hcovers).imp (fun _ _ h => h) fun _ _ h => Or.inl h).bind
    fun expected hexpected => ?_
  have hright : s.points.Pairwise R.Precedes → Consistent R { s with maxima := expected } :=
    fun hincreasing => consistent_of_sorts hincreasing hexpected
  have hmatch : (∃ ranked, Consistent R { s with maxima := ranked } ∧
        List.Forall₂ (fun p q => p.same q = true) ranked s.maxima) ↔
      problems = [] ∧ samePoints expected s.maxima = true := by
    rw [hproblems, samePoints_iff]
    constructor
    · rintro ⟨ranked, hranked, hsame⟩
      rw [(hright hranked.increasing).ranking_unique hranked]
      exact ⟨hranked.increasing, hsame⟩
    · rintro ⟨hincreasing, hsame⟩
      exact ⟨expected, hright hincreasing, hsame⟩
  rw [hmatch]
  split
  · next hsame => exact .pure fun _ => by simp [hsame]
  · next hdiffer =>
    have htext : (Attempt.ofOption .tooManyDigits (maximaProblem? s.maxima expected) :
        Attempt σ String).Ensures
        _ _ := .ofOption _
    refine (htext.imp (fun _ _ h => h) ?_).map fun problem _ _ => by simp [hdiffer]
    rintro fault _ ⟨rfl, hnone⟩
    refine Or.inr ⟨⟨rfl, ?_⟩, by simp [hdiffer]⟩
    -- all expected maxima are points of the store
    have hsub := Rankings.peaksAfter_sublist (R := R) none s.points
    obtain ⟨p, hp, hwritable⟩ := exists_unwritable_of_maximaProblem?_eq_none hnone
    refine ⟨p, List.mem_append.2 ((List.mem_append.1 hp).imp_left fun hp => ?_), hwritable⟩
    exact hsub.subset (hexpected.perm.mem_iff.1 hp)

/-- Nothing is said of a consistent store, so that no text is needed. -/
theorem Consistent.check_obeys (hs : s.Consistent R) (hcovers : ∀ p ∈ s.points, R.Covers p) :
    (check rules s).Ensures (fun problems _ => problems = []) failed := by
  have hright : ∃ ranked, Consistent R { s with maxima := ranked } ∧
      List.Forall₂ (fun p q => p.same q = true) ranked s.maxima :=
    ⟨s.maxima, hs, List.forall₂_same.2 fun p _ => by simp [Point.same]⟩
  refine (Store.check_obeys hR hcovers).imp (fun problems _ hproblems => hproblems.2 hright) ?_
  rintro fault host (h | ⟨-, hwrong⟩)
  · exact h
  · exact absurd hright hwrong

end Obeying

/-- Points that are the same as points of a list are the points of that list, if the numbers tell
them apart. -/
theorem eq_of_forall₂_same {ps qs : List Point}
    (h : List.Forall₂ (fun p q => p.same q = true) ps qs)
    (hknown : ∀ p ∈ ps, ∀ q ∈ qs, p.same q = true → p = q) : ps = qs := by
  induction h with
  | nil =>
      rfl
  | @cons p q ps qs hpq _ ih =>
      rw [hknown p (by simp) q (by simp) hpq,
        ih fun p hp q hq => hknown p (by simp [hp]) q (by simp [hq])]

/-- A check under orderings that never fail returns no problems exactly if the arguments increase
strictly and the maxima are, point for point, the local maxima by decreasing value and then by
increasing argument. The maxima may be any points at all; if they are told from the points of the
store by their numbers, nothing is found exactly in consistent stores. A check fails only if a
number that it has to write has too many digits. -/
theorem check_eq_nil_iff (hR : rules.Obey R fun _ _ => False)
    (hcovers : ∀ p ∈ s.points, R.Covers p) (host : σ) :
    ((∃ host', check rules s host = .ok [] host') ↔
      s.points.Pairwise R.Precedes ∧ ∃ ranked : List Point,
        (∀ p, p ∈ ranked ↔ R.IsPeak s.points p) ∧ ranked.Pairwise R.Outranks ∧
          List.Forall₂ (fun p q => p.same q = true) ranked s.maxima) ∧
    ((∀ p ∈ s.points, ∀ q ∈ s.maxima, p.same q = true → p = q) →
      ((∃ host', check rules s host = .ok [] host') ↔ s.Consistent R)) ∧
    ∀ fault host', check rules s host = .error fault host' → Unsaid
      (s.points ++ s.maxima) fault := by
  have hcheck := check_obeys hR hcovers
  have hiff : (∃ host', check rules s host = .ok [] host') ↔
      ∃ ranked, Consistent R { s with maxima := ranked } ∧
        List.Forall₂ (fun p q => p.same q = true) ranked s.maxima := by
    constructor
    · rintro ⟨host', hrun⟩
      exact (hcheck.ok hrun).1 rfl
    · intro hright
      have hfinds := (hcheck host).imp (fun problems _ hproblems => hproblems.2 hright)
        fun fault _ hfault => hfault.elim id fun h => h.2 hright
      obtain ⟨problems, host', hrun⟩ := hfinds.exists_ok fun _ _ => not_false
      obtain rfl := hfinds.ok hrun
      exact ⟨host', hrun⟩
  refine ⟨?_, fun hknown => ?_, fun fault host' hrun => ?_⟩
  · rw [hiff]
    constructor
    · rintro ⟨ranked, hranked, hsame⟩
      exact ⟨hranked.increasing, ranked, hranked.mem_maxima_iff, hranked.ranked, hsame⟩
    · rintro ⟨hincreasing, ranked, hmem, hranked, hsame⟩
      exact ⟨ranked, ⟨hincreasing, hranked, hmem⟩, hsame⟩
  · rw [hiff]
    constructor
    · rintro ⟨ranked, hranked, hsame⟩
      -- the right list holds points of the store
      have heq : ranked = s.maxima := eq_of_forall₂_same hsame fun p hp q hq =>
        hknown p ((hranked.mem_maxima_iff p).1 hp).mem q hq
      rw [heq] at hranked
      exact hranked
    · intro hconsistent
      exact ⟨s.maxima, hconsistent, List.forall₂_same.2 fun p _ => by simp [Point.same]⟩
  · exact (hcheck.error hrun).elim False.elim And.left

/-- Four points, of which the first and the last are tied maxima. -/
def tiedMaxima : Store where
  points := [⟨0, ⟨0, .int 1⟩, ⟨4, .int 5⟩⟩, ⟨1, ⟨1, .int 2⟩, ⟨5, .int 3⟩⟩,
    ⟨2, ⟨2, .int 3⟩, ⟨5, .int 3⟩⟩, ⟨3, ⟨3, .int 4⟩, ⟨4, .int 5⟩⟩]
  maxima := [⟨0, ⟨0, .int 1⟩, ⟨4, .int 5⟩⟩, ⟨3, ⟨3, .int 4⟩, ⟨4, .int 5⟩⟩]

/-- The same points, with the two maxima in the wrong order. -/
def swappedMaxima : Store :=
  { tiedMaxima with maxima := tiedMaxima.maxima.reverse }

theorem check_swapped :
    tiedMaxima.Consistent .numbers ∧
      ¬ ∃ host', check (Rules.ofOrders .natural .natural) swappedMaxima {} = .ok [] host' := by
  have hcovers : ∀ p ∈ tiedMaxima.points, Rankings.numbers.Covers p := by
    simp only [tiedMaxima, List.forall_mem_cons, List.not_mem_nil, false_implies,
      implies_true, and_true]
    exact ⟨⟨⟨_, rfl⟩, ⟨_, rfl⟩⟩, ⟨⟨_, rfl⟩, ⟨_, rfl⟩⟩, ⟨⟨_, rfl⟩, ⟨_, rfl⟩⟩, ⟨⟨_, rfl⟩, ⟨_, rfl⟩⟩⟩
  have hfound := check_eq_nil_iff (s := tiedMaxima) Rules.natural_obey hcovers {}
  have hknown : ∀ p ∈ tiedMaxima.points, ∀ q ∈ tiedMaxima.maxima, p.same q = true → p = q := by
    simp [tiedMaxima, Point.same]
  have hfound := check_eq_nil_iff Rules.natural_obey hcovers {}
  have hright : tiedMaxima.Consistent .numbers := (hfound.2.1 hknown).1 ⟨_, rfl⟩
  refine ⟨hright, fun hnil => ?_⟩
  have hfound' := check_eq_nil_iff (s := swappedMaxima) Rules.natural_obey hcovers {}
  have hwrong : swappedMaxima.Consistent .numbers := by
    refine (hfound'.2.1 fun p hp q hq => hknown p hp q ?_).1 hnil
    exact List.mem_reverse.1 hq
  -- two lists of the same points in maxima order are one list
  have heq := hright.ranking_unique hwrong
  simp [tiedMaxima] at heq

end Store

end Peaks
