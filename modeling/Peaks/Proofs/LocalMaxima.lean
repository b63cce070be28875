import Mathlib.Data.List.Nodup
import Peaks.Store
import Peaks.Proofs.PointIndex

/-!
# Local maxima

What it is for a point to be a local maximum of a list of points, and that one pass finds exactly
these.

- `Rankings.IsPeak`          : no neighbour of the point has a greater value
- `Rankings.peaks`           : the local maxima of a list, in its order
- `Scan.localMaxima_ensures` : one pass finds them
- `Store.Consistent`         : the maxima of a store are the local maxima of its points, in order
- `Store.Consistent.rescan_ensures` : a rescan of a consistent store finds the maxima that it has
-/

namespace Peaks

namespace Rankings

variable (R : Rankings)

/-- The neighbour's value, if there is a neighbour, is less or tied. -/
def Bounds (p : Point) (neighbour : Option Payload) : Prop :=
  ∀ v ∈ neighbour, ¬ R.value.before p.value v

/-- A point whose immediate neighbours in the list, where present, have no greater value. -/
def IsPeak (points : List Point) (p : Point) : Prop :=
  ∃ front back, points = front ++ p :: back ∧
    R.Bounds p (front.getLast?.map Point.value) ∧ R.Bounds p (back.head?.map Point.value)

open scoped Classical in
/-- The local maxima of a list whose first point has the given left neighbour. -/
noncomputable def peaksAfter : Option Payload → List Point → List Point
  | _, [] => []
  | left, p :: rest =>
      if R.Bounds p left ∧ R.Bounds p (rest.head?.map Point.value) then
        p :: peaksAfter (some p.value) rest
      else peaksAfter (some p.value) rest

noncomputable def peaks (points : List Point) : List Point :=
  R.peaksAfter none points

variable {R}

theorem IsPeak.mem {points : List Point} {p : Point} (h : R.IsPeak points p) : p ∈ points := by
  obtain ⟨front, back, rfl, _, _⟩ := h
  simp

/-- In a list without repetitions a point has one place only. -/
theorem isPeak_iff {front back : List Point} {p : Point} (hnodup : (front ++ p :: back).Nodup) :
    R.IsPeak (front ++ p :: back) p ↔
      R.Bounds p (front.getLast?.map Point.value) ∧ R.Bounds p (back.head?.map Point.value) := by
  constructor
  · rintro ⟨front', back', heq, hfront, hback⟩
    -- any other decomposition at `p` is this one, since `p` occurs once
    have hnotMem : p ∉ front ++ back := (List.nodup_cons.1 (List.nodup_middle.1 hnodup)).1
    simp only [List.mem_append, not_or] at hnotMem
    obtain ⟨rfl, _, rfl⟩ := (List.append_cons_inj_of_notMem hnotMem.1 hnotMem.2).1 heq
    exact ⟨hfront, hback⟩
  · rintro ⟨hfront, hback⟩
    exact ⟨front, back, rfl, hfront, hback⟩

theorem peaksAfter_sublist (left : Option Payload) (points : List Point) :
    (R.peaksAfter left points).Sublist points := by
  induction points generalizing left with
  | nil =>
      exact List.Sublist.refl _
  | cons p rest ih =>
      rw [peaksAfter]
      split
      · exact (ih _).cons_cons p
      · exact (ih _).cons p

/-- The left neighbour that is given counts for the first point only. -/
theorem mem_peaksAfter_iff {left : Option Payload} {points : List Point} {p : Point} :
    p ∈ R.peaksAfter left points ↔
      ∃ front back, points = front ++ p :: back ∧
        R.Bounds p ((front.getLast?.map Point.value).or left) ∧
          R.Bounds p (back.head?.map Point.value) := by
  induction points generalizing left with
  | nil =>
      simp [peaksAfter]
  | cons q rest ih =>
      -- the first point sees the given neighbour, and is itself the one that the second point sees
      have hmem : p ∈ R.peaksAfter left (q :: rest) ↔
          (p = q ∧ R.Bounds q left ∧ R.Bounds q (rest.head?.map Point.value)) ∨
            p ∈ R.peaksAfter (some q.value) rest := by
        rw [peaksAfter]
        split
        · next h => simp [h]
        · next h => simp [h]
      rw [hmem, ih]
      constructor
      · rintro (⟨rfl, hleft, hright⟩ | ⟨front, back, rfl, hfront, hback⟩)
        · exact ⟨[], rest, rfl, by simpa using hleft, hright⟩
        · refine ⟨q :: front, back, rfl, ?_, hback⟩
          cases hlast : front.getLast? with
          | none =>
              simpa [List.getLast?_cons, hlast] using hfront
          | some x =>
              simpa [List.getLast?_cons, hlast] using hfront
      · rintro ⟨front, back, heq, hfront, hback⟩
        cases front with
        | nil =>
            obtain ⟨rfl, rfl⟩ := List.cons.inj heq
            exact Or.inl ⟨rfl, by simpa using hfront, hback⟩
        | cons x front =>
            obtain ⟨rfl, rfl⟩ := List.cons.inj heq
            refine Or.inr ⟨front, back, rfl, ?_, hback⟩
            cases hlast : front.getLast? with
            | none =>
                simpa [List.getLast?_cons, hlast] using hfront
            | some x =>
                simpa [List.getLast?_cons, hlast] using hfront

theorem mem_peaks_iff {points : List Point} {p : Point} :
    p ∈ R.peaks points ↔ R.IsPeak points p := by
  unfold peaks IsPeak
  rw [mem_peaksAfter_iff]
  simp

end Rankings

/-! ## One pass -/

namespace Scan

variable {σ : Type} {rules : Rules σ} {R : Rankings} {failed : Fault → σ → Prop}
  (hR : rules.Obey R failed)
include hR

theorem isBoundedBy_ensures {p : Point} (hp : R.value.domain p.value) {neighbour : Option Payload}
    (hneighbour : ∀ v ∈ neighbour, R.value.domain v) :
    (isBoundedBy rules.value p.value neighbour).Ensures
      (fun b _ => b = true ↔ R.Bounds p neighbour) failed := by
  cases neighbour with
  | none =>
      exact .pure fun _ => by simp [Rankings.Bounds]
  | some v =>
      refine (Comparator.lessEqual_ensures (hR.value_ensures (hneighbour v rfl) hp)).mono
        fun b _ hb => ?_
      simpa [Rankings.Bounds] using hb

theorem isPeak_ensures {p : Point} (hp : R.value.domain p.value) {left right : Option Payload}
    (hleft : ∀ v ∈ left, R.value.domain v) (hright : ∀ v ∈ right, R.value.domain v) :
    (isPeak rules.value left p.value right).Ensures
      (fun b _ => b = true ↔ R.Bounds p left ∧ R.Bounds p right) failed := by
  refine (isBoundedBy_ensures hR hp hleft).bind fun b hb => ?_
  split
  · next htrue =>
    have hbounds := hb.1 htrue
    exact (isBoundedBy_ensures hR hp hright).mono fun c _ hc => by simp [hc, hbounds]
  · next hfalse =>
    have hbounds : ¬ R.Bounds p left := fun h => hfalse (hb.2 h)
    exact .pure fun _ => by simp [hbounds]

theorem localMaximaAfter_ensures (left : Option Payload) (points : List Point)
    (hleft : ∀ v ∈ left, R.value.domain v) (hcovers : ∀ p ∈ points, R.Covers p) :
    (localMaximaAfter rules.value Point.value left points).Ensures
      (fun found _ => found = R.peaksAfter left points) failed := by
  induction points generalizing left with
  | nil =>
      exact .pure fun _ => rfl
  | cons p rest ih =>
      have hp : R.value.domain p.value := (hcovers p (by simp)).2
      have hright : ∀ v ∈ rest.head?.map Point.value, R.value.domain v := by
        intro v hv
        obtain ⟨q, hq, rfl⟩ := Option.map_eq_some_iff.1 hv
        exact (hcovers q (List.mem_cons_of_mem _ (List.mem_of_head? hq))).2
      rw [localMaximaAfter]
      refine (isPeak_ensures hR hp hleft hright).bind fun peak hpeak => ?_
      refine (ih (some p.value) (by simpa using hp)
        (fun q hq => hcovers q (List.mem_cons_of_mem _ hq))).map fun others _ hothers => ?_
      rw [hothers, Rankings.peaksAfter]
      by_cases h : R.Bounds p left ∧ R.Bounds p (rest.head?.map Point.value)
      · rw [if_pos h, if_pos (hpeak.2 h)]
      · rw [if_neg h, if_neg fun htrue => h (hpeak.1 htrue)]

theorem localMaxima_ensures (points : List Point) (hcovers : ∀ p ∈ points, R.Covers p) :
    (localMaxima rules.value Point.value points).Ensures
      (fun found _ => found = R.peaks points) failed :=
  localMaximaAfter_ensures hR none points (by simp) hcovers

end Scan

/-! ## Consistent stores -/

/-- Arguments increase strictly, and the maxima are exactly the local maxima of the points, each
listed once, larger values first and then smaller arguments. -/
structure Store.Consistent (R : Rankings) (s : Store) : Prop where
  increasing : s.points.Pairwise R.Precedes
  ranked : s.maxima.Pairwise R.Outranks
  mem_maxima_iff : ∀ p, p ∈ s.maxima ↔ R.IsPeak s.points p

theorem eq_or_of_pairwise {α : Type} {r : α → α → Prop} {xs : List α} (h : xs.Pairwise r) {x y : α}
    (hx : x ∈ xs) (hy : y ∈ xs) : x = y ∨ r x y ∨ r y x := by
  have hforth : xs.Pairwise fun x y => x = y ∨ r x y ∨ r y x := h.imp fun hxy => by simp [hxy]
  have hback : xs.Pairwise fun x y => y = x ∨ r y x ∨ r x y := h.imp fun hxy => by simp [hxy]
  exact List.Pairwise.forall_of_forall_of_flip (R := fun x y => x = y ∨ r x y ∨ r y x)
    (fun _ _ => Or.inl rfl) hforth hback hx hy

namespace Rankings

variable {R : Rankings} {points : List Point}

/-- Points whose arguments differ are told apart in maxima order. -/
theorem eq_of_tied_outranks (hincreasing : points.Pairwise R.Precedes) {p q : Point}
    (hp : p ∈ points) (hq : q ∈ points) (htied : Tied R.Outranks p q) : p = q := by
  rcases eq_or_of_pairwise hincreasing hp hq with heq | hpq | hqp
  · exact heq
  · exact absurd htied (not_tied_outranks_of_precedes hpq)
  · exact absurd htied.symm (not_tied_outranks_of_precedes hqp)

/-- Sorting local maxima leaves no choice, since all of them are told apart. -/
theorem pairwise_outranks_of_sorts (hincreasing : points.Pairwise R.Precedes) {ps qs : List Point}
    (hsub : ps.Sublist points) (h : Sorts R.Outranks ps qs) : qs.Pairwise R.Outranks := by
  have hnodup : qs.Nodup := h.perm.nodup_iff.2 (hsub.nodup hincreasing.nodup)
  refine (h.ordered.and hnodup).imp_of_mem fun {p q} hp hq hpq => ?_
  -- two entries of which none outranks the other would be tied, and so equal
  by_contra hnot
  have hp' : p ∈ points := hsub.subset (h.perm.mem_iff.1 hp)
  have hq' : q ∈ points := hsub.subset (h.perm.mem_iff.1 hq)
  exact hpq.2 (eq_of_tied_outranks hincreasing hp' hq' ⟨hnot, hpq.1⟩)

end Rankings

namespace Store

variable {σ : Type} {rules : Rules σ} {R : Rankings}

theorem consistent_of_sorts {points maxima : List Point} {version : Nat}
    (hincreasing : points.Pairwise R.Precedes) (h : Sorts R.Outranks (R.peaks points) maxima) :
    Consistent R { points := points, maxima := maxima, version := version } where
  increasing := hincreasing
  ranked := Rankings.pairwise_outranks_of_sorts hincreasing (Rankings.peaksAfter_sublist _ _) h
  mem_maxima_iff p := by
    rw [h.perm.mem_iff, Rankings.mem_peaks_iff]

theorem Consistent.sorts_peaks {s : Store} (hs : s.Consistent R) :
    s.maxima.Perm (R.peaks s.points) := by
  have hpeaks : (R.peaks s.points).Nodup :=
    (Rankings.peaksAfter_sublist _ _).nodup hs.increasing.nodup
  refine (List.perm_ext_iff_of_nodup hs.ranked.nodup hpeaks).2 fun p => ?_
  rw [hs.mem_maxima_iff, Rankings.mem_peaks_iff]

/-- A store with points in order has one list of maxima only that is right. -/
theorem Consistent.ranking_unique {points ranked ranked' : List Point} {version version' : Nat}
    (h : Consistent R { points := points, maxima := ranked, version := version })
    (h' : Consistent R { points := points, maxima := ranked', version := version' }) :
    ranked = ranked' :=
  eq_of_perm_of_pairwise (h.sorts_peaks.trans h'.sorts_peaks.symm) h.ranked h'.ranked

/-- A rescan finds the local maxima of any points. -/
theorem rescan_sorts {failed : Fault → σ → Prop} (hR : rules.Obey R failed) (points : List Point)
    (hcovers : ∀ p ∈ points, R.Covers p) :
    (rescan rules points).Ensures
      (fun found _ => Sorts R.Outranks (R.peaks points) found) failed := by
  refine (Scan.localMaxima_ensures hR points hcovers).bind fun found hfound => ?_
  subst hfound
  have hsub := Rankings.peaksAfter_sublist (R := R) none points
  exact StableSort.sort_ensures (fun _ _ hp hq => hR.compare_ensures hp hq) _ fun p hp =>
    hcovers p (hsub.subset hp)

theorem Consistent.rescan_obeys {failed : Fault → σ → Prop} (hR : rules.Obey R failed) {s : Store}
    (hs : s.Consistent R) (hcovers : ∀ p ∈ s.points, R.Covers p) :
    (rescan rules s.points).Ensures (fun found _ => found = s.maxima) failed := by
  refine (rescan_sorts hR s.points hcovers).mono fun found _ hfound => ?_
  have hright : Consistent R { s with maxima := found } := consistent_of_sorts hs.increasing hfound
  exact hright.ranking_unique hs

theorem Consistent.rescan_ensures (hR : rules.Follow R) {s : Store} (hs : s.Consistent R)
    (hcovers : ∀ p ∈ s.points, R.Covers p) :
    (rescan rules s.points).Ensures (fun found _ => found = s.maxima) rules.Raised :=
  hs.rescan_obeys hR.obey hcovers

end Store

end Peaks
