import Mathlib.Data.List.TakeWhile
import Peaks.Search
import Peaks.Proofs.Ranking

/-!
# Searching sorted lists

A list that falls into a part where the probe answers "yes" and a part where it answers "no" is
searched to the place between the two, however many of the probes fail on other runs.

- `Search.boundary_ensures` : the place between the two parts
- `exists_split`            : a sorted list falls into two such parts
- `pairwise_insert`         : an element between them keeps the order
- `insertIdx_append`, `eraseIdx_append` : putting an element between them, and taking it out
-/

namespace Peaks

/-- The element at a position, with what stands in front of it and behind it. -/
theorem exists_zipper {α : Type} {xs : List α} {n : Nat} (h : n < xs.length) :
    ∃ front x back, xs = front ++ x :: back ∧ front.length = n := by
  refine ⟨xs.take n, xs[n], xs.drop (n + 1), ?_, by simp; omega⟩
  rw [← List.drop_eq_getElem_cons h, List.take_append_drop]

namespace Search

variable {σ α : Type} {probe : α → Attempt σ Bool} {failed : Fault → σ → Prop}

/-- The window may be longer than the part that is searched; only `front` and `back` are probed. -/
theorem boundaryFrom_ensures (offset count : Nat) (front back others : List α)
    (hcount : count = front.length + back.length)
    (hfront : ∀ x ∈ front, (probe x).Ensures (fun b _ => b = true) failed)
    (hback : ∀ x ∈ back, (probe x).Ensures (fun b _ => b = false) failed) :
    (boundaryFrom probe offset count (front ++ (back ++ others))).Ensures
      (fun k _ => k = offset + front.length) failed := by
  induction count using Nat.strong_induction_on generalizing offset front back others with
  | _ count ih =>
    cases count with
    | zero =>
        rw [boundaryFrom]
        exact .pure fun _ => by omega
    | succ count =>
        rw [boundaryFrom]
        by_cases hlt : (count + 1) / 2 < front.length
        · -- the probed element lies in the front part: go on behind it
          obtain ⟨near, x, far, rfl, hnear⟩ := exists_zipper hlt
          have hdrop : ((near ++ x :: far) ++ (back ++ others)).drop ((count + 1) / 2) =
              x :: (far ++ (back ++ others)) := by
            simp [← hnear]
          simp only [hdrop]
          refine (hfront x (by simp)).bind fun b hb => ?_
          subst hb
          simp only [List.length_append, List.length_cons] at hcount
          refine (ih (count - (count + 1) / 2) (by omega) _ far back others (by omega)
            (fun y hy => hfront y (by simp [hy])) hback).mono fun k _ hk => ?_
          simp only [List.length_append, List.length_cons]
          omega
        · -- it lies in the back part: go on in front of it
          obtain ⟨i, hi⟩ : ∃ i, (count + 1) / 2 = front.length + i :=
            Nat.exists_eq_add_of_le (Nat.le_of_not_lt hlt)
          have hlt' : i < back.length := by omega
          obtain ⟨near, x, far, rfl, hnear⟩ := exists_zipper hlt'
          have hdrop : (front ++ ((near ++ x :: far) ++ others)).drop ((count + 1) / 2) =
              x :: (far ++ others) := by
            simp [hi, ← hnear]
          simp only [hdrop]
          refine (hback x (by simp)).bind fun b hb => ?_
          subst hb
          simp only [List.append_assoc, List.cons_append]
          exact ih _ (by omega) _ front near _ (by omega) hfront fun y hy => hback y (by simp [hy])

/-- A probe for a property that the elements in front have, and those behind have not. -/
theorem boundary_ensures {P : α → Prop} {front back : List α}
    (hprobe : ∀ x ∈ front ++ back, (probe x).Ensures (fun b _ => b = true ↔ P x) failed)
    (hfront : ∀ x ∈ front, P x) (hback : ∀ x ∈ back, ¬ P x) :
    (boundary probe (front ++ back)).Ensures (fun k _ => k = front.length) failed := by
  have hyes : ∀ x ∈ front, (probe x).Ensures (fun b _ => b = true) failed := by
    intro x hx
    exact (hprobe x (List.mem_append_left _ hx)).mono fun b _ hb => hb.2 (hfront x hx)
  have hno : ∀ x ∈ back, (probe x).Ensures (fun b _ => b = false) failed := by
    intro x hx
    refine (hprobe x (List.mem_append_right _ hx)).mono fun b _ hb => ?_
    exact Bool.eq_false_iff.2 fun htrue => hback x hx (hb.1 htrue)
  have h := boundaryFrom_ensures 0 (front ++ back).length front back [] (by simp) hyes hno
  simpa [boundary] using h

end Search

/-! ## Sorted lists in two parts -/

/-- A property that passes from each element to those in front of it cuts the list in two. -/
theorem exists_split {α : Type} {xs : List α} {behind : α → α → Prop} {P : α → Prop}
    (hxs : xs.Pairwise behind) (hP : ∀ x y, behind x y → P y → P x) :
    ∃ front back, xs = front ++ back ∧ (∀ x ∈ front, P x) ∧ (∀ x ∈ back, ¬ P x) := by
  induction xs with
  | nil =>
      exact ⟨[], [], rfl, by simp, by simp⟩
  | cons x xs ih =>
      have hcons := List.pairwise_cons.1 hxs
      by_cases hx : P x
      · obtain ⟨front, back, rfl, hfront, hback⟩ := ih hcons.2
        refine ⟨x :: front, back, rfl, ?_, hback⟩
        intro y hy
        rcases List.mem_cons.1 hy with rfl | hy
        · exact hx
        · exact hfront y hy
      · -- the list is cut here: no element further on can have the property
        refine ⟨[], x :: xs, rfl, by simp, ?_⟩
        intro y hy
        rcases List.mem_cons.1 hy with rfl | hy
        · exact hx
        · exact fun hPy => hx (hP x y (hcons.1 y hy) hPy)

/-- Between those that it is behind and those that it is in front of, an element keeps the order. -/
theorem pairwise_insert {α : Type} {r : α → α → Prop} {front back : List α} {x : α}
    (h : (front ++ back).Pairwise r) (hfront : ∀ y ∈ front, r y x) (hback : ∀ y ∈ back, r x y) :
    (front ++ x :: back).Pairwise r := by
  have happ := List.pairwise_append.1 h
  refine List.pairwise_append.2 ⟨happ.1, List.pairwise_cons.2 ⟨hback, happ.2.1⟩, ?_⟩
  intro y hy z hz
  rcases List.mem_cons.1 hz with rfl | hz
  · exact hfront y hy
  · exact happ.2.2 y hy z hz

theorem insertIdx_append {α : Type} (front back : List α) (x : α) :
    (front ++ back).insertIdx front.length x = front ++ x :: back := by
  induction front with
  | nil =>
      simp
  | cons y front ih =>
      simpa using ih

theorem eraseIdx_append {α : Type} (front back : List α) (x : α) :
    (front ++ x :: back).eraseIdx front.length = front ++ back := by
  rw [List.eraseIdx_append_of_length_le (le_refl _), Nat.sub_self, List.eraseIdx_cons_zero]

/-- Nothing or one element is taken out. -/
theorem elim_eraseIdx_sublist {α : Type} (xs : List α) (index : Option Nat) :
    (index.elim xs xs.eraseIdx).Sublist xs := by
  cases index with
  | none =>
      exact List.Sublist.refl xs
  | some i =>
      exact List.eraseIdx_sublist xs i

theorem elim_eraseIdx_append {α : Type} (front back : List α) (old : Option α) :
    (old.map fun _ => front.length).elim (front ++ (old.toList ++ back))
      (front ++ (old.toList ++ back)).eraseIdx = front ++ back := by
  cases old with
  | none =>
      rfl
  | some x =>
      exact eraseIdx_append front back x

end Peaks
