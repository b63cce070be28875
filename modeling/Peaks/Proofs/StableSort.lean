import Peaks.StableSort
import Peaks.Proofs.Search

/-!
# Sorting

A sort by a comparison that follows a strict weak ordering returns the same elements in order, tied
ones in the order in which they came, or fails with a fault of the comparison.

- `Sorts`                    : the same elements, none of them behind one that it comes before
- `StablySorts`              : and tied ones as they came
- `StableSort.sort_stable`, `StableSort.sort_ensures` : what a sort returns
- `eq_of_perm_of_pairwise`   : elements that are all told apart have one sorted list only
-/

namespace Peaks

structure Sorts {α : Type} (r : α → α → Prop) (xs ys : List α) : Prop where
  perm : ys.Perm xs
  ordered : ys.Pairwise fun x y => ¬ r y x

/-- One comes before the other, or they are tied and it came first. -/
def InTurn {α : Type} (r came : α → α → Prop) (x y : α) : Prop :=
  r x y ∨ ¬ r y x ∧ came x y

section InTurn

variable {α : Type} {r came : α → α → Prop} {x y : α}

theorem InTurn.not_before [IsStrictOrder α r] (h : InTurn r came x y) : ¬ r y x := by
  rcases h with hxy | ⟨hyx, _⟩
  · exact fun hyx => irrefl_of r x (trans_of r hxy hyx)
  · exact hyx

theorem InTurn.came_first (h : InTurn r came x y) (hnot : ¬ r x y) : came x y := by
  rcases h with hxy | ⟨_, hcame⟩
  · exact absurd hxy hnot
  · exact hcame

end InTurn

/-- The same elements in order, and tied ones in the order in which they came. -/
structure StablySorts {α : Type} (r came : α → α → Prop) (xs ys : List α) : Prop where
  perm : ys.Perm xs
  ordered : ys.Pairwise (InTurn r came)

/-- The elements of two lists that are strictly sorted stand in the same order. -/
theorem eq_of_perm_of_pairwise {α : Type} {r : α → α → Prop} [IsStrictOrder α r] {xs ys : List α}
    (h : xs.Perm ys) (hxs : xs.Pairwise r) (hys : ys.Pairwise r) : xs = ys :=
  h.eq_of_pairwise (fun x _ _ _ hxy hyx => absurd (trans_of r hxy hyx) (irrefl_of r x)) hxs hys

namespace StableSort

variable {σ α : Type} {r : α → α → Prop} [IsStrictWeakOrder α r]
variable {compare : α → α → Attempt σ Int} {failed : Fault → σ → Prop} {domain : α → Prop}
variable {came : α → α → Prop}

variable (hcompare : ∀ x y, domain x → domain y →
  (compare x y).Ensures (fun n _ => Signals r x y n) failed)
include hcompare

omit [IsStrictWeakOrder α r] in
theorem precedes_ensures {x y : α} (hx : domain x) (hy : domain y) :
    (precedes compare x y).Ensures (fun b _ => b = true ↔ r x y) failed :=
  (hcompare x y hx hy).map fun n _ h => by
    rw [decide_eq_true_iff]
    exact h.1

/-! ## The leading run -/

/-- How each further element of a run stands to the latest one. -/
def Continues (r : α → α → Prop) (falling : Bool) (x latest : α) : Prop :=
  if falling then r x latest else ¬ r x latest

omit hcompare in
theorem Continues.trans {falling : Bool} {x y z : α} (hxy : Continues r falling x y)
    (hyz : Continues r falling y z) : Continues r falling x z := by
  cases falling with
  | true =>
      exact trans_of r hxy hyz
  | false =>
      exact fun hxz => hxy (before_of_before_of_not hxz hyz)

/-- Nothing is lost or moved, and the run goes on as it began. -/
theorem takeRun_ensures (falling : Bool) (latest : α) (run rest : List α)
    (hdomain : ∀ x ∈ latest :: run ++ rest, domain x)
    (hrun : (latest :: run).Pairwise (Continues r falling)) :
    (takeRun compare falling latest run rest).Ensures
      (fun res _ => res.1.Pairwise (Continues r falling) ∧
        res.1.reverse ++ res.2 = (latest :: run).reverse ++ rest) failed := by
  induction rest generalizing latest run with
  | nil =>
      exact .pure fun _ => ⟨hrun, rfl⟩
  | cons x rest ih =>
      rw [takeRun]
      refine (precedes_ensures hcompare (hdomain x (by simp)) (hdomain latest (by simp))).bind
        fun b hb => ?_
      split
      · next hfalling =>
        -- the element stands to the latest one as those before it did
        have hx : Continues r falling x latest := by
          rw [← beq_iff_eq.1 hfalling]
          cases b <;> simpa [Continues] using hb
        refine (ih x (latest :: run) ?_ ?_).mono fun res _ hres => ⟨hres.1, ?_⟩
        · intro y hy
          exact hdomain y (by simp at hy ⊢; tauto)
        · refine List.pairwise_cons.2 ⟨fun y hy => ?_, hrun⟩
          rcases List.mem_cons.1 hy with rfl | hy
          · exact hx
          · exact hx.trans ((List.pairwise_cons.1 hrun).1 y hy)
        · simpa using hres.2
      · exact .pure fun _ => ⟨hrun, rfl⟩

/-- A part that is sorted and a rest that came later, in the order in which it came. -/
structure Halfway (r came : α → α → Prop) (xs sorted rest : List α) : Prop where
  perm : (sorted ++ rest).Perm xs
  ordered : sorted.Pairwise (InTurn r came)
  earlier : ∀ x ∈ sorted, ∀ y ∈ rest, came x y
  rest : rest.Pairwise came

omit hcompare [IsStrictWeakOrder α r] in
/-- A leading run that is put in order leaves a rest that came later. -/
theorem Halfway.of_run {xs run sorted rest : List α} (hxs : xs.Pairwise came)
    (heq : run ++ rest = xs)
    (hperm : sorted.Perm run) (hsorted : sorted.Pairwise (InTurn r came)) :
    Halfway r came xs sorted rest := by
  rw [← heq] at hxs
  have happend := List.pairwise_append.1 hxs
  refine ⟨?_, hsorted, ?_, happend.2.1⟩
  · rw [← heq]
    exact hperm.append_right rest
  · intro x hx y hy
    exact happend.2.2 x (hperm.mem_iff.1 hx) y hy

theorem leadingRun_ensures (xs : List α) (hdomain : ∀ x ∈ xs, domain x) (hxs : xs.Pairwise came) :
    (leadingRun compare xs).Ensures (fun res _ => Halfway r came xs res.1 res.2) failed := by
  match xs with
  | [] =>
      exact .pure fun _ => .of_run hxs rfl (.refl _) .nil
  | [x] =>
      exact .pure fun _ => .of_run hxs rfl (.refl _) (List.pairwise_singleton _ _)
  | x :: y :: rest =>
      rw [leadingRun]
      refine (precedes_ensures hcompare (hdomain y (by simp)) (hdomain x (by simp))).bind
        fun falling hfalling => ?_
      have hyx : Continues r falling y x := by
        cases falling <;> simpa [Continues] using hfalling
      have hstart : [y, x].Pairwise (Continues r falling) := by
        simpa using hyx
      refine (takeRun_ensures hcompare falling y [x] rest ?_ hstart).map fun res _ hres => ?_
      · intro z hz
        exact hdomain z (by simp at hz ⊢; tauto)
      · obtain ⟨run, others⟩ := res
        have heq : run.reverse ++ others = x :: y :: rest := by simpa using hres.2
        cases falling with
        | true =>
            -- a run is collected latest first, so a falling one is in order already
            refine .of_run hxs heq (List.reverse_perm run).symm (hres.1.imp ?_)
            intro a b hab
            exact Or.inl hab
        | false =>
            -- and a rising one has to be turned around, which is how it came
            have hcame : run.reverse.Pairwise came := by
              rw [← heq] at hxs
              exact (List.pairwise_append.1 hxs).1
            refine .of_run hxs heq (.refl _) ?_
            refine ((List.pairwise_reverse.2 hres.1).and hcame).imp ?_
            intro a b hab
            exact Or.inr hab

/-! ## Insertion -/

theorem insert_ensures {sorted : List α} {x : α} (hx : domain x) (hdomain : ∀ y ∈ sorted, domain y)
    (hsorted : sorted.Pairwise (InTurn r came)) (hcame : ∀ y ∈ sorted, came y x) :
    (insert compare sorted x).Ensures (fun ys _ => StablySorts r came (x :: sorted) ys) failed := by
  -- the place is behind everything that `x` does not come before, tied elements included
  obtain ⟨front, back, rfl, hfront, hback⟩ :=
    exists_split (P := fun y => ¬ r x y) hsorted fun _ _ hyz hz hy =>
      hz (before_of_before_of_not hy hyz.not_before)
  have hprobe : ∀ y ∈ front ++ back,
      (do return !(← precedes compare x y) : Attempt σ Bool).Ensures
        (fun b _ => b = true ↔ ¬ r x y) failed := fun y hy =>
    (precedes_ensures hcompare hx (hdomain y hy)).map fun b _ hb => by
      rw [← hb]
      simp
  refine (Search.boundary_ensures hprobe hfront hback).map fun k _ hk => ?_
  rw [hk, insertIdx_append]
  refine ⟨List.perm_middle, pairwise_insert hsorted ?_ ?_⟩
  · intro y hy
    exact Or.inr ⟨hfront y hy, hcame y (by simp [hy])⟩
  · intro y hy
    exact Or.inl (not_not.1 (hback y hy))

theorem insertAll_ensures {xs : List α} (sorted rest : List α)
    (hdomain : ∀ x ∈ sorted ++ rest, domain x)
    (hhalfway : Halfway r came xs sorted rest) :
    (insertAll compare sorted rest).Ensures (fun ys _ => StablySorts r came xs ys) failed := by
  induction rest generalizing sorted with
  | nil =>
      refine .pure fun _ => ⟨?_, hhalfway.ordered⟩
      simpa using hhalfway.perm
  | cons x rest ih =>
      have hrest := List.pairwise_cons.1 hhalfway.rest
      rw [insertAll]
      refine (insert_ensures hcompare (hdomain x (by simp)) (fun y hy => hdomain y (by simp [hy]))
        hhalfway.ordered (fun y hy => hhalfway.earlier y hy x (by simp))).bind fun ys hys => ?_
      -- what was sorted so far is still there, in another order
      have hmem : ∀ y ∈ ys, y = x ∨ y ∈ sorted :=
        fun y hy => List.mem_cons.1 (hys.perm.mem_iff.1 hy)
      refine ih ys ?_ ⟨?_, hys.ordered, ?_, hrest.2⟩
      · intro y hy
        rcases List.mem_append.1 hy with hy | hy
        · rcases hmem y hy with rfl | hy
          · exact hdomain y (by simp)
          · exact hdomain y (by simp [hy])
        · exact hdomain y (by simp [hy])
      · have hinserted : (ys ++ rest).Perm (x :: sorted ++ rest) := hys.perm.append_right rest
        exact (hinserted.trans List.perm_middle.symm).trans hhalfway.perm
      · intro y hy z hz
        rcases hmem y hy with rfl | hy
        · exact hrest.1 z hz
        · exact hhalfway.earlier y hy z (by simp [hz])

theorem sort_stable (xs : List α) (hdomain : ∀ x ∈ xs, domain x) (hxs : xs.Pairwise came) :
    (sort compare xs).Ensures (fun ys _ => StablySorts r came xs ys) failed := by
  refine (leadingRun_ensures hcompare xs hdomain hxs).bind fun res hres => ?_
  obtain ⟨run, rest⟩ := res
  refine insertAll_ensures hcompare run rest ?_ hres
  intro x hx
  exact hdomain x (hres.perm.mem_iff.1 hx)

theorem sort_ensures (xs : List α) (hdomain : ∀ x ∈ xs, domain x) :
    (sort compare xs).Ensures (fun ys _ => Sorts r xs ys) failed := by
  have hany : xs.Pairwise fun _ _ => True := List.pairwise_of_forall fun _ _ => trivial
  refine (sort_stable hcompare xs hdomain hany).mono fun ys _ hys => ⟨hys.perm, ?_⟩
  exact hys.ordered.imp fun hxy => hxy.not_before

end StableSort
end Peaks
