import Peaks.Proofs.LocalMaxima

/-!
# Staged changes

What the staged steps of one edit do to the maxima, among points that are all told apart.

- `Rankings.Distinguishes` : no two points are tied in maxima order, or share a number
- `Staging.Sound`          : the maxima stay in order, and a rollback gives back those of the
  beginning
- `Staging.Kept`           : the entries that a commit will leave
- `Staging.insert_ensures`, `Staging.prepare_ensures` : the steps
- `Staging.rollback_maxima`, `Staging.Prepared` : the two ends
- `Staging.attemptAll_cons` : several steps
-/

namespace Peaks

/-- The points are told apart by the maxima order and by their numbers. -/
structure Rankings.Distinguishes (R : Rankings) (points : List Point) : Prop where
  covers : ∀ p ∈ points, R.Covers p
  eq_of_tied : ∀ p ∈ points, ∀ q ∈ points, Tied R.Outranks p q → p = q
  eq_of_same : ∀ p ∈ points, ∀ q ∈ points, p.same q → p = q

/-! ## Searching the maxima -/

namespace MaximaIndex

variable {σ : Type} {rules : Rules σ} {R : Rankings} (hR : rules.Follow R)
include hR

theorem position_ensures {front back : List Point} {point : Point} (hpoint : R.Covers point)
    (hcovers : ∀ p ∈ front ++ back, R.Covers p)
    (hfront : ∀ x ∈ front, R.Outranks x point) (hback : ∀ x ∈ back, ¬ R.Outranks x point) :
    (position rules (front ++ back) point).Ensures (fun k _ => k = front.length) rules.Raised := by
  refine Search.boundary_ensures (fun p hp => ?_) hfront hback
  refine (hR.compare_ensures (hcovers p hp) hpoint).map fun n _ hn => ?_
  rw [decide_eq_true_iff]
  exact hn.1

/-- A point is found exactly where it stands, and not found if it does not stand there. -/
theorem find?_ensures {points maxima : List Point} (hpoints : R.Distinguishes points)
    (hranked : maxima.Pairwise R.Outranks) (hmaxima : ∀ p ∈ maxima, p ∈ points) {point : Point}
    (hpoint : point ∈ points) :
    (find? rules maxima point).Ensures
      (fun found _ => (found = none → point ∉ maxima) ∧ ∀ i ∈ found, maxima[i]? = some point)
      rules.Raised := by
  obtain ⟨front, back, rfl, hfront, hback⟩ :=
    exists_split (P := fun p => R.Outranks p point) hranked
      fun _ _ hxy hy => Rankings.Outranks.trans hxy hy
  have hcovers : ∀ p ∈ front ++ back, R.Covers p := fun p hp => hpoints.covers p (hmaxima p hp)
  have hcover := hpoints.covers point hpoint
  -- if the point is there, it is the first entry that does not outrank it
  have hnotFront : point ∉ front := fun h => irrefl_of R.Outranks point (hfront point h)
  refine (position_ensures hR hcover hcovers hfront hback).bind fun k hk => ?_
  subst hk
  cases back with
  | nil =>
      simp only [List.append_nil, List.getElem?_eq_none (Nat.le_refl _)]
      exact .pure fun _ => ⟨fun _ => hnotFront, by simp⟩
  | cons q back =>
      simp only [List.getElem?_append_right (Nat.le_refl _), Nat.sub_self, List.getElem?_cons_zero]
      refine (hR.compare_ensures (hcovers q (by simp)) hcover).bind fun n hn => ?_
      split
      · next hzero =>
        have htied := hn.eq_zero_iff.1 (beq_iff_eq.1 hzero)
        obtain rfl : q = point := hpoints.eq_of_tied q (hmaxima q (by simp)) point hpoint htied
        exact .pure fun _ => ⟨by simp, by simp⟩
      · next hzero =>
        have hne : q ≠ point := by
          rintro rfl
          exact hzero (beq_iff_eq.2 (hn.eq_zero_iff.2 (Tied.refl q)))
        -- the entry there is another one; what stands behind it is outranked by it, the point is
        -- not
        have hqback : ∀ x ∈ back, R.Outranks q x :=
          (List.pairwise_cons.1 (List.pairwise_append.1 hranked).2.1).1
        refine .pure fun _ => ⟨fun _ hmem => ?_, by simp⟩
        rcases List.mem_append.1 hmem with hmem | hmem
        · exact hnotFront hmem
        · rcases List.mem_cons.1 hmem with heq | hmem
          · exact hne heq.symm
          · exact hback q (by simp) (hqback point hmem)

end MaximaIndex

/-- What was put in last is taken out first. -/
theorem MaximaIndex.discard_append {front back : List Point} {point : Point}
    (hfront : ∀ x ∈ front, ¬ x.same point) :
    discard (front ++ point :: back) point = front ++ back := by
  unfold discard
  rw [List.eraseP_append_right _ hfront, List.eraseP_cons_of_pos (by simp [Point.same])]

namespace Staging

/-! ## What every step keeps -/

/-- The entries that will be left. -/
def Kept (s : Staging) (p : Point) : Prop :=
  p ∈ s.maxima ∧ p ∉ s.doomed

/-- An edit among `points` that began with the maxima `before`. -/
structure Sound (R : Rankings) (points before : List Point) (s : Staging) : Prop where
  ranked : s.maxima.Pairwise R.Outranks
  maxima_mem : ∀ p ∈ s.maxima, p ∈ points
  doomed_mem : ∀ p ∈ s.doomed, p ∈ points
  doomed_nodup : s.doomed.Nodup
  undo : s.inserted.foldl MaximaIndex.discard s.maxima = before

variable {σ : Type} {rules : Rules σ} {R : Rankings} {points before : List Point} {s : Staging}

theorem rollback_maxima (hs : s.Sound R points before) : s.rollback.maxima = before :=
  hs.undo

theorem sound_start (hranked : before.Pairwise R.Outranks) (hmem : ∀ p ∈ before, p ∈ points) :
    (start before).Sound R points before where
  ranked := hranked
  maxima_mem := hmem
  doomed_mem := by simp [start]
  doomed_nodup := List.nodup_nil
  undo := rfl

theorem Sound.defer (hs : s.Sound R points before) {p : Point} (hp : p ∈ points)
    (hdoomed : p ∉ s.doomed) : (s.defer p).Sound R points before where
  ranked := hs.ranked
  maxima_mem := hs.maxima_mem
  doomed_mem q hq := by
    rcases List.mem_append.1 hq with hq | hq
    · exact hs.doomed_mem q hq
    · rw [List.mem_singleton.1 hq]
      exact hp
  doomed_nodup := by
    have h : (p :: s.doomed).Nodup := List.nodup_cons.2 ⟨hdoomed, hs.doomed_nodup⟩
    exact ((List.perm_append_singleton p s.doomed).nodup_iff).2 h
  undo := hs.undo

theorem insert_ensures (hR : rules.Follow R) (hpoints : R.Distinguishes points)
    (hs : s.Sound R points before) {p : Point} (hp : p ∈ points) (hmaxima : p ∉ s.maxima) :
    (s.insert rules p).Ensures
      (fun s' _ => s'.Sound R points before ∧ s'.doomed = s.doomed ∧
        ∀ q, q ∈ s'.maxima ↔ q = p ∨ q ∈ s.maxima) rules.Raised := by
  obtain ⟨maxima, inserted, doomed, positions⟩ := s
  obtain ⟨front, back, rfl, hfront, hback⟩ :=
    exists_split (P := fun x => R.Outranks x p) hs.ranked
      fun _ _ hxy hy => Rankings.Outranks.trans hxy hy
  have hmem : ∀ x ∈ front ++ back, x ∈ points := hs.maxima_mem
  have hcovers : ∀ x ∈ front ++ back, R.Covers x := fun x hx => hpoints.covers x (hmem x hx)
  refine (MaximaIndex.position_ensures hR (hpoints.covers p hp) hcovers hfront hback).bind
    fun k hk => ?_
  refine (MaximaIndex.insertAt_ensures rules _ k p).map fun maxima _ hinserted => ?_
  obtain rfl : maxima = front ++ p :: back := by
    rw [hinserted, hk]
    exact insertIdx_append front back p
  -- nothing behind the place is tied with the point, since all points are told apart
  have hbehind : ∀ x ∈ back, R.Outranks p x := by
    intro x hx
    by_contra hpx
    have heq := hpoints.eq_of_tied x (hmem x (by simp [hx])) p hp ⟨hback x hx, hpx⟩
    exact hmaxima (by simp [← heq, hx])
  refine ⟨⟨?_, ?_, hs.doomed_mem, hs.doomed_nodup, ?_⟩, rfl, ?_⟩
  · exact pairwise_insert hs.ranked hfront hbehind
  · intro x hx
    rcases List.mem_cons.1 (List.perm_middle.mem_iff.1 hx) with rfl | hx
    · exact hp
    · exact hmem x hx
  · have hother : ∀ x ∈ front, ¬ x.same p := by
      -- a rollback takes out the first entry with this number; no entry in front has it
      intro x hx hsame
      have heq := hpoints.eq_of_same x (hmem x (by simp [hx])) p hp hsame
      exact hmaxima (by simp [← heq, hx])
    rw [List.foldl_cons, MaximaIndex.discard_append hother]
    exact hs.undo
  · intro q
    rw [List.perm_middle.mem_iff, List.mem_cons]

/-! ## Positions to be removed -/

theorem insertDescending_perm (i : Nat) (positions : List Nat) :
    (insertDescending i positions).Perm (i :: positions) := by
  induction positions with
  | nil =>
      exact List.Perm.refl _
  | cons j positions ih =>
      rw [insertDescending]
      split
      · exact List.Perm.refl _
      · exact (ih.cons j).trans (List.Perm.swap i j positions)

theorem insertDescending_pairwise {i : Nat} {positions : List Nat}
    (h : positions.Pairwise (· ≥ ·)) : (insertDescending i positions).Pairwise (· ≥ ·) := by
  induction positions with
  | nil =>
      exact List.pairwise_singleton _ _
  | cons j positions ih =>
      have hcons := List.pairwise_cons.1 h
      rw [insertDescending]
      split
      · next hle =>
        refine List.pairwise_cons.2 ⟨fun k hk => ?_, h⟩
        rcases List.mem_cons.1 hk with rfl | hk
        · exact hle
        · exact le_trans (hcons.1 k hk) hle
      · next hnot =>
        refine List.pairwise_cons.2 ⟨fun k hk => ?_, ih hcons.2⟩
        rcases List.mem_cons.1 ((insertDescending_perm i positions).mem_iff.1 hk) with rfl | hk
        · exact le_of_not_ge hnot
        · exact hcons.1 k hk

theorem descending_perm (positions : List Nat) : (descending positions).Perm positions := by
  induction positions with
  | nil =>
      exact List.Perm.refl _
  | cons i positions ih =>
      exact (insertDescending_perm i _).trans (ih.cons i)

theorem descending_pairwise (positions : List Nat) : (descending positions).Pairwise (· ≥ ·) := by
  induction positions with
  | nil =>
      exact List.Pairwise.nil
  | cons i positions ih =>
      exact insertDescending_pairwise ih

/-- Each doomed entry has one position, and no other entry is among them. -/
theorem resolve_ensures (hR : rules.Follow R) (hpoints : R.Distinguishes points)
    {maxima : List Point} (hranked : maxima.Pairwise R.Outranks)
    (hmaxima : ∀ p ∈ maxima, p ∈ points) (doomed : List Point) (hdoomed : ∀ p ∈ doomed, p ∈ points)
    (hnodup : doomed.Nodup) :
    (resolve rules maxima doomed).Ensures
      (fun positions _ => positions.Nodup ∧
        ∀ i, i ∈ positions ↔ ∃ p ∈ doomed, maxima[i]? = some p) rules.Raised := by
  induction doomed with
  | nil =>
      exact .pure fun _ => by simp
  | cons p doomed ih =>
      have hcons := List.nodup_cons.1 hnodup
      rw [resolve]
      refine (MaximaIndex.find?_ensures hR hpoints hranked hmaxima (hdoomed p (by simp))).bind
        fun found hfound => ?_
      refine (ih (fun q hq => hdoomed q (List.mem_cons_of_mem _ hq)) hcons.2).map
        fun others _ hothers => ⟨?_, fun i => ?_⟩
      · refine List.nodup_append.2 ⟨by cases found <;> simp, hothers.1, ?_⟩
        -- two doomed points cannot stand at one position
        rintro i hi j hj rfl
        obtain ⟨q, hq, hiq⟩ := (hothers.2 i).1 hj
        have hip : maxima[i]? = some p := hfound.2 i (by simpa using hi)
        have hpq : p = q := Option.some.inj (hip.symm.trans hiq)
        exact hcons.1 (hpq ▸ hq)
      · rw [List.mem_append, hothers.2 i, Option.mem_toList]
        constructor
        · rintro (hi | ⟨q, hq, hiq⟩)
          · exact ⟨p, by simp, hfound.2 i hi⟩
          · exact ⟨q, by simp [hq], hiq⟩
        · rintro ⟨q, hq, hiq⟩
          rcases List.mem_cons.1 hq with rfl | hq
          · cases found with
            | none =>
                exact absurd (List.mem_of_getElem? hiq) (hfound.1 rfl)
            | some j =>
                -- a point stands at one position only, so the search found this one
                have hj : maxima[j]? = some q := hfound.2 j rfl
                have hlt := (List.getElem?_eq_some_iff.1 hiq).1
                have hij : i = j :=
                  (List.getElem?_inj hlt hranked.nodup).1 (hiq.trans hj.symm)
                exact Or.inl (by simp [hij])
          · exact Or.inr ⟨q, hq, hiq⟩

end Staging

theorem Position.pop_natCast {α : Type} {xs : List α} {i : Nat} (h : i < xs.length) :
    Position.pop xs (i : Int) = .ok (xs[i], xs.eraseIdx i) := by
  have hresolve : Position.resolve? xs.length (i : Int) = some i := by
    have hnonneg : ¬ (i : Int) < 0 := by omega
    simp [Position.resolve?, hnonneg, h]
  simp [Position.pop, hresolve, List.getElem?_eq_getElem h]

namespace Staging

variable {σ : Type} {rules : Rules σ} {R : Rankings} {points before : List Point} {s : Staging}

theorem mem_eraseIdx_iff_of_nodup {α : Type} {xs : List α} (h : xs.Nodup) {i : Nat} {x : α} :
    x ∈ xs.eraseIdx i ↔ x ∈ xs ∧ xs[i]? ≠ some x := by
  rw [List.mem_eraseIdx_iff_getElem?]
  constructor
  · rintro ⟨j, hne, hj⟩
    refine ⟨List.mem_of_getElem? hj, fun hi => hne ?_⟩
    have hlt := (List.getElem?_eq_some_iff.1 hj).1
    exact (List.getElem?_inj hlt h).1 (hj.trans hi.symm)
  · rintro ⟨hx, hi⟩
    obtain ⟨j, hj⟩ := List.mem_iff_getElem?.1 hx
    refine ⟨j, ?_, hj⟩
    rintro rfl
    exact hi hj

/-- From the highest position down, no removal moves an entry that is still to be removed. -/
theorem popAll_eq (positions : List Nat) (xs : List Point) (hdown : positions.Pairwise (· > ·))
    (hlt : ∀ i ∈ positions, i < xs.length) (hnodup : xs.Nodup) :
    ∃ ys, popAll positions xs = (ys, none) ∧ ys.Sublist xs ∧
      ∀ x, x ∈ ys ↔ x ∈ xs ∧ ∀ i ∈ positions, xs[i]? ≠ some x := by
  induction positions generalizing xs with
  | nil =>
      exact ⟨xs, rfl, List.Sublist.refl _, by simp⟩
  | cons i positions ih =>
      have hcons := List.pairwise_cons.1 hdown
      have hi : i < xs.length := hlt i (by simp)
      have hsub : (xs.eraseIdx i).Sublist xs := List.eraseIdx_sublist xs i
      -- all other positions are lower, and what stands there stays where it is
      have hlt' : ∀ j ∈ positions, j < (xs.eraseIdx i).length := by
        intro j hj
        have hij := hcons.1 j hj
        rw [List.length_eraseIdx_of_lt hi]
        omega
      obtain ⟨ys, hpop, hys, hmem⟩ := ih (xs.eraseIdx i) hcons.2 hlt' (hsub.nodup hnodup)
      refine ⟨ys, ?_, hys.trans hsub, fun x => ?_⟩
      · rw [popAll, Position.pop_natCast hi]
        exact hpop
      · have hsame : ∀ j ∈ positions, (xs.eraseIdx i)[j]? = xs[j]? := fun j hj =>
          List.getElem?_eraseIdx_of_lt (hcons.1 j hj)
        rw [hmem, mem_eraseIdx_iff_of_nodup hnodup, and_assoc, List.forall_mem_cons]
        refine and_congr_right fun _ => and_congr_right fun _ => forall₂_congr fun j hj => ?_
        rw [hsame j hj]

/-! ## Ready to commit -/

/-- A commit will not fail, and leaves the kept entries in order. -/
def Prepared (R : Rankings) (s : Staging) : Prop :=
  ∃ ys, s.commit = (ys, none) ∧ ys.Pairwise R.Outranks ∧ ∀ p, p ∈ ys ↔ s.Kept p

theorem prepare_ensures (hR : rules.Follow R) (hpoints : R.Distinguishes points)
    (hs : s.Sound R points before) :
    (s.prepare rules).Ensures
      (fun s' _ => s'.Sound R points before ∧ s'.Prepared R ∧ ∀ p, s'.Kept p ↔ s.Kept p)
      rules.Raised := by
  refine (resolve_ensures hR hpoints hs.ranked hs.maxima_mem s.doomed hs.doomed_mem
    hs.doomed_nodup).map fun positions _ hpositions => ?_
  refine ⟨⟨hs.ranked, hs.maxima_mem, hs.doomed_mem, hs.doomed_nodup, hs.undo⟩, ?_, fun _ => Iff.rfl⟩
  -- the positions are all different, so that descending means strictly descending
  have hperm := descending_perm positions
  have hdown : (descending positions).Pairwise (· > ·) :=
    ((descending_pairwise positions).and (hperm.nodup_iff.2 hpositions.1)).imp
      fun h => lt_of_le_of_ne h.1 (Ne.symm h.2)
  have hlt : ∀ i ∈ descending positions, i < s.maxima.length := by
    intro i hi
    obtain ⟨p, _, hp⟩ := (hpositions.2 i).1 (hperm.mem_iff.1 hi)
    exact (List.getElem?_eq_some_iff.1 hp).1
  obtain ⟨ys, hpop, hsub, hmem⟩ := popAll_eq _ s.maxima hdown hlt hs.ranked.nodup
  refine ⟨ys, hpop, hs.ranked.sublist hsub, fun p => ?_⟩
  rw [hmem]
  -- an entry is left exactly if its position is not among those resolved
  refine and_congr_right fun hp => ?_
  constructor
  · intro h hdoomed
    obtain ⟨i, hi⟩ := List.mem_iff_getElem?.1 hp
    exact h i (hperm.mem_iff.2 ((hpositions.2 i).2 ⟨p, hdoomed, hi⟩)) hi
  · intro hdoomed i hi hip
    obtain ⟨q, hq, hiq⟩ := (hpositions.2 i).1 (hperm.mem_iff.1 hi)
    obtain rfl : p = q := Option.some.inj (hip.symm.trans hiq)
    exact hdoomed hq

/-! ## Several steps -/

theorem rollback_sublist (s : Staging) : s.rollback.maxima.Sublist s.maxima := by
  obtain ⟨maxima, inserted, doomed, positions⟩ := s
  show (inserted.foldl MaximaIndex.discard maxima).Sublist maxima
  induction inserted generalizing maxima with
  | nil =>
      exact .refl _
  | cons p inserted ih =>
      exact (ih (MaximaIndex.discard maxima p)).trans List.eraseP_sublist

/-- After all steps `final` holds; after a step that failed, a rollback gives back the maxima of the
beginning, and the fault is one that was raised. -/
def Attempted (rules : Rules σ) (before : List Point) (final : Staging → Prop) :
    Staging × Option Fault → σ → Prop
  | (s, none), _ => final s
  | (s, some fault), host => s.rollback.maxima = before ∧ rules.Raised fault host

variable {final next : Staging → Prop} {step : Staging → Attempt σ Staging}
  {steps : List (Staging → Attempt σ Staging)}

theorem attemptAll_nil (h : final s) :
    (attemptAll [] s : Attempt σ _).Ensures (Attempted rules before final) rules.Raised :=
  .pure fun _ => h

theorem attemptAll_cons (hs : s.rollback.maxima = before)
    (hstep : (step s).Ensures (fun s' _ => next s') rules.Raised)
    (hsteps : ∀ s', next s' →
      (attemptAll steps s').Ensures (Attempted rules before final) rules.Raised) :
    (attemptAll (step :: steps) s).Ensures (Attempted rules before final) rules.Raised := by
  intro host
  rw [attemptAll]
  exact (hstep host).settle_bind (fun s' t hs' => hsteps s' hs' t)
    fun fault t hraised => .pure ⟨hs, hraised⟩

end Staging
end Peaks
