import Peaks.Proofs.Staging

/-!
# The steps of one edit

An edit judges at most three points: the edited one and its two neighbours. Nothing else can change,
so after the edit the maxima are the local maxima of the new list of points.

- `Store.Judged`            : the judged points have been settled by the new list, all others by the
  old one
- `Store.stage_ensures`     : what judging one point stages
- `Rankings.isPeak_congr`   : points away from the edit keep their neighbours
- `Store.setSteps_ensures`, `Store.eraseSteps_ensures` : the steps of the two edits
-/

namespace Peaks

/-! ## Points away from an edit -/

theorem Rankings.isPeak_congr {R : Rankings} {front back : List Point} {middle middle' : List Point}
    (hnodup : (front ++ (middle ++ back)).Nodup) (hnodup' : (front ++ (middle' ++ back)).Nodup)
    {p : Point} (hmiddle : p ∉ middle) (hmiddle' : p ∉ middle') (hlast : front.getLast? ≠ some p)
    (hhead : back.head? ≠ some p) :
    R.IsPeak (front ++ (middle ++ back)) p ↔ R.IsPeak (front ++ (middle' ++ back)) p := by
  by_cases hfront : p ∈ front
  · obtain ⟨near, far, rfl⟩ := List.append_of_mem hfront
    -- a point in front that is not the last one has its right neighbour there too
    have hfar : far ≠ [] := by
      rintro rfl
      simp at hlast
    simp only [List.append_assoc, List.cons_append] at hnodup hnodup' ⊢
    rw [isPeak_iff hnodup, isPeak_iff hnodup', List.head?_append_of_ne_nil _ hfar,
      List.head?_append_of_ne_nil _ hfar]
  · by_cases hback : p ∈ back
    · obtain ⟨near, far, rfl⟩ := List.append_of_mem hback
      -- and a point behind that is not the first one its left neighbour
      have hnear : near ≠ [] := by
        rintro rfl
        simp at hhead
      simp only [← List.append_assoc] at hnodup hnodup' ⊢
      rw [isPeak_iff hnodup, isPeak_iff hnodup', List.getLast?_append_of_ne_nil _ hnear,
        List.getLast?_append_of_ne_nil _ hnear]
    · constructor
      · intro h
        have := h.mem
        simp [hfront, hback, hmiddle] at this
      · intro h
        have := h.mem
        simp [hfront, hback, hmiddle'] at this

namespace Store

theorem mem_of_mem_head? {points : List Point} {p : Point}
    (h : p ∈ points.head?.toList) : p ∈ points :=
  List.mem_of_head? (Option.mem_toList.1 h)

theorem mem_of_mem_getLast? {points : List Point} {p : Point} (h : p ∈ points.getLast?.toList) :
    p ∈ points :=
  List.mem_of_getLast? (Option.mem_toList.1 h)

/-! ## Neighbours that leave out the ignored position -/

section Skipping

variable {front back : List Point} {x y : Point} {ignored : Option Nat}

theorem prevSkipping_eq (h : ∀ k ∈ ignored, k + 1 ≠ front.length) :
    prevSkipping front.length ignored = front.getLast?.map fun _ => front.length - 1 := by
  rcases List.eq_nil_or_concat front with rfl | ⟨front, z, rfl⟩
  · rfl
  · have hignored : ignored ≠ some front.length := fun heq => h front.length heq (by simp)
    simp [prevSkipping, hignored]

theorem prevSkipping_eq_of_ignored :
    prevSkipping (front.length + 1) (some front.length) =
      front.getLast?.map fun _ => front.length - 1 := by
  rcases List.eq_nil_or_concat front with rfl | ⟨front, z, rfl⟩
  · rfl
  · simp [prevSkipping]

theorem nextSkipping_eq (h : ∀ k ∈ ignored, k ≠ front.length + 1) :
    nextSkipping (front ++ x :: back).length front.length ignored =
      back.head?.map fun _ => front.length + 1 := by
  have hignored : ignored ≠ some (front.length + 1) := fun heq => h _ heq rfl
  cases back with
  | nil =>
      simp [nextSkipping, hignored]
  | cons z back =>
      simp [nextSkipping, hignored]

theorem nextSkipping_eq_of_ignored :
    nextSkipping (front ++ x :: y :: back).length front.length (some (front.length + 1)) =
      back.head?.map fun _ => front.length + 2 := by
  cases back with
  | nil =>
      simp [nextSkipping]
  | cons z back =>
      simp [nextSkipping]

/-- The value of a neighbour at a position found by one of the four rules above. -/
theorem prevValue_eq {others : List Point} :
    (front.getLast?.map fun _ => front.length - 1).bind
        (fun i => (front ++ others)[i]?.map Point.value) = front.getLast?.map Point.value := by
  rcases List.eq_nil_or_concat front with rfl | ⟨front, z, rfl⟩
  · rfl
  · simp

theorem nextValue_eq :
    (back.head?.map fun _ => front.length).bind (fun i => (front ++ back)[i]?.map Point.value) =
      back.head?.map Point.value := by
  cases back with
  | nil =>
      rfl
  | cons z back =>
      simp

end Skipping

/-! ## Judging one point -/

variable {σ : Type} {rules : Rules σ} {R : Rankings} {points before after : List Point}

/-- An edit that leads from the maxima `before` to the list of points `after`, while `points` holds
both what comes and what goes. -/
structure Judged (R : Rankings) (points before after judged : List Point) (s : Staging) : Prop
    extends s.Sound R points before where
  doomed_judged : ∀ p ∈ s.doomed, p ∈ judged
  kept_iff : ∀ p, s.Kept p ↔ p ∈ judged ∧ R.IsPeak after p ∨ p ∉ judged ∧ p ∈ before

theorem judged_start (hranked : before.Pairwise R.Outranks) (hmem : ∀ p ∈ before, p ∈ points) :
    Judged R points before after [] (.start before) where
  toSound := Staging.sound_start hranked hmem
  doomed_judged := by simp [Staging.start]
  kept_iff p := by simp [Staging.Kept, Staging.start]

variable {judged : List Point} {s : Staging}

/-- Settling one more point settles it by the new list and touches no other. -/
theorem Judged.settle (hs : Judged R points before after judged s) {s' : Staging}
    (hsound : s'.Sound R points before) {p : Point} (hp : p ∉ judged)
    (hdoomed : ∀ q ∈ s'.doomed, q = p ∨ q ∈ s.doomed)
    (hself : s'.Kept p ↔ R.IsPeak after p) (hothers : ∀ q, q ≠ p → (s'.Kept q ↔ s.Kept q)) :
    Judged R points before after (p :: judged) s' where
  toSound := hsound
  doomed_judged q hq := by
    rcases hdoomed q hq with rfl | hq
    · simp
    · exact List.mem_cons_of_mem _ (hs.doomed_judged q hq)
  kept_iff q := by
    by_cases hqp : q = p
    · subst hqp
      simp [hself]
    · rw [hothers q hqp, hs.kept_iff]
      simp [hqp]

theorem Judged.defer (hs : Judged R points before after judged s) {p : Point} (hp : p ∉ judged)
    (hmem : p ∈ points) (hpeak : ¬ R.IsPeak after p) :
    Judged R points before after (p :: judged) (s.defer p) := by
  have hdoomed : p ∉ s.doomed := fun h => hp (hs.doomed_judged p h)
  refine hs.settle (hs.toSound.defer hmem hdoomed) hp ?_ ?_ ?_
  · intro q hq
    have : q ∈ s.doomed ∨ q = p := by simpa [Staging.defer] using hq
    exact this.symm
  · simp [Staging.Kept, Staging.defer, hpeak]
  · intro q hq
    simp [Staging.Kept, Staging.defer, hq]

theorem deferAt_ensures (hs : Judged R points before after judged s) {i : Nat} {p : Point}
    (hi : points[i]? = some p) (hp : p ∉ judged) (hpeak : ¬ R.IsPeak after p) :
    (deferAt points i s).Ensures (fun s' _ => Judged R points before after (p :: judged) s')
      rules.Raised := by
  simp only [deferAt, hi]
  exact .pure fun _ => hs.defer hp (List.mem_of_getElem? hi) hpeak

/-- The staged changes can be committed, and lead to the local maxima of the new list. -/
def Settled (R : Rankings) (after : List Point) (s : Staging) : Prop :=
  ∃ ys, s.commit = (ys, none) ∧ ys.Pairwise R.Outranks ∧ ∀ p, p ∈ ys ↔ R.IsPeak after p

section Judging

variable (hR : rules.Follow R) (hpoints : R.Distinguishes points)
include hR hpoints

theorem isLocalMaximum_ensures {i : Nat} {ignored : Option Nat} {p : Point} (hp : p ∈ points) :
    (isLocalMaximum rules points i p ignored).Ensures
      (fun b _ => b = true ↔
        R.Bounds p ((prevSkipping i ignored).bind fun j => points[j]?.map Point.value) ∧
        R.Bounds p
          ((nextSkipping points.length i ignored).bind fun j => points[j]?.map Point.value))
      rules.Raised := by
  have hdomain : ∀ index : Option Nat,
      ∀ v ∈ index.bind fun j => points[j]?.map Point.value, R.value.domain v := by
    intro index v hv
    obtain ⟨j, _, hj⟩ := Option.bind_eq_some_iff.1 hv
    obtain ⟨q, hq, rfl⟩ := Option.map_eq_some_iff.1 hj
    exact (hpoints.covers q (List.mem_of_getElem? hq)).2
  exact Scan.isPeak_ensures hR.obey (hpoints.covers p hp).2 (hdomain _) (hdomain _)

/-- The judged point stands between `front` and `back` now, and between `front'` and `back'` after
the edit; leaving out the ignored position makes the neighbours the same. -/
theorem stage_ensures {front back front' back' : List Point} {ignored : Option Nat} {p : Point}
    (heq : points = front ++ p :: back) (hafter : after = front' ++ p :: back')
    (hnodup : after.Nodup) (hignored : ignored ≠ some front.length)
    (hprev : (prevSkipping front.length ignored).bind
      (fun i => (front ++ p :: back)[i]?.map Point.value) = front'.getLast?.map Point.value)
    (hnext : (nextSkipping (front ++ p :: back).length front.length ignored).bind
      (fun i => (front ++ p :: back)[i]?.map Point.value) = back'.head?.map Point.value)
    (hp : p ∉ judged) (hs : Judged R points before after judged s) :
    (stage rules points (some front.length) ignored s).Ensures
      (fun s' _ => Judged R points before after (p :: judged) s') rules.Raised := by
  have hi : points[front.length]? = some p := by simp [heq]
  have hmem : p ∈ points := List.mem_of_getElem? hi
  have hdoomed : p ∉ s.doomed := fun h => hp (hs.doomed_judged p h)
  -- not judged yet, so not doomed: whether the point is indexed tells whether it is kept
  have hkept : s.Kept p ↔ p ∈ s.maxima := by simp [Staging.Kept, hdoomed]
  simp only [stage, stageBy, hi, if_neg fun h : some front.length = ignored => hignored h.symm]
  refine (MaximaIndex.find?_ensures hR hpoints hs.ranked hs.maxima_mem hmem).bind
    fun found hfound => ?_
  have hindexed : found.isSome = true ↔ p ∈ s.maxima := by
    cases found with
    | none =>
        simpa using hfound.1 rfl
    | some i =>
        simpa using List.mem_of_getElem? (hfound.2 i rfl)
  refine (isLocalMaximum_ensures hR hpoints hmem).bind fun peak hpeak => ?_
  -- the neighbours looked at now are those that the point will have
  have hpeak' : peak = true ↔ R.IsPeak after p := by
    rw [hpeak, heq, hprev, hnext]
    subst hafter
    exact (Rankings.isPeak_iff hnodup).symm
  -- judged a maximum or not, and indexed or not
  by_cases hmax : R.IsPeak after p
  · rw [if_pos (hpeak'.2 hmax)]
    by_cases hin : p ∈ s.maxima
    · rw [if_pos (hindexed.2 hin)]
      exact .pure fun _ => hs.settle hs.toSound hp (fun q hq => Or.inr hq)
        (by simp [hkept, hin, hmax]) fun q _ => Iff.rfl
    · rw [if_neg fun h => hin (hindexed.1 h)]
      refine (Staging.insert_ensures hR hpoints hs.toSound hmem hin).mono fun s' _ hs' => ?_
      refine hs.settle hs'.1 hp (fun q hq => Or.inr (hs'.2.1 ▸ hq)) ?_ fun q hq => ?_
      · simp [Staging.Kept, hs'.2.1, hs'.2.2, hdoomed, hmax]
      · simp [Staging.Kept, hs'.2.1, hs'.2.2, hq]
  · rw [if_neg fun h => hmax (hpeak'.1 h)]
    by_cases hin : p ∈ s.maxima
    · rw [if_pos (hindexed.2 hin)]
      exact .pure fun _ => hs.defer hp hmem hmax
    · rw [if_neg fun h => hin (hindexed.1 h)]
      exact .pure fun _ => hs.settle hs.toSound hp (fun q hq => Or.inr hq)
        (by simp [hkept, hin, hmax]) fun q _ => Iff.rfl

/-- Judging the point behind the edited place, if there is one. -/
theorem stage_head_ensures {front front' back : List Point} {index ignored : Option Nat}
    (heq : points = front ++ back) (hafter : after = front' ++ back) (hnodup : after.Nodup)
    (hindex : index = back.head?.map fun _ => front.length)
    (hignored : ∀ k ∈ ignored, k < front.length)
    (hprev : ∀ y back', (prevSkipping front.length ignored).bind
      (fun i => (front ++ y :: back')[i]?.map Point.value) = front'.getLast?.map Point.value)
    (hjudged : ∀ p ∈ back, p ∉ judged) (hs : Judged R points before after judged s) :
    (stage rules points index ignored s).Ensures
      (fun s' _ => Judged R points before after (back.head?.toList ++ judged) s') rules.Raised := by
  subst hindex
  cases back with
  | nil =>
      exact .pure fun _ => hs
  | cons y back =>
      refine stage_ensures hR hpoints heq hafter hnodup ?_ (hprev y back) ?_
        (hjudged y (by simp)) hs
      · intro h
        exact absurd (hignored _ h) (lt_irrefl _)
      · rw [nextSkipping_eq fun k hk => by have := hignored k hk; omega]
        simpa using @nextValue_eq (front ++ [y]) back

/-- Judging the point in front of the edited place, if there is one. -/
theorem stage_last_ensures {front back back' : List Point} {index ignored : Option Nat}
    (heq : points = front ++ back) (hafter : after = front ++ back') (hnodup : after.Nodup)
    (hindex : index = front.getLast?.map fun _ => front.length - 1)
    (hignored : ∀ k ∈ ignored, front.length ≤ k)
    (hnext : ∀ front' y, front = front' ++ [y] →
      (nextSkipping (front' ++ y :: back).length front'.length ignored).bind
        (fun i => (front' ++ y :: back)[i]?.map Point.value) = back'.head?.map Point.value)
    (hjudged : ∀ p ∈ front, p ∉ judged) (hs : Judged R points before after judged s) :
    (stage rules points index ignored s).Ensures
      (fun s' _ => Judged R points before after (front.getLast?.toList ++ judged) s')
      rules.Raised := by
  subst hindex
  rcases List.eq_nil_or_concat front with rfl | ⟨front, y, rfl⟩
  · exact .pure fun _ => hs
  · simp only [List.concat_eq_append] at *
    have hindex : ((front ++ [y]).getLast?.map fun _ => (front ++ [y]).length - 1) =
        some front.length := by simp
    have hbehind : ∀ k ∈ ignored, front.length < k := by
      intro k hk
      have hlength := hignored k hk
      rw [List.length_append, List.length_singleton] at hlength
      omega
    rw [hindex, List.getLast?_concat]
    refine stage_ensures hR hpoints (by simpa using heq) (by simpa using hafter) hnodup ?_ ?_
      (hnext front y rfl) (hjudged y (by simp)) hs
    · intro h
      exact absurd (hbehind _ h) (lt_irrefl _)
    · rw [prevSkipping_eq fun k hk => by have := hbehind k hk; omega]
      exact prevValue_eq

theorem attemptAll_prepare_ensures (hs : Judged R points before after judged s)
    (hunjudged : ∀ p, p ∉ judged → (p ∈ before ↔ R.IsPeak after p)) :
    (Staging.attemptAll [Staging.prepare rules] s).Ensures
      (Staging.Attempted rules before (Settled R after)) rules.Raised := by
  refine Staging.attemptAll_cons (Staging.rollback_maxima hs.toSound)
    (Staging.prepare_ensures hR hpoints hs.toSound) fun s' hs' => Staging.attemptAll_nil ?_
  obtain ⟨ys, hcommit, hranked, hmem⟩ := hs'.2.1
  refine ⟨ys, hcommit, hranked, fun p => ?_⟩
  rw [hmem, hs'.2.2, hs.kept_iff]
  by_cases hp : p ∈ judged
  · simp [hp]
  · simp [hp, hunjudged p hp]

/-- The last steps of an edit under which the point at a position goes. -/
theorem attemptAll_defer_ensures {i : Nat} {p : Point} (hi : points[i]? = some p)
    (hgone : p ∉ after)
    (hjudged : ∀ q ∈ judged, q ∈ after) (hs : Judged R points before after judged s)
    (hunjudged : ∀ q, q ≠ p → q ∉ judged → (q ∈ before ↔ R.IsPeak after q)) :
    (Staging.attemptAll [deferAt points i, Staging.prepare rules] s).Ensures
      (Staging.Attempted rules before (Settled R after)) rules.Raised := by
  have hpeak : ¬ R.IsPeak after p := fun h => hgone h.mem
  refine Staging.attemptAll_cons (Staging.rollback_maxima hs.toSound)
    (deferAt_ensures hs hi (fun h => hgone (hjudged p h)) hpeak) fun s' hs' => ?_
  refine attemptAll_prepare_ensures hR hpoints hs' fun q hq => ?_
  simp only [List.mem_cons, not_or] at hq
  exact hunjudged q hq.1 hq.2

end Judging

/-! ## Setting a value

The new point stands behind the one on its way out, if there is one. -/

section Setting

variable {front back : List Point} {old : Option Point} {point : Point}

theorem of_mem_ignored {k : Nat} (hk : k ∈ old.map fun _ => front.length) :
    k = front.length ∧ old.toList.length = 1 := by
  cases old with
  | none =>
      simp at hk
  | some o =>
      simpa using hk.symm

theorem prevSkipping_new :
    prevSkipping (front.length + old.toList.length) (old.map fun _ => front.length) =
      front.getLast?.map fun _ => front.length - 1 := by
  cases old with
  | none =>
      exact prevSkipping_eq (by simp)
  | some o =>
      exact prevSkipping_eq_of_ignored

theorem nextSkipping_new :
    nextSkipping (front ++ (old.toList ++ point :: back)).length (front.length + old.toList.length)
        (old.map fun _ => front.length) =
      back.head?.map fun _ => (front ++ (old.toList ++ [point])).length := by
  have h : nextSkipping ((front ++ old.toList) ++ point :: back).length (front ++ old.toList).length
      (old.map fun _ => front.length) = back.head?.map fun _ =>
        (front ++ old.toList).length + 1 := by
    refine nextSkipping_eq fun k hk => ?_
    rw [(of_mem_ignored hk).1, List.length_append]
    omega
  simpa [Nat.add_assoc] using h

variable (hR : rules.Follow R) (hpoints : R.Distinguishes (front ++ (old.toList ++ point :: back)))
  (hafter : (front ++ point :: back).Nodup)
  (hs : Judged R (front ++ (old.toList ++ point :: back)) before (front ++ point :: back) judged s)
include hR hpoints hafter hs

theorem stage_behind_new_ensures (hjudged : ∀ p ∈ back, p ∉ judged) :
    (stage rules (front ++ (old.toList ++ point :: back))
        (nextSkipping (front ++ (old.toList ++ point :: back)).length
          (front.length + old.toList.length) (old.map fun _ => front.length))
        (old.map fun _ => front.length) s).Ensures
      (fun s' _ => Judged R (front ++ (old.toList ++ point :: back)) before (front ++ point :: back)
        (back.head?.toList ++ judged) s') rules.Raised := by
  have hnow : front ++ (old.toList ++ point :: back) =
      (front ++ (old.toList ++ [point])) ++ back := by
    simp
  have hlater : front ++ point :: back = (front ++ [point]) ++ back := by simp
  refine stage_head_ensures hR hpoints hnow hlater hafter nextSkipping_new ?_ ?_ hjudged hs
  · intro k hk
    simp [(of_mem_ignored hk).1]
  · -- the new point is in front of it before and after
    intro y back'
    rw [prevSkipping_eq fun k hk => by simp [of_mem_ignored hk], prevValue_eq]
    simp [← List.append_assoc]

theorem stage_new_ensures (hjudged : point ∉ judged) :
    (stage rules (front ++ (old.toList ++ point :: back)) (some (front.length + old.toList.length))
        (old.map fun _ => front.length) s).Ensures
      (fun s' _ => Judged R (front ++ (old.toList ++ point :: back)) before (front ++ point :: back)
        (point :: judged) s') rules.Raised := by
  have hnow : front ++ (old.toList ++ point :: back) = (front ++ old.toList) ++ point ::
      back := by simp
  rw [← List.length_append]
  refine stage_ensures hR hpoints hnow rfl hafter ?_ ?_ ?_ hjudged hs
  · intro h
    have hlength := of_mem_ignored h
    rw [List.length_append] at hlength
    omega
  · rw [List.length_append, prevSkipping_new, List.append_assoc]
    exact prevValue_eq
  · rw [← hnow, @List.length_append _ front old.toList, nextSkipping_new]
    simpa using @nextValue_eq (front ++ (old.toList ++ [point])) back

theorem stage_before_new_ensures (hjudged : ∀ p ∈ front, p ∉ judged) :
    (stage rules (front ++ (old.toList ++ point :: back))
        (prevSkipping (front.length + old.toList.length) (old.map fun _ => front.length))
        (old.map fun _ => front.length) s).Ensures
      (fun s' _ => Judged R (front ++ (old.toList ++ point :: back)) before (front ++ point :: back)
        (front.getLast?.toList ++ judged) s') rules.Raised := by
  refine stage_last_ensures hR hpoints rfl rfl hafter prevSkipping_new ?_ ?_ hjudged hs
  · intro k hk
    exact (of_mem_ignored hk).1.ge
  · -- leaving out the old point, the new one comes next
    rintro front' y rfl
    cases old with
    | none =>
        simp [nextSkipping]
    | some o =>
        simp [nextSkipping]

end Setting

theorem setSteps_ensures (hR : rules.Follow R) {front back : List Point} {old : Option Point}
    {point : Point} (hpoints : R.Distinguishes (front ++ (old.toList ++ point :: back)))
    (hnodup : (front ++ (old.toList ++ point :: back)).Nodup)
    (hranked : before.Pairwise R.Outranks)
    (hbefore : ∀ p, p ∈ before ↔ R.IsPeak (front ++ (old.toList ++ back)) p) :
    (Staging.attemptAll (setSteps rules (front ++ (old.toList ++ point :: back))
        (front.length + old.toList.length) (old.map fun _ => front.length)) (.start before)).Ensures
      (Staging.Attempted rules before (Settled R (front ++ point :: back))) rules.Raised := by
  have hafter : (front ++ point :: back).Nodup :=
    ((List.sublist_append_right old.toList _).append_left front).nodup hnodup
  have hsub : (front ++ (old.toList ++ back)).Sublist (front ++ (old.toList ++ point :: back)) :=
    ((List.sublist_cons_self point back).append_left _).append_left front
  have hpoint : point ∉ back := (List.nodup_cons.1 (List.nodup_append.1 hafter).2.1).1
  have hfront : ∀ p ∈ front, p ∉ point :: back := fun p hp => hafter.disjoint hp
  have hstart : Judged R (front ++ (old.toList ++ point :: back)) before (front ++ point :: back) []
      (.start before) := judged_start hranked fun p hp => hsub.subset ((hbefore p).1 hp).mem
  refine Staging.attemptAll_cons (Staging.rollback_maxima hstart.toSound)
    (stage_behind_new_ensures hR hpoints hafter hstart (by simp)) fun s₁ hs₁ => ?_
  rw [List.append_nil] at hs₁
  refine Staging.attemptAll_cons (Staging.rollback_maxima hs₁.toSound)
    (stage_new_ensures hR hpoints hafter hs₁ fun h => hpoint (mem_of_mem_head? h)) fun s₂ hs₂ => ?_
  have hunseen : ∀ p ∈ front, p ∉ point :: back.head?.toList := fun p hp h =>
    hfront p hp (List.cons_subset_cons point (fun _ => mem_of_mem_head?) h)
  refine Staging.attemptAll_cons (Staging.rollback_maxima hs₂.toSound)
    (stage_before_new_ensures hR hpoints hafter hs₂ hunseen) fun s₃ hs₃ => ?_
  -- all that was not judged and does not go has kept its neighbours
  have hunjudged : ∀ p, p ∉ old.toList → p ∉ front.getLast?.toList ++ point :: back.head?.toList →
      (p ∈ before ↔ R.IsPeak (front ++ point :: back) p) := by
    intro p hold hp
    simp only [List.mem_append, List.mem_cons, not_or, Option.mem_toList] at hp
    rw [hbefore, show front ++ point :: back = front ++ ([point] ++ back) by rfl]
    exact Rankings.isPeak_congr (hsub.nodup hnodup) hafter hold (by simp [hp.2.1]) hp.1 hp.2.2
  cases old with
  | none =>
      exact attemptAll_prepare_ensures hR hpoints hs₃ fun p hp => hunjudged p (by simp) hp
  | some o =>
      have hgone : o ∉ front ++ point :: back := (List.nodup_cons.1 (List.nodup_middle.1 hnodup)).1
      refine attemptAll_defer_ensures hR hpoints (by simp) hgone ?_ hs₃ fun p hp =>
        hunjudged p (by simpa using hp)
      exact List.append_subset.2 ⟨fun q hq => List.mem_append_left _ (mem_of_mem_getLast? hq),
        fun q hq => List.mem_append_right _
        (List.cons_subset_cons point (fun _ => mem_of_mem_head?) hq)⟩

/-! ## Erasing -/

/-- The point between the two parts is on its way out. -/
theorem eraseSteps_ensures (hR : rules.Follow R) {front back : List Point} {old : Point}
    (hpoints : R.Distinguishes (front ++ old :: back)) (hnodup : (front ++ old :: back).Nodup)
    (hranked : before.Pairwise R.Outranks)
    (hbefore : ∀ p, p ∈ before ↔ R.IsPeak (front ++ old :: back) p) :
    (Staging.attemptAll (eraseSteps rules (front ++ old :: back) front.length)
        (.start before)).Ensures
      (Staging.Attempted rules before (Settled R (front ++ back))) rules.Raised := by
  have hsub : (front ++ back).Sublist (front ++ old :: back) :=
    (List.sublist_cons_self old back).append_left front
  have hafter : (front ++ back).Nodup := hsub.nodup hnodup
  have hstart : Judged R (front ++ old :: back) before (front ++ back) [] (.start before) :=
    judged_start hranked fun p hp => ((hbefore p).1 hp).mem
  have hgone : old ∉ front ++ back := (List.nodup_cons.1 (List.nodup_middle.1 hnodup)).1
  -- the point behind the erased one
  refine Staging.attemptAll_cons (Staging.rollback_maxima hstart.toSound)
    (stage_head_ensures hR hpoints (show _ = (front ++ [old]) ++ back by simp) rfl hafter ?_ ?_ ?_
      (by simp) hstart) fun s₁ hs₁ => ?_
  · simpa using @nextSkipping_eq front back old (some front.length) (by simp)
  · simp
  · intro y back'
    have h := @prevSkipping_eq_of_ignored front
    simpa [h] using @prevValue_eq front (old :: y :: back')
  -- the point in front of it
  rw [List.append_nil] at hs₁
  refine Staging.attemptAll_cons (Staging.rollback_maxima hs₁.toSound)
    (stage_last_ensures hR hpoints rfl rfl hafter ?_ ?_ ?_ ?_ hs₁) fun s₂ hs₂ => ?_
  · exact prevSkipping_eq (by simp)
  · simp
  · rintro front' y rfl
    have h := @nextSkipping_eq_of_ignored front' back y old
    rw [show (front' ++ [y]).length = front'.length + 1 by simp, h]
    simpa using @nextValue_eq (front' ++ [y, old]) back
  · intro p hp hmem
    exact hafter.disjoint hp (mem_of_mem_head? hmem)
  -- then the erased point; all that was not judged has kept its neighbours
  refine attemptAll_defer_ensures hR hpoints (by simp) hgone ?_ hs₂ fun p hold hp => ?_
  · exact List.append_subset.2 ⟨fun q hq => List.mem_append_left _ (mem_of_mem_getLast? hq),
      fun q hq => List.mem_append_right _ (mem_of_mem_head? hq)⟩
  · simp only [List.mem_append, not_or, Option.mem_toList] at hp
    rw [hbefore, show front ++ old :: back = front ++ ([old] ++ back) by rfl,
      show front ++ back = front ++ ([] ++ back) by rfl]
    exact Rankings.isPeak_congr hnodup hafter (by simpa using hold) (by simp) hp.1 hp.2

end Store
end Peaks
