import Peaks.Proofs.OpenStaging

/-!
# Removals at a commit

Marks are resolved one by one against the same list, so all marks of tied points resolve to one
position: that of the first entry they are tied with. Popped one after another, they take as many
entries from there on. Where there are more marks than entries of that class, the entries behind it
go too, and when these run out the commit stops.

- `Rankings.tiedTo`, `Rankings.tiedWith` : the entries that a point is tied with
- `Rankings.Ranked.block_induction` : lists in maxima order, one class of tied entries after the
  other
- `Rankings.firstPlaces` : the positions that marks resolve to
- `Staging.prepare_places` : a staging that is prepared holds them
- `Staging.sweep` : what a commit makes of them, class by class
- `Staging.Balanced`, `Staging.Removes` : no class has more marks than entries, and a commit takes
  one entry for each
- `Staging.commit_removes` : the one exactly if the other
-/

namespace Peaks

variable {σ : Type}

namespace Rankings

variable {R : Rankings} {p q x y : Point} {block rest xs : List Point}

/-! ## Tied entries -/

open scoped Classical in
/-- Whether an entry is tied with the point. -/
noncomputable def tiedTo (R : Rankings) (p q : Point) : Bool :=
  decide (Tied R.Outranks q p)

/-- The entries that are tied with the point. -/
noncomputable def tiedWith (R : Rankings) (p : Point) (entries : List Point) : List Point :=
  entries.filter (R.tiedTo p)

theorem tiedTo_iff : R.tiedTo p q = true ↔ Tied R.Outranks q p := by
  classical
  exact decide_eq_true_iff

theorem tiedTo_eq_false_of_outranks (h : R.Outranks p q) : R.tiedTo p q = false :=
  Bool.eq_false_iff.2 fun htied => (tiedTo_iff.1 htied).2 h

/-- Tied points are tied with the same entries. -/
theorem tiedTo_congr (h : Tied R.Outranks p q) : R.tiedTo p = R.tiedTo q := by
  funext x
  rw [Bool.eq_iff_iff, tiedTo_iff, tiedTo_iff]
  exact ⟨fun hx => hx.trans h, fun hx => hx.trans h.symm⟩

/-- A list in maxima order is taken apart into its first class of tied entries and those that it
outranks. -/
theorem Ranked.block_induction {motive : (xs : List Point) → R.Ranked xs → Prop}
    (nil : motive [] List.Pairwise.nil)
    (block : ∀ x block rest (hranked : R.Ranked (x :: block ++ rest)) (hrest : R.Ranked rest),
      (∀ y ∈ x :: block, Tied R.Outranks y x) → (∀ y ∈ rest, R.Outranks x y) → motive rest hrest →
      motive (x :: block ++ rest) hranked) :
    ∀ xs (hranked : R.Ranked xs), motive xs hranked := by
  intro xs hranked
  induction hn : xs.length using Nat.strong_induction_on generalizing xs with
  | _ n ih =>
    cases xs with
    | nil =>
        exact nil
    | cons x xs =>
        have hcons := List.pairwise_cons.1 hranked
        -- behind the first entry that is outranked there is no tied one any more
        obtain ⟨near, far, rfl, hnear, hfar⟩ :=
          exists_split (P := fun y => ¬ R.Outranks x y) hcons.2
          fun y z hyz hz hy => hz (before_of_before_of_not hy hyz)
        have hfar' : R.Ranked far := (List.pairwise_append.1 hcons.2).2.1
        refine block x near far hranked hfar' ?_ (fun y hy => not_not.1 (hfar y hy)) ?_
        · refine List.forall_mem_cons.2 ⟨Tied.refl x, fun y hy => ?_⟩
          exact ⟨hcons.1 y (List.mem_append_left _ hy), hnear y hy⟩
        · refine ih far.length ?_ far hfar' rfl
          rw [← hn, List.length_cons, List.length_append]
          omega

/-! ## The first class of a list -/

theorem tiedWith_block (hblock : ∀ y ∈ block, Tied R.Outranks y x)
    (hrest : ∀ y ∈ rest, R.Outranks x y)
    (hp : Tied R.Outranks x p) : R.tiedWith p (block ++ rest) = block := by
  have hin : block.filter (R.tiedTo p) = block :=
    List.filter_eq_self.2 fun y hy => tiedTo_iff.2 ((hblock y hy).trans hp)
  have hout : rest.filter (R.tiedTo p) = [] := by
    refine List.filter_eq_nil_iff.2 fun y hy => ?_
    rw [← tiedTo_congr hp, tiedTo_eq_false_of_outranks (hrest y hy)]
    exact Bool.false_ne_true
  rw [tiedWith, List.filter_append, hin, hout, List.append_nil]

theorem tiedWith_rest (hblock : ∀ y ∈ block, Tied R.Outranks y x) (hp : ¬ Tied R.Outranks x p) :
    R.tiedWith p (block ++ rest) = R.tiedWith p rest := by
  have hout : block.filter (R.tiedTo p) = [] :=
    List.filter_eq_nil_iff.2 fun y hy htied => hp ((hblock y hy).symm.trans (tiedTo_iff.1 htied))
  rw [tiedWith, List.filter_append, hout, List.nil_append, tiedWith]

/-! ## Where marks resolve to -/

/-- For each point the position of the first entry that it is tied with, if there is one. -/
noncomputable def firstPlaces (R : Rankings) (doomed entries : List Point) : List Nat :=
  doomed.filterMap fun p => entries.findIdx? (R.tiedTo p)

theorem firstPlaces_cons (p : Point) (doomed entries : List Point) :
    R.firstPlaces (p :: doomed) entries = (entries.findIdx? (R.tiedTo p)).toList ++
      R.firstPlaces doomed entries := by
  unfold firstPlaces
  cases hfind : entries.findIdx? (R.tiedTo p) with
  | none =>
      rw [List.filterMap_cons, hfind]
      rfl
  | some i =>
      rw [List.filterMap_cons, hfind]
      rfl

/-- Marks in the first class resolve to its beginning, all others as if it were not there. -/
theorem firstPlaces_block (hblock : ∀ y ∈ x :: block, Tied R.Outranks y x)
    (hrest : ∀ y ∈ rest, R.Outranks x y)
    (doomed : List Point) :
    (R.firstPlaces doomed (x :: block ++ rest)).Perm
      ((R.firstPlaces doomed rest).map (· + (x :: block).length) ++ List.replicate
        (R.tiedWith x doomed).length 0) := by
  induction doomed with
  | nil =>
      exact List.Perm.refl _
  | cons p doomed ih =>
      unfold tiedWith at ih ⊢
      rw [firstPlaces_cons, firstPlaces_cons]
      by_cases hp : Tied R.Outranks p x
      · have hfirst : (x :: block ++ rest).findIdx? (R.tiedTo p) = some 0 := by
          rw [List.cons_append, List.findIdx?_cons, if_pos (tiedTo_iff.2 hp.symm)]
        have hnone : rest.findIdx? (R.tiedTo p) = none := by
          refine List.findIdx?_eq_none_iff.2 fun y hy => ?_
          rw [tiedTo_congr hp, tiedTo_eq_false_of_outranks (hrest y hy)]
        rw [hfirst, hnone, List.filter_cons_of_pos (tiedTo_iff.2 hp)]
        exact (ih.cons 0).trans List.perm_middle.symm
      · have hnone : (x :: block).findIdx? (R.tiedTo p) = none := by
          refine List.findIdx?_eq_none_iff.2 fun y hy => Bool.eq_false_iff.2 fun htied => ?_
          exact hp ((tiedTo_iff.1 htied).symm.trans (hblock y hy))
        rw [List.findIdx?_append, hnone, Option.none_or,
          List.filter_cons_of_neg fun htied => hp (tiedTo_iff.1 htied)]
        cases rest.findIdx? (R.tiedTo p) with
        | none =>
            exact ih
        | some i =>
            exact ih.cons (i + (x :: block).length)

end Rankings

/-- The position that a search finds is that of the first entry tied with the point. -/
theorem MaximaIndex.find?_tied {rules : Rules σ} {R : Rankings} (hR : rules.Follow R)
    {maxima : List Point}
    {point : Point} (hranked : R.Ranked maxima) (hcovers : ∀ q ∈ maxima, R.Covers q)
    (hpoint : R.Covers point) :
    (find? rules maxima point).Ensures
      (fun found _ => found = maxima.findIdx? (R.tiedTo point)) rules.Raised := by
  obtain ⟨front, back, rfl, hfront, hback⟩ :=
    exists_split (P := fun x => R.Outranks x point) hranked fun _ _ hxy hy =>
      before_of_not_of_before hxy hy
  have hnone : front.findIdx? (R.tiedTo point) = none :=
    List.findIdx?_eq_none_iff.2 fun x hx => Bool.eq_false_iff.2 fun h =>
      (Rankings.tiedTo_iff.1 h).1 (hfront x hx)
  refine (position_ensures hR hpoint hcovers hfront hback).bind fun k hk => ?_
  subst hk
  rw [List.findIdx?_append, hnone, Option.none_or]
  cases back with
  | nil =>
      simp only [List.append_nil, List.getElem?_eq_none (Nat.le_refl _)]
      exact .pure fun _ => rfl
  | cons q back =>
      simp only [List.getElem?_append_right (Nat.le_refl _), Nat.sub_self, List.getElem?_cons_zero]
      refine (hR.compare_ensures (hcovers q (by simp)) hpoint).bind fun n hn => ?_
      rw [List.findIdx?_cons]
      split
      · next hzero =>
        have htied := hn.eq_zero_iff.1 (beq_iff_eq.1 hzero)
        rw [if_pos (Rankings.tiedTo_iff.2 htied)]
        exact .pure fun _ => by simp
      · next hzero =>
        have hnot : ¬ Tied R.Outranks q point := fun h => hzero (beq_iff_eq.2 (hn.eq_zero_iff.2 h))
        have hpoint : R.Outranks point q := not_not.1 fun h => hnot ⟨hback q (by simp), h⟩
        -- what stands behind an outranked entry is outranked too
        have hbehind : back.findIdx? (R.tiedTo point) = none := by
          refine List.findIdx?_eq_none_iff.2 fun x hx => Rankings.tiedTo_eq_false_of_outranks ?_
          exact before_of_before_of_not hpoint
            ((List.pairwise_cons.1 (List.pairwise_append.1 hranked).2.1).1 x hx)
        rw [if_neg fun h => hnot (Rankings.tiedTo_iff.1 h), hbehind]
        exact .pure fun _ => rfl

namespace Staging

variable {rules : Rules σ} {R : Rankings} {s : Staging} {x : Point}
  {block rest doomed maxima : List Point}

theorem resolve_places (hR : rules.Follow R) (hranked : R.Ranked maxima)
    (hmaxima : ∀ q ∈ maxima, R.Covers q)
    (doomed : List Point) (hdoomed : ∀ q ∈ doomed, R.Covers q) :
    (resolve rules maxima doomed).Ensures
      (fun positions _ => positions = R.firstPlaces doomed maxima)
      rules.Raised := by
  induction doomed with
  | nil =>
      exact .pure fun _ => rfl
  | cons p doomed ih =>
      have hcons := List.forall_mem_cons.1 hdoomed
      rw [resolve]
      refine (MaximaIndex.find?_tied hR hranked hmaxima hcons.1).bind fun found hfound => ?_
      refine (ih hcons.2).map fun others _ hothers => ?_
      rw [Rankings.firstPlaces_cons, hfound, hothers]

/-- Preparing leaves all as it is but the positions. -/
theorem prepare_places (hR : rules.Follow R) (hranked : R.Ranked s.maxima)
    (hmaxima : ∀ q ∈ s.maxima, R.Covers q)
    (hdoomed : ∀ q ∈ s.doomed, R.Covers q) :
    (s.prepare rules).Ensures
      (fun s' _ => s' = { s with positions := descending (R.firstPlaces s.doomed s.maxima) })
      rules.Raised := by
  refine (resolve_places hR hranked hmaxima s.doomed hdoomed).map fun positions _ hpositions => ?_
  rw [hpositions]

/-! ## Popping -/

theorem descending_eq {positions sorted : List Nat} (hperm : positions.Perm sorted)
    (hsorted : sorted.Pairwise (· ≥ ·)) : descending positions = sorted :=
  ((descending_perm positions).trans hperm).eq_of_pairwise
    (fun _ _ _ _ hab hba => le_antisymm hba hab)
    (descending_pairwise positions) hsorted

theorem pop_of_length_le {xs : List Point} {i : Nat} (h : xs.length ≤ i) :
    ∃ fault, Position.pop xs (i : Int) = .error fault := by
  have hresolve : Position.resolve? xs.length (i : Int) = none := by
    have hnot : ¬ i < xs.length := Nat.not_lt.2 h
    have hnonneg : ¬ (i : Int) < 0 := by omega
    simp [Position.resolve?, hnonneg, hnot]
  rw [Position.pop, hresolve]
  exact ⟨_, rfl⟩

theorem popAll_cons_of_lt {i : Nat} {positions : List Nat} {xs : List Point} (h : i < xs.length) :
    popAll (i :: positions) xs = popAll positions (xs.eraseIdx i) := by
  rw [popAll, Position.pop_natCast h]

theorem popAll_cons_of_length_le {i : Nat} {xs : List Point} (h : xs.length ≤ i)
    (positions : List Nat) :
    ∃ fault, popAll (i :: positions) xs = (xs, some fault) := by
  obtain ⟨fault, hpop⟩ := pop_of_length_le h
  exact ⟨fault, by rw [popAll, hpop]⟩

theorem popAll_append (positions later : List Nat) (xs : List Point) :
    popAll (positions ++ later) xs =
      match popAll positions xs with
      | (ys, none) => popAll later ys
      | (ys, some fault) => (ys, some fault) := by
  induction positions generalizing xs with
  | nil =>
      rfl
  | cons i positions ih =>
      rw [List.cons_append]
      rcases Nat.lt_or_ge i xs.length with hi | hi
      · rw [popAll_cons_of_lt hi, popAll_cons_of_lt hi]
        exact ih _
      · rw [popAll, popAll]
        obtain ⟨fault, hpop⟩ := pop_of_length_le hi
        rw [hpop]

/-- Positions behind a block leave the block alone. -/
theorem popAll_shift (block : List Point) (positions : List Nat) (xs : List Point) :
    (popAll (positions.map (· + block.length)) (block ++ xs)).1 = block ++ (popAll positions xs).1 ∧
      ((popAll (positions.map (· + block.length)) (block ++ xs)).2 = none ↔
        (popAll positions xs).2 = none) := by
  induction positions generalizing xs with
  | nil =>
      exact ⟨rfl, Iff.rfl⟩
  | cons i positions ih =>
      rw [List.map_cons]
      rcases Nat.lt_or_ge i xs.length with hi | hi
      · have hshift : i + block.length < (block ++ xs).length := by
          rw [List.length_append]
          omega
        have herase : (block ++ xs).eraseIdx (i + block.length) = block ++ xs.eraseIdx i := by
          rw [List.eraseIdx_append_of_length_le (Nat.le_add_left _ _), Nat.add_sub_cancel]
        rw [popAll_cons_of_lt hi, popAll_cons_of_lt hshift, herase]
        exact ih _
      · have hshift : (block ++ xs).length ≤ i + block.length := by
          rw [List.length_append]
          omega
        obtain ⟨fault, hpop⟩ := popAll_cons_of_length_le hi positions
        obtain ⟨fault', hpop'⟩ := popAll_cons_of_length_le hshift (positions.map (· + block.length))
        rw [hpop, hpop']
        exact ⟨rfl, by simp⟩

theorem popAll_front (n : Nat) (xs : List Point) :
    (popAll (List.replicate n 0) xs).1 = xs.drop n ∧
      ((popAll (List.replicate n 0) xs).2 = none ↔ n ≤ xs.length) := by
  induction n generalizing xs with
  | zero =>
      exact ⟨rfl, by simp [popAll]⟩
  | succ n ih =>
      rw [List.replicate_succ]
      cases xs with
      | nil =>
          have hnil : ([] : List Point).length ≤ 0 := Nat.le_refl 0
          obtain ⟨fault, hpop⟩ := popAll_cons_of_length_le hnil (List.replicate n 0)
          rw [hpop]
          exact ⟨rfl, by simp⟩
      | cons x xs =>
          rw [popAll_cons_of_lt (Nat.zero_lt_succ _), List.eraseIdx_cons_zero, List.drop_succ_cons,
            List.length_cons, Nat.add_le_add_iff_right]
          exact ih xs

/-! ## Class by class -/

/-- What a commit makes of a list when the marks are resolved in it. -/
noncomputable def sweep (R : Rankings) (doomed maxima : List Point) : List Point × Option Fault :=
  popAll (descending (R.firstPlaces doomed maxima)) maxima

theorem sweep_sublist (R : Rankings) (doomed maxima : List Point) :
    (sweep R doomed maxima).1.Sublist maxima :=
  popAll_sublist _ _

theorem sweep_block (hblock : ∀ y ∈ x :: block, Tied R.Outranks y x)
    (hrest : ∀ y ∈ rest, R.Outranks x y) :
    sweep R doomed (x :: block ++ rest) =
      match popAll ((descending (R.firstPlaces doomed rest)).map (· + (x :: block).length))
        (x :: block ++ rest) with
      | (ys, none) => popAll (List.replicate (R.tiedWith x doomed).length 0) ys
      | (ys, some fault) => (ys, some fault) := by
  rw [← popAll_append, sweep]
  congr 1
  refine descending_eq ?_ ?_
  · refine (Rankings.firstPlaces_block hblock hrest doomed).trans (List.Perm.append_right _ ?_)
    exact (descending_perm _).symm.map _
  · refine List.pairwise_append.2 ⟨?_, List.pairwise_replicate.2 (Or.inr (Nat.le_refl 0)), ?_⟩
    · exact List.pairwise_map.2 ((descending_pairwise _).imp fun h => Nat.add_le_add_right h _)
    · intro i _ j hj
      rw [List.eq_of_mem_replicate hj]
      exact Nat.zero_le i

/-- The rest is swept first, and then the marks of the first class take entries from the front. -/
theorem sweep_block_eq_none_iff (hblock : ∀ y ∈ x :: block, Tied R.Outranks y x)
    (hrest : ∀ y ∈ rest, R.Outranks x y) :
    (sweep R doomed (x :: block ++ rest)).2 = none ↔ (sweep R doomed rest).2 = none ∧
      (R.tiedWith x doomed).length ≤ (x :: block).length + (sweep R doomed rest).1.length := by
  rw [sweep_block hblock hrest, sweep]
  have hshift := popAll_shift (x :: block) (descending (R.firstPlaces doomed rest)) rest
  generalize popAll (List.map _ _) (x :: block ++ rest) = done at hshift ⊢
  obtain ⟨ys, _ | fault⟩ := done
  · obtain ⟨rfl, hnone⟩ := hshift
    rw [(popAll_front _ _).2, List.length_append]
    exact ⟨fun h => ⟨hnone.1 rfl, h⟩, fun h => h.2⟩
  · constructor
    · intro h
      cases h
    · rintro ⟨hnone, _⟩
      cases hshift.2.2 hnone

theorem sweep_block_fst (hblock : ∀ y ∈ x :: block, Tied R.Outranks y x)
    (hrest : ∀ y ∈ rest, R.Outranks x y)
    (hnone : (sweep R doomed rest).2 = none) :
    (sweep R doomed (x :: block ++ rest)).1 = (x :: block).drop (R.tiedWith x doomed).length ++
      (sweep R doomed rest).1.drop ((R.tiedWith x doomed).length - (x :: block).length) := by
  rw [sweep] at hnone
  rw [sweep_block hblock hrest, sweep, ← List.drop_append]
  have hshift := popAll_shift (x :: block) (descending (R.firstPlaces doomed rest)) rest
  generalize popAll (List.map _ _) (x :: block ++ rest) = done at hshift ⊢
  obtain ⟨ys, _ | fault⟩ := done
  · obtain ⟨rfl, _⟩ := hshift
    exact (popAll_front _ _).1
  · cases hshift.2.2 hnone

/-! ## As many entries as marks -/

section Classes

variable {p : Point}

theorem sweep_nil (R : Rankings) (doomed : List Point) : sweep R doomed [] = ([], none) := by
  have hplaces : R.firstPlaces doomed [] = [] :=
    List.filterMap_eq_nil_iff.2 fun p _ => List.findIdx?_nil
  rw [sweep, hplaces]
  rfl

theorem tiedWith_sweep_block (hblock : ∀ y ∈ x :: block, Tied R.Outranks y x)
    (hrest : ∀ y ∈ rest, R.Outranks x y)
    (hnone : (sweep R doomed rest).2 = none) (hp : Tied R.Outranks x p) :
    R.tiedWith p (sweep R doomed (x :: block ++ rest)).1 =
      (R.tiedWith p (x :: block ++ rest)).drop (R.tiedWith p doomed).length := by
  have hmarks : R.tiedWith p doomed = R.tiedWith x doomed := by
    rw [Rankings.tiedWith, ← Rankings.tiedTo_congr hp, Rankings.tiedWith]
  rw [sweep_block_fst hblock hrest hnone, Rankings.tiedWith_block hblock hrest hp, hmarks]
  refine Rankings.tiedWith_block (fun y hy => hblock y (List.mem_of_mem_drop hy))
    (fun y hy => hrest y ?_) hp
  exact (sweep_sublist R doomed rest).subset (List.mem_of_mem_drop hy)

theorem tiedWith_sweep_rest (hblock : ∀ y ∈ x :: block, Tied R.Outranks y x)
    (hrest : ∀ y ∈ rest, R.Outranks x y)
    (hnone : (sweep R doomed rest).2 = none) (hp : ¬ Tied R.Outranks x p) :
    R.tiedWith p (sweep R doomed (x :: block ++ rest)).1 =
      R.tiedWith p
        ((sweep R doomed rest).1.drop ((R.tiedWith x doomed).length - (x :: block).length)) := by
  rw [sweep_block_fst hblock hrest hnone]
  exact Rankings.tiedWith_rest (fun y hy => hblock y (List.mem_of_mem_drop hy)) hp

/-- Where no removal fails, each class loses at least as many entries as it has marks, those in
front first. -/
theorem sweep_suffix (hranked : R.Ranked maxima)
    (hnone : (sweep R doomed maxima).2 = none) (p : Point) :
    R.tiedWith p (sweep R doomed maxima).1 <:+ (R.tiedWith p maxima).drop
      (R.tiedWith p doomed).length := by
  induction maxima, hranked using Rankings.Ranked.block_induction with
  | nil =>
      rw [sweep_nil]
      exact List.nil_suffix
  | block x block rest _ _ hblock hrest ih =>
      have hsplit := (sweep_block_eq_none_iff hblock hrest).1 hnone
      by_cases hp : Tied R.Outranks x p
      · exact ⟨[], by rw [List.nil_append, tiedWith_sweep_block hblock hrest hsplit.1 hp]⟩
      · rw [tiedWith_sweep_rest hblock hrest hsplit.1 hp, Rankings.tiedWith_rest hblock hp]
        exact ((List.drop_suffix _ _).filter _).trans (ih hsplit.1)

/-- No class of tied entries has more marks than entries. -/
def Balanced (R : Rankings) (doomed maxima : List Point) : Prop :=
  ∀ q ∈ maxima, (R.tiedWith q doomed).length ≤ (R.tiedWith q maxima).length

theorem balanced_block (hblock : ∀ y ∈ x :: block, Tied R.Outranks y x)
    (hrest : ∀ y ∈ rest, R.Outranks x y) :
    Balanced R doomed (x :: block ++ rest) ↔
      (R.tiedWith x doomed).length ≤ (x :: block).length ∧ Balanced R doomed rest := by
  have hfirst : ∀ q ∈ x :: block, R.tiedWith q doomed = R.tiedWith x doomed ∧
      R.tiedWith q (x :: block ++ rest) = x :: block := by
    intro q hq
    refine ⟨?_, Rankings.tiedWith_block hblock hrest (hblock q hq).symm⟩
    rw [Rankings.tiedWith, Rankings.tiedTo_congr (hblock q hq), Rankings.tiedWith]
  have hlater : ∀ q ∈ rest, R.tiedWith q (x :: block ++ rest) = R.tiedWith q rest :=
    fun q hq => Rankings.tiedWith_rest hblock fun htied => htied.1 (hrest q hq)
  constructor
  · intro h
    refine ⟨?_, fun q hq => ?_⟩
    · have hx := h x (List.mem_append_left _ List.mem_cons_self)
      rwa [(hfirst x List.mem_cons_self).2] at hx
    · have hq' := h q (List.mem_append_right _ hq)
      rwa [hlater q hq] at hq'
  · rintro ⟨hle, h⟩ q hq
    rcases List.mem_append.1 hq with hq | hq
    · rw [(hfirst q hq).1, (hfirst q hq).2]
      exact hle
    · rw [hlater q hq]
      exact h q hq

/-- Each class loses as many entries as it has marks, or all it has. -/
def Removes (R : Rankings) (doomed maxima left : List Point) : Prop :=
  ∀ p, R.tiedWith p left = (R.tiedWith p maxima).drop (R.tiedWith p doomed).length

/-- Taking entries from the front makes the class of the first one smaller. -/
theorem eq_zero_of_tiedWith_drop {ys : List Point} {k : Nat} (hk : k ≤ ys.length)
    (h : ∀ y ∈ ys, (R.tiedWith y ys).length ≤ (R.tiedWith y (ys.drop k)).length) : k = 0 := by
  cases ys with
  | nil =>
      exact Nat.le_zero.1 hk
  | cons y ys =>
      cases k with
      | zero =>
          rfl
      | succ k =>
          have hy : R.tiedWith y (y :: ys) = y :: R.tiedWith y ys :=
            List.filter_cons_of_pos (Rankings.tiedTo_iff.2 (Tied.refl y))
          have hle := h y List.mem_cons_self
          have hdrop : (R.tiedWith y (ys.drop k)).length ≤ (R.tiedWith y ys).length :=
            ((List.drop_suffix k ys).filter _).length_le
          rw [hy, List.length_cons, List.drop_succ_cons] at hle
          omega

/-- One entry goes for each mark exactly if no class has more marks than entries. -/
theorem sweep_removes_iff (hranked : R.Ranked maxima) :
    (sweep R doomed maxima).2 = none ∧ Removes R doomed maxima (sweep R doomed maxima).1 ↔
      Balanced R doomed maxima := by
  induction maxima, hranked using Rankings.Ranked.block_induction with
  | nil =>
      rw [sweep_nil]
      exact ⟨fun _ q hq => absurd hq List.not_mem_nil, fun _ => ⟨rfl, fun p => List.drop_nil.symm⟩⟩
  | block x block rest _ hranked hblock hrest ih =>
      rw [balanced_block hblock hrest, ← ih, sweep_block_eq_none_iff hblock hrest]
      constructor
      · rintro ⟨⟨hnone, hle⟩, hremoves⟩
        -- what is left of a later class is as long as if its own marks alone had been served
        have hlater : ∀ p, ¬ Tied R.Outranks x p →
            (R.tiedWith p rest).drop (R.tiedWith p doomed).length =
            R.tiedWith p ((sweep R doomed rest).1.drop
              ((R.tiedWith x doomed).length - (x :: block).length)) := by
          intro p hp
          rw [← tiedWith_sweep_rest hblock hrest hnone hp, hremoves p,
            Rankings.tiedWith_rest hblock hp]
        have hzero : (R.tiedWith x doomed).length - (x :: block).length = 0 := by
          refine eq_zero_of_tiedWith_drop (R := R) (Nat.sub_le_iff_le_add'.2 hle) fun y hy => ?_
          have hy' : R.Outranks x y := hrest y ((sweep_sublist R doomed rest).subset hy)
          rw [← hlater y fun htied => htied.1 hy']
          exact (sweep_suffix hranked hnone y).length_le
        refine ⟨Nat.sub_eq_zero_iff_le.1 hzero, hnone, fun p => ?_⟩
        by_cases hp : Tied R.Outranks x p
        · -- neither the rest nor what is left of it has an entry of the first class
          have hnil : ∀ ys : List Point, ys.Sublist rest → R.tiedWith p ys = [] := by
            intro ys hys
            have hempty : ∀ y ∈ ([] : List Point), Tied R.Outranks y x := by simp
            exact Rankings.tiedWith_block hempty (fun y hy => hrest y (hys.subset hy)) hp
          rw [hnil rest (List.Sublist.refl _), hnil _ (sweep_sublist R doomed rest), List.drop_nil]
        · rw [hlater p hp, hzero, List.drop_zero]
      · rintro ⟨hle, hnone, hremoves⟩
        refine ⟨⟨hnone, hle.trans (Nat.le_add_right _ _)⟩, fun p => ?_⟩
        by_cases hp : Tied R.Outranks x p
        · exact tiedWith_sweep_block hblock hrest hnone hp
        · rw [tiedWith_sweep_rest hblock hrest hnone hp, Nat.sub_eq_zero_of_le hle,
            List.drop_zero, hremoves p,
            Rankings.tiedWith_rest hblock hp]

end Classes

/-! ## After any requests -/

/-- The point that a request marks. -/
def Request.deferred? : Request → Option Point
  | .defer p => some p
  | _ => none

theorem run_doomed (rules : Rules σ) (request : Request) (s : Staging) :
    (request.run rules s).Ensures (fun s' _ => s'.doomed = s.doomed ++ request.deferred?.toList)
      (fun _ _ => request.deferred? = none) := by
  have hkept : s.doomed = s.doomed ++ [] := (List.append_nil _).symm
  cases request with
  | insert p =>
      have hinsert : (s.insert rules p).Ensures (fun s' _ => s'.doomed = s.doomed)
          (fun _ _ => True) :=
        (any_ensures _).bind fun _ _ => (any_ensures _).map fun _ _ _ => rfl
      exact fun host => (hinsert host).imp (fun _ _ h => h.trans hkept) fun _ _ _ => rfl
  | defer p =>
      exact .pure fun _ => rfl
  | prepare =>
      have hprepare : (s.prepare rules).Ensures (fun s' _ => s'.doomed = s.doomed)
          (fun _ _ => True) :=
        (any_ensures _).map fun _ _ _ => rfl
      exact fun host => (hprepare host).imp (fun _ _ h => h.trans hkept) fun _ _ _ => rfl
  | rollback =>
      exact .pure fun _ => hkept

/-- Every mark is kept, and no request that fails is one. -/
theorem serve_doomed (rules : Rules σ) (requests : List Request) (s : Staging) :
    (serve rules requests s).Ensures
      (fun s' _ => s'.doomed = s.doomed ++ requests.filterMap Request.deferred?)
      (fun _ _ => False) := by
  induction requests generalizing s with
  | nil =>
      exact .pure fun _ => (List.append_nil _).symm
  | cons request requests ih =>
      intro host
      rw [serve]
      refine (run_doomed rules request s host).settle_bind (fun s' t hs' => ?_)
        fun fault t hnone => ?_
      · refine (ih s' t).imp (fun _ _ h => ?_) fun _ _ h => h
        rw [h, hs', List.append_assoc]
        cases hdeferred : request.deferred? with
        | none =>
            rw [List.filterMap_cons_none hdeferred]
            rfl
        | some p =>
            rw [List.filterMap_cons_some hdeferred]
            rfl
      · rw [List.filterMap_cons_none hnone]
        exact ih s t

/-- A commit of what was prepared. The entries that are left stand in order. Where it does not stop,
each class of tied entries has lost one for each mark at least, or all. It has lost no more exactly
if no class has more marks than entries, and then it does not stop. -/
structure Commits (R : Rankings) (s : Staging) : Prop where
  ranked : R.Ranked s.commit.1
  sublist : s.commit.1.Sublist s.maxima
  suffix : s.commit.2 = none →
    ∀ p, R.tiedWith p s.commit.1 <:+ (R.tiedWith p s.maxima).drop (R.tiedWith p s.doomed).length
  removes_iff : s.commit.2 = none ∧ Removes R s.doomed s.maxima s.commit.1 ↔
    Balanced R s.doomed s.maxima

/-- Whatever was requested before, preparing either fails because a comparison does, or leads to a
commit as told. -/
theorem commit_removes (hR : rules.Follow R) (hranked : R.Ranked maxima) (requests : List Request)
    (hcovers : ∀ p ∈ maxima ++ requests.flatMap Request.points, R.Covers p)
    (hknown : Known (maxima ++ requests.flatMap Request.points)) :
    (serve rules requests (start maxima) >>= fun s => s.prepare rules).Ensures
      (fun s _ => s.doomed = requests.filterMap Request.deferred? ∧ s.Commits R) rules.Raised := by
  intro host
  have hserve := (serve_recoverable hR hranked requests hcovers hknown host).and
    (serve_doomed rules requests (start maxima) host)
  refine (hserve.imp (fun _ _ h => h) fun _ _ h => h.1.elim).bind ?_
  rintro s t ⟨hs, hdoomed⟩
  refine (prepare_places hR hs.ranked (fun q hq => hcovers q (hs.maxima_mem q hq))
    (fun q hq => hcovers q (hs.doomed_mem q hq)) t).imp ?_ fun _ _ h => h
  rintro _ _ rfl
  have hsublist := sweep_sublist R s.doomed s.maxima
  exact ⟨hdoomed, hs.ranked.sublist hsublist, hsublist, sweep_suffix hs.ranked,
    sweep_removes_iff hs.ranked⟩

/-- One mark is of a point that went in, one of a point that is only tied with entries, and one of
neither. -/
def weakMarks : List Request :=
  [.insert (weakPoint 15), .defer (weakPoint 15), .defer (weakPoint 24), .insert (weakPoint 15),
   .defer (weakPoint 12), .defer (weakPoint 31)]

def quietHost : Surroundings :=
  { meters := [{}, {}] }

/-- What preparing and committing leads to, with points told by their numbers. -/
def committed (requests : List Request) (maxima : List Point) :
    Option (List Nat × List Nat × Option String) :=
  ((serve .metered requests (start maxima) >>= fun s => s.prepare .metered).outcome
    quietHost).toOption.map fun r =>
    (r.1.maxima.map Point.id, r.1.commit.1.map Point.id, r.1.commit.2.map Fault.message)

theorem commit_removes_weak :
    committed weakMarks weakMaxima = some ([5, 15, 15, 11, 13, 24], [5, 11, 13], none) ∧
    (serve .metered weakMarks (start weakMaxima) >>= fun s => s.prepare .metered).Ensures
      (fun s _ => s.doomed = weakMarks.filterMap Request.deferred? ∧ s.Commits ⟨.tens, .tens⟩)
      Rules.metered.Raised := by
  refine ⟨by decide +kernel, commit_removes Rules.metered_follow weakMaxima_ranked _ ?_ ?_⟩
  · exact weakPoint_covers [5, 11, 13, 24, 15, 15, 24, 15, 12, 31]
  · exact weakPoint_known [5, 11, 13, 24, 15, 15, 24, 15, 12, 31]

/-- Two marks on one entry: the commit stops, or takes an entry that no mark is tied with. -/
theorem commit_overmarked :
    committed [.defer (weakPoint 11), .defer (weakPoint 11)] [weakPoint 11] =
      some ([11], [], some "pop from empty list") ∧
    committed [.defer (weakPoint 11), .defer (weakPoint 11)] [weakPoint 11, weakPoint 24] =
      some ([11, 24], [], none) ∧
    Rankings.Ranked ⟨.tens, .tens⟩ [weakPoint 11, weakPoint 24] ∧
    Rankings.Outranks ⟨.tens, .tens⟩ (weakPoint 11) (weakPoint 24) := by
  refine ⟨by decide +kernel, by decide +kernel, ?_, Or.inl ?_⟩
  · simp only [Rankings.Ranked, Rankings.Outranks, Ranking.tens, Tied]
    decide +kernel
  · simp only [Ranking.tens]
    decide +kernel

end Staging

end Peaks
