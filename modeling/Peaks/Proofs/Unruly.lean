import Peaks.Proofs.Effects
import Peaks.Proofs.Versions

/-!
# Edits under any orderings

Orderings that answer whatever they like, and differently each time, can make an edit look for
entries where they are not. What a failed edit leaves behind is then still the content it found, but
a point that was put in although it was already there may be taken out again at its other place, a
commit that is to remove two entries at one position may stop half-way, and a failure that cannot be
told is not taken back.

- `Known`, `Store.Identified` : points are known by their numbers, in both lists of a store
- `Staging.Undoable`    : what every staged step keeps, whatever is answered
- `Staging.rollback_perm` : a rollback gives back the entries of the beginning, if not their order
- `Staging.commit_of_nodup` : only two removals at one position can stop a commit
- `Editor.Grown`        : the editors that edits lead to from an empty store
- `Editor.failed_edit_leaves` : what a failed edit leaves behind
-/

namespace Peaks

variable {σ α : Type}

/-! ## Searching -/

namespace Search

/-- Whatever the probe answers, the place found lies in the list. -/
theorem boundaryFrom_le (probe : α → Attempt σ Bool) (offset count : Nat) (window : List α) :
    (boundaryFrom probe offset count window).Ensures (fun k _ => k ≤ offset + count)
      (fun _ _ => True) := by
  induction count using Nat.strong_induction_on generalizing offset window with
  | _ count ih =>
    cases count with
    | zero =>
        rw [boundaryFrom]
        exact .pure fun _ => Nat.le_refl _
    | succ count =>
        rw [boundaryFrom]
        split
        · exact .pure fun _ => Nat.le_add_right _ _
        · next x rest hdrop =>
          have hprobe : (probe x).Ensures (fun _ _ => True) (fun _ _ => True) :=
            .of_runs (fun _ _ _ _ => trivial) fun _ _ _ _ => trivial
          refine hprobe.bind fun yes _ => ?_
          split
          · exact (ih _ (by omega) _ rest).mono fun k _ hk => by omega
          · exact (ih _ (by omega) offset window).mono fun k _ hk => by omega

theorem boundary_le (probe : α → Attempt σ Bool) (xs : List α) :
    (boundary probe xs).Ensures (fun k _ => k ≤ xs.length) (fun _ _ => True) :=
  (boundaryFrom_le probe 0 xs.length xs).mono fun k _ hk => by omega

end Search

theorem any_ensures (x : Attempt σ α) : x.Ensures (fun _ _ => True) (fun _ _ => True) :=
  .of_runs (fun _ _ _ _ => trivial) fun _ _ _ _ => trivial

theorem MaximaIndex.find?_lt (rules : Rules σ) (entries : List Point) (point : Point) :
    (find? rules entries point).Ensures (fun found _ => ∀ i ∈ found, i < entries.length)
      (fun _ _ => True) := by
  refine (any_ensures (position rules entries point)).bind fun index _ => ?_
  cases hentry : entries[index]? with
  | none =>
      exact .pure fun _ => by simp
  | some entry =>
      refine (any_ensures (compare rules entry point)).bind fun sign _ => ?_
      split
      · refine .pure fun _ i hi => ?_
        obtain rfl : index = i := by simpa using hi
        exact (List.getElem?_eq_some_iff.1 hentry).1
      · exact .pure fun _ => by simp

/-- Points with one number are one point. -/
def Known (points : List Point) : Prop :=
  ∀ p ∈ points, ∀ q ∈ points, p.same q → p = q

/-! ## Staging -/

namespace Staging

variable {rules : Rules σ} {points before : List Point} {s : Staging} {p : Point} {i k : Nat}

/-- An edit among `points` that began with the maxima `before` and has looked at no position below
`k`. -/
structure Undoable (points before : List Point) (k : Nat) (s : Staging) : Prop where
  perm : s.maxima.Perm (s.inserted ++ before)
  placed : ∀ p ∈ s.inserted, ∃ j, k ≤ j ∧ points[j]? = some p
  nodup : s.inserted.Nodup
  undo : (∀ p ∈ s.inserted, p ∉ before) → s.rollback.maxima = before

theorem undoable_start (points before : List Point) (k : Nat) :
    (start before).Undoable points before k where
  perm := List.Perm.refl _
  placed := by simp [start]
  nodup := List.nodup_nil
  undo := fun _ => rfl

theorem Undoable.mono (h : s.Undoable points before k) (hi : i ≤ k) :
    s.Undoable points before i where
  perm := h.perm
  placed := by
    intro p hp
    rcases h.placed p hp with ⟨j, hj, hget⟩
    exact ⟨j, hi.trans hj, hget⟩
  nodup := h.nodup
  undo := h.undo

theorem Undoable.mem (h : s.Undoable points before k) : ∀ p ∈ s.maxima, p ∈ points ++ before := by
  intro p hp
  rcases List.mem_append.1 (h.perm.mem_iff.1 hp) with hp | hp
  · rcases h.placed p hp with ⟨j, _, hget⟩
    exact List.mem_append_left _ (List.mem_of_getElem? hget)
  · exact List.mem_append_right _ hp

/-- A rollback takes each insertion out once. Where an entry of the same point stood before, it may
be that one. -/
theorem rollback_perm (hknown : Known (points ++ before)) (h : s.Undoable points before k) :
    s.rollback.maxima.Perm before := by
  rcases s with ⟨maxima, inserted, doomed, positions⟩
  have hmem := h.mem
  have hperm := h.perm
  simp only [rollback] at hmem hperm ⊢
  clear h
  induction inserted generalizing maxima with
  | nil =>
      exact hperm
  | cons p inserted ih =>
      have hp : p ∈ maxima := hperm.mem_iff.2 (by simp)
      -- the entry that is taken out has the number of the point, so it is the point
      have hfound : maxima.find? (·.same p) = some p := by
        cases hfind : maxima.find? (·.same p) with
        | none =>
            exact absurd (List.find?_eq_none.1 hfind p hp) (by simp [Point.same])
        | some q =>
            have hq := List.mem_of_find?_eq_some hfind
            have hsame : q.same p = true := by simpa using List.find?_some hfind
            rw [hknown q (hmem q hq) p (hmem p hp) hsame]
      have hdiscard : (p :: MaximaIndex.discard maxima p).Perm maxima :=
        Pool.cons_eraseP_perm hfound
      refine ih _ (fun q hq => hmem q (hdiscard.mem_iff.1 (by simp [hq]))) ?_
      exact (List.perm_cons p).1 (hdiscard.trans hperm)

theorem Undoable.insert (hknown : Known (points ++ before)) (hnodup : points.Nodup)
    (h : s.Undoable points before k) (hi : i < k) (hp : points[i]? = some p) :
    (s.insert rules p).Ensures (fun s' _ => s'.Undoable points before i) (fun _ _ => True) := by
  have hpoints : p ∈ points ++ before := List.mem_append_left _ (List.mem_of_getElem? hp)
  -- the positions that were looked at before are higher, and hold other points
  have hnew : p ∉ s.inserted := by
    intro hmem
    rcases h.placed p hmem with ⟨j, hj, hget⟩
    have hij := (List.getElem?_inj (List.getElem?_eq_some_iff.1 hp).1 hnodup).1 (hp.trans hget.symm)
    omega
  refine (Search.boundary_le _ s.maxima).bind fun index hindex => ?_
  have hinsert : (MaximaIndex.insertAt rules s.maxima index p).Ensures
      (fun maxima _ => maxima = s.maxima.insertIdx index p) (fun _ _ => True) :=
    fun host => (MaximaIndex.insertAt_ensures rules s.maxima index p host).imp (fun _ _ h => h)
      fun _ _ _ => trivial
  refine hinsert.map fun maxima _ hmaxima => ?_
  subst hmaxima
  refine ⟨?_, ?_, List.nodup_cons.2 ⟨hnew, h.nodup⟩, ?_⟩
  · exact (List.perm_insertIdx p s.maxima hindex).trans (h.perm.cons p)
  · refine List.forall_mem_cons.2 ⟨⟨i, Nat.le_refl i, hp⟩, fun q hq => ?_⟩
    rcases h.placed q hq with ⟨j, hj, hget⟩
    exact ⟨j, by omega, hget⟩
  · intro hapart
    have hcons := List.forall_mem_cons.1 hapart
    have hother : ∀ q ∈ s.maxima.take index, ¬ q.same p := by
      intro q hq hsame
      have hq' := List.mem_of_mem_take hq
      obtain rfl := hknown q (h.mem q hq') p hpoints hsame
      rcases List.mem_append.1 (h.perm.mem_iff.1 hq') with hq | hq
      · exact hnew hq
      · exact hcons.1 hq
    have hsplit := insertIdx_append (s.maxima.take index) (s.maxima.drop index) p
    rw [List.take_append_drop, List.length_take_of_le hindex] at hsplit
    have hundo := h.undo hcons.2
    simp only [rollback] at hundo ⊢
    rw [List.foldl_cons, hsplit, MaximaIndex.discard_append hother, List.take_append_drop]
    exact hundo

/-- A staged step at position `i`. -/
theorem Undoable.stage (hknown : Known (points ++ before)) (hnodup : points.Nodup)
    {index ignored : Option Nat}
    (h : s.Undoable points before k) (hi : i ≤ k) (hindex : ∀ j ∈ index, i ≤ j ∧ j < k) :
    (Store.stage rules points index ignored s).Ensures (fun s' _ => s'.Undoable points before i)
      (fun _ _ => True) := by
  cases index with
  | none =>
      exact .pure fun _ => h.mono hi
  | some j =>
      rw [Store.stage, Store.stageBy]
      split
      · exact .pure fun _ => h.mono hi
      split
      · exact .of_runs (fun _ _ _ h => by cases h) fun _ _ _ _ => trivial
      · next point hpoint =>
        have hj := hindex j rfl
        refine (any_ensures _).bind fun found _ => (any_ensures _).bind fun isPeak _ => ?_
        split
        · split
          · exact .pure fun _ => h.mono hi
          · exact (h.insert hknown hnodup hj.2 hpoint).mono fun s' _ hs' => hs'.mono hj.1
        · refine .pure fun _ => ?_
          split
          · exact ⟨h.perm, (h.mono hi).placed, h.nodup, h.undo⟩
          · exact h.mono hi

theorem Undoable.deferAt (h : s.Undoable points before k) (index : Nat) :
    (Store.deferAt points index s : Attempt σ Staging).Ensures
      (fun s' _ => s'.Undoable points before k)
      (fun _ _ => True) := by
  unfold Store.deferAt
  split
  · exact .pure fun _ => ⟨h.perm, h.placed, h.nodup, h.undo⟩
  · exact .of_runs (fun _ _ _ h => by cases h) fun _ _ _ _ => trivial

/-! ## Committing -/

/-- Every position that is to be removed was found in the list, and they stand from the highest
down. -/
structure Resolved (s : Staging) : Prop where
  bounded : ∀ i ∈ s.positions, i < s.maxima.length
  descending : s.positions.Pairwise (· ≥ ·)

theorem resolve_lt (rules : Rules σ) (maxima doomed : List Point) :
    (resolve rules maxima doomed).Ensures (fun positions _ => ∀ i ∈ positions, i < maxima.length)
      (fun _ _ => True) := by
  induction doomed with
  | nil =>
      exact .pure fun _ => by simp
  | cons p doomed ih =>
      rw [resolve]
      refine (MaximaIndex.find?_lt rules maxima p).bind fun found hfound => ?_
      refine ih.map fun others _ hothers i hi => ?_
      rcases List.mem_append.1 hi with hi | hi
      · exact hfound i (by simpa using hi)
      · exact hothers i hi

theorem Undoable.prepare (h : s.Undoable points before k) :
    (s.prepare rules).Ensures (fun s' _ => s'.Undoable points before k ∧ s'.Resolved)
      (fun _ _ => True) := by
  refine (resolve_lt rules s.maxima s.doomed).map fun positions _ hpositions => ?_
  refine ⟨⟨h.perm, h.placed, h.nodup, h.undo⟩, ?_, descending_pairwise positions⟩
  intro i hi
  exact hpositions i ((descending_perm positions).mem_iff.1 hi)

theorem popAll_of_descending {positions : List Nat} {xs : List Point}
    (hdown : positions.Pairwise (· > ·))
    (hlt : ∀ i ∈ positions, i < xs.length) : (popAll positions xs).2 = none := by
  induction positions generalizing xs with
  | nil =>
      rfl
  | cons i positions ih =>
      have hcons := List.pairwise_cons.1 hdown
      have hi : i < xs.length := hlt i (by simp)
      rw [popAll, Position.pop_natCast hi]
      refine ih hcons.2 fun j hj => ?_
      have hij := hcons.1 j hj
      rw [List.length_eraseIdx_of_lt hi]
      omega

theorem pop_sublist {xs ys : List Point} {i : Int} {x : Point}
    (h : Position.pop xs i = .ok (x, ys)) :
    ys.Sublist xs := by
  unfold Position.pop at h
  split at h
  · split at h
    · cases h
      exact List.eraseIdx_sublist xs _
    · cases h
  · cases h

theorem popAll_sublist (positions : List Nat) (xs : List Point) :
    (popAll positions xs).1.Sublist xs := by
  induction positions generalizing xs with
  | nil =>
      exact List.Sublist.refl xs
  | cons i positions ih =>
      rw [popAll]
      cases hpop : Position.pop xs (i : Int) with
      | error fault =>
          exact List.Sublist.refl xs
      | ok popped =>
          exact (ih popped.2).trans (pop_sublist hpop)

/-- A commit stops half-way only if two removals fall on one position. -/
theorem commit_of_nodup (h : s.Resolved) (hnodup : s.positions.Nodup) : s.commit.2 = none := by
  refine popAll_of_descending ?_ h.bounded
  exact (h.descending.and hnodup).imp fun hij => lt_of_le_of_ne hij.1 (Ne.symm hij.2)

/-! ## All steps of an edit -/

/-- What the steps of an edit come to, up to the first that failed or to the end. -/
def Attains (points before : List Point) : Staging × Option Fault → Prop
  | (s, none) => s.Undoable points before 0 ∧ s.Resolved
  | (s, some _) => s.Undoable points before 0

theorem attains_nil (h : s.Undoable points before k ∧ s.Resolved) :
    (attemptAll [] s : Attempt σ _).Ensures (fun r _ => Attains points before r)
      (fun _ _ => False) :=
  .pure fun _ => ⟨h.1.mono (Nat.zero_le k), h.2⟩

theorem attains_cons {next : Staging → Prop} {step : Staging → Attempt σ Staging}
    {steps : List (Staging → Attempt σ Staging)} (h : s.Undoable points before k)
    (hstep : (step s).Ensures (fun s' _ => next s') (fun _ _ => True))
    (hsteps : ∀ s', next s' →
      (attemptAll steps s').Ensures (fun r _ => Attains points before r) (fun _ _ => False)) :
    (attemptAll (step :: steps) s).Ensures (fun r _ => Attains points before r)
      (fun _ _ => False) := by
  intro host
  rw [attemptAll]
  exact (hstep host).settle_bind (fun s' t hs' => hsteps s' hs' t)
    fun fault t _ => .pure (h.mono (Nat.zero_le k))

theorem le_of_mem_nextSkipping {length index j : Nat} {ignored : Option Nat}
    (h : j ∈ Store.nextSkipping length index ignored) : index + 1 ≤ j ∧ j < length := by
  unfold Store.nextSkipping at h
  grind

theorem lt_of_mem_prevSkipping {index j : Nat} {ignored : Option Nat}
    (h : j ∈ Store.prevSkipping index ignored) : j < index := by
  unfold Store.prevSkipping at h
  grind

/-- The steps look at the positions from the highest down. -/
theorem setSteps_attains (hknown : Known (points ++ before)) (hnodup : points.Nodup) (index : Nat)
    (old : Option Nat) :
    (attemptAll (Store.setSteps rules points index old) (start before)).Ensures
      (fun r _ => Attains points before r) (fun _ _ => False) := by
  have hstart := undoable_start points before (points.length + index + 1)
  refine attains_cons hstart (hstart.stage hknown hnodup (i := index + 1) (by omega) fun j hj => ?_)
    fun s₁ hs₁ => ?_
  · have := le_of_mem_nextSkipping hj
    omega
  refine attains_cons hs₁ (hs₁.stage hknown hnodup (i := index) (by omega) fun j hj => ?_)
    fun s₂ hs₂ => ?_
  · obtain rfl : index = j := by simpa using hj
    omega
  refine attains_cons hs₂ (hs₂.stage hknown hnodup (i := 0) (by omega) fun j hj => ?_)
    fun s₃ hs₃ => ?_
  · have := lt_of_mem_prevSkipping hj
    omega
  have hprepare : ∀ s : Staging, s.Undoable points before 0 →
      (attemptAll [Staging.prepare rules] s).Ensures (fun r _ => Attains points before r)
      (fun _ _ => False) :=
    fun s hs => attains_cons hs hs.prepare fun s' hs' => attains_nil hs'
  cases old with
  | none =>
      exact hprepare s₃ hs₃
  | some i =>
      exact attains_cons hs₃ (hs₃.deferAt i) fun s₄ hs₄ => hprepare s₄ hs₄

theorem eraseSteps_attains (hknown : Known (points ++ before)) (hnodup : points.Nodup)
    (index : Nat) :
    (attemptAll (Store.eraseSteps rules points index) (start before)).Ensures
      (fun r _ => Attains points before r) (fun _ _ => False) := by
  have hstart := undoable_start points before (points.length + index + 1)
  refine attains_cons hstart (hstart.stage hknown hnodup (i := index + 1) (by omega) fun j hj => ?_)
    fun s₁ hs₁ => ?_
  · have := le_of_mem_nextSkipping hj
    omega
  refine attains_cons hs₁ (hs₁.stage hknown hnodup (i := 0) (by omega) fun j hj => ?_)
    fun s₂ hs₂ => ?_
  · have := lt_of_mem_prevSkipping hj
    omega
  refine attains_cons hs₂ (hs₂.deferAt index) fun s₃ hs₃ => ?_
  exact attains_cons hs₃ hs₃.prepare fun s' hs' => attains_nil hs'

end Staging

/-! ## Stores -/

namespace Store

variable {rules : Rules σ} {s t : Store} {next : Nat} {point : Point}

/-- The points of a store are all different, and with the maxima they are known by their numbers. -/
structure Identified (next : Nat) (s : Store) : Prop where
  numbered : ∀ p ∈ s.points ++ s.maxima, p.id < next
  known : Known (s.points ++ s.maxima)
  nodup : s.points.Nodup

theorem Identified.mono {next' : Nat} (h : s.Identified next) (hle : next ≤ next') :
    s.Identified next' where
  numbered := fun p hp => (h.numbered p hp).trans_le hle
  known := h.known
  nodup := h.nodup

/-- Points may go, and move from one list to the other. -/
theorem Identified.of_mem (h : s.Identified next)
    (hpoints : ∀ p ∈ t.points, p ∈ s.points ++ s.maxima)
    (hmaxima : ∀ p ∈ t.maxima, p ∈ s.points ++ s.maxima) (hnodup : t.points.Nodup) :
    t.Identified next := by
  have hmem : ∀ p ∈ t.points ++ t.maxima, p ∈ s.points ++ s.maxima := fun p hp =>
    (List.mem_append.1 hp).elim (hpoints p) (hmaxima p)
  exact ⟨fun p hp => h.numbered p (hmem p hp),
    fun p hp q hq => h.known p (hmem p hp) q (hmem q hq), hnodup⟩

/-- A point with a new number may come in anywhere. -/
theorem Identified.insert (h : s.Identified next) (hid : point.id = next) {index : Nat}
    (hindex : index ≤ s.points.length) :
    Identified (next + 1) { s with points := s.points.insertIdx index point } := by
  have hperm : (s.points.insertIdx index point).Perm (point :: s.points) :=
    List.perm_insertIdx _ _ hindex
  have hmem : ∀ p ∈ s.points.insertIdx index point ++ s.maxima,
      p = point ∨ p ∈ s.points ++ s.maxima := by
    intro p hp
    exact List.mem_cons.1 ((hperm.append_right s.maxima).mem_iff.1 hp)
  have hother : ∀ p ∈ s.points ++ s.maxima, p.id ≠ point.id := by
    intro p hp
    rw [hid]
    exact Nat.ne_of_lt (h.numbered p hp)
  refine ⟨fun p hp => ?_, fun p hp q hq hsame => ?_,
    hperm.nodup_iff.2 (List.nodup_cons.2 ⟨?_, h.nodup⟩)⟩
  · rcases hmem p hp with rfl | hp
    · exact hid ▸ Nat.lt_succ_self _
    · exact (h.numbered p hp).trans (Nat.lt_succ_self _)
  · rw [Point.same_iff] at hsame
    rcases hmem p hp with rfl | hp'
    · rcases hmem q hq with rfl | hq'
      · rfl
      · exact absurd hsame.symm (hother q hq')
    · rcases hmem q hq with rfl | hq'
      · exact absurd hsame (hother p hp')
      · exact h.known p hp' q hq' (Point.same_iff.2 hsame)
  · intro hp
    exact hother point (List.mem_append_left _ hp) rfl

/-- The run of the staged steps of an edit, and the fault of the one that failed. -/
inductive Staged (rules : Rules σ) (s : Store) : Edit → Staging → Option Fault → Prop
  | set {a v : Payload} {point : Point} {index : Nat} {old : Option Nat} {staging : Staging}
      {failure : Option Fault}
      {host host' : σ}
      (run : Staging.attemptAll (setSteps rules (s.points.insertIdx index point) index old)
        (.start s.maxima) host =
        .ok (staging, failure) host') : Staged rules s (.set a v) staging failure
  | erase {a : Payload} {index : Nat} {staging : Staging} {failure : Option Fault} {host host' : σ}
      (run : Staging.attemptAll (eraseSteps rules s.points index) (.start s.maxima) host =
        .ok (staging, failure) host') : Staged rules s (.erase a) staging failure

/-- What is left of a store after an edit that failed: all of it, or what a rollback gave back, or
what was there when a commit stopped, or what was staged when the failure could not be told. -/
inductive Remains (rules : Rules σ) (s : Store) (edit : Edit) (fault : Fault) : Store → Prop
  | all : Remains rules s edit fault s
  | rolledBack {staging : Staging} (staged : Staged rules s edit staging (some fault))
      (perm : staging.rollback.maxima.Perm s.maxima)
      (undo : (∀ p ∈ staging.inserted, p ∉ s.maxima) → staging.rollback.maxima = s.maxima) :
      Remains rules s edit fault { s with maxima := staging.rollback.maxima }
  | halfway {staging : Staging} {points maxima : List Point}
      (staged : Staged rules s edit staging none)
      (commit : staging.commit.2 = some fault) (positions : ¬ staging.positions.Nodup) :
      Remains rules s edit fault { s with points := points, maxima := maxima }
  | stranded {staging : Staging} {points : List Point} {cause : Fault}
      (unspoken : fault = .unspoken cause)
      (staged : Staged rules s edit staging (some cause)) (kept : s.points.Sublist points)
      (added : points.length ≤ s.points.length + 1) :
      Remains rules s edit fault { s with points := points, maxima := staging.maxima }

end Store

/-! ## Editors -/

namespace Editor

variable {rules : Rules σ} {e t : Editor σ} {next : Nat}

/-- What an edit that failed leaves behind, with points that are still known by their numbers. -/
structure Fails (rules : Rules σ) (s : Store) (edit : Edit) (fault : Fault)
    (t : Editor σ) : Prop where
  identified : t.store.Identified t.mint.nextPoint
  remains : s.Remains rules edit fault t.store

section Ends

variable {s : Store} {edit : Edit} {pending : List Point} {staging : Staging}
  (hstore : e.store = { s with points := pending, maxima := staging.maxima })
  (hmint : e.mint.nextPoint = next) (hpending : Store.Identified next { s with points := pending })
  (hundo : staging.Undoable pending s.maxima 0)
include hstore hmint hpending hundo

/-- `added` is where the new point is among the pending ones. -/
theorem abandon_unruly {fault : Fault} (hs : s.Identified next) {added : Option Nat}
    (hadded : added.elim pending pending.eraseIdx = s.points)
    (hlength : pending.length ≤ s.points.length + 1)
    (hstaged : s.Staged rules edit staging (some fault)) (text : String) (argument : Payload)
    {done : α → Editor σ → Prop} :
    (abandon text argument staging added fault : Attempt (Editor σ) α).EndsFrom e done
      (Fails rules s edit) := by
  subst hmint
  refine abandon_endsFrom (fun line => ?_) fun _ => ?_
  · have hperm := Staging.rollback_perm hpending.known hundo
    have hback : (e.takenBack line staging added).store =
        { s with maxima := staging.rollback.maxima } := by
      rw [takenBack, hstore, ← hadded]
    refine ⟨?_, hback ▸ .rolledBack hstaged hperm hundo.undo⟩
    rw [hback]
    exact hs.of_mem (fun p hp => List.mem_append_left _ hp)
      (fun p hp => List.mem_append_right _ (hperm.mem_iff.1 hp)) hs.nodup
  · have hkept : s.points.Sublist pending := by
      rw [← hadded]
      exact elim_eraseIdx_sublist pending added
    refine ⟨?_, hstore ▸ .stranded rfl hstaged hkept hlength⟩
    rw [hstore]
    exact hpending.of_mem (fun p hp => List.mem_append_left _ hp) hundo.mem hpending.nodup

theorem conclude_unruly (gone : Option Nat) (hresolved : staging.Resolved)
    (hstaged : s.Staged rules edit staging none) :
    (conclude staging gone : Attempt (Editor σ) Unit).EndsFrom e
      (fun _ t => t.store.Identified t.mint.nextPoint) (Fails rules s edit) := by
  subst hmint
  have hmaxima : ∀ p ∈ staging.commit.1, p ∈ pending ++ s.maxima := fun p hp =>
    hundo.mem p ((Staging.popAll_sublist _ _).subset hp)
  have hpoints := elim_eraseIdx_sublist pending gone
  refine conclude_endsFrom (fun maxima hcommit => ?_) fun maxima fault hcommit => ?_
  all_goals
    rw [hcommit] at hmaxima
    rw [hstore]
  · exact hpending.of_mem (fun p hp => List.mem_append_left _ (hpoints.subset hp)) hmaxima
      (hpoints.nodup hpending.nodup)
  · have hfault : staging.commit.2 = some fault := congrArg Prod.snd hcommit
    refine ⟨?_, .halfway hstaged hfault fun hnodup => ?_⟩
    · exact hpending.of_mem (fun p hp => List.mem_append_left _ hp) hmaxima hpending.nodup
    · rw [Staging.commit_of_nodup hresolved hnodup] at hfault
      cases hfault

end Ends

theorem place_unruly {point : Point} (hs : e.store.Identified point.id)
    (hid : e.mint.nextPoint = point.id + 1)
    (old : Option Nat) (cells : List Cell) (a v : Payload) :
    (place rules point old cells a).EndsFrom e (fun _ t => t.store.Identified t.mint.nextPoint)
      (Fails rules e.store (.set a v)) := by
  have hs' : e.store.Identified e.mint.nextPoint := hs.mono (by omega)
  refine .get_bind (onHost_run_bind (fun placed host hplaced => ?_) fun fault host _ => ⟨hs', .all⟩)
  have hinsert : (PointIndex.insert rules.argument e.store.points point).Ensures
      (fun r _ => r.1 ≤ e.store.points.length ∧ r.2 = e.store.points.insertIdx r.1 point)
      (fun _ _ => True) :=
    (Search.boundary_le _ _).map fun index _ hindex => ⟨hindex, rfl⟩
  have hinserted := hinsert.ok hplaced
  obtain ⟨index, pending⟩ := placed
  obtain ⟨hindex, rfl⟩ : index ≤ e.store.points.length ∧
      pending = e.store.points.insertIdx index point := hinserted
  have hpending := hs.insert rfl hindex
  rw [← hid] at hpending
  refine .modify_bind (stageAll_bind fun attempted host' hattempted => ?_)
  have hattains := (Staging.setSteps_attains hpending.known hpending.nodup index old).ok hattempted
  obtain ⟨staging, failure⟩ := attempted
  have hstaged : e.store.Staged rules (.set a v) staging failure := .set hattempted
  cases failure with
  | some fault =>
      have hlength : (e.store.points.insertIdx index point).length ≤ e.store.points.length + 1 :=
        List.length_insertIdx_le_succ
      have hadded : (some index).elim (e.store.points.insertIdx index point)
          (e.store.points.insertIdx index point).eraseIdx = e.store.points :=
        List.eraseIdx_insertIdx_self _
      refine abandon_unruly ?_ ?_ hpending hattains hs' hadded hlength hstaged _ _
      all_goals rfl
  | none =>
      refine .modify_bind (conclude_unruly ?_ ?_ hpending hattains.1 old hattains.2 hstaged)
      all_goals rfl

/-- A new point has the next number. -/
theorem makePoint_unruly {s : Store} (hstore : e.store = s) (hs : s.Identified e.mint.nextPoint)
    (argumentCell valueCell : Cell) (old : Option Nat) (cells : List Cell) (a v : Payload) :
    (do
      let point ← makePoint argumentCell valueCell
      place rules point old cells a
      return true : Attempt (Editor σ) Bool).EndsFrom e
      (fun _ t => t.store.Identified t.mint.nextPoint) (Fails rules s (.set a v)) := by
  subst hstore
  exact .modifyGet_bind ((place_unruly (e := { e with mint := _ }) hs rfl old cells a v).bind
    fun _ t ht => .pure ht)

theorem set_unruly (hs : e.store.Identified e.mint.nextPoint) (a v : Payload) :
    (set rules a v).EndsFrom e (fun _ t => t.store.Identified t.mint.nextPoint)
      (Fails rules e.store (.set a v)) := by
  refine .get_bind (onHost_any_bind (fun found host => ?_) fun fault _ => ⟨hs, .all⟩)
  cases found with
  | some located =>
      refine onHost_any_bind (fun tied host' => ?_) fun fault _ => ⟨hs, .all⟩
      split
      · exact .pure hs
      · refine obtainCell_spec_bind fun cell pool mint hcell => ?_
        exact makePoint_unruly rfl (hcell.mint ▸ hs) _ _ _ _ a v
  | none =>
      refine obtainCell_spec_bind fun argumentCell pool mint hargument => ?_
      refine obtainCell_spec_bind fun valueCell pool' mint' hvalue => ?_
      exact makePoint_unruly rfl ((hvalue.mint.trans hargument.mint) ▸ hs) _ _ _ _ a v

theorem erase_unruly (hs : e.store.Identified e.mint.nextPoint) (a : Payload) :
    (erase rules a).EndsFrom e (fun _ t => t.store.Identified t.mint.nextPoint)
      (Fails rules e.store (.erase a)) := by
  refine .get_bind (onHost_any_bind (fun found host => ?_) fun fault _ => ⟨hs, .all⟩)
  cases found with
  | none =>
      exact .pure hs
  | some index =>
      refine stageAll_bind fun attempted host' hattempted => ?_
      have hattains := (Staging.eraseSteps_attains hs.known hs.nodup index).ok hattempted
      obtain ⟨staging, failure⟩ := attempted
      have hstaged : e.store.Staged rules (.erase a) staging failure := .erase hattempted
      cases failure with
      | some fault =>
          refine abandon_unruly ?_ ?_ hs hattains hs rfl (Nat.le_succ _) hstaged _ _
          all_goals rfl
      | none =>
          refine .bind (conclude_unruly ?_ ?_ hs hattains.1 _ hattains.2 hstaged)
            fun _ t ht => .pure ht
          all_goals rfl

theorem edit_unruly (hs : e.store.Identified e.mint.nextPoint) (edit : Edit) :
    (edit.run rules).EndsFrom e (fun _ t => t.store.Identified t.mint.nextPoint)
      (Fails rules e.store edit) := by
  cases edit with
  | set a v =>
      exact set_unruly hs a v
  | erase a =>
      exact erase_unruly hs a

/-! ## From an empty store -/

/-- The editors that any edits lead to, while others draw numbers from the same mint and the host
changes. -/
inductive Grown (rules : Rules σ) : Editor σ → Prop
  | empty {e : Editor σ} (store : e.store = {}) : Grown rules e
  | edit {e : Editor σ} (grown : Grown rules e) (edit : Edit) :
      Grown rules ((edit.run rules).stateAfter e)
  | elsewhere {e t : Editor σ} (grown : Grown rules e) (store : t.store = e.store)
      (mint : e.mint.nextPoint ≤ t.mint.nextPoint) : Grown rules t

theorem Grown.identified (h : Grown rules e) : e.store.Identified e.mint.nextPoint := by
  induction h with
  | empty hstore =>
      rw [hstore]
      exact ⟨by simp, by simp [Known], List.nodup_nil⟩
  | @edit e hgrown edit ih =>
      refine Attempt.EndsFrom.stateAfter
        (P := fun t : Editor σ => t.store.Identified t.mint.nextPoint) ?_
      exact (edit_unruly ih edit).imp (fun _ _ h => h) fun _ _ h => h.identified
  | elsewhere hgrown hstore hmint ih =>
      rw [hstore]
      exact ih.mono hmint

/-- Whatever the orderings answer, a failed edit leaves the version as it is. If the fault is none
that a commit may stop with and could be told, it also leaves the points as they are and the maxima
up to their order. And the store is the same altogether unless a point that was a maximum already
was put in once more before the failure, or two removals fell on one position, or the failure could
not be told: then all that was staged is still there, and no point is gone. -/
theorem failed_edit_leaves (hgrown : Grown rules e) {edit : Edit} {fault : Fault}
    (hrun : edit.run rules e = .error fault t) :
    t.store.version = e.store.version ∧
    ((∀ s : Staging, s.commit.2 ≠ some fault) → fault.isSpoken = true →
      t.store.points = e.store.points ∧ t.store.maxima.Perm e.store.maxima) ∧
    (t.store = e.store ∨
      (∃ staging, e.store.Staged rules edit staging (some fault) ∧ ∃ p ∈ staging.inserted,
        p ∈ e.store.maxima) ∨
      (∃ staging, e.store.Staged rules edit staging none ∧ ¬ staging.positions.Nodup) ∨
      ∃ staging cause, fault = .unspoken cause ∧ e.store.Staged rules edit staging (some cause) ∧
        t.store.maxima = staging.maxima ∧ e.store.points.Sublist t.store.points ∧
        t.store.points.length ≤ e.store.points.length + 1) := by
  have hremains := ((edit_unruly hgrown.identified edit).error hrun).remains
  refine ⟨edit.run_version.error hrun, ?_⟩
  generalize t.store = left at hremains
  cases hremains with
  | all =>
      exact ⟨fun _ _ => ⟨rfl, List.Perm.refl _⟩, Or.inl rfl⟩
  | @rolledBack staging hstaged hperm hundo =>
      refine ⟨fun _ _ => ⟨rfl, hperm⟩, ?_⟩
      by_cases hagain : ∃ p ∈ staging.inserted, p ∈ e.store.maxima
      · exact Or.inr (Or.inl ⟨staging, hstaged, hagain⟩)
      · refine Or.inl ?_
        rw [hundo fun p hp hmem => hagain ⟨p, hp, hmem⟩]
  | @halfway staging points maxima hstaged hcommit hpositions =>
      refine ⟨fun hfault => absurd hcommit (hfault staging), ?_⟩
      exact Or.inr (Or.inr (Or.inl ⟨staging, hstaged, hpositions⟩))
  | @stranded staging points cause hunspoken hstaged hkept hadded =>
      refine ⟨fun _ hspoken => ?_, ?_⟩
      · rw [hunspoken] at hspoken
        cases hspoken
      · exact Or.inr (Or.inr (Or.inr ⟨staging, cause, hunspoken, hstaged, rfl, hkept, hadded⟩))

theorem Grown.edits (h : Grown rules e) (edits : List Edit) :
    Grown rules (edits.foldl (fun e edit => (edit.run rules).stateAfter e) e) := by
  induction edits generalizing e with
  | nil =>
      exact h
  | cons edit edits ih =>
      exact ih (h.edit edit)

theorem Grown.host (h : Grown rules e) (host : σ) : Grown rules { e with host := host } :=
  h.elsewhere rfl (Nat.le_refl _)

/-! ## Stores that are not restored -/

/-- The points, the maxima and the version, with points told by their numbers. -/
def numbers (e : Editor σ) : List Nat × List Nat × Nat :=
  (e.store.points.map Point.id, e.store.maxima.map Point.id, e.store.version)

/-- An edit of a grown store that fails and leaves other lists behind. -/
def Spoils (rules : Rules σ) (e : Editor σ) (edit : Edit)
    (left : List Nat × List Nat × Nat) : Prop :=
  Grown rules e ∧ ∃ fault t, edit.run rules e = .error fault t ∧ e.numbers ≠ left ∧ t.numbers = left

theorem spoils_of_numbers {edit : Edit} {left : List Nat × List Nat × Nat} (hgrown : Grown rules e)
    (hfails : ((edit.run rules).outcome e).isOk = false) (hbefore : e.numbers ≠ left)
    (hafter : ((edit.run rules).stateAfter e).numbers = left) : Spoils rules e edit left := by
  rcases Attempt.exists_error_of_outcome hfails with ⟨fault, t, hrun⟩
  rw [Attempt.stateAfter, hrun] at hafter
  exact ⟨hgrown, fault, t, hrun, hbefore, hafter⟩

def blankEditor : Editor Surroundings :=
  { host := { meters := [{}, {}] } }

/-- A store that was edited while the orderings raised nothing; now one of them will, after some
comparisons. -/
def armed (edits : List Edit) (meter : Nat) (comparisons : Int) : Editor Surroundings :=
  let e := edits.foldl (fun e edit => (edit.run .metered).stateAfter e) blankEditor
  { e with host := e.host.arm meter comparisons }

theorem armed_grown (edits : List Edit) (meter : Nat) (comparisons : Int) :
    Grown .metered (armed edits meter comparisons) :=
  ((Grown.empty rfl).edits edits).host _

/-- A value that is not equal to itself, and comes neither before nor after any other. -/
def unordered : Payload :=
  .float ⟨0x7ff8000000000000⟩

def unorderedSet : Editor Surroundings :=
  armed [.set (.int 0) (.int 3), .set (.int 4) (.int 3), .set (.int 0) (.int 2),
    .set (.int 1) unordered] 0 13

def unorderedErase : Editor Surroundings :=
  armed [.set (.int 3) unordered, .set (.int 4) (.int 3), .set (.int 2) (.int 0),
    .set (.int 1) (.int 0)] 1 11

theorem failed_edit_leaves_unordered :
    ∃ fault t, Edit.run .metered (.set (.int 4) (.int 2)) unorderedSet = .error fault t ∧
      t.store.version = unorderedSet.store.version ∧
      (t.store = unorderedSet.store ∨
        (∃ staging, unorderedSet.store.Staged .metered (.set (.int 4) (.int 2)) staging
          (some fault) ∧
          ∃ p ∈ staging.inserted, p ∈ unorderedSet.store.maxima) ∨
        ∃ staging, unorderedSet.store.Staged .metered (.set (.int 4) (.int 2)) staging none ∧
          ¬ staging.positions.Nodup) := by
  have hfails : ((Edit.run .metered (.set (.int 4) (.int 2))).outcome unorderedSet).isOk =
      false := by decide +kernel
  have htold : (Edit.run .metered (.set (.int 4) (.int 2))).told unorderedSet = true := by
    decide +kernel
  rcases Attempt.exists_error_of_outcome hfails with ⟨fault, t, hrun⟩
  have hleft := failed_edit_leaves (armed_grown _ _ _) hrun
  refine ⟨fault, t, hrun, hleft.1, ?_⟩
  rcases hleft.2.2 with hsame | hagain | htwice | ⟨_, cause, rfl, _⟩
  · exact Or.inl hsame
  · exact Or.inr (Or.inl hagain)
  · exact Or.inr (Or.inr htwice)
  · cases Attempt.isSpoken_of_told htold hrun

/-- Natural orderings, but the host may say that they shall no longer tell what comes before. -/
def blunt : Rules Bool where
  argument a b := do
    if ← get then return 0 else Attempt.ofExcept (a.compare? b)
  value a b := do
    let sign ← Attempt.ofExcept (a.compare? b)
    return if (← get) then max 0 sign else sign
  allocate := pure ()

def bluntEditor : Editor Bool :=
  let e :=
    [Edit.set (.int 1) (.int 1), Edit.set (.int 2) (.int 2), Edit.set (.int 3) (.int 3)].foldl
    (fun e edit => (edit.run blunt).stateAfter e) { host := false }
  { e with host := true }

theorem bluntEditor_grown : Grown blunt bluntEditor :=
  ((Grown.empty rfl).edits _).host true

/-- Failed edits that leave the maxima in another order, and one that leaves the new point beside
the old one and no maximum. -/
theorem failed_edit_spoils :
    unorderedSet.numbers = ([2, 3, 1], [3, 1, 2], 4) ∧
    Spoils .metered unorderedSet (.set (.int 4) (.int 2)) ([2, 3, 1], [1, 2, 3], 4) ∧
    unorderedErase.numbers = ([3, 2, 0, 1], [0, 1, 3, 2], 4) ∧
    Spoils .metered unorderedErase (.erase (.int 2)) ([3, 2, 0, 1], [1, 3, 2, 0], 4) ∧
    bluntEditor.numbers = ([0, 1, 2], [2], 3) ∧
    Spoils blunt bluntEditor (.set (.int 1) (.int 0)) ([0, 1, 2, 3], [], 3) := by
  refine ⟨by decide +kernel, spoils_of_numbers (armed_grown _ _ _) ?_ ?_ ?_, by decide +kernel,
    spoils_of_numbers (armed_grown _ _ _) ?_ ?_ ?_, by decide +kernel,
    spoils_of_numbers bluntEditor_grown ?_ ?_ ?_⟩
  all_goals decide +kernel

end Editor

end Peaks
