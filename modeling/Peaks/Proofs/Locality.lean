import Peaks.Proofs.SideBySide
import Peaks.Proofs.Unruly

/-!
# Comparisons inside the domains

An edit of a store whose points lie in the domains, with an argument and a value that do, compares
nothing else. Rules that agree on the domains therefore make the same of it, and what the orderings
do with other objects does not matter: orderings that never fail inside the domains make edits that
never fail.

- `Rules.AlikeOn`     : rules that agree on the domains
- `Rules.guarded`     : rules that agree with given ones there, and fail nowhere else
- `Staging.Covered`   : all points of a staging lie in the domains
- `Editor.set_congr`, `Editor.erase_congr` : edits under rules that agree on the domains
- `Editor.set_obeys`, `Editor.erase_obeys` : the ends of an edit, told by what happens inside the
  domains
-/

namespace Peaks

variable {σ α β : Type}

theorem Attempt.bind_congr_run {x y : Attempt σ α} {f g : α → Attempt σ β} {s : σ} (hx : x s = y s)
    (hf : ∀ a t, x s = .ok a t → f a t = g a t) : (x >>= f) s = (y >>= g) s := by
  cases hrun : x s with
  | ok a t =>
      rw [bind_of_ok hrun, bind_of_ok (hx ▸ hrun)]
      exact hf a t hrun
  | error fault t =>
      rw [bind_of_error hrun, bind_of_error (hx ▸ hrun)]

/-! ## Rules that agree on the domains -/

/-- Objects in the domains are compared alike, and room is asked for alike. -/
structure Rules.AlikeOn (R : Rankings) (rules rules' : Rules σ) : Prop where
  argument : ∀ a b, R.argument.domain a → R.argument.domain b →
    rules.argument a b = rules'.argument a b
  value : ∀ a b, R.value.domain a → R.value.domain b → rules.value a b = rules'.value a b
  allocate : rules.allocate = rules'.allocate

open scoped Classical in
/-- A comparison that finds all objects outside the domain tied. -/
noncomputable def Comparator.guarded (compare : Comparator σ) (domain : Payload → Prop) :
    Comparator σ :=
  fun a b => if domain a ∧ domain b then compare a b else pure 0

theorem Comparator.guarded_eq {compare : Comparator σ} {domain : Payload → Prop} {a b : Payload}
    (ha : domain a)
    (hb : domain b) : compare.guarded domain a b = compare a b :=
  if_pos ⟨ha, hb⟩

namespace Rules

/-- Rules that fail nowhere outside the domains. -/
noncomputable def guarded (rules : Rules σ) (R : Rankings) : Rules σ where
  argument := rules.argument.guarded R.argument.domain
  value := rules.value.guarded R.value.domain
  allocate := rules.allocate

variable {rules : Rules σ} {R : Rankings} {failed : Fault → σ → Prop}

theorem guarded_alikeOn (rules : Rules σ) (R : Rankings) : AlikeOn R rules (rules.guarded R) where
  argument _ _ ha hb := (Comparator.guarded_eq ha hb).symm
  value _ _ ha hb := (Comparator.guarded_eq ha hb).symm
  allocate := rfl

theorem Obey.follow (hR : rules.Obey R failed) : rules.Follow R where
  argument _ _ ha hb _ _ _ hrun := (hR.argument_ensures ha hb).ok hrun
  value _ _ ha hb _ _ _ hrun := (hR.value_ensures ha hb).ok hrun

theorem Obey.guarded_follow (hR : rules.Obey R failed) : (rules.guarded R).Follow R where
  argument a b ha hb s n t hrun := by
    rw [← (guarded_alikeOn rules R).argument a b ha hb] at hrun
    exact (hR.argument_ensures ha hb).ok hrun
  value a b ha hb s n t hrun := by
    rw [← (guarded_alikeOn rules R).value a b ha hb] at hrun
    exact (hR.value_ensures ha hb).ok hrun

/-- What is raised under guard was raised inside the domains. -/
theorem Obey.of_guarded_raised (hR : rules.Obey R failed)
    (hroom : rules.allocate.Ensures (fun _ _ => True) failed)
    {fault : Fault} {host : σ} (h : (rules.guarded R).Raised fault host) : failed fault host := by
  have hguarded : ∀ {compare : Comparator σ} {domain : Payload → Prop} {a b : Payload} {s : σ},
      compare.guarded domain a b s = .error fault host →
        domain a ∧ domain b ∧ compare a b s = .error fault host := by
    intro compare domain a b s hrun
    unfold Comparator.guarded at hrun
    split at hrun
    · next hdomain => exact ⟨hdomain.1, hdomain.2, hrun⟩
    · cases hrun
  obtain ⟨s, ⟨a, b, hrun⟩ | ⟨a, b, hrun⟩ | hrun⟩ := h
  · obtain ⟨ha, hb, hrun⟩ := hguarded hrun
    exact (hR.argument_ensures ha hb).error hrun
  · obtain ⟨ha, hb, hrun⟩ := hguarded hrun
    exact (hR.value_ensures ha hb).error hrun
  · exact hroom.error hrun

end Rules

/-! ## Searching -/

namespace Search

variable {probe probe' : α → Attempt σ Bool}

theorem boundaryFrom_congr (offset count : Nat) (window : List α)
    (h : ∀ x ∈ window, probe x = probe' x) :
    boundaryFrom probe offset count window = boundaryFrom probe' offset count window := by
  induction count using Nat.strong_induction_on generalizing offset window with
  | _ count ih =>
    cases count with
    | zero =>
        rw [boundaryFrom, boundaryFrom]
    | succ count =>
        rw [boundaryFrom, boundaryFrom]
        cases hdrop : window.drop ((count + 1) / 2) with
        | nil =>
            rfl
        | cons x rest =>
            have hmem : ∀ y ∈ x :: rest, y ∈ window := fun y hy => List.mem_of_mem_drop (hdrop ▸ hy)
            dsimp only
            rw [h x (hmem x List.mem_cons_self), ih _ (by omega) offset window h,
              ih _ (by omega) _ rest fun y hy => h y (hmem y (List.mem_cons_of_mem _ hy))]

theorem boundary_congr (xs : List α) (h : ∀ x ∈ xs, probe x = probe' x) :
    boundary probe xs = boundary probe' xs :=
  boundaryFrom_congr 0 xs.length xs h

end Search

section Alike

variable {rules rules' : Rules σ} {R : Rankings} (h : rules.AlikeOn R rules') {points : List Point}
  {point : Point}
include h

namespace PointIndex

theorem locate_congr (hpoints : ∀ p ∈ points, R.Covers p) {a : Payload} (ha : R.argument.domain a) :
    locate rules.argument points a = locate rules'.argument points a := by
  have hcompare : ∀ p ∈ points, rules.argument p.argument a = rules'.argument p.argument a :=
    fun p hp => h.argument _ _ (hpoints p hp).1 ha
  have hbound : lowerBound rules.argument points a = lowerBound rules'.argument points a :=
    Search.boundary_congr points fun p hp => by rw [hcompare p hp]
  unfold locate
  rw [hbound]
  refine congrArg (lowerBound rules'.argument points a >>= ·) (funext fun index => ?_)
  cases hget : points[index]? with
  | none =>
      rfl
  | some p =>
      dsimp only
      rw [hcompare p (List.mem_of_getElem? hget)]

theorem insert_congr (hpoints : ∀ p ∈ points, R.Covers p) (hpoint : R.Covers point) :
    insert rules.argument points point = insert rules'.argument points point := by
  have hbound : insertionIndex rules.argument points point =
      insertionIndex rules'.argument points point :=
    Search.boundary_congr points fun p hp => by rw [h.argument _ _ hpoint.1 (hpoints p hp).1]
  unfold insert
  rw [hbound]

end PointIndex

namespace MaximaIndex

variable {entries : List Point}

theorem compare_congr {p q : Point} (hp : R.Covers p) (hq : R.Covers q) :
    compare rules p q = compare rules' p q := by
  unfold compare
  rw [h.value _ _ hq.2 hp.2, h.argument _ _ hp.1 hq.1]

theorem position_congr (hentries : ∀ q ∈ entries, R.Covers q) (hpoint : R.Covers point) :
    position rules entries point = position rules' entries point :=
  Search.boundary_congr entries fun q hq => by rw [compare_congr h (hentries q hq) hpoint]

theorem find?_congr (hentries : ∀ q ∈ entries, R.Covers q) (hpoint : R.Covers point) :
    find? rules entries point = find? rules' entries point := by
  unfold find?
  rw [position_congr h hentries hpoint]
  refine congrArg (position rules' entries point >>= ·) (funext fun index => ?_)
  cases hget : entries[index]? with
  | none =>
      rfl
  | some q =>
      dsimp only
      rw [compare_congr h (hentries q (List.mem_of_getElem? hget)) hpoint]

end MaximaIndex

theorem Store.isLocalMaximum_congr (hpoints : ∀ p ∈ points, R.Covers p)
    (hpoint : R.Covers point) (index : Nat)
    (ignored : Option Nat) :
    isLocalMaximum rules points index point ignored =
      isLocalMaximum rules' points index point ignored := by
  have hbounded : ∀ i : Option Nat,
      Scan.isBoundedBy rules.value point.value (i.bind fun i => points[i]?.map Point.value) =
        Scan.isBoundedBy rules'.value point.value (i.bind fun i => points[i]?.map Point.value) := by
    intro i
    cases hneighbour : i.bind fun i => points[i]?.map Point.value with
    | none =>
        rfl
    | some value =>
        obtain ⟨j, _, hvalue⟩ := Option.bind_eq_some_iff.1 hneighbour
        obtain ⟨p, hp, rfl⟩ := Option.map_eq_some_iff.1 hvalue
        have hcompare := h.value _ _ (hpoints p (List.mem_of_getElem? hp)).2 hpoint.2
        simp only [Scan.isBoundedBy, Comparator.lessEqual, hcompare]
  unfold isLocalMaximum Scan.isPeak
  dsimp only
  rw [hbounded, hbounded]

/-! ## Staged steps -/

namespace Staging

omit h in
/-- All points of a staging lie in the domains. -/
structure Covered (R : Rankings) (s : Staging) : Prop where
  maxima : ∀ p ∈ s.maxima, R.Covers p
  doomed : ∀ p ∈ s.doomed, R.Covers p

variable {s : Staging}

theorem insert_congr (hs : s.Covered R) (hpoint : R.Covers point) :
    s.insert rules point = s.insert rules' point := by
  unfold insert MaximaIndex.insertAt
  rw [MaximaIndex.position_congr h hs.maxima hpoint, h.allocate]

theorem resolve_congr {maxima : List Point} (hmaxima : ∀ p ∈ maxima, R.Covers p)
    (doomed : List Point)
    (hdoomed : ∀ p ∈ doomed, R.Covers p) :
    resolve rules maxima doomed = resolve rules' maxima doomed := by
  induction doomed with
  | nil =>
      rfl
  | cons p doomed ih =>
      have hcons := List.forall_mem_cons.1 hdoomed
      rw [resolve, resolve, MaximaIndex.find?_congr h hmaxima hcons.1, ih hcons.2]

theorem prepare_congr (hs : s.Covered R) : s.prepare rules = s.prepare rules' := by
  unfold prepare
  rw [resolve_congr h hs.maxima s.doomed hs.doomed]

omit h in
theorem Covered.insert (hs : s.Covered R) (hpoint : R.Covers point) :
    (s.insert rules point).Ensures (fun s' _ => s'.Covered R) (fun _ _ => True) := by
  refine (any_ensures _).bind fun index _ => ?_
  have hinsert : (MaximaIndex.insertAt rules s.maxima index point).Ensures
      (fun maxima _ => maxima = s.maxima.insertIdx index point) (fun _ _ => True) :=
    (any_ensures _).map fun _ _ _ => rfl
  refine hinsert.map fun maxima _ hmaxima => ⟨fun p hp => ?_, hs.doomed⟩
  rw [hmaxima] at hp
  rcases List.eq_or_mem_of_mem_insertIdx hp with rfl | hp
  · exact hpoint
  · exact hs.maxima p hp

omit h in
theorem Covered.defer (hs : s.Covered R) (hpoint : R.Covers point) : (s.defer point).Covered R where
  maxima := hs.maxima
  doomed := List.forall_mem_append.2 ⟨hs.doomed, by simpa using hpoint⟩

/-- Two steps that do the same to all stagings in the domains, and lead to such again. -/
def StepsAlike (R : Rankings) (step step' : Staging → Attempt σ Staging) : Prop :=
  ∀ s : Staging, s.Covered R → step s = step' s ∧
    (step s).Ensures (fun s' _ => s'.Covered R) (fun _ _ => True)

omit h in
theorem attemptAll_congr {steps steps' : List (Staging → Attempt σ Staging)}
    (hsteps : List.Forall₂ (StepsAlike R) steps steps') (hs : s.Covered R) :
    attemptAll steps s = attemptAll steps' s := by
  induction hsteps generalizing s with
  | nil =>
      rfl
  | @cons step step' steps steps' hstep _ ih =>
      funext host
      rw [attemptAll, attemptAll]
      refine Attempt.bind_congr_run (by rw [(hstep s hs).1]) fun r t hrun => ?_
      rcases Attempt.exists_settle_of_ok hrun with ⟨s', rfl, hstep'⟩ | ⟨fault, rfl, _⟩
      · exact congrFun (ih ((hstep s hs).2.ok hstep')) t
      · rfl

theorem prepare_alike : StepsAlike R (prepare rules) (prepare rules') := fun _ hs =>
  ⟨prepare_congr h hs, (any_ensures _).map fun _ _ _ => ⟨hs.maxima, hs.doomed⟩⟩

end Staging

namespace Store

theorem stage_alike (hpoints : ∀ p ∈ points, R.Covers p) (index ignored : Option Nat) :
    Staging.StepsAlike R (stage rules points index ignored)
      (stage rules' points index ignored) := by
  intro s hs
  cases index with
  | none =>
      exact ⟨rfl, .pure fun _ => hs⟩
  | some i =>
      unfold stage stageBy
      dsimp only
      split
      · exact ⟨rfl, .pure fun _ => hs⟩
      cases hget : points[i]? with
      | none =>
          exact ⟨rfl, .of_runs (fun _ _ _ hrun => by cases hrun) fun _ _ _ _ => trivial⟩
      | some point =>
          have hpoint := hpoints point (List.mem_of_getElem? hget)
          dsimp only
          rw [MaximaIndex.find?_congr h hs.maxima hpoint, isLocalMaximum_congr h hpoints hpoint,
            Staging.insert_congr h hs hpoint]
          refine ⟨rfl, (any_ensures _).bind fun found _ => (any_ensures _).bind fun peak _ => ?_⟩
          split
          · split
            · exact .pure fun _ => hs
            · exact hs.insert hpoint
          · refine .pure fun _ => ?_
            split
            · exact hs.defer hpoint
            · exact hs

omit h in
theorem deferAt_alike (hpoints : ∀ p ∈ points, R.Covers p) (index : Nat) :
    Staging.StepsAlike R (deferAt points index : Staging → Attempt σ Staging)
      (deferAt points index) := by
  intro s hs
  refine ⟨rfl, ?_⟩
  unfold deferAt
  cases hget : points[index]? with
  | none =>
      exact .of_runs (fun _ _ _ hrun => by cases hrun) fun _ _ _ _ => trivial
  | some point =>
      exact .pure fun _ => hs.defer (hpoints point (List.mem_of_getElem? hget))

theorem setSteps_congr (hpoints : ∀ p ∈ points, R.Covers p) {maxima : List Point}
    (hmaxima : ∀ p ∈ maxima, R.Covers p) (index : Nat) (old : Option Nat) :
    Staging.attemptAll (setSteps rules points index old) (.start maxima) =
      Staging.attemptAll (setSteps rules' points index old) (.start maxima) := by
  refine Staging.attemptAll_congr (R := R) ?_ ⟨hmaxima, by simp [Staging.start]⟩
  have hstage := stage_alike h hpoints
  have hold : List.Forall₂ (Staging.StepsAlike R) (old.toList.map (deferAt (σ := σ) points))
      (old.toList.map (deferAt points)) := by
    refine List.forall₂_same.2 fun step hstep => ?_
    obtain ⟨i, _, rfl⟩ := List.mem_map.1 hstep
    exact deferAt_alike hpoints i
  refine List.rel_append (List.rel_append ?_ hold) (.cons (Staging.prepare_alike h) .nil)
  exact .cons (hstage _ _) (.cons (hstage _ _) (.cons (hstage _ _) .nil))

theorem eraseSteps_congr (hpoints : ∀ p ∈ points, R.Covers p) {maxima : List Point}
    (hmaxima : ∀ p ∈ maxima, R.Covers p) (index : Nat) :
    Staging.attemptAll (eraseSteps rules points index) (.start maxima) =
      Staging.attemptAll (eraseSteps rules' points index) (.start maxima) := by
  have hstage := stage_alike h hpoints
  refine Staging.attemptAll_congr (R := R) ?_ ⟨hmaxima, by simp [Staging.start]⟩
  exact .cons (hstage _ _) (.cons (hstage _ _) (.cons (deferAt_alike hpoints index)
    (.cons (Staging.prepare_alike h) .nil)))

end Store

/-! ## Edits -/

namespace Editor

variable {e : Editor σ} {a v : Payload}

omit h in
theorem onHost_bind_congr {x y : Attempt σ α} {f g : α → Attempt (Editor σ) β} (hx : x = y)
    (hf : ∀ a host, x e.host = .ok a host → f a { e with host := host } = g a
      { e with host := host }) :
    (onHost x >>= f) e = (onHost y >>= g) e := by
  subst hx
  cases hrun : x e.host with
  | ok a host =>
      rw [Attempt.bind_of_ok (onHost_eq_ok hrun), Attempt.bind_of_ok (onHost_eq_ok hrun)]
      exact hf a host hrun
  | error fault host =>
      rw [Attempt.bind_of_error (onHost_eq_error hrun),
        Attempt.bind_of_error (onHost_eq_error hrun)]

omit h in
theorem stageAll_bind_congr {steps steps' : List (Staging → Attempt σ Staging)}
    {f : Staging × Option Fault → Attempt (Editor σ) β}
    (hsteps : Staging.attemptAll steps (.start e.store.maxima) =
      Staging.attemptAll steps' (.start e.store.maxima)) :
    (stageAll steps >>= f) e = (stageAll steps' >>= f) e := by
  refine Attempt.bind_congr_run ?_ fun _ _ _ => rfl
  rw [stageAll, stageAll, Attempt.get_bind_run, Attempt.get_bind_run, hsteps]

omit h in
theorem obtainCell_bind_congr {p : Payload} {f g : Cell → Attempt (Editor σ) β}
    (hf : ∀ cell pool mint, cell.payload.same p →
      f cell { e with pool := pool, mint := mint } = g cell { e with pool := pool, mint := mint }) :
    (obtainCell p >>= f) e = (obtainCell p >>= g) e :=
  hf _ _ _ (Pool.obtain_spec e.pool e.mint p).payload

omit h in
theorem makePoint_bind_congr {argumentCell valueCell : Cell} {f g : Point → Attempt (Editor σ) β}
    (hf : ∀ id mint, f ⟨id, argumentCell, valueCell⟩ { e with mint := mint } =
      g ⟨id, argumentCell, valueCell⟩ { e with mint := mint }) :
    (makePoint argumentCell valueCell >>= f) e = (makePoint argumentCell valueCell >>= g) e :=
  hf _ _

theorem place_congr (hpoints : ∀ p ∈ e.store.points, R.Covers p)
    (hmaxima : ∀ p ∈ e.store.maxima, R.Covers p)
    (hpoint : R.Covers point) (old : Option Nat) (cells : List Cell) (a : Payload) :
    place rules point old cells a e = place rules' point old cells a e := by
  rw [place, place, placeBy, placeBy, Attempt.get_bind_run, Attempt.get_bind_run]
  refine onHost_bind_congr (PointIndex.insert_congr h hpoints hpoint) fun placed host hrun => ?_
  have hplaced : (PointIndex.insert rules.argument e.store.points point).Ensures
      (fun r _ => r.2 = e.store.points.insertIdx r.1 point) (fun _ _ => True) :=
    (any_ensures _).map fun _ _ _ => rfl
  have hcovers : ∀ p ∈ placed.2, R.Covers p := by
    intro p hp
    rw [hplaced.ok hrun] at hp
    rcases List.eq_or_mem_of_mem_insertIdx hp with rfl | hp
    · exact hpoint
    · exact hpoints p hp
  obtain ⟨index, points⟩ := placed
  exact stageAll_bind_congr
    (e := { e with host := host, store := { e.store with points := points } })
    (Store.setSteps_congr h hcovers hmaxima index old)

variable {next : Nat} (hs : e.store.Valid R next)
include hs

omit h in
theorem maxima_covers : ∀ p ∈ e.store.maxima, R.Covers p :=
  fun p hp => hs.covers p ((hs.mem_maxima_iff p).1 hp).mem

theorem set_congr (hR : rules.Follow R) (ha : R.argument.domain a) (hv : R.value.domain v) :
    set rules a v e = set rules' a v e := by
  have hmaxima := maxima_covers hs
  rw [set, set, setBy, setBy, Attempt.get_bind_run, Attempt.get_bind_run]
  refine onHost_bind_congr (PointIndex.locate_congr h hs.covers ha) fun found host hrun => ?_
  have hlocated := (PointIndex.locate_ensures hR ha hs.covers hs.increasing).ok hrun
  cases found with
  | none =>
      refine obtainCell_bind_congr fun argumentCell pool mint hargument => ?_
      refine obtainCell_bind_congr fun valueCell pool mint hvalue =>
        makePoint_bind_congr fun id mint => ?_
      have hpoint : R.Covers ⟨id, argumentCell, valueCell⟩ :=
        ⟨R.argument.domain_of_same hargument ha, R.value.domain_of_same hvalue hv⟩
      refine Attempt.bind_congr_run ?_ fun _ _ _ => rfl
      refine place_congr h ?_ ?_ hpoint none _ a
      · exact hs.covers
      · exact hmaxima
  | some located =>
      have hold : R.Covers located.2 := hs.covers located.2 hlocated.mem
      have htie : Comparator.equivalent rules.value located.2.value v =
          Comparator.equivalent rules'.value located.2.value v := by
        unfold Comparator.equivalent
        rw [h.value _ _ hold.2 hv]
      refine onHost_bind_congr htie fun tie host hrun => ?_
      split
      · rfl
      refine obtainCell_bind_congr fun valueCell pool mint hvalue =>
        makePoint_bind_congr fun id mint => ?_
      have hpoint : R.Covers ⟨id, located.2.argumentCell, valueCell⟩ :=
        ⟨hold.1, R.value.domain_of_same hvalue hv⟩
      refine Attempt.bind_congr_run ?_ fun _ _ _ => rfl
      refine place_congr h ?_ ?_ hpoint (some located.1) _ a
      · exact hs.covers
      · exact hmaxima

theorem erase_congr (ha : R.argument.domain a) : erase rules a e = erase rules' a e := by
  have hfind : PointIndex.find? rules.argument e.store.points a =
      PointIndex.find? rules'.argument e.store.points a := by
    unfold PointIndex.find?
    rw [PointIndex.locate_congr h hs.covers ha]
  rw [erase, erase, eraseBy, eraseBy, Attempt.get_bind_run, Attempt.get_bind_run]
  refine onHost_bind_congr hfind fun found host _ => ?_
  cases found with
  | none =>
      rfl
  | some index =>
      exact stageAll_bind_congr (e := { e with host := host })
        (Store.eraseSteps_congr h hs.covers (maxima_covers hs) index)

end Editor

end Alike

namespace Editor

variable {rules : Rules σ} {R : Rankings} {failed : Fault → σ → Prop} {e : Editor σ} {a v : Payload}

section Obeying

variable (hR : rules.Obey R failed) (hroom : rules.allocate.Ensures (fun _ _ => True) failed)
  (hs : e.store.Valid R e.mint.nextPoint)
include hR hroom hs

/-- Setting a value is done, or fails as a comparison in the domains does, told or not. -/
theorem set_obeys (ha : R.argument.domain a) (hv : R.value.domain v) :
    (set rules a v).EndsFrom e (SetDone R a v e)
      (fun fault t => ∃ cause, fault.StemsFrom cause ∧ failed cause t.host) := by
  have hset : (set (rules.guarded R) a v).EndsFrom e (SetDone R a v e)
      (fun fault t => ∃ cause, fault.StemsFrom cause ∧ failed cause t.host) := by
    refine (set_endsFrom hR.guarded_follow hs ha hv).imp (fun _ _ h => h) fun fault t hfailed => ?_
    exact hfailed.raised.imp fun _ h => ⟨h.1, hR.of_guarded_raised hroom h.2⟩
  rw [Attempt.EndsFrom] at hset ⊢
  rwa [set_congr (rules.guarded_alikeOn R) hs hR.follow ha hv]

theorem erase_obeys (ha : R.argument.domain a) :
    (erase rules a).EndsFrom e (EraseDone R a e)
      (fun fault t => ∃ cause, fault.StemsFrom cause ∧ failed cause t.host) := by
  have herase : (erase (rules.guarded R) a).EndsFrom e (EraseDone R a e)
      (fun fault t => ∃ cause, fault.StemsFrom cause ∧ failed cause t.host) := by
    refine (erase_endsFrom hR.guarded_follow hs ha).imp (fun _ _ h => h) fun fault t hfailed => ?_
    exact hfailed.raised.imp fun _ h => ⟨h.1, hR.of_guarded_raised hroom h.2⟩
  rw [Attempt.EndsFrom] at herase ⊢
  rwa [erase_congr (rules.guarded_alikeOn R) hs ha]

end Obeying

end Editor

end Peaks
