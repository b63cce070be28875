import Peaks.Proofs.EditEnds
import Peaks.Proofs.EditSteps
import Peaks.Proofs.Pool

/-!
# Edits of a store

How setting, erasing and loading may end on a store whose maxima are right: either the edit is done
and the maxima are right again, or it failed with a fault that was raised on the way and the store
is as it was. An edit that fails over a number with too many digits, because this is to be told, is
not taken back.

- `Store.Valid`     : a consistent store with points in the domain and numbers of their own
- `Editor.Refused`  : what a failed edit leaves behind that was taken back
- `Editor.Stranded` : what it leaves behind if its failure could not be told
- `Editor.SetDone`, `Editor.EraseDone`, `Editor.Loaded` : what a finished edit leaves behind
- `Editor.set_endsFrom`, `Editor.erase_endsFrom`, `Editor.load_endsFrom` : the three edits
-/

namespace Peaks

/-- A consistent store whose points lie in the domain and were all numbered before `next`. -/
structure Store.Valid (R : Rankings) (next : Nat) (s : Store) : Prop extends s.Consistent R where
  covers : ∀ p ∈ s.points, R.Covers p
  numbered : ∀ p ∈ s.points, p.id < next
  eq_of_same : ∀ p ∈ s.points, ∀ q ∈ s.points, p.same q → p = q

namespace Store.Valid

variable {R : Rankings} {next : Nat} {s : Store}

theorem mono (hs : s.Valid R next) {next' : Nat} (h : next ≤ next') : s.Valid R next' where
  toConsistent := hs.toConsistent
  covers := hs.covers
  numbered p hp := lt_of_lt_of_le (hs.numbered p hp) h
  eq_of_same := hs.eq_of_same

/-- The version does not matter. -/
theorem of_lists (hs : s.Valid R next) (version : Nat) :
    Store.Valid R next { s with version := version } :=
  ⟨⟨hs.increasing, hs.ranked, hs.mem_maxima_iff⟩, hs.covers, hs.numbered, hs.eq_of_same⟩

theorem clone (hs : s.Valid R next) : s.clone.Valid R next :=
  hs.of_lists 0

theorem assign (hs : s.Valid R next) (other : Store) : (other.assign s).Valid R next :=
  hs.of_lists (other.version + 1)

theorem distinguishes (hs : s.Valid R next) : R.Distinguishes s.points where
  covers := hs.covers
  eq_of_tied _ hp _ hq htied := Rankings.eq_of_tied_outranks hs.increasing hp hq htied
  eq_of_same := hs.eq_of_same

theorem sublist (hs : s.Valid R next) {points maxima : List Point}
    {version : Nat} (hsub : points.Sublist s.points) (hranked : maxima.Pairwise R.Outranks)
    (hmem : ∀ p, p ∈ maxima ↔ R.IsPeak points p) :
    Store.Valid R next { points := points, maxima := maxima, version := version } where
  increasing := hs.increasing.sublist hsub
  ranked := hranked
  mem_maxima_iff := hmem
  covers p hp := hs.covers p (hsub.subset hp)
  numbered p hp := hs.numbered p (hsub.subset hp)
  eq_of_same p hp q hq := hs.eq_of_same p (hsub.subset hp) q (hsub.subset hq)

end Store.Valid

theorem Store.valid_empty (R : Rankings) (next : Nat) : Store.Valid R next {} := by
  refine ⟨⟨.nil, .nil, fun p => ?_⟩, by simp, by simp, by simp⟩
  simp [Rankings.IsPeak]

/-! ## A new point among the others -/

/-- A new point and where it goes: between `front` and `back`, in place of `old` if there is one. -/
structure Rankings.Fits (R : Rankings) (next : Nat) (front : List Point) (old : Option Point)
    (point : Point) (back : List Point) : Prop where
  covers : R.Covers point
  between : R.Between front point.argument back
  tied : ∀ o ∈ old, Tied R.argument.before o.argument point.argument
  differs : ∀ o ∈ old, ¬ Tied R.value.before o.value point.value
  fresh : next ≤ point.id

theorem Point.same_iff {p q : Point} : p.same q ↔ p.id = q.id := by
  simp [Point.same]

namespace Rankings.Fits

variable {R : Rankings} {next : Nat} {s : Store} {front back : List Point} {old : Option Point}
  {point : Point}

theorem perm (heq : s.points = front ++ (old.toList ++ back)) :
    (front ++ (old.toList ++ point :: back)).Perm (point :: s.points) := by
  rw [heq, ← List.append_assoc, ← List.append_assoc]
  exact List.perm_middle

theorem not_tied (h : R.Fits next front old point back)
    (heq : s.points = front ++ (old.toList ++ back)) {q : Point} (hq : q ∈ s.points) :
    ¬ Tied R.Outranks q point := by
  intro htied
  obtain ⟨hvalue, hargument⟩ := Rankings.tied_outranks_iff.1 htied
  rw [heq] at hq
  -- only the old point has a tied argument, and its value differs
  rcases List.mem_append.1 hq with hq | hq
  · exact hargument.1 (h.between.front q hq)
  · rcases List.mem_append.1 hq with hq | hq
    · exact h.differs q (by simpa using hq) hvalue
    · exact hargument.2 (h.between.back q hq)

theorem id_ne (h : R.Fits next front old point back) (hs : s.Valid R next) {q : Point}
    (hq : q ∈ s.points) : q.id ≠ point.id := by
  have hlt := hs.numbered q hq
  have hle := h.fresh
  omega

variable (h : R.Fits next front old point back) (hs : s.Valid R next)
  (heq : s.points = front ++ (old.toList ++ back))
include h hs heq

theorem distinguishes : R.Distinguishes (front ++ (old.toList ++ point :: back)) := by
  have hmem : ∀ p ∈ front ++ (old.toList ++ point :: back), p = point ∨ p ∈ s.points := by
    intro p hp
    exact List.mem_cons.1 ((perm heq).mem_iff.1 hp)
  refine ⟨?_, ?_, ?_⟩
  · intro p hp
    rcases hmem p hp with rfl | hp'
    · exact h.covers
    · exact hs.covers p hp'
  · intro p hp q hq htied
    -- the new point differs from every other, and the others were told apart before
    rcases hmem p hp with rfl | hp' <;> rcases hmem q hq with rfl | hq'
    · rfl
    · exact absurd htied.symm (h.not_tied heq hq')
    · exact absurd htied (h.not_tied heq hp')
    · exact hs.distinguishes.eq_of_tied p hp' q hq' htied
  · intro p hp q hq hsame
    rcases hmem p hp with rfl | hp' <;> rcases hmem q hq with rfl | hq'
    · rfl
    · exact absurd (Point.same_iff.1 hsame).symm (h.id_ne hs hq')
    · exact absurd (Point.same_iff.1 hsame) (h.id_ne hs hp')
    · exact hs.eq_of_same p hp' q hq' hsame

theorem nodup : (front ++ (old.toList ++ point :: back)).Nodup := by
  rw [(perm heq).nodup_iff]
  refine List.nodup_cons.2 ⟨fun hmem => ?_, hs.increasing.nodup⟩
  exact h.not_tied heq hmem (Tied.refl point)

/-- The points after the edit are in order again. -/
theorem increasing : (front ++ point :: back).Pairwise R.Precedes := by
  have hpoints := hs.increasing
  rw [heq] at hpoints
  have hsub : (front ++ back).Sublist (front ++ (old.toList ++ back)) :=
    (List.sublist_append_right old.toList back).append_left front
  exact pairwise_insert (hpoints.sublist hsub) h.between.front h.between.back

theorem valid {maxima : List Point} {version : Nat} (hranked : maxima.Pairwise R.Outranks)
    (hmem : ∀ p, p ∈ maxima ↔ R.IsPeak (front ++ point :: back) p) :
    Store.Valid R (point.id + 1)
      { points := front ++ point :: back, maxima := maxima, version := version } := by
  have hsub : (front ++ point :: back).Sublist (front ++ (old.toList ++ point :: back)) :=
    (List.sublist_append_right old.toList _).append_left front
  have hdistinguishes := h.distinguishes hs heq
  refine ⟨⟨h.increasing hs heq, hranked, hmem⟩, ?_, ?_, ?_⟩
  · exact fun p hp => hdistinguishes.covers p (hsub.subset hp)
  · intro p hp
    rcases List.mem_cons.1 ((perm heq).mem_iff.1 (hsub.subset hp)) with rfl | hp'
    · exact Nat.lt_succ_self _
    · exact Nat.lt_succ_of_lt (lt_of_lt_of_le (hs.numbered p hp') h.fresh)
  · exact fun p hp q hq hsame =>
      hdistinguishes.eq_of_same p (hsub.subset hp) q (hsub.subset hq) hsame

end Rankings.Fits

/-- The pairs of a source lie in the domains. -/
def Rankings.CoversSource (R : Rankings) (source : Source) : Prop :=
  ∀ a v, [a, v] ∈ source.rows → R.argument.domain a ∧ R.value.domain v

theorem Row.eq_of_pair? {row : Row} {a v : Payload} (h : row.pair? = .ok (a, v)) :
    row = [a, v] := by
  unfold Row.pair? at h
  split at h
  · next argument value =>
    cases h
    rfl
  · cases h
  · cases h

namespace Editor

variable {σ α : Type} {rules : Rules σ} {R : Rankings} {e : Editor σ}

/-! ## Parts of an edit -/

/-- A failed edit: the fault was raised on the way, the store is as it was, and so are the counters
and the cells of the pool. -/
structure Refused (rules : Rules σ) (e : Editor σ) (fault : Fault) (t : Editor σ) : Prop where
  raised : rules.Raised fault t.host
  store : t.store = e.store
  pool : t.pool.SameContent e.pool
  mint : e.mint.nextPoint ≤ t.mint.nextPoint

/-- An edit at an argument that failed, and failed again over the line about it. Nothing was taken
back: the store has the new points, as many as the edit adds, beside the old ones, and all
insertions that were staged beside the old maxima. -/
structure Stranded (rules : Rules σ) (argument : Payload) (added : Nat) (e : Editor σ)
    (fault : Fault)
    (t : Editor σ) : Prop where
  cause : ∃ cause, fault = .unspoken cause ∧ rules.Raised cause t.host ∧
    (argument.isWritable && cause.isWritable) = false
  points : ∃ new : List Point, new.length = added ∧ t.store.points.Perm (new ++ e.store.points)
  maxima : e.store.maxima.Sublist t.store.maxima
  version : t.store.version = e.store.version
  pool : t.pool.SameContent e.pool
  mint : e.mint.nextPoint ≤ t.mint.nextPoint

/-- A failed edit is taken back, unless its failure could not be told. -/
def Failed (rules : Rules σ) (argument : Payload) (added : Nat) (e : Editor σ) (fault : Fault)
    (t : Editor σ) : Prop :=
  Refused rules e fault t ∨ Stranded rules argument added e fault t

section Failed

variable {e' t : Editor σ} {argument : Payload} {added : Nat} {fault : Fault}

theorem Refused.trans (h : Refused rules e' fault t) (hstore : e'.store = e.store)
    (hpool : e'.pool.SameContent e.pool) (hmint : e.mint.nextPoint ≤ e'.mint.nextPoint) :
    Refused rules e fault t where
  raised := h.raised
  store := h.store.trans hstore
  pool := h.pool.trans hpool
  mint := hmint.trans h.mint

theorem Stranded.trans (h : Stranded rules argument added e' fault t) (hstore : e'.store = e.store)
    (hpool : e'.pool.SameContent e.pool) (hmint : e.mint.nextPoint ≤ e'.mint.nextPoint) :
    Stranded rules argument added e fault t where
  cause := h.cause
  points := hstore ▸ h.points
  maxima := hstore ▸ h.maxima
  version := hstore ▸ h.version
  pool := h.pool.trans hpool
  mint := hmint.trans h.mint

theorem Failed.trans (h : Failed rules argument added e' fault t) (hstore : e'.store = e.store)
    (hpool : e'.pool.SameContent e.pool) (hmint : e.mint.nextPoint ≤ e'.mint.nextPoint) :
    Failed rules argument added e fault t :=
  h.imp (·.trans hstore hpool hmint) (·.trans hstore hpool hmint)

theorem Failed.refused (h : Failed rules argument added e fault t)
    (hspoken : fault.isSpoken = true) : Refused rules e fault t := by
  rcases h with h | h
  · exact h
  · obtain ⟨cause, rfl, -⟩ := h.cause
    cases hspoken

theorem Failed.raised (h : Failed rules argument added e fault t) :
    ∃ cause, fault.StemsFrom cause ∧ rules.Raised cause t.host := by
  rcases h with h | h
  · exact ⟨fault, Or.inl rfl, h.raised⟩
  · exact h.cause.imp fun _ h => ⟨Or.inr h.1, h.2.1⟩

theorem Failed.mint (h : Failed rules argument added e fault t) :
    e.mint.nextPoint ≤ t.mint.nextPoint :=
  h.elim Refused.mint Stranded.mint

end Failed

/-- Asking the host changes nothing but the host. -/
theorem onHost_run_bind {β : Type} {x : Attempt σ α} {f : α → Attempt (Editor σ) β}
    {done : β → Editor σ → Prop}
    {failed : Fault → Editor σ → Prop}
    (hf : ∀ a host, x e.host = .ok a host → (f a).EndsFrom { e with host := host } done failed)
    (hfailed : ∀ fault host, x e.host = .error fault host → failed fault { e with host := host }) :
    (onHost x >>= f).EndsFrom e done failed := by
  have hask : (onHost x).EndsFrom e (fun a t => ∃ host, x e.host = .ok a host ∧
      t = { e with host := host })
      failed := by
    unfold Attempt.EndsFrom onHost Attempt.within
    cases hx : x e.host with
    | ok a host =>
        exact ⟨host, rfl, rfl⟩
    | error fault host =>
        exact hfailed fault host hx
  refine hask.bind ?_
  intro a t ht
  rcases ht with ⟨host, hx, rfl⟩
  exact hf a host hx

theorem onHost_bind {β : Type} {x : Attempt σ α} {f : α → Attempt (Editor σ) β}
    {promise : α → σ → Prop} {raised : Fault → σ → Prop} {done : β → Editor σ → Prop}
    {failed : Fault → Editor σ → Prop} (hx : x.Ensures promise raised)
    (hraised : ∀ fault host, raised fault host → failed fault { e with host := host })
    (hf : ∀ a host, promise a host → (f a).EndsFrom { e with host := host } done failed) :
    (onHost x >>= f).EndsFrom e done failed :=
  onHost_run_bind (fun a host hrun => hf a host (hx.ok hrun)) fun fault host hrun =>
    hraised fault host (hx.error hrun)

theorem onHost_bind_failed {β : Type} {x : Attempt σ α} {f : α → Attempt (Editor σ) β}
    {promise : α → σ → Prop} {done : β → Editor σ → Prop} {argument : Payload} {added : Nat}
    (hx : x.Ensures promise rules.Raised)
    (hf : ∀ a host, promise a host →
      (f a).EndsFrom { e with host := host } done
        (Failed rules argument added { e with host := host })) :
    (onHost x >>= f).EndsFrom e done (Failed rules argument added e) := by
  refine onHost_bind hx (fun fault host h => Or.inl ⟨h, rfl, .refl _, le_refl _⟩)
    fun a host ha => ?_
  exact (hf a host ha).imp (fun _ _ h => h) fun _ _ h => h.trans rfl (.refl _) (le_refl _)

theorem committed_endsFrom {staging : Staging} {gone : Option Nat} {maxima : List Point}
    {failed : Fault → Editor σ → Prop} (hcommit : staging.commit = (maxima, none)) :
    (conclude staging gone : Attempt (Editor σ) Unit).EndsFrom e
      (fun _ t => t = { e with
        store := {
          points := gone.elim e.store.points e.store.points.eraseIdx
          maxima := maxima
          version := e.store.version + 1 } }) failed := by
  rw [Attempt.EndsFrom, conclude_run hcommit]

/-- The store in the midst of an edit that has failed: the new points are in, and the insertions
that were staged. Taking these back gives the store that was there before. -/
structure Midway (s : Store) (staging : Staging) (added : Option Nat) (t : Store) : Prop where
  points : added.elim t.points t.points.eraseIdx = s.points
  rollback : staging.rollback.maxima = s.maxima
  maxima : t.maxima = staging.maxima
  version : t.version = s.version

theorem Midway.abandon_endsFrom {t : Editor σ} {staging : Staging} {added : Option Nat}
    (h : Midway e.store staging added t.store) {edit : String} {argument : Payload} {fault : Fault}
    {done : α → Editor σ → Prop} {count : Nat} (hraised : rules.Raised fault t.host)
    (hnew : ∃ new : List Point, new.length = count ∧ t.store.points.Perm (new ++ e.store.points))
    (hpool : t.pool = e.pool) (hmint : t.mint = e.mint) :
    (abandon edit argument staging added fault : Attempt (Editor σ) α).EndsFrom t done
      (Failed rules argument count e) := by
  refine Editor.abandon_endsFrom (fun text => Or.inl ⟨hraised, ?_, ?_, ?_⟩) fun hmute => Or.inr ?_
  · simp only [takenBack, h.points, h.rollback, h.version]
  · exact hpool ▸ .refl _
  · exact hmint ▸ le_refl _
  · refine ⟨⟨fault, rfl, hraised, hmute⟩, hnew, ?_, h.version, hpool ▸ .refl _, hmint ▸ le_refl _⟩
    rw [h.maxima, ← h.rollback]
    exact Staging.rollback_sublist staging

/-! ## Placing a new point -/

/-- The new point stands in its place, and nothing else was changed by hand. -/
structure Placed (R : Rankings) (e : Editor σ) (front : List Point) (point : Point)
    (back : List Point) (cells : List Cell) (t : Editor σ) : Prop where
  points : t.store.points = front ++ point :: back
  valid : t.store.Valid R (point.id + 1)
  version : t.store.version = e.store.version + 1
  pool : t.pool = e.pool.recordAll cells
  mint : t.mint = e.mint

theorem place_endsFrom (hR : rules.Follow R) {next : Nat} (hs : e.store.Valid R next)
    {front back : List Point} {old : Option Point} {point : Point}
    (hfits : R.Fits next front old point back)
    (heq : e.store.points = front ++ (old.toList ++ back))
    (cells : List Cell) (argument : Payload) :
    (place rules point (old.map fun _ => front.length) cells argument).EndsFrom e
      (fun _ t => Placed R e front point back cells t) (Failed rules argument 1 e) := by
  -- tied with the old point, the new one goes behind it; from here on the list holds both
  have hfront : ∀ x ∈ front ++ old.toList, ¬ R.Precedes point x := by
    intro x hx hpx
    rcases List.mem_append.1 hx with hx | hx
    · exact irrefl_of _ _ (trans_of R.argument.before hpx (hfits.between.front x hx))
    · exact (hfits.tied x (by simpa using hx)).2 hpx
  have hcovers : ∀ p ∈ (front ++ old.toList) ++ back, R.Covers p := by
    intro p hp
    exact hs.covers p (by simpa [heq] using hp)
  have hinsert := PointIndex.insert_ensures
    (fun p hp => hR.argument_ensures hfits.covers.1 (hcovers p hp).1) hfront
    hfits.between.back
  have hpeaks := hs.mem_maxima_iff
  rw [heq] at hpeaks
  have hsteps := Store.setSteps_ensures hR (hfits.distinguishes hs heq) (hfits.nodup hs heq)
    hs.ranked hpeaks
  have hindex : (front ++ old.toList).length = front.length + old.toList.length :=
    List.length_append
  have hpending : (front ++ old.toList) ++ point :: back = front ++ (old.toList ++ point :: back) :=
    List.append_assoc _ _ _
  refine .get_bind ?_
  simp only [heq, ← List.append_assoc front old.toList back]
  refine onHost_bind_failed hinsert fun placed host hplaced => ?_
  subst hplaced
  simp only [hindex, hpending]
  refine .modify_bind (stageAll_bind fun attempted host' hrun => ?_)
  have hattempted := hsteps.ok hrun
  obtain ⟨staging, failure⟩ := attempted
  cases failure with
  | some fault =>
      -- a step failed: the new point and what was staged are in the store and have to go
      have hback : (front ++ (old.toList ++ point :: back)).eraseIdx
          (front.length + old.toList.length) = e.store.points := by
        rw [← hindex, ← hpending, eraseIdx_append, heq, List.append_assoc]
      have hmidway : Midway e.store staging (some (front.length + old.toList.length))
          { e.store with
            points := front ++ (old.toList ++ point :: back), maxima := staging.maxima } :=
        ⟨hback, hattempted.1, rfl, rfl⟩
      exact hmidway.abandon_endsFrom hattempted.2 ⟨[point], rfl, Rankings.Fits.perm heq⟩ rfl rfl
  | none =>
      obtain ⟨maxima, hcommit, hranked, hmem⟩ := hattempted
      -- no comparison is made from here on, so nothing can fail any more
      refine .modify_bind ?_
      refine (committed_endsFrom hcommit).imp ?_ fun _ _ h => h
      rintro _ _ rfl
      rw [elim_eraseIdx_append]
      exact ⟨rfl, hfits.valid hs heq hranked hmem, rfl, rfl, rfl⟩

/-! ## Setting a value -/

theorem obtainCell_spec_bind {β : Type} {p : Payload} {f : Cell → Attempt (Editor σ) β}
    {done : β → Editor σ → Prop}
    {failed : Fault → Editor σ → Prop}
    (hf : ∀ cell pool mint, Pool.Obtained e.pool e.mint p cell pool mint →
      (f cell).EndsFrom { e with pool := pool, mint := mint } done failed) :
    (obtainCell p >>= f).EndsFrom e done failed :=
  .modifyGet_bind (hf _ _ _ (Pool.obtain_spec e.pool e.mint p))

theorem obtainCell_bind {β : Type} {p : Payload} {f : Cell → Attempt (Editor σ) β}
    {done : β → Editor σ → Prop} {argument : Payload} {added : Nat}
    (hf : ∀ cell pool mint, Pool.Obtained e.pool e.mint p cell pool mint →
      (f cell).EndsFrom { e with pool := pool, mint := mint } done
        (Failed rules argument added { e with pool := pool, mint := mint })) :
    (obtainCell p >>= f).EndsFrom e done (Failed rules argument added e) := by
  refine obtainCell_spec_bind fun cell pool mint hspec => ?_
  refine (hf cell pool mint hspec).imp (fun _ _ h => h) fun _ _ h => ?_
  exact h.trans rfl hspec.pool hspec.mint.ge

/-- A new point took its place: between `front` and `back`, instead of `old` if there was one. -/
structure Changed (R : Rankings) (a v : Payload) (e : Editor σ) (front : List Point)
    (old : Option Point) (point : Point) (back : List Point) (t : Editor σ) : Prop where
  before : e.store.points = front ++ (old.toList ++ back)
  after : t.store.points = front ++ point :: back
  between : R.Between front a back
  tied : ∀ o ∈ old, Tied R.argument.before o.argument a
  differs : ∀ o ∈ old, ¬ Tied R.value.before o.value v
  argumentCell : ∀ o ∈ old, point.argumentCell = o.argumentCell
  argument : old = none → point.argument.same a
  value : point.value.same v
  valid : t.store.Valid R t.mint.nextPoint
  version : t.store.version = e.store.version + 1
  mint : e.mint.nextPoint ≤ t.mint.nextPoint

/-- How setting a value ends when it does not fail. -/
inductive SetDone (R : Rankings) (a v : Payload) (e : Editor σ) : Bool → Editor σ → Prop
  | kept {i : Nat} {p : Point} {host : σ} (located : Located R e.store.points a (some (i, p)))
      (tied : Tied R.value.before p.value v) : SetDone R a v e false { e with host := host }
  | changed {front back : List Point} {old : Option Point} {point : Point} {t : Editor σ}
      (change : Changed R a v e front old point back t) : SetDone R a v e true t

theorem SetDone.valid {a v : Payload} {changed : Bool} {t : Editor σ}
    (h : SetDone R a v e changed t)
    (hs : e.store.Valid R e.mint.nextPoint) : t.store.Valid R t.mint.nextPoint := by
  cases h with
  | kept _ _ =>
      exact hs
  | changed change =>
      exact change.valid

theorem SetDone.mint {a v : Payload} {changed : Bool} {t : Editor σ}
    (h : SetDone R a v e changed t) :
    e.mint.nextPoint ≤ t.mint.nextPoint := by
  cases h with
  | kept _ _ =>
      exact le_refl _
  | changed change =>
      exact change.mint

/-- Both ways of setting a value end alike: with cells for the argument and the value, a point is
made and placed. -/
theorem makePoint_endsFrom (hR : rules.Follow R) (hs : e.store.Valid R e.mint.nextPoint)
    {a v : Payload} {front back : List Point} (old : Option Point) (argumentCell valueCell : Cell)
    (heq : e.store.points = front ++ (old.toList ++ back)) (hbetween : R.Between front a back)
    (htied : ∀ o ∈ old, Tied R.argument.before o.argument a)
    (hdiffers : ∀ o ∈ old, ¬ Tied R.value.before o.value v)
    (hcell : ∀ o ∈ old, argumentCell = o.argumentCell)
    (hargument : old = none → argumentCell.payload.same a) (ha : R.argument.domain a)
    (hvalue : valueCell.payload.same v) (hv : R.value.domain v) (cells : List Cell) :
    (do
      let point ← makePoint argumentCell valueCell
      place rules point (old.map fun _ => front.length) cells a
      return true : Attempt (Editor σ) Bool).EndsFrom e
      (fun changed t => changed = true ∧ ∃ point, Changed R a v e front old point back t)
      (Failed rules a 1 e) := by
  have hsame : Tied R.argument.before argumentCell.payload a ∧
      R.argument.domain argumentCell.payload := by
    -- a new cell holds the argument itself, and the cell of the old point a tied one
    cases old with
    | none =>
        exact ⟨R.argument.tied_of_same (hargument rfl),
          R.argument.domain_of_same (hargument rfl) ha⟩
    | some o =>
        rw [hcell o rfl]
        exact ⟨htied o rfl, (hs.covers o (by simp [heq])).1⟩
  have hvtied : Tied R.value.before valueCell.payload v := R.value.tied_of_same hvalue
  have hfits : R.Fits e.mint.nextPoint front old ⟨e.mint.nextPoint, argumentCell, valueCell⟩ back :=
    { covers := ⟨hsame.2, R.value.domain_of_same hvalue hv⟩
      between := hbetween.of_tied hsame.1.symm
      tied := fun o ho => (htied o ho).trans hsame.1.symm
      differs := fun o ho h => hdiffers o ho (h.trans hvtied)
      fresh := le_refl _ }
  -- the point has its number before it is placed
  let e' : Editor σ := { e with mint := { e.mint with nextPoint := e.mint.nextPoint + 1 } }
  have hplace := place_endsFrom (e := e') hR hs hfits heq cells a
  refine .modifyGet_bind ((hplace.imp (fun _ _ h => h) fun _ _ h => ?_).bind fun _ t ht => ?_)
  · exact h.trans rfl (.refl _) (Nat.le_succ _)
  refine .pure ⟨rfl, ⟨e.mint.nextPoint, argumentCell, valueCell⟩, ?_⟩
  exact
    { before := heq
      after := ht.points
      between := hbetween
      tied := htied
      differs := hdiffers
      argumentCell := hcell
      argument := hargument
      value := hvalue
      valid := by simpa [ht.mint] using ht.valid
      version := ht.version
      mint := ht.mint ▸ Nat.le_succ _ }

theorem set_endsFrom (hR : rules.Follow R) (hs : e.store.Valid R e.mint.nextPoint) {a v : Payload}
    (ha : R.argument.domain a) (hv : R.value.domain v) :
    (set rules a v).EndsFrom e (SetDone R a v e) (Failed rules a 1 e) := by
  refine .get_bind (onHost_bind_failed (PointIndex.locate_ensures hR ha hs.covers hs.increasing)
    fun found host hfound => ?_)
  cases hfound with
  | @present front back p heq htied hbetween =>
      -- the argument is there: its cell stays, and only a value that differs is set
      have hp : R.Covers p := hs.covers p (by simp [heq])
      refine onHost_bind_failed (Comparator.equivalent_ensures (hR.value_ensures hp.2 hv))
        fun tie host' htie => ?_
      split
      · next htrue =>
        exact .pure (.kept (.present heq htied hbetween) (htie.1 htrue))
      · next hfalse =>
        have hdiffers : ¬ Tied R.value.before p.value v := fun h => hfalse (htie.2 h)
        refine obtainCell_bind fun cell pool mint hcell => ?_
        have hmake := makePoint_endsFrom (e := { e with host := host', pool := pool, mint := mint })
          hR (hs.mono hcell.mint.ge) (some p) p.argumentCell cell heq hbetween
          (by simpa using htied)
          (by simpa using hdiffers) (by simp) (by simp) ha hcell.payload hv [cell]
        refine hmake.imp ?_ fun _ _ h => h
        rintro _ t ⟨rfl, point, h⟩
        exact .changed { h with mint := hcell.mint.ge.trans h.mint }
  | absent heq hbetween =>
      -- a new argument: both cells are asked for
      refine obtainCell_bind fun cell pool mint hcell =>
        obtainCell_bind fun cell' pool' mint' hcell' => ?_
      have hmint : mint'.nextPoint = e.mint.nextPoint := hcell'.mint.trans hcell.mint
      have hmake := makePoint_endsFrom (e := { e with host := host, pool := pool', mint := mint' })
        hR (hs.mono hmint.ge) none cell cell' (by simpa using heq) hbetween (by simp)
        (by simp) (by simp)
        (fun _ => hcell.payload) ha hcell'.payload hv [cell, cell']
      refine hmake.imp ?_ fun _ _ h => h
      rintro _ t ⟨rfl, point, h⟩
      exact .changed { h with mint := hmint.ge.trans h.mint }

/-! ## Erasing -/

/-- The point tied with the argument was taken out from between `front` and `back`. -/
structure Erased (R : Rankings) (a : Payload) (e : Editor σ) (front : List Point) (old : Point)
    (back : List Point) (t : Editor σ) : Prop where
  before : e.store.points = front ++ old :: back
  after : t.store.points = front ++ back
  between : R.Between front a back
  tied : Tied R.argument.before old.argument a
  valid : t.store.Valid R t.mint.nextPoint
  version : t.store.version = e.store.version + 1
  pool : t.pool = e.pool
  mint : t.mint = e.mint

/-- How erasing ends when it does not fail. -/
inductive EraseDone (R : Rankings) (a : Payload) (e : Editor σ) : Bool → Editor σ → Prop
  | absent {host : σ} (located : Located R e.store.points a none) :
      EraseDone R a e false { e with host := host }
  | erased {front back : List Point} {old : Point} {t : Editor σ}
      (change : Erased R a e front old back t) : EraseDone R a e true t

theorem EraseDone.valid {a : Payload} {changed : Bool} {t : Editor σ}
    (h : EraseDone R a e changed t)
    (hs : e.store.Valid R e.mint.nextPoint) : t.store.Valid R t.mint.nextPoint := by
  cases h with
  | absent _ =>
      exact hs
  | erased change =>
      exact change.valid

theorem EraseDone.mint {a : Payload} {changed : Bool} {t : Editor σ}
    (h : EraseDone R a e changed t) :
    e.mint.nextPoint ≤ t.mint.nextPoint := by
  cases h with
  | absent _ =>
      exact le_refl _
  | erased change =>
      rw [change.mint]

theorem erase_endsFrom (hR : rules.Follow R) (hs : e.store.Valid R e.mint.nextPoint) {a : Payload}
    (ha : R.argument.domain a) :
    (erase rules a).EndsFrom e (EraseDone R a e) (Failed rules a 0 e) := by
  refine .get_bind (onHost_bind_failed (PointIndex.find?_ensures hR ha hs.covers hs.increasing)
    fun index host hindex => ?_)
  obtain ⟨found, hfound, rfl⟩ := hindex
  cases hfound with
  | absent heq hbetween =>
      exact .pure (.absent (.absent heq hbetween))
  | @present front back p heq htied hbetween =>
      -- the point is on its way out, and its neighbours are judged without it
      have hdistinguishes := hs.distinguishes
      have hnodup := hs.increasing.nodup
      have hpeaks := hs.mem_maxima_iff
      rw [heq] at hdistinguishes hnodup hpeaks
      have hsteps := Store.eraseSteps_ensures hR hdistinguishes hnodup hs.ranked hpeaks
      simp only [Option.map_some, heq]
      refine stageAll_bind fun attempted host' hrun => ?_
      have hattempted := hsteps.ok hrun
      obtain ⟨staging, failure⟩ := attempted
      cases failure with
      | some fault =>
          have hmidway : Midway e.store staging none { e.store with maxima := staging.maxima } :=
            ⟨rfl, hattempted.1, rfl, rfl⟩
          exact hmidway.abandon_endsFrom hattempted.2 ⟨[], rfl, .refl _⟩ rfl rfl
      | none =>
          obtain ⟨maxima, hcommit, hranked, hmem⟩ := hattempted
          refine (committed_endsFrom hcommit).bind ?_
          rintro _ _ rfl
          have hgone : (some front.length).elim e.store.points e.store.points.eraseIdx =
              front ++ back := by
            rw [heq]
            exact eraseIdx_append front back p
          simp only [hgone]
          have hsub : (front ++ back).Sublist e.store.points := by
            rw [heq]
            exact (List.sublist_cons_self p back).append_left front
          exact .pure (.erased
            ⟨heq, rfl, hbetween, htied, hs.sublist hsub hranked hmem, rfl, rfl, rfl⟩)

/-! ## Loading -/

/-- The point holds the very objects of a row. -/
def Holds (row : Row) (p : Point) : Prop :=
  ∃ a v, row = [a, v] ∧ p.argument.same a ∧ p.value.same v

/-- The points made for some rows, numbered one after another. -/
structure Drawn (e : Editor σ) (rows : List Row) (points : List Point) (t : Editor σ) : Prop where
  store : t.store = e.store
  mint : e.mint.nextPoint ≤ t.mint.nextPoint
  rows : List.Forall₂ Holds rows points
  numbered : ∀ p ∈ points, e.mint.nextPoint ≤ p.id ∧ p.id < t.mint.nextPoint
  ascending : points.Pairwise fun p q => p.id < q.id

/-- A fault that the rows themselves are the cause of; the store is as it was. -/
structure Misdrawn (e : Editor σ) (rows : List Row) (fault : Fault) (t : Editor σ) : Prop where
  row : ∃ row ∈ rows, row.pair? = .error fault
  store : t.store = e.store
  mint : e.mint.nextPoint ≤ t.mint.nextPoint

theorem obtainPoint_bind {β : Type} {a v : Payload} {f : Point → Attempt (Editor σ) β}
    {done : β → Editor σ → Prop} {failed : Fault → Editor σ → Prop}
    (hf : ∀ p t, p.id = e.mint.nextPoint → t.mint.nextPoint = e.mint.nextPoint + 1 →
      t.store = e.store → p.argument.same a → p.value.same v → (f p).EndsFrom t done failed) :
    (obtainPoint a v >>= f).EndsFrom e done failed := by
  have hspec := Pool.obtain_spec e.pool e.mint a
  have hspec' := Pool.obtain_spec (e.pool.obtain e.mint a).2.1 (e.pool.obtain e.mint a).2.2 v
  have hmint := hspec'.mint.trans hspec.mint
  exact hf ⟨_, _, _⟩ _ hmint (congrArg (· + 1) hmint) rfl hspec.payload hspec'.payload

theorem traverseRows_endsFrom (rows : List Row) :
    (Source.traverseRows obtainPoint rows).EndsFrom e (Drawn e rows) (Misdrawn e rows) := by
  induction rows generalizing e with
  | nil =>
      exact .pure ⟨rfl, le_refl _, .nil, by simp, .nil⟩
  | cons row rows ih =>
      rw [Source.traverseRows]
      cases hpair : row.pair? with
      | error fault =>
          exact ⟨⟨row, by simp, hpair⟩, rfl, le_refl _⟩
      | ok pair =>
          obtain ⟨a, v⟩ := pair
          simp only [Attempt.ofExcept, pure_bind]
          refine obtainPoint_bind fun p t hid hmint hstore ha hv => ?_
          refine (ih.imp (fun _ _ h => h) fun fault u h => ?_).bind fun points u h => .pure ?_
          · obtain ⟨row', hrow', hfault⟩ := h.row
            exact ⟨⟨row', by simp [hrow'], hfault⟩, h.store.trans hstore, by have := h.mint; omega⟩
          · have hmint' := h.mint
            refine ⟨h.store.trans hstore, by omega,
              .cons ⟨a, v, Row.eq_of_pair? hpair, ha, hv⟩ h.rows,
              ?_, List.pairwise_cons.2 ⟨fun q hq => ?_, h.ascending⟩⟩
            · -- numbers are handed out one after another, the first point has the smallest
              intro q hq
              rcases List.mem_cons.1 hq with rfl | hq
              · omega
              · have := h.numbered q hq
                omega
            · have := h.numbered q hq
              omega

/-- A source may be the cause of a fault itself, by a row that is no pair or by giving up. -/
def SourceFault (source : Source) (fault : Fault) : Prop :=
  (∃ row ∈ source.rows, row.pair? = .error fault) ∨ source.failure = some fault

/-- What a failed load leaves behind. -/
structure Unloaded (raised : Fault → σ → Prop) (source : Source) (e : Editor σ) (fault : Fault)
    (t : Editor σ) : Prop where
  cause : raised fault t.host ∨ SourceFault source fault
  store : t.store = e.store
  mint : e.mint.nextPoint ≤ t.mint.nextPoint

/-- Of the points that were made for the rows, one of each class of tied ones was kept, the one that
was made last. -/
structure Kept (R : Rankings) (rows : List Row) (points kept : List Point) : Prop where
  rows : List.Forall₂ Holds rows points
  ascending : points.Pairwise fun p q => p.id < q.id
  mem : ∀ p ∈ kept, p ∈ points
  latest : ∀ q ∈ points, ∃ p ∈ kept, Tied R.Precedes q p ∧ q.id ≤ p.id

/-- What a finished load leaves behind. -/
structure Loaded (R : Rankings) (rows : List Row) (e t : Editor σ) : Prop where
  content : ∃ points, Kept R rows points t.store.points
  valid : t.store.Valid R t.mint.nextPoint
  version : t.store.version = e.store.version + 1
  mint : e.mint.nextPoint ≤ t.mint.nextPoint

theorem traverse_endsFrom {raised : Fault → σ → Prop} (source : Source) :
    (source.traverse obtainPoint).EndsFrom e (Drawn e source.rows) (Unloaded raised source e) := by
  refine ((traverseRows_endsFrom source.rows).imp (fun _ _ h => h) fun fault t h => ?_).bind
    fun points t h => ?_
  · exact ⟨Or.inr (Or.inl h.row), h.store, h.mint⟩
  · -- all rows are pairs, but the source may still give up at its end
    unfold Source.finish
    cases hfailure : source.failure with
    | none =>
        exact h
    | some fault =>
        exact ⟨Or.inr (Or.inr hfailure), h.store, h.mint⟩

theorem adopt_endsFrom {raised : Fault → σ → Prop} (hR : rules.Obey R raised) {unique : List Point}
    {failed : Fault → Editor σ → Prop} (hcovers : ∀ p ∈ unique, R.Covers p)
    (hunique : unique.Pairwise R.Precedes)
    (hraised : ∀ fault host, raised fault host → failed fault { e with host := host }) :
    (adopt rules unique (R.peaks unique)).EndsFrom e
      (fun _ t => t.store.Consistent R ∧ t.store.points = unique ∧
        t.store.version = e.store.version + 1 ∧ t.mint = e.mint) failed := by
  have hsub := Rankings.peaksAfter_sublist (R := R) none unique
  have hsort := StableSort.sort_ensures (fun _ _ hp hq => hR.compare_ensures hp hq) (R.peaks unique)
    fun p hp => hcovers p (hsub.subset hp)
  refine onHost_bind hsort hraised fun maxima host hmaxima => ?_
  exact ⟨Store.consistent_of_sorts hunique hmaxima, rfl, rfl, rfl⟩

section Drawn

variable {source : Source} {points : List Point} {t : Editor σ} (h : Drawn e source.rows points t)
include h

theorem Drawn.covers (hsource : R.CoversSource source) : ∀ p ∈ points, R.Covers p := by
  intro p hp
  obtain ⟨i, hi, rfl⟩ := List.getElem_of_mem hp
  obtain ⟨a, v, hrow, ha, hv⟩ := h.rows.get (h.rows.length_eq ▸ hi) hi
  obtain ⟨hda, hdv⟩ := hsource a v (hrow ▸ List.getElem_mem _)
  exact ⟨R.argument.domain_of_same ha hda, R.value.domain_of_same hv hdv⟩

/-- A consistent store with some of the new points is valid. -/
theorem Drawn.valid (hsource : R.CoversSource source) {s : Store} (hs : s.Consistent R)
    (hmem : ∀ p ∈ s.points, p ∈ points) : s.Valid R t.mint.nextPoint where
  toConsistent := hs
  covers p hp := h.covers hsource p (hmem p hp)
  numbered p hp := (h.numbered p (hmem p hp)).2
  eq_of_same p hp q hq hsame := by
    rcases eq_or_of_pairwise h.ascending (hmem p hp) (hmem q hq) with heq | hlt | hlt
    · exact heq
    · exact absurd (Point.same_iff.1 hsame) hlt.ne
    · exact absurd (Point.same_iff.1 hsame) hlt.ne'

end Drawn

theorem load_obeys {raised : Fault → σ → Prop} (hR : rules.Obey R raised) {source : Source}
    (hsource : R.CoversSource source) :
    (load rules source).EndsFrom e (fun _ t => Loaded R source.rows e t)
      (Unloaded raised source e) := by
  refine (traverse_endsFrom source).bind fun points t hpoints => ?_
  -- from here on the store and the numbers of the points stay as they are, whatever fails
  have hraised : ∀ fault (u : Editor σ), u.store = t.store → u.mint = t.mint →
      raised fault u.host → Unloaded raised source e fault u := by
    intro fault u hstore hmint h
    exact ⟨Or.inl h, hstore.trans hpoints.store, hmint ▸ hpoints.mint⟩
  have hcovers := hpoints.covers hsource
  refine onHost_bind (PointIndex.sorted_ensures hR points hcovers hpoints.ascending)
    (fun fault host h => hraised fault _ rfl rfl h) fun sorted host hsorted => ?_
  -- sorting and thinning out lose no property of single points
  have hcovers' : ∀ p ∈ sorted, R.Covers p := fun p hp => hcovers p (hsorted.perm.mem_iff.1 hp)
  refine onHost_bind (PointIndex.lastOfEach_ensures hR sorted hcovers' hsorted.ordered)
    (fun fault host h => hraised fault _ rfl rfl h) fun unique host hunique => ?_
  have hmem : ∀ p ∈ unique, p ∈ points := fun p hp =>
    hsorted.perm.mem_iff.1 (hunique.sublist.subset hp)
  have hkept : Kept R source.rows points unique := by
    refine ⟨hpoints.rows, hpoints.ascending, hmem, fun q hq => ?_⟩
    rcases hunique.latest q (hsorted.perm.mem_iff.2 hq) with ⟨p, hp, htied, rfl | hlt⟩
    · exact ⟨q, hp, htied, le_refl _⟩
    · exact ⟨p, hp, htied, hlt.le⟩
  have hcovers'' : ∀ p ∈ unique, R.Covers p := fun p hp => hcovers p (hmem p hp)
  refine onHost_bind (Scan.localMaxima_ensures hR unique hcovers'')
    (fun fault host h => hraised fault _ rfl rfl h) fun maxima host hmaxima => ?_
  subst hmaxima
  refine .modify_bind (Attempt.EndsFrom.imp (adopt_endsFrom hR hcovers'' hunique.increasing
    fun fault host h => hraised fault _ rfl rfl h) ?_ fun _ _ h => h)
  rintro _ u ⟨hconsistent, hpoints', hversion, hmint⟩
  refine ⟨⟨points, hpoints' ▸ hkept⟩, ?_, ?_, ?_⟩
  · rw [hmint]
    exact hpoints.valid hsource hconsistent fun p hp => hmem p (hpoints' ▸ hp)
  · rw [hversion, hpoints.store]
  · rw [hmint]
    exact hpoints.mint

theorem load_endsFrom (hR : rules.Follow R) {source : Source} (hsource : R.CoversSource source) :
    (load rules source).EndsFrom e (fun _ t => Loaded R source.rows e t)
      (Unloaded rules.Raised source e) :=
  load_obeys hR.obey hsource

end Editor

end Peaks
