import Mathlib.Data.List.InsertIdx
import Peaks.Proofs.Overtaking
import Peaks.Proofs.SideBySide
import Peaks.Proofs.Unruly

/-!
# After a failed edit

A new value is looked for in the pool before the edit can fail, and so is a new argument. The
failure takes back nothing of that: the keys that were looked for stay the most recent ones. All
later requests are answered as if the edit had never been tried, as long as the pool would not have
forgotten one of these keys by then.

- `Editor.Alongside`  : one attempt on two editors that differ in their pools
- `Editor.Request`    : what may be asked of an editor and of its pool, `Editor.replies` the answers
- `Editor.replies_eq` : the answers from pools that differ in recency
- `Editor.failed_set_touches` : what a failed edit leaves in the pool, and when it shows
-/

namespace Peaks

variable {σ α β : Type}

/-! ## Sorting with any comparison -/

namespace StableSort

variable (compare : α → α → Attempt σ Int)

theorem takeRun_subset (falling : Bool) (latest : α) (run rest : List α) :
    (takeRun compare falling latest run rest).Ensures
      (fun r _ => r.1 ++ r.2 ⊆ latest :: run ++ rest)
      (fun _ _ => True) := by
  induction rest generalizing latest run with
  | nil =>
      exact .pure fun _ => List.Subset.refl _
  | cons x rest ih =>
      rw [takeRun]
      refine (any_ensures _).bind fun yes _ => ?_
      split
      · refine (ih x (latest :: run)).mono fun r _ hr => List.Subset.trans hr fun y hy => ?_
        simp only [List.mem_append, List.mem_cons] at hy ⊢
        tauto
      · exact .pure fun _ => List.Subset.refl _

theorem leadingRun_subset (xs : List α) :
    (leadingRun compare xs).Ensures (fun r _ => r.1 ++ r.2 ⊆ xs) (fun _ _ => True) := by
  unfold leadingRun
  split
  · exact .pure fun _ => List.Subset.refl _
  · exact .pure fun _ => List.Subset.refl _
  · next x y rest =>
    refine (any_ensures _).bind fun falling _ =>
      (takeRun_subset compare falling y [x] rest).map fun r _ hr z hz => ?_
    have hz' : z ∈ r.1 ++ r.2 := by
      rw [List.mem_append] at hz ⊢
      refine hz.imp (fun hrun => ?_) id
      split at hrun
      · exact hrun
      · exact List.mem_reverse.1 hrun
    have := hr hz'
    simp only [List.mem_append, List.mem_cons] at this ⊢
    tauto

theorem insertAll_subset (sorted rest : List α) :
    (insertAll compare sorted rest).Ensures (fun ys _ => ys ⊆ sorted ++ rest)
      (fun _ _ => True) := by
  induction rest generalizing sorted with
  | nil =>
      exact .pure fun _ => by simp
  | cons x rest ih =>
      rw [insertAll]
      have hinsert : (insert compare sorted x).Ensures (fun ys _ => ys ⊆ x :: sorted)
          (fun _ _ => True) :=
        (any_ensures _).map fun position _ _ => List.insertIdx_subset_cons position x sorted
      refine hinsert.bind fun ys hys => (ih ys).mono fun zs _ hzs =>
        List.Subset.trans hzs fun z hz => ?_
      rcases List.mem_append.1 hz with hz | hz
      · have := hys hz
        simp only [List.mem_append, List.mem_cons] at this ⊢
        tauto
      · simp [hz]

/-- Whatever is answered, sorting brings in nothing new. -/
theorem sort_subset (xs : List α) :
    (sort compare xs).Ensures (fun ys _ => ys ⊆ xs) (fun _ _ => True) := by
  refine Attempt.Ensures.bind (leadingRun_subset compare xs) fun r hr => ?_
  exact (insertAll_subset compare r.1 r.2).mono fun ys _ hys => List.Subset.trans hys hr

end StableSort

namespace PointIndex

theorem lastOfEachAfter_subset (compare : Comparator σ) (latest : Point) (rest : List Point) :
    (lastOfEachAfter compare latest rest).Ensures (fun kept _ => kept ⊆ latest :: rest)
      (fun _ _ => True) := by
  induction rest generalizing latest with
  | nil =>
      exact .pure fun _ => List.Subset.refl _
  | cons p rest ih =>
      rw [lastOfEachAfter]
      refine (any_ensures _).bind fun tied _ => ?_
      split
      · exact (ih p).mono fun kept _ hkept => List.Subset.trans hkept (List.subset_cons_self _ _)
      · exact (ih p).map fun kept _ hkept => List.cons_subset_cons latest hkept

theorem lastOfEach_subset (compare : Comparator σ) (points : List Point) :
    (lastOfEach compare points).Ensures (fun kept _ => kept ⊆ points) (fun _ _ => True) := by
  cases points with
  | nil =>
      exact .pure fun _ => List.Subset.refl _
  | cons p rest =>
      exact lastOfEachAfter_subset compare p rest

end PointIndex

namespace Editor

variable {rules : Rules σ} {e t : Editor σ} {p q : Pool} {S : Payload → Prop}

/-! ## Two editors that differ in their pools -/

/-- On the editor with the pool `q` instead of its own the attempt ends in the same way, with all
but the pools the same afterwards. -/
def Alongside (x : Attempt (Editor σ) α) (e : Editor σ) (q : Pool) (done : α → Pool → Pool → Prop)
    (failed : Fault → Pool → Pool → Prop) : Prop :=
  x.EndsFrom e
    (fun a t => ∃ q', x { e with pool := q } = .ok a { t with pool := q' } ∧ done a t.pool q')
    (fun fault t => ∃ q', x { e with pool := q } = .error fault { t with pool := q' } ∧
      failed fault t.pool q')

namespace Alongside

variable {x : Attempt (Editor σ) α} {f : α → Attempt (Editor σ) β} {done : β → Pool → Pool → Prop}
  {failed : Fault → Pool → Pool → Prop}

theorem pure {b : β} (h : done b e.pool q) : Alongside (Pure.pure b) e q done failed :=
  ⟨q, rfl, h⟩

theorem throw {fault : Fault} (h : failed fault e.pool q) :
    Alongside (throw fault : Attempt (Editor σ) β) e q done failed :=
  ⟨q, rfl, h⟩

theorem imp {done' : β → Pool → Pool → Prop} {failed' : Fault → Pool → Pool → Prop}
    {y : Attempt (Editor σ) β}
    (h : Alongside y e q done failed) (hdone : ∀ b p' q', done b p' q' → done' b p' q')
    (hfailed : ∀ fault p' q', failed fault p' q' → failed' fault p' q') :
    Alongside y e q done' failed' := by
  refine Attempt.EndsFrom.imp h ?_ ?_
  · rintro b t ⟨q', hrun, hb⟩
    exact ⟨q', hrun, hdone b _ q' hb⟩
  · rintro fault t ⟨q', hrun, hfault⟩
    exact ⟨q', hrun, hfailed fault _ q' hfault⟩

theorem bind_ok {a : α} {r : Pool} (hhere : x e = .ok a t)
    (hthere : x { e with pool := q } = .ok a { t with pool := r })
    (h : Alongside (f a) t r done failed) :
    Alongside (x >>= f) e q done failed := by
  unfold Alongside at h ⊢
  rw [Attempt.bind_of_ok hthere]
  exact .bind_ok hhere h

theorem bind_error {fault : Fault} {r : Pool} (hhere : x e = .error fault t)
    (hthere : x { e with pool := q } = .error fault { t with pool := r })
    (h : failed fault t.pool r) :
    Alongside (x >>= f) e q done failed :=
  Attempt.EndsFrom.bind_error hhere ⟨r, Attempt.bind_of_error hthere, h⟩

theorem bind {between : α → Pool → Pool → Prop} (hx : Alongside x e q between failed)
    (hf : ∀ a t q', between a t.pool q' → Alongside (f a) t q' done failed) :
    Alongside (x >>= f) e q done failed := by
  cases hrun : x e with
  | ok a t =>
      rcases Attempt.EndsFrom.ok hx hrun with ⟨q', hrun', hbetween⟩
      exact .bind_ok hrun hrun' (hf a t q' hbetween)
  | error fault t =>
      rcases Attempt.EndsFrom.error hx hrun with ⟨q', hrun', hfailed⟩
      exact .bind_error hrun hrun' hfailed

/-- What comes next must not depend on the pool that was read. -/
theorem get_bind {f : Editor σ → Attempt (Editor σ) β} (hf : f { e with pool := q } = f e)
    (h : Alongside (f e) e q done failed) : Alongside (get >>= f) e q done failed := by
  have hthere : (get >>= f : Attempt (Editor σ) β) { e with pool := q } =
      f e { e with pool := q } := by
    rw [Attempt.get_bind_run, hf]
  unfold Alongside at h ⊢
  rw [hthere]
  exact .get_bind h

/-- The host does not see the pools. -/
theorem onHost_bind {y : Attempt σ α}
    (hf : ∀ a host, y e.host = .ok a host → Alongside (f a) { e with host := host } q done failed)
    (hfailed : ∀ fault, failed fault e.pool q) : Alongside (onHost y >>= f) e q done failed := by
  cases hrun : y e.host with
  | ok a host =>
      exact .bind_ok (onHost_eq_ok hrun) (onHost_eq_ok (e := { e with pool := q }) hrun)
        (hf a host hrun)
  | error fault host =>
      exact .bind_error (onHost_eq_error hrun) (onHost_eq_error (e := { e with pool := q }) hrun)
        (hfailed fault)

/-- Pools that differ in recency hand out the same cells. -/
theorem obtainCell_bind {x : Payload} {f : Cell → Attempt (Editor σ) β} (h : Pool.Ahead S e.pool q)
    (hf : ∀ cell mint, cell.payload.same x = true → Pool.Ahead S (e.pool.touch x) (q.touch x) →
      Alongside (f cell) { e with pool := e.pool.touch x, mint := mint } (q.touch x) done failed) :
    Alongside (obtainCell x >>= f) e q done failed := by
  have hrun : ∀ pool : Pool, obtainCell x { e with pool := pool } =
      .ok (pool.obtain e.mint x).1
        { e with pool := pool.touch x, mint := (pool.obtain e.mint x).2.2 } := by
    intro pool
    rw [← Pool.obtain_pool pool e.mint x]
    rfl
  have hthere := hrun q
  rw [Pool.obtain_eq h.sameContent h.apart e.mint x] at hthere
  have hcell := (Pool.obtain_spec e.pool e.mint x).payload
  exact .bind_ok (hrun e.pool) hthere (hf _ _ hcell ((h.touch x).mono fun _ hkey => hkey.1))

theorem makePoint_bind {argument value : Cell} {f : Point → Attempt (Editor σ) β}
    (hf : ∀ point mint, Alongside (f point) { e with mint := mint } q done failed) :
    Alongside (makePoint argument value >>= f) e q done failed :=
  hf _ (e.mint.point argument value).2

theorem recordCells_bind {cells : List Cell} {f : Unit → Attempt (Editor σ) β}
    (hf : Alongside (f ()) { e with pool := e.pool.recordAll cells }
      (q.recordAll cells) done failed) :
    Alongside (recordCells cells >>= f) e q done failed :=
  hf

theorem putPoints_bind {points : List Point} {f : Unit → Attempt (Editor σ) β}
    (hf : Alongside (f ()) { e with store := { e.store with points := points } } q done failed) :
    Alongside (putPoints points >>= f) e q done failed :=
  hf

theorem stageAll_bind {steps : List (Staging → Attempt σ Staging)}
    {f : Staging × Option Fault → Attempt (Editor σ) β}
    (hf : ∀ attempted host, Alongside (f attempted)
      { e with host := host, store := { e.store with maxima := attempted.1.maxima } } q
      done failed) :
    Alongside (stageAll steps >>= f) e q done failed := by
  rcases Staging.attemptAll_eq_ok steps (.start e.store.maxima) e.host with ⟨attempted, host, hrun⟩
  exact .bind_ok (stageAll_run hrun) (stageAll_run (e := { e with pool := q }) hrun)
    (hf attempted host)

end Alongside

/-! ## One edit -/

/-- Both pools after payloads were looked for in them and cells of some of these recorded. -/
structure Served (p q : Pool) (asked : List Payload) (cells : List Cell) (p' q' : Pool) : Prop where
  left : p' = (p.touchAll asked).recordAll cells
  right : q' = (q.touchAll asked).recordAll cells
  keyed : ∀ cell ∈ cells, ∃ x ∈ asked, cell.payload.same x = true

/-- The same was asked of both pools. -/
def ServedAlike (p q p' q' : Pool) : Prop :=
  ∃ asked cells, Served p q asked cells p' q'

theorem Served.looked (p q : Pool) (asked : List Payload) :
    Served p q asked [] (p.touchAll asked) (q.touchAll asked) :=
  ⟨rfl, rfl, by simp⟩

theorem conclude_alongside {failed : Fault → Pool → Pool → Prop} {done : Unit → Pool → Pool → Prop}
    (staging : Staging) (gone : Option Nat) (hdone : done () e.pool q)
    (hstopped : ∀ fault, staging.commit.2 = some fault → failed fault e.pool q) :
    Alongside (conclude staging gone : Attempt (Editor σ) Unit) e q done failed := by
  unfold conclude
  rcases hcommit : staging.commit with ⟨maxima, failure⟩
  rw [hcommit] at hstopped
  cases failure with
  | none =>
      exact ⟨q, rfl, hdone⟩
  | some fault =>
      exact ⟨q, rfl, hstopped fault rfl⟩

/-- Whether a failure can be told does not depend on the pool. -/
theorem abandon_alongside {failed : Fault → Pool → Pool → Prop} {done : α → Pool → Pool → Prop}
    (edit : String) (argument : Payload) (staging : Staging) (added : Option Nat) (fault : Fault)
    (hfailed : ∀ fault, failed fault e.pool q) :
    Alongside (abandon edit argument staging added fault : Attempt (Editor σ) α) e q
      done failed := by
  unfold abandon
  cases rollbackText? edit argument fault with
  | none =>
      exact ⟨q, rfl, hfailed _⟩
  | some text =>
      exact ⟨q, rfl, hfailed _⟩

theorem place_alongside {failed : Fault → Pool → Pool → Prop} {done : Unit → Pool → Pool → Prop}
    (point : Point) (old : Option Nat) (cells : List Cell) (argument : Payload)
    (hdone : done () (e.pool.recordAll cells) (q.recordAll cells))
    (hfailed : ∀ fault, failed fault e.pool q)
    (hstopped : ∀ fault, (∃ s : Staging, s.commit.2 = some fault) →
      failed fault (e.pool.recordAll cells) (q.recordAll cells)) :
    Alongside (place rules point old cells argument) e q done failed := by
  refine .get_bind rfl (.onHost_bind (fun placed host _ => ?_) hfailed)
  refine .putPoints_bind (.stageAll_bind fun attempted host' => ?_)
  rcases attempted with ⟨staging, failure⟩
  cases failure with
  | some fault =>
      exact abandon_alongside _ _ _ _ _ hfailed
  | none =>
      refine .recordCells_bind (conclude_alongside staging old hdone fun fault hfault => ?_)
      exact hstopped fault ⟨staging, hfault⟩

/-- What a failed edit has done to both pools: it looked for a value, or for an argument and its
value, or for nothing. Only a commit that stops comes after the recording. -/
def SetFailed (p q : Pool) (a v : Payload) (fault : Fault) (p' q' : Pool) : Prop :=
  ∃ asked cells, asked <:+ [a, v] ∧ Served p q asked cells p' q' ∧
    ((∀ s : Staging, s.commit.2 ≠ some fault) → cells = [])

theorem SetFailed.looked {a v : Payload} {asked : List Payload} (h : asked <:+ [a, v])
    (fault : Fault) :
    SetFailed p q a v fault (p.touchAll asked) (q.touchAll asked) :=
  ⟨asked, [], h, .looked p q asked, fun _ => rfl⟩

/-- The new point is put in with the cells that were looked for. -/
theorem place_served {a v : Payload} {asked : List Payload} {cells : List Cell}
    (hasked : asked <:+ [a, v])
    (hkeyed : ∀ cell ∈ cells, ∃ x ∈ asked, cell.payload.same x = true)
    (hleft : e.pool = p.touchAll asked)
    {r : Pool} (hright : r = q.touchAll asked) (point : Point) (old : Option Nat) :
    Alongside (do
      place rules point old cells a
      return true : Attempt (Editor σ) Bool) e r
      (fun _ => ServedAlike p q) (SetFailed p q a v) := by
  subst hright
  have hserved : Served p q asked cells (e.pool.recordAll cells)
      ((q.touchAll asked).recordAll cells) :=
    ⟨by rw [hleft], rfl, hkeyed⟩
  have hplace : Alongside (place rules point old cells a) e (q.touchAll asked)
      (fun _ => ServedAlike p q)
      (SetFailed p q a v) := by
    refine place_alongside point old cells a ⟨asked, cells, hserved⟩ (fun fault => ?_)
      fun fault hstopped => ?_
    · rw [hleft]
      exact .looked hasked fault
    · refine ⟨asked, cells, hasked, hserved, fun hfault => ?_⟩
      rcases hstopped with ⟨s, hs⟩
      exact absurd hs (hfault s)
  exact hplace.bind fun _ t q' h => .pure h

theorem set_alongside (h : Pool.Ahead S e.pool q) (a v : Payload) :
    Alongside (set rules a v) e q (fun _ => ServedAlike e.pool q) (SetFailed e.pool q a v) := by
  have hnothing : ∀ fault, SetFailed e.pool q a v fault e.pool q :=
    fun fault => .looked List.nil_suffix fault
  refine .get_bind rfl (.onHost_bind (fun found host _ => ?_) hnothing)
  cases found with
  | some located =>
      refine .onHost_bind (fun tied host' _ => ?_) hnothing
      split
      · exact .pure ⟨[], [], .looked e.pool q []⟩
      · refine .obtainCell_bind h fun cell mint hcell _ => ?_
        refine .makePoint_bind fun point mint' => ?_
        have hkeyed : ∀ c ∈ [cell], ∃ x ∈ [v], c.payload.same x = true := by simp [hcell]
        exact place_served (List.suffix_cons a [v]) hkeyed rfl rfl point _
  | none =>
      refine .obtainCell_bind h fun argumentCell mint hargument hahead => ?_
      refine .obtainCell_bind hahead fun valueCell mint' hvalue _ => ?_
      refine .makePoint_bind fun point mint'' => ?_
      have hkeyed : ∀ c ∈ [argumentCell, valueCell], ∃ x ∈ [a, v], c.payload.same x = true := by
        simp [hargument, hvalue]
      exact place_served (List.suffix_refl _) hkeyed rfl rfl point _

theorem erase_alongside (a : Payload) :
    Alongside (erase rules a) e q (fun _ => ServedAlike e.pool q)
      (fun _ => ServedAlike e.pool q) := by
  have hnothing : ServedAlike e.pool q e.pool q := ⟨[], [], .looked e.pool q []⟩
  refine .get_bind rfl (.onHost_bind (fun found host _ => ?_) fun _ => hnothing)
  cases found with
  | none =>
      exact .pure hnothing
  | some index =>
      refine .stageAll_bind fun attempted host' => ?_
      rcases attempted with ⟨staging, failure⟩
      cases failure with
      | some fault =>
          exact abandon_alongside _ _ _ _ _ fun _ => hnothing
      | none =>
          refine .bind (?_ : Alongside _ _ _ (fun _ => ServedAlike e.pool q) _)
            fun _ _ _ h => .pure h
          exact conclude_alongside staging _ hnothing fun _ _ => hnothing

/-! ## Bulk loading -/

/-- Both cells of a point are of payloads that were looked for. -/
def DrawnFrom (asked : List Payload) (point : Point) : Prop :=
  ∀ cell ∈ [point.argumentCell, point.valueCell], ∃ x ∈ asked, cell.payload.same x = true

theorem DrawnFrom.mono {asked asked' : List Payload} {point : Point} (h : DrawnFrom asked point)
    (hsubset : asked ⊆ asked') : DrawnFrom asked' point := by
  intro cell hcell
  rcases h cell hcell with ⟨x, hx, hsame⟩
  exact ⟨x, hsubset hx, hsame⟩

theorem obtainPoint_alongside (h : Pool.Ahead S e.pool q) (a v : Payload) :
    Alongside (obtainPoint a v) e q
      (fun point p' q' => DrawnFrom [a, v] point ∧ Served e.pool q [a, v] [] p' q' ∧
        Pool.Ahead S p' q')
      (fun _ _ _ => False) := by
  refine .obtainCell_bind h fun argumentCell mint hargument hahead => ?_
  refine .obtainCell_bind hahead fun valueCell mint' hvalue hahead' => ?_
  refine ⟨_, rfl, ?_, .looked e.pool q [a, v], hahead'⟩
  intro cell hcell
  rcases List.mem_pair.1 hcell with rfl | rfl
  · exact ⟨a, by simp, hargument⟩
  · exact ⟨v, by simp, hvalue⟩

/-- What was looked for before and after. -/
theorem Served.append {asked asked' : List Payload} {p' q' p'' q'' : Pool}
    (h : Served p q asked [] p' q')
    (h' : Served p' q' asked' [] p'' q'') : Served p q (asked ++ asked') [] p'' q'' where
  left := by
    rw [h'.left, h.left, Pool.touchAll, Pool.touchAll, Pool.touchAll, List.foldl_append]
    rfl
  right := by
    rw [h'.right, h.right, Pool.touchAll, Pool.touchAll, Pool.touchAll, List.foldl_append]
    rfl
  keyed := by simp

theorem traverseRows_alongside (h : Pool.Ahead S e.pool q) (rows : List Row) :
    Alongside (Source.traverseRows obtainPoint rows) e q
      (fun points p' q' => ∃ asked, (∀ point ∈ points, DrawnFrom asked point) ∧
        Served e.pool q asked [] p' q')
      (fun _ p' q' => ∃ asked, Served e.pool q asked [] p' q') := by
  induction rows generalizing e q with
  | nil =>
      exact .pure ⟨[], by simp, .looked e.pool q []⟩
  | cons row rows ih =>
      rw [Source.traverseRows]
      cases row.pair? with
      | error fault =>
          exact .throw ⟨[], .looked e.pool q []⟩
      | ok pair =>
          rcases pair with ⟨a, v⟩
          rw [Attempt.ofExcept, pure_bind]
          refine .bind ((obtainPoint_alongside h a v).imp (fun _ _ _ hpoint => hpoint)
            fun _ _ _ hfalse => hfalse.elim)
            fun point t r hpoint => ?_
          rcases hpoint with ⟨hdrawn, hserved, hahead⟩
          refine .bind ((ih hahead).imp (fun _ _ _ hpoints => hpoints)
            fun fault p' q' hfailed => ?_)
            fun points u r' hpoints => ?_
          · rcases hfailed with ⟨asked, hasked⟩
            exact ⟨[a, v] ++ asked, hserved.append hasked⟩
          · rcases hpoints with ⟨asked, hdrawn', hasked⟩
            refine .pure ⟨[a, v] ++ asked, List.forall_mem_cons.2 ⟨?_, fun other hother => ?_⟩,
              hserved.append hasked⟩
            · exact hdrawn.mono (List.subset_append_left _ _)
            · exact (hdrawn' other hother).mono (List.subset_append_right _ _)

theorem finish_bind_alongside {done : β → Pool → Pool → Prop} {failed : Fault → Pool → Pool → Prop}
    {f : Unit → Attempt (Editor σ) β} (source : Source) (hf : Alongside (f ()) e q done failed)
    (hfailed : ∀ fault, failed fault e.pool q) :
    Alongside (source.finish >>= f) e q done failed := by
  unfold Source.finish
  cases source.failure with
  | none =>
      exact hf
  | some text =>
      exact ⟨q, rfl, hfailed _⟩

theorem adopt_alongside {done : Unit → Pool → Pool → Prop} {failed : Fault → Pool → Pool → Prop}
    (points maxima : List Point) (hdone : done () e.pool q)
    (hfailed : ∀ fault, failed fault e.pool q) :
    Alongside (adopt rules points maxima) e q done failed :=
  .onHost_bind (fun _ _ _ => ⟨q, rfl, hdone⟩) hfailed

theorem load_alongside (h : Pool.Ahead S e.pool q) (source : Source) :
    Alongside (load rules source) e q (fun _ => ServedAlike e.pool q)
      (fun _ => ServedAlike e.pool q) := by
  have htraverse : Alongside (source.traverse obtainPoint) e q
      (fun points p' q' => ∃ asked, (∀ point ∈ points, DrawnFrom asked point) ∧
        Served e.pool q asked [] p' q')
      (fun _ => ServedAlike e.pool q) := by
    refine .bind ((traverseRows_alongside h source.rows).imp (fun _ _ _ hpoints => hpoints) ?_)
      fun points t r hpoints => ?_
    · rintro _ p' q' ⟨asked, hasked⟩
      exact ⟨asked, [], hasked⟩
    · refine finish_bind_alongside source (.pure hpoints) fun _ => ?_
      rcases hpoints with ⟨asked, _, hasked⟩
      exact ⟨asked, [], hasked⟩
  refine .bind htraverse fun points t r hpoints => ?_
  rcases hpoints with ⟨asked, hdrawn, hserved⟩
  have hlooked : ServedAlike e.pool q t.pool r := ⟨asked, [], hserved⟩
  refine .onHost_bind (fun sorted host hsorted => ?_) fun _ => hlooked
  refine .onHost_bind (fun unique host' hunique => ?_) fun _ => hlooked
  refine .onHost_bind (fun maxima host'' _ => ?_) fun _ => hlooked
  have hsubset : unique ⊆ points :=
    List.Subset.trans ((PointIndex.lastOfEach_subset _ _).ok hunique)
    ((StableSort.sort_subset _ _).ok hsorted)
  -- all cells that are recorded are of points that came from the source
  have hkeyed : ∀ cell ∈ unique.flatMap fun p => [p.argumentCell, p.valueCell],
      ∃ x ∈ asked, cell.payload.same x = true := by
    intro cell hcell
    rcases List.mem_flatMap.1 hcell with ⟨point, hpoint, hcell⟩
    exact hdrawn point (hsubset hpoint) cell hcell
  have hrecorded : ServedAlike e.pool q
      (t.pool.recordAll (unique.flatMap fun p => [p.argumentCell, p.valueCell]))
      (r.recordAll (unique.flatMap fun p => [p.argumentCell, p.valueCell])) := by
    refine ⟨asked, _, ?_, ?_, hkeyed⟩
    · rw [hserved.left]
      rfl
    · rw [hserved.right]
      rfl
  exact .recordCells_bind (adopt_alongside unique maxima hrecorded fun _ => hrecorded)

/-! ## Requests -/

/-- What may be asked of an editor, or of its pool. In between the host may change by itself. -/
inductive Request (σ : Type)
  | set (argument value : Payload)
  | erase (argument : Payload)
  | load (source : Source)
  | cell (payload : Payload)
  | outside (change : σ → σ)

inductive Reply
  | changed (yes : Bool)
  | given (cell : Cell)
  | done

namespace Request

def run (rules : Rules σ) : Request σ → Attempt (Editor σ) Reply
  | .set argument value => do
      return .changed (← Editor.set rules argument value)
  | .erase argument => do
      return .changed (← Editor.erase rules argument)
  | .load source => do
      Editor.load rules source
      return .done
  | .cell payload =>
      modifyGet fun e =>
        let (given, pool, mint) := e.pool.cell e.mint payload
        (.given given, { e with pool := pool, mint := mint })
  | .outside change => do
      modify fun e => { e with host := change e.host }
      return .done

theorem run_cell (x : Payload) :
    run rules (.cell x) = (do
      let given ← obtainCell x
      recordCells [given]
      return .given given) :=
  rfl

theorem run_alongside (h : Pool.Ahead S e.pool q) (request : Request σ) :
    Alongside (request.run rules) e q (fun _ => ServedAlike e.pool q)
      (fun _ => ServedAlike e.pool q) := by
  cases request with
  | set a v =>
      refine .bind ((set_alongside h a v).imp (fun _ _ _ hserved => hserved) ?_)
        fun _ t r hserved => .pure hserved
      rintro fault p' q' ⟨asked, cells, _, hserved, _⟩
      exact ⟨asked, cells, hserved⟩
  | erase a =>
      exact (erase_alongside a).bind fun _ t r hserved => .pure hserved
  | load source =>
      exact (load_alongside h source).bind fun _ t r hserved => .pure hserved
  | cell x =>
      rw [run_cell]
      refine .obtainCell_bind h fun given mint hgiven _ => .recordCells_bind (.pure ?_)
      exact ⟨[x], [given], rfl, rfl, by simp [hgiven]⟩
  | outside change =>
      exact ⟨q, rfl, [], [], .looked e.pool q []⟩

end Request

/-! ## Runs -/

/-- The editor after requests, whatever came of them. -/
def after (rules : Rules σ) (requests : List (Request σ)) (e : Editor σ) : Editor σ :=
  requests.foldl (fun e request => (request.run rules).stateAfter e) e

/-- The answer to each request, with what the pool counts then. -/
def replies (rules : Rules σ) : List (Request σ) → Editor σ → List (Except Fault Reply × Pool.Stats)
  | [], _ => []
  | request :: requests, e =>
      let t := (request.run rules).stateAfter e
      (((request.run rules).outcome e).map Prod.fst, t.pool.stats) :: replies rules requests t

theorem stats_eq_of_sameContent (h : q.SameContent p) : q.stats = p.stats := by
  have hsize : q.size = p.size := h.entries.length_eq
  simp only [Pool.stats, h.requests, h.shared, hsize]

/-- The step: one request to two editors of which one has a pool that is ahead. -/
theorem step_alongside (h : Pool.Ahead S e.pool q) (request : Request σ) :
    ∃ q', (request.run rules).stateAfter { e with pool := q } =
        { (request.run rules).stateAfter e with pool := q' } ∧
      ((request.run rules).outcome { e with pool := q }).map Prod.fst =
        ((request.run rules).outcome e).map Prod.fst ∧
      (Pool.Ahead S ((request.run rules).stateAfter e).pool q' ∨
        Pool.Forgotten S ((request.run rules).stateAfter e).pool) := by
  have hserve : ∀ p' q', ServedAlike e.pool q p' q' → Pool.Ahead S p' q' ∨ Pool.Forgotten S p' := by
    rintro p' q' ⟨asked, cells, rfl, rfl, hkeyed⟩
    exact h.serve hkeyed
  have halongside : Alongside (request.run rules) e q (fun _ => ServedAlike e.pool q)
      (fun _ => ServedAlike e.pool q) := request.run_alongside h
  unfold Attempt.stateAfter Attempt.outcome
  cases hrun : request.run rules e with
  | ok reply t =>
      rcases halongside.ok hrun with ⟨q', hrun', hserved⟩
      rw [hrun']
      exact ⟨q', rfl, rfl, hserve _ _ hserved⟩
  | error fault t =>
      rcases halongside.error hrun with ⟨q', hrun', hserved⟩
      rw [hrun']
      exact ⟨q', rfl, rfl, hserve _ _ hserved⟩

/-- The run: the answers are the same as long as the pool that is behind forgets none of the
keys. -/
theorem replies_eq (h : Pool.Ahead S e.pool q) (requests : List (Request σ))
    (hkept : ∀ front, front <+: requests → ¬ Pool.Forgotten S (after rules front e).pool) :
    replies rules requests { e with pool := q } = replies rules requests e ∧
    ∃ q', after rules requests { e with pool := q } = { after rules requests e with pool := q' } ∧
      Pool.Ahead S (after rules requests e).pool q' := by
  induction requests generalizing e q with
  | nil =>
      exact ⟨rfl, q, rfl, h⟩
  | cons request requests ih =>
      rcases step_alongside h request with ⟨q', hstate, hreply, hahead | hforgotten⟩
      · rcases ih hahead fun front hfront => hkept (request :: front) (by simpa using hfront) with
          ⟨hreplies, q'', hafter, hahead'⟩
        refine ⟨?_, q'', ?_, hahead'⟩
        · rw [replies, replies, hreply, hstate, hreplies,
            stats_eq_of_sameContent hahead.sameContent]
        · rw [after, List.foldl_cons, hstate]
          exact hafter
      · exact absurd hforgotten (hkept [request] (by simp))

/-- No request brings a key in twice. -/
theorem after_apart (h : Pool.Apart e.pool.entries) (requests : List (Request σ)) :
    Pool.Apart (after rules requests e).pool.entries := by
  -- a pool is ahead of itself in no key at all, and none of these can be forgotten
  have hnever : ∀ pool, ¬ Pool.Forgotten (fun _ => False) pool := fun _ ⟨_, hkey, _⟩ => hkey
  rcases replies_eq (.refl (fun _ => False) h) requests
    fun front _ => hnever _ with ⟨_, _, _, hahead⟩
  exact hahead.apart

/-- Whatever the orderings do, an edit that fails leaves the pool as if some payloads had just been
looked for: its value, or its argument and its value, or none. All requests that follow are answered
as if the pool had not been touched, and leave the same in it, as long as the untouched pool would
not have forgotten one of these keys. -/
theorem failed_set_touches {a v : Payload} {fault : Fault} (hpool : Pool.Apart e.pool.entries)
    (hrun : set rules a v e = .error fault t) (hfault : ∀ s : Staging, s.commit.2 ≠ some fault) :
    ∃ asked, asked <:+ [a, v] ∧ t.pool = e.pool.touchAll asked ∧
      ∀ requests : List (Request σ),
        (∀ front, front <+: requests → ∀ x ∈ asked, e.pool.find? x ≠ none →
          (after rules front { t with pool := e.pool }).pool.find? x ≠ none) →
        replies rules requests t = replies rules requests { t with pool := e.pool } ∧
        (after rules requests t).store = (after rules requests { t with pool := e.pool }).store ∧
        (after rules requests t).pool.SameContent
          (after rules requests { t with pool := e.pool }).pool := by
  rcases (set_alongside (.refl (fun _ => True) hpool) a v).error hrun with
    ⟨_, _, asked, cells, hasked, hserved, hcells⟩
  have htouched : t.pool = e.pool.touchAll asked := by
    rw [hserved.left, hcells hfault]
    rfl
  refine ⟨asked, hasked, htouched, fun requests hkept => ?_⟩
  have hahead : Pool.Ahead (Pool.Among e.pool asked)
      ({ t with pool := e.pool } : Editor σ).pool t.pool := by
    rw [htouched]
    exact Pool.touchAll_ahead hpool asked
  have hsame :
    ({ ({ t with pool := e.pool } : Editor σ) with pool := t.pool } : Editor σ) = t := rfl
  rcases replies_eq hahead requests fun front hfront hforgotten => by
    rcases Pool.forgotten_among hforgotten with ⟨x, hx, hknown, hmissing⟩
    exact hkept front hfront x hx hknown hmissing with ⟨hreplies, q', hafter, hahead'⟩
  rw [hsame] at hreplies hafter
  refine ⟨hreplies, by rw [hafter], ?_⟩
  rw [hafter]
  exact hahead'.sameContent

/-! ## A pool for two keys -/

/-- A commit stops at a position that is not there; nothing is compared any more. -/
theorem popAll_ne_injectedFailure (positions : List Nat) (xs : List Point) :
    (Staging.popAll positions xs).2 ≠ some .injectedFailure := by
  induction positions generalizing xs with
  | nil =>
      exact fun hfault => by cases hfault
  | cons i positions ih =>
      rw [Staging.popAll]
      split
      · exact ih _
      · next fault hpop =>
        intro hfault
        obtain rfl : fault = .injectedFailure := Option.some.inj hfault
        unfold Position.pop at hpop
        split at hpop
        · split at hpop <;> cases hpop
        · split at hpop
          · cases hpop
          · split at hpop <;> cases hpop

/-- One point, whose two cells fill the pool. -/
def fullEditor : Editor Surroundings :=
  after .metered [.set (.int 1) (.int 2)] { blankEditor with pool := { capacity := 2 } }

/-- The next comparison of values will fail. -/
def failingEditor : Editor Surroundings :=
  after .metered [.outside fun host => host.arm 1 0] fullEditor

theorem failingEditor_fails :
    ∃ t, set .metered (.int 2) (.int 1) failingEditor = .error .injectedFailure t := by
  have hfails : ((set .metered (.int 2) (.int 1)).outcome failingEditor matches .error
      .injectedFailure) = true := by
    decide +kernel
  split at hfails
  · next houtcome =>
    unfold Attempt.outcome at houtcome
    split at houtcome
    · cases houtcome
    · next fault t hrun =>
      cases houtcome
      exact ⟨t, hrun⟩
  · cases hfails

theorem failed_set_touches_full :
    ∃ t, set .metered (.int 2) (.int 1) failingEditor = .error .injectedFailure t ∧
      ∃ asked, asked <:+ [.int 2, .int 1] ∧ t.pool = failingEditor.pool.touchAll asked ∧
        replies .metered [.cell (.int 1), .set (.int 1) (.int 1)] t =
          replies .metered [.cell (.int 1), .set (.int 1) (.int 1)]
            { t with pool := failingEditor.pool } := by
  have hblank : Pool.Apart ({ blankEditor with pool := { capacity := 2 } } :
      Editor Surroundings).pool.entries :=
    List.Pairwise.nil
  have hpool : Pool.Apart failingEditor.pool.entries := after_apart (after_apart hblank _) _
  rcases failingEditor_fails with ⟨t, hrun⟩
  rcases failed_set_touches hpool hrun fun s => popAll_ne_injectedFailure s.positions s.maxima with
    ⟨asked, hasked, htouched, hlater⟩
  refine ⟨t, hrun, asked, hasked, htouched, (hlater _ fun front hfront x hx _ => ?_).1⟩
  have ht : t = (set .metered (.int 2) (.int 1)).stateAfter failingEditor := by
    rw [Attempt.stateAfter, hrun]
  have hkept : ∀ front ∈ List.inits [Request.cell (.int 1), Request.set (.int 1) (.int 1)],
      ∀ x ∈ [Payload.int 2, Payload.int 1],
        ((after .metered front { (set .metered (.int 2) (.int 1)).stateAfter failingEditor with
          pool := failingEditor.pool }).pool.find? x).isSome = true := by decide +kernel
  have hsome := hkept front ((List.mem_inits _ _).2 hfront) x (hasked.subset hx)
  rw [← ht] at hsome
  exact Option.isSome_iff_ne_none.1 hsome

/-- The keys of a pool that are whole numbers, the most recent first. -/
def recentNumbers (pool : Pool) : List Int :=
  pool.entries.filterMap fun entry => match entry.key with
    | .int n => some n
    | _ => none

/-- The counters after each of two later edits. -/
def laterCounts (e : Editor Surroundings) : List (Nat × Nat × Nat) :=
  (replies .metered [.set (.int 1) (.int 3), .set (.int 1) (.int 2)] e).map fun reply =>
    (reply.2.requests, reply.2.shared, reply.2.interned)

/-- The failed edit turns the order of the two keys around. The next new key pushes out the other
one of them, and then a cell that would have been shared is not. -/
theorem failed_set_evicts_other :
    ∃ t, set .metered (.int 2) (.int 1) failingEditor = .error .injectedFailure t ∧
      recentNumbers failingEditor.pool = [2, 1] ∧ recentNumbers t.pool = [1, 2] ∧
      laterCounts fullEditor = [(3, 0, 2), (4, 1, 2)] ∧ laterCounts t = [(3, 0, 2), (4, 0, 2)] := by
  rcases failingEditor_fails with ⟨t, hrun⟩
  have ht : t = (set .metered (.int 2) (.int 1)).stateAfter failingEditor := by
    rw [Attempt.stateAfter, hrun]
  refine ⟨t, hrun, ?_⟩
  rw [ht]
  decide +kernel

end Editor
end Peaks
