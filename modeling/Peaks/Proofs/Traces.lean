import Peaks.Proofs.Versions

/-!
# What a failed batch leaves in the pool

The private copy of a batch draws its cells from the pool of the handle, and what was recorded there
for the pairs that went in is not taken back when a later one fails. Whatever the orderings do, a
failed batch leaves the pool as it was exactly if no pair before the failure changed anything,
unless the failure came from a commit that stopped half-way.

- `Pool.Marked`        : a pool after a number of changes
- `Editor.set_marks`   : setting one value
- `Source.fold_eq_error` : how far a source got before the failure
- `Workspace.failed_batch_marks_pool` : the pool after a failed batch
-/

namespace Peaks

variable {σ τ β : Type}

namespace Pool

variable {p q r : Pool} {m n : Nat}

/-- The requests went up by one for each of `n` changes at least; without a change all content is
the same. -/
structure Marked (n : Nat) (p q : Pool) : Prop where
  requests : p.requests + n ≤ q.requests
  shared : p.shared ≤ q.shared
  unchanged : n = 0 → q.SameContent p

/-- What a failure leaves behind. Only one in a commit, which comes after the recording, may leave a
trace. -/
structure Left (fault : Fault) (p q : Pool) : Prop where
  requests : p.requests ≤ q.requests
  shared : p.shared ≤ q.shared
  unchanged : (∀ s : Staging, s.commit.2 ≠ some fault) → q.SameContent p

theorem Marked.trans (hpq : Marked m p q) (hqr : Marked n q r) : Marked (m + n) p r where
  requests := by
    have := hpq.requests
    have := hqr.requests
    omega
  shared := hpq.shared.trans hqr.shared
  unchanged := by
    intro h
    exact (hqr.unchanged (by omega)).trans (hpq.unchanged (by omega))

theorem SameContent.marked (h : q.SameContent p) : Marked 0 p q :=
  ⟨h.requests.ge, h.shared.ge, fun _ => h⟩

theorem SameContent.left (h : q.SameContent p) (fault : Fault) : Left fault p q :=
  ⟨h.requests.ge, h.shared.ge, fun _ => h⟩

theorem Left.of_sameContent {fault : Fault} (h : Left fault q r) (hq : q.SameContent p) :
    Left fault p r where
  requests := hq.requests.ge.trans h.requests
  shared := hq.shared.ge.trans h.shared
  unchanged := fun hfault => (h.unchanged hfault).trans hq

theorem Marked.of_sameContent (h : Marked n q r) (hq : q.SameContent p) : Marked n p r := by
  simpa using hq.marked.trans h

theorem Marked.mono (h : Marked n p q) (hm : 0 < m) (hle : m ≤ n) : Marked m p q where
  requests := (Nat.add_le_add_left hle _).trans h.requests
  shared := h.shared
  unchanged := fun hzero => absurd hzero (Nat.ne_of_gt hm)

theorem record_marked (pool : Pool) (cell : Cell) : Marked 1 pool (pool.record cell) := by
  have hget := get_sameContent { pool with requests := pool.requests + 1 } cell.payload
  -- whatever is done with the entries, the request is counted and none is taken back from `shared`
  have hcounts : (pool.record cell).requests = pool.requests + 1 ∧
      pool.shared ≤ (pool.record cell).shared := by
    unfold record
    dsimp only
    split
    · split
      · next entry found heq =>
        rw [heq] at hget
        split
        · exact ⟨hget.requests, hget.shared.ge.trans (Nat.le_succ _)⟩
        · unfold replaceFirst
          split
          · exact ⟨hget.requests, hget.shared.ge⟩
          · exact ⟨hget.requests, hget.shared.ge⟩
      · next found heq =>
        rw [heq] at hget
        exact ⟨hget.requests, hget.shared.ge⟩
    · exact ⟨rfl, Nat.le_refl _⟩
  exact ⟨hcounts.1.ge, hcounts.2, fun h => absurd h (by decide)⟩

theorem recordAll_marked (pool : Pool) (cells : List Cell) :
    Marked cells.length pool (pool.recordAll cells) := by
  induction cells generalizing pool with
  | nil =>
      exact (SameContent.refl pool).marked
  | cons cell cells ih =>
      have hmarked := (record_marked pool cell).trans (ih (pool.record cell))
      rw [Nat.add_comm] at hmarked
      exact hmarked

end Pool

/-! ## One pair -/

namespace Editor

variable {rules : Rules σ} {e : Editor σ}

/-- A commit that stops half-way does so after the cells were recorded. -/
theorem conclude_pool (staging : Staging) (gone : Option Nat) :
    (conclude staging gone : Attempt (Editor σ) Unit).EndsFrom e (fun _ t => t.pool = e.pool)
      (fun fault t => t.pool = e.pool ∧ staging.commit.2 = some fault) :=
  conclude_endsFrom (fun _ _ => rfl) fun _ _ hcommit => ⟨rfl, congrArg Prod.snd hcommit⟩

theorem place_marks (point : Point) (old : Option Nat) (cells : List Cell) (argument : Payload) :
    (place rules point old cells argument).EndsFrom e
      (fun _ t => Pool.Marked cells.length e.pool t.pool)
      (fun fault t => Pool.Left fault e.pool t.pool) := by
  have hsame := Pool.SameContent.refl e.pool
  refine .get_bind (onHost_any_bind (fun placed host => ?_) fun fault _ => hsame.left fault)
  refine .modify_bind (stageAll_bind fun attempted host _ => ?_)
  rcases attempted with ⟨staging, failure⟩
  cases failure with
  | some fault =>
      exact abandon_endsFrom (fun _ => hsame.left fault) fun _ => hsame.left _
  | none =>
      have hmarked := Pool.recordAll_marked e.pool cells
      refine .modify_bind ((conclude_pool staging old).imp ?_ ?_)
      · intro _ t ht
        rw [ht]
        exact hmarked
      · intro fault t ht
        rw [ht.1]
        exact ⟨(Nat.le_add_right _ _).trans hmarked.requests, hmarked.shared,
          fun hfault => absurd ht.2 (hfault staging)⟩

/-- A new point is placed with one or two cells. -/
theorem place_new_marks {e' : Editor σ} (hpool : e'.pool.SameContent e.pool) (point : Point)
    (old : Option Nat)
    (cell : Cell) (cells : List Cell) (argument : Payload) :
    (do
      place rules point old (cell :: cells) argument
      return true : Attempt (Editor σ) Bool).EndsFrom e'
      (fun changed t => Pool.Marked changed.toNat e.pool t.pool)
      (fun fault t => Pool.Left fault e.pool t.pool) := by
  refine ((place_marks point old (cell :: cells) argument).imp (fun _ _ h => h) ?_).bind ?_
  · intro fault t ht
    exact ht.of_sameContent hpool
  · intro _ t ht
    exact .pure ((ht.mono Nat.one_pos (by simp)).of_sameContent hpool)

theorem set_marks (a v : Payload) :
    (set rules a v).EndsFrom e (fun changed t => Pool.Marked changed.toNat e.pool t.pool)
      (fun fault t => Pool.Left fault e.pool t.pool) := by
  have hsame := Pool.SameContent.refl e.pool
  refine .get_bind (onHost_any_bind (fun found host => ?_) fun fault _ => hsame.left fault)
  cases found with
  | some located =>
      refine onHost_any_bind (fun tied host' => ?_) fun fault _ => hsame.left fault
      split
      · exact .pure hsame.marked
      · refine obtainCell_spec_bind fun cell pool mint hcell => ?_
        exact .modifyGet_bind (place_new_marks hcell.pool _ _ cell [] a)
  | none =>
      refine obtainCell_spec_bind fun argumentCell pool mint hargument => ?_
      refine obtainCell_spec_bind fun valueCell pool' mint' hvalue => ?_
      exact .modifyGet_bind
        (place_new_marks (hvalue.pool.trans hargument.pool) _ _ argumentCell [valueCell] a)

end Editor

/-! ## How far a source got -/

namespace Source

variable {step : β → Payload → Payload → Attempt τ β} {b : β} {s t : τ} {fault : Fault}

/-- The rows before the failure went through and made `b'` of `b`; then one failed, or the source
gave up. -/
inductive Stopped (step : β → Payload → Payload → Attempt τ β) (source : Source) (b : β) (s : τ)
    (b' : β) (u : τ) :
    Fault → τ → Prop
  | atRow {front rest : List Row} {row : Row} {fault : Fault} {t : τ}
      (rows : source.rows = front ++ row :: rest)
      (went : foldRows step b front s = .ok b' u)
      (fails : foldRows step b' [row] u = .error fault t) :
      Stopped step source b s b' u fault t
  | atEnd {fault : Fault} (failure : source.failure = some fault)
      (went : foldRows step b source.rows s = .ok b' u) :
      Stopped step source b s b' u fault u

theorem foldRows_cons (row : Row) (rows : List Row) :
    foldRows step b (row :: rows) = foldRows step b [row] >>= fun b' => foldRows step b' rows := by
  rw [foldRows, foldRows]
  cases row.pair? with
  | error fault =>
      rfl
  | ok pair =>
      simp only [Attempt.ofExcept, pure_bind, bind_assoc, foldRows]

theorem foldRows_eq_error {rows : List Row} (h : foldRows step b rows s = .error fault t) :
    ∃ front row rest b' u, rows = front ++ row :: rest ∧ foldRows step b front s = .ok b' u ∧
      foldRows step b' [row] u = .error fault t := by
  induction rows generalizing b s with
  | nil =>
      cases h
  | cons row rows ih =>
      rw [foldRows_cons] at h
      cases hrow : foldRows step b [row] s with
      | error fault' t' =>
          rw [Attempt.bind_of_error hrow] at h
          exact ⟨[], row, rows, b, s, rfl, rfl, hrow.trans h⟩
      | ok b₁ s₁ =>
          rw [Attempt.bind_of_ok hrow] at h
          rcases ih h with ⟨front, row', rest, b', u, rfl, hwent, hfails⟩
          refine ⟨row :: front, row', rest, b', u, rfl, ?_, hfails⟩
          rw [foldRows_cons, Attempt.bind_of_ok hrow]
          exact hwent

theorem fold_eq_error {source : Source} (h : source.fold step b s = .error fault t) :
    ∃ b' u, Stopped step source b s b' u fault t := by
  cases hrows : foldRows step b source.rows s with
  | error fault' t' =>
      have hfold : source.fold step b s = .error fault' t' := Attempt.bind_of_error hrows
      rw [hfold] at h
      rcases foldRows_eq_error (hrows.trans h) with ⟨front, row, rest, b', u, hsplit, hwent, hfails⟩
      exact ⟨b', u, .atRow hsplit hwent hfails⟩
  | ok b' u =>
      have hfold : source.fold step b s = _ := Attempt.bind_of_ok hrows
      rw [hfold] at h
      unfold finish at h
      cases hfailure : source.failure with
      | none =>
          rw [hfailure] at h
          cases h
      | some text =>
          rw [hfailure] at h
          cases h
          exact ⟨b', _, .atEnd hfailure hrows⟩

end Source

/-! ## Batches -/

namespace Workspace

variable {w u t : Workspace σ} {name : String} {b : Batch σ} {p : Pool}

/-- The workspace has another pool in the place of one. -/
def Repools (id : Nat) (promise : Pool → Prop) (w t : Workspace σ) : Prop :=
  ∃ p, promise p ∧ t.pools = w.pools.set id p

theorem put_marks (hp : u.pools[b.copy.pool]? = some p) (a v : Payload) :
    (b.put a v).EndsFrom u
      (fun b' t => b'.copy.pool = b.copy.pool ∧
        ∃ n, b'.changed = b.changed + n ∧ u.Repools b.copy.pool (p.Marked n) t)
      (fun fault t => u.Repools b.copy.pool (p.Left fault) t) := by
  refine ((editDetached_endsFrom hp (Editor.set_marks a v)).imp (fun _ _ h => h) ?_).bind ?_
  · intro fault t ht
    rcases ht with ⟨e, hleft, rfl⟩
    exact ⟨e.pool, hleft, rfl⟩
  · intro r t ht
    rcases ht with ⟨e, hmarked, _, rfl⟩
    refine .pure ⟨rfl, r.1.toNat, ?_, e.pool, hmarked, rfl⟩
    cases r.1 with
    | true => rfl
    | false => rfl

theorem row_marks (row : Row) (hp : u.pools[b.copy.pool]? = some p) :
    (Source.foldRows Batch.put b [row]).EndsFrom u
      (fun b' t => b'.copy.pool = b.copy.pool ∧
        ∃ n, b'.changed = b.changed + n ∧ u.Repools b.copy.pool (p.Marked n) t)
      (fun fault t => u.Repools b.copy.pool (p.Left fault) t) := by
  rw [Source.foldRows]
  cases row.pair? with
  | error fault =>
      exact ⟨p, (Pool.SameContent.refl p).left fault, (set_eq_of_getElem? hp).symm⟩
  | ok pair =>
      exact (put_marks hp pair.1 pair.2).bind fun b' t ht => .pure ht

theorem Repools.trans {id : Nat} {promise promise' : Pool → Prop}
    (h : w.Repools id (fun _ => True) u)
    (h' : u.Repools id promise t) (himp : ∀ q, promise q → promise' q) :
    w.Repools id promise' t := by
  rcases h with ⟨_, _, hu⟩
  rcases h' with ⟨q, hq, ht⟩
  exact ⟨q, himp q hq, by rw [ht, hu, List.set_set]⟩

/-- Every row that goes in leaves a mark for what it changes, and these add up. -/
theorem foldRows_marks (rows : List Row) (hp : u.pools[b.copy.pool]? = some p) :
    (Source.foldRows Batch.put b rows).EndsFrom u
      (fun b' t => b'.copy.pool = b.copy.pool ∧
        ∃ n, b'.changed = b.changed + n ∧ u.Repools b.copy.pool (p.Marked n) t)
      (fun _ _ => True) := by
  induction rows generalizing b u p with
  | nil =>
      refine .pure ⟨rfl, 0, rfl, p, (Pool.SameContent.refl p).marked, ?_⟩
      exact (set_eq_of_getElem? hp).symm
  | cons row rows ih =>
      rw [Source.foldRows_cons]
      refine ((row_marks row hp).imp (fun _ _ h => h) fun _ _ _ => trivial).bind ?_
      intro b₁ u₁ hrow
      rcases hrow with ⟨hid, m, hm, p₁, hmarked, hpools⟩
      have hp₁ : u₁.pools[b₁.copy.pool]? = some p₁ := by
        rw [hpools, hid, List.getElem?_set_self (List.getElem?_eq_some_iff.1 hp).1]
      refine (ih hp₁).imp ?_ fun _ _ h => h
      intro b' t hrest
      rcases hrest with ⟨hid', n, hn, hrepools⟩
      refine ⟨hid'.trans hid, m + n, by omega, ?_⟩
      rw [hid] at hrepools
      exact Repools.trans ⟨p₁, trivial, hpools⟩ hrepools fun q hq => hmarked.trans hq

/-- After the failure the batch writes to the journal and counts a rollback, if it comes that
far. -/
theorem update_pools (hstart : Batch.start name w = .ok b w) {source : Source} {cause fault : Fault}
    (hfold : source.fold Batch.put b w = .error cause u)
    (hrun : update name source w = .error fault t) :
    t.pools = u.pools := by
  have hends : (update name source).EndsFrom w (fun _ _ => True)
      (fun _ t => t.pools = u.pools) := by
    refine .bind_ok hstart ?_
    have hsettled : (source.fold Batch.put b).EndsFrom w (fun _ _ => False) (fun _ t => t = u) := by
      rw [Attempt.EndsFrom, hfold]
    refine hsettled.settle_bind (fun _ _ hfalse => hfalse.elim) ?_
    intro fault' t' ht'
    rw [ht']
    exact report_bind (fun _ _ => .bind_ok (count_eq _ name Tally.rollback) rfl) fun _ => rfl
  exact hends.error hrun

theorem start_changed (hstart : Batch.start name w = .ok b t) : b.changed = 0 := by
  have hends : (Batch.start name).EndsFrom w (fun b _ => b.changed = 0) (fun _ _ => True) := by
    refine leased_bind (fun owner e s hleases => ?_) fun _ => trivial
    exact holding_bind (fun h hh => .pure rfl) fun _ => trivial
  exact hends.ok hstart

/-- The marks of the rows before the failure, and then what the failure leaves. -/
theorem stopped_marks (hp : w.pools[b.copy.pool]? = some p) {source : Source} {b' : Batch σ}
    {fault : Fault}
    (h : Source.Stopped Batch.put source b w b' u fault t) :
    ∃ n p₁, b'.changed = b.changed + n ∧ p.Marked n p₁ ∧ w.Repools b.copy.pool
      (p₁.Left fault) t := by
  cases h with
  | atRow hrows hwent hfails =>
      rcases (foldRows_marks _ hp).ok hwent with ⟨hid, n, hn, p₁, hmarked, hpools⟩
      have hp₁ : u.pools[b'.copy.pool]? = some p₁ := by
        rw [hpools, hid, List.getElem?_set_self (List.getElem?_eq_some_iff.1 hp).1]
      have hleft := (row_marks _ hp₁).error hfails
      rw [hid] at hleft
      exact ⟨n, p₁, hn, hmarked, Repools.trans ⟨p₁, trivial, hpools⟩ hleft fun _ h => h⟩
  | atEnd hfailure hwent =>
      rcases (foldRows_marks _ hp).ok hwent with ⟨_, n, hn, p₁, hmarked, hpools⟩
      exact ⟨n, p₁, hn, hmarked, p₁, (Pool.SameContent.refl p₁).left _, hpools⟩

/-- A batch on any workspace that fails: of the pools only the one of the handle is touched. It
counts a request at least for every pair before the failure that changed something, and has its
content as before exactly if there was none, unless the cause is one that a commit may stop with. -/
theorem failed_batch_marks_pool (hstart : Batch.start name w = .ok b w)
    (hp : w.pools[b.copy.pool]? = some p)
    {source : Source} {fault : Fault} (hrun : update name source w = .error fault t) :
    ∃ cause b' u v, fault = cause.reported ∧ Source.Stopped Batch.put source b w b' u cause v ∧
      ∃ q, t.pools = w.pools.set b.copy.pool q ∧
        p.requests + b'.changed ≤ q.requests ∧ p.shared ≤ q.shared ∧
        ((∀ s : Staging, s.commit.2 ≠ some cause) → (q.SameContent p ↔ b'.changed = 0)) := by
  rcases (update_eq_error_iff hstart source).1 ⟨t, hrun⟩ with ⟨cause, v, hfold, hfault⟩
  rcases Source.fold_eq_error hfold with ⟨b', u, hstopped⟩
  rcases stopped_marks hp hstopped with ⟨n, p₁, hn, hmarked, q, hleft, hpools⟩
  rw [start_changed hstart, Nat.zero_add] at hn
  have hrequests : p.requests + b'.changed ≤ q.requests := by
    rw [hn]
    exact hmarked.requests.trans hleft.requests
  refine ⟨cause, b', u, v, hfault, hstopped, q,
    (update_pools hstart hfold hrun).trans hpools, hrequests,
    hmarked.shared.trans hleft.shared, fun hfault => ⟨fun hsame => ?_, fun hzero => ?_⟩⟩
  · -- a request that was counted is not counted back
    have := hsame.requests
    omega
  · exact (hleft.unchanged hfault).trans (hmarked.unchanged (hn ▸ hzero))

/-- A pair, and then a row that is not one. -/
def brokenPairs : Source :=
  { rows := [[.int 1, .int 10], [.int 2]] }

/-- One function without points. -/
def freshFunction : Workspace Surroundings :=
  (blank {} {}).play [.step (.create "f" { rules := .natural })]

theorem failed_batch_marks_pool_fresh :
    ∃ b fault t, Batch.start "f" freshFunction = .ok b freshFunction ∧
      update "f" brokenPairs freshFunction = .error fault t ∧
      ∃ cause b' u v, fault = cause.reported ∧
        Source.Stopped Batch.put brokenPairs b freshFunction b' u cause v ∧
        ∃ q, t.pools = [q] ∧ b'.changed ≤ q.requests := by
  have hstart : Batch.start "f" freshFunction =
      .ok { name := "f", entry := 0, copy := { rules := .natural, pool := 0 } } freshFunction := rfl
  have hpool : freshFunction.pools[0]? = some { capacity := 1024 } := rfl
  have hfails : (Attempt.outcome (update "f" brokenPairs) freshFunction).isOk = false := by
    decide +kernel
  rcases Attempt.exists_error_of_outcome hfails with ⟨fault, t, hrun⟩
  rcases failed_batch_marks_pool hstart hpool hrun with
    ⟨cause, b', u, v, hfault, hstopped, q, hpools, hrequests, _⟩
  exact ⟨_, fault, t, hstart, hrun, cause, b', u, v, hfault, hstopped, q,
    hpools, by simpa using hrequests⟩

/-- The batch fails at its second row, and the two cells of its first one are left in the pool. -/
theorem failed_batch_traced :
    ∃ fault t, update "f" brokenPairs freshFunction = .error fault t ∧
      freshFunction.pools.map (fun p => (p.requests, p.shared, p.size)) = [(0, 0, 0)] ∧
      t.pools.map (fun p => (p.requests, p.shared, p.size)) = [(2, 0, 2)] := by
  have hfails : (Attempt.outcome (update "f" brokenPairs) freshFunction).isOk = false := by
    decide +kernel
  have hcounts : ((update "f" brokenPairs).stateAfter freshFunction).pools.map
      (fun p => (p.requests, p.shared, p.size)) = [(2, 0, 2)] := by decide +kernel
  rcases Attempt.exists_error_of_outcome hfails with ⟨fault, t, hrun⟩
  rw [Attempt.stateAfter, hrun] at hcounts
  exact ⟨fault, t, hrun, rfl, hcounts⟩

end Workspace

end Peaks
