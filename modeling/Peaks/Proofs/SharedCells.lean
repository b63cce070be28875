import Mathlib.Algebra.GroupWithZero.Nat
import Peaks.Proofs.Interning
import Peaks.Proofs.WeakNumbers

/-!
# Cells that are shared

A function and its clones draw their cells from one pool. Values are set and erased in any of them,
and whatever the orderings do, some of these edits fail. If the pool has room for all keys that are
ever recorded in it, all points with one value object hold it in one cell, those aside that a
failure left behind which could not be told, and all objects in the points are objects that were set
there.

- `Editor.Entered`      : what an edit that may have failed has done to the points and to the pool
- `Editor.Leaves`       : the same, or the remains of a failure that could not be told
- `Editor.Entered.records`, `Editor.Leaves.serves` : the keys of an edit, and what recording them
  keeps
- `Workspace.after`     : actions one after another, however each of them ends
- `Workspace.recorded`  : the keys that were recorded meanwhile
- `Workspace.Family`    : the invariant of holdings that draw on one pool
- `Workspace.WasSet`    : the call that put a point where it is
- `Workspace.LeftOver`  : a point that such a failure left behind
- `Workspace.cells_shared` : every run from one empty holding
- `Workspace.cells_not_shared` : a value in two cells
-/

namespace Peaks

variable {σ : Type}

/-! ## Points that are found -/

/-- Whatever is answered, a point is found because it stands there and compared equal. -/
theorem PointIndex.locate_found (compare : Comparator σ) (points : List Point)
    (argument : Payload) :
    (locate compare points argument).Ensures
      (fun found _ => ∀ i p, found = some (i, p) →
        p ∈ points ∧ ∃ host host', compare p.argument argument host = .ok 0 host')
      (fun _ _ => True) := by
  refine (any_ensures (lowerBound compare points argument)).bind fun index _ => ?_
  cases hpoint : points[index]? with
  | none =>
      exact .pure fun _ i p hfound => by cases hfound
  | some point =>
      have hask : (compare point.argument argument).Ensures
          (fun sign _ => ∃ host host', compare point.argument argument host = .ok sign host')
          (fun _ _ => True) :=
        .of_runs (fun host sign host' hrun => ⟨host, host', hrun⟩) fun _ _ _ _ => trivial
      refine hask.bind fun sign hsign => ?_
      split
      · next hzero =>
        refine .pure fun _ i p hfound => ?_
        obtain ⟨rfl, rfl⟩ := Prod.mk.inj (Option.some.inj hfound)
        rw [eq_of_beq hzero] at hsign
        exact ⟨List.mem_of_getElem? hpoint, hsign⟩
      · exact .pure fun _ i p hfound => by cases hfound

/-! ## Edits -/

namespace Editor

variable {rules : Rules σ} {e t : Editor σ}

/-- What an edit has done to the points and to the pool, whether it failed or not. An edit that
recorded cells has put a new point in, beside some of the old ones. -/
inductive Entered (rules : Rules σ) (e : Editor σ) : Edit → Editor σ → Prop
  | unchanged {edit : Edit} {t : Editor σ} (points : t.store.points ⊆ e.store.points)
      (pool : t.pool.SameContent e.pool) (nextCell : e.mint.nextCell ≤ t.mint.nextCell)
      (nextPoint : e.mint.nextPoint ≤ t.mint.nextPoint) : Entered rules e edit t
  | replaced {a v : Payload} {previous : Point} {cell : Cell} {mint : Mint} {t : Editor σ}
      (found : previous ∈ e.store.points)
      (tied : ∃ host host', rules.argument previous.argument a host = .ok 0 host')
      (handed : Pool.Handed e.pool e.mint v cell mint)
      (points : t.store.points ⊆ (mint.point previous.argumentCell cell).1 :: e.store.points)
      (pool : t.pool = (e.pool.touch v).recordAll [cell])
      (mint : t.mint = (mint.point previous.argumentCell cell).2) : Entered rules e (.set a v) t
  | added {a v : Payload} {argumentCell valueCell : Cell} {mint mint' : Mint} {t : Editor σ}
      (argument : Pool.Handed e.pool e.mint a argumentCell mint)
      (value : Pool.Handed (e.pool.touch a) mint v valueCell mint')
      (points : t.store.points ⊆ (mint'.point argumentCell valueCell).1 :: e.store.points)
      (pool : t.pool = ((e.pool.touch a).touch v).recordAll [argumentCell, valueCell])
      (mint : t.mint = (mint'.point argumentCell valueCell).2) : Entered rules e (.set a v) t

/-- The objects of a new point: those of the call, or else the argument object of a point that stood
there. -/
def Taken (rules : Rules σ) (stored : Point → Prop) (a v : Payload) (p : Point) : Prop :=
  p.value.same v = true ∧ (p.argument.same a = true ∨ ∃ previous, stored previous ∧
    p.argument = previous.argument ∧ ∃ host host', rules.argument p.argument a host = .ok 0 host')

/-- What every edit keeps: a point that it put in has a new number, and its objects were set. -/
structure Numbers (rules : Rules σ) (e : Editor σ) (edit : Edit) (t : Editor σ) : Prop where
  nextPoint : e.mint.nextPoint ≤ t.mint.nextPoint
  new : ∀ p ∈ t.store.points, p ∉ e.store.points → p.id = e.mint.nextPoint ∧
    p.id < t.mint.nextPoint ∧
    ∃ a v, edit = .set a v ∧ Taken rules (· ∈ e.store.points) a v p

/-- What an edit leaves that failed and could not tell so: its point may be in, but no cell is
recorded. -/
structure Remains (rules : Rules σ) (e : Editor σ) (edit : Edit) (t : Editor σ) : Prop where
  numbers : Numbers rules e edit t
  pool : t.pool.SameContent e.pool
  nextCell : e.mint.nextCell ≤ t.mint.nextCell

/-- What an edit leaves, however it ends. -/
def Leaves (rules : Rules σ) (e : Editor σ) (edit : Edit) (told : Bool) (t : Editor σ) : Prop :=
  Entered rules e edit t ∨ told = false ∧ Remains rules e edit t

theorem eq_of_new {p point : Point} {points points' : List Point}
    (hpoints : points' ⊆ point :: points)
    (hp : p ∈ points') (hnew : p ∉ points) : p = point :=
  (List.mem_cons.1 (hpoints hp)).resolve_right hnew

theorem Numbers.of_point {a v : Payload} {point : Point}
    (hpoints : t.store.points ⊆ point :: e.store.points) (hid : point.id = e.mint.nextPoint)
    (hmint : t.mint.nextPoint = point.id + 1)
    (htaken : Taken rules (· ∈ e.store.points) a v point) :
    Numbers rules e (.set a v) t := by
  refine ⟨by omega, fun p hp hnew => ?_⟩
  obtain rfl := eq_of_new hpoints hp hnew
  exact ⟨hid, by omega, a, v, rfl, htaken⟩

theorem Entered.numbers {edit : Edit} (h : Entered rules e edit t) : Numbers rules e edit t := by
  cases h with
  | unchanged points pool nextCell nextPoint =>
      exact ⟨nextPoint, fun p hp hnew => absurd (points hp) hnew⟩
  | @replaced a v previous cell mint _ found tied handed points pool hmint =>
      refine .of_point points handed.nextPoint ?_ ⟨handed.same, Or.inr ⟨previous, found, rfl, tied⟩⟩
      rw [hmint]
      rfl
  | @added a v argumentCell valueCell mint mint' _ argument value points pool hmint =>
      have hid := value.nextPoint.trans argument.nextPoint
      refine .of_point points hid ?_ ⟨value.same, Or.inl argument.same⟩
      rw [hmint]
      rfl

theorem Leaves.numbers {edit : Edit} {told : Bool} (h : Leaves rules e edit told t) :
    Numbers rules e edit t :=
  h.elim Entered.numbers fun hremains => hremains.2.numbers

theorem conclude_entered (staging : Staging) (gone : Option Nat) :
    (conclude staging gone : Attempt (Editor σ) Unit).EndsFrom e
      (fun _ t => t.store.points ⊆ e.store.points ∧ t.pool = e.pool ∧ t.mint = e.mint)
      (fun _ t => t.store.points ⊆ e.store.points ∧ t.pool = e.pool ∧ t.mint = e.mint) :=
  conclude_endsFrom (fun _ _ => ⟨(elim_eraseIdx_sublist _ gone).subset, rfl, rfl⟩)
    fun _ _ _ => ⟨List.Subset.refl _, rfl, rfl⟩

/-- The cells are recorded together with the points, or nothing happens to either. Only a failure
that could not be told leaves the point without its cells. -/
theorem place_leaves {s : Editor σ} {point : Point} {a v : Payload} {cells : List Cell}
    (hstore : s.store = e.store) (hpool : s.pool.SameContent e.pool)
    (hcell : e.mint.nextCell ≤ s.mint.nextCell) (hid : point.id = e.mint.nextPoint)
    (hmint : s.mint.nextPoint = point.id + 1) (htaken : Taken rules (· ∈ e.store.points) a v point)
    (hentered : ∀ t : Editor σ, t.store.points ⊆ point :: e.store.points →
      t.pool = s.pool.recordAll cells → t.mint = s.mint → Entered rules e (.set a v) t)
    (old : Option Nat) (argument : Payload) :
    (place rules point old cells argument).EndsFrom s
      (fun _ t => Entered rules e (.set a v) t)
      (fun fault t => Leaves rules e (.set a v) fault.isSpoken t) := by
  have hkept : ∀ {t : Editor σ}, t.store.points = e.store.points → t.pool = s.pool →
      t.mint = s.mint →
      Entered rules e (.set a v) t := by
    intro t hpoints htpool htmint
    refine .unchanged (hpoints ▸ List.Subset.refl _) (htpool ▸ hpool) (htmint ▸ hcell) ?_
    rw [htmint, hmint, hid]
    exact Nat.le_succ _
  have hinsert : (PointIndex.insert rules.argument s.store.points point).Ensures
      (fun placed _ => placed.2 = s.store.points.insertIdx placed.1 point) (fun _ _ => True) :=
    (any_ensures _).map fun _ _ _ => rfl
  refine .get_bind (onHost_run_bind (fun placed host hplaced => ?_)
    fun _ _ _ => Or.inl (hkept (hstore ▸ rfl) rfl rfl))
  obtain ⟨index, points⟩ := placed
  obtain rfl : points = s.store.points.insertIdx index point := hinsert.ok hplaced
  have hpending : s.store.points.insertIdx index point ⊆ point :: e.store.points :=
    hstore ▸ List.insertIdx_subset_cons index point s.store.points
  refine .modify_bind (stageAll_bind fun attempted host' _ => ?_)
  rcases attempted with ⟨staging, failure⟩
  cases failure with
  | some fault =>
      refine abandon_endsFrom (fun line => Or.inl (hkept ?_ rfl rfl)) fun _ => Or.inr ⟨rfl, ?_⟩
      · rw [← hstore]
        exact List.eraseIdx_insertIdx_self _
      · exact ⟨.of_point hpending hid hmint htaken, hpool, hcell⟩
  | none =>
      refine .modify_bind ((conclude_entered staging old).imp ?_ ?_)
      · rintro _ t ⟨hsubset, hpool, hmint⟩
        exact hentered t (List.Subset.trans hsubset hpending) hpool hmint
      · rintro _ t ⟨hsubset, hpool, hmint⟩
        exact Or.inl (hentered t (List.Subset.trans hsubset hpending) hpool hmint)

theorem set_leaves (a v : Payload) :
    (set rules a v).EndsFrom e (fun _ t => Entered rules e (.set a v) t)
      (fun fault t => Leaves rules e (.set a v) fault.isSpoken t) := by
  have hunchanged : ∀ host, Entered rules e (.set a v) { e with host := host } := fun _ =>
    .unchanged (List.Subset.refl _) (.refl _) (Nat.le_refl _) (Nat.le_refl _)
  refine .get_bind (onHost_run_bind (fun found host hfound => ?_)
    fun _ host _ => Or.inl (hunchanged host))
  have hlocated := (PointIndex.locate_found _ _ _).ok hfound
  cases found with
  | some located =>
      rcases located with ⟨old, previous⟩
      rcases hlocated old previous rfl with ⟨hmem, htied⟩
      refine onHost_run_bind (fun tied host' _ => ?_) fun _ host' _ => Or.inl (hunchanged host')
      split
      · exact .pure (hunchanged host')
      · refine obtainCell_handed_bind fun cell mint hcell => .modifyGet_bind ?_
        have htaken : Taken rules (· ∈ e.store.points) a v
            (mint.point previous.argumentCell cell).1 :=
          ⟨hcell.same, Or.inr ⟨previous, hmem, rfl, htied⟩⟩
        refine .bind (place_leaves (e := e) ?_ (Pool.touch_sameContent e.pool v) hcell.nextCell_le
          hcell.nextPoint rfl htaken (fun t hpoints hpool hmint => ?_) _ _) fun _ t ht => .pure ht
        · rfl
        · exact .replaced hmem htied hcell hpoints hpool hmint
  | none =>
      refine obtainCell_handed_bind fun argumentCell mint hargument => ?_
      refine obtainCell_handed_bind fun valueCell mint' hvalue => .modifyGet_bind ?_
      have htouched : ((e.pool.touch a).touch v).SameContent e.pool :=
        (Pool.touch_sameContent _ v).trans (Pool.touch_sameContent e.pool a)
      have hnextCell : e.mint.nextCell ≤ mint'.nextCell :=
        hargument.nextCell_le.trans hvalue.nextCell_le
      have htaken : Taken rules (· ∈ e.store.points) a v (mint'.point argumentCell valueCell).1 :=
        ⟨hvalue.same, Or.inl hargument.same⟩
      refine .bind
        (place_leaves (e := e) ?_ htouched hnextCell (hvalue.nextPoint.trans hargument.nextPoint)
        rfl htaken (fun t hpoints hpool hmint => ?_) _ _) fun _ t ht => .pure ht
      · rfl
      · exact .added hargument hvalue hpoints hpool hmint

theorem erase_leaves (a : Payload) :
    (erase rules a).EndsFrom e (fun _ t => Entered rules e (.erase a) t)
      (fun fault t => Leaves rules e (.erase a) fault.isSpoken t) := by
  have hunchanged : ∀ {t : Editor σ}, t.store.points ⊆ e.store.points → t.pool = e.pool →
      t.mint = e.mint →
      Entered rules e (.erase a) t := fun hpoints hpool hmint =>
    .unchanged hpoints (hpool ▸ .refl _) (hmint ▸ Nat.le_refl _) (hmint ▸ Nat.le_refl _)
  have hkept : ∀ host, Entered rules e (.erase a) { e with host := host } := fun _ =>
    hunchanged (List.Subset.refl _) rfl rfl
  refine .get_bind (onHost_run_bind (fun found host _ => ?_) fun _ host _ => Or.inl (hkept host))
  cases found with
  | none =>
      exact .pure (hkept host)
  | some index =>
      refine stageAll_bind fun attempted host' _ => ?_
      rcases attempted with ⟨staging, failure⟩
      cases failure with
      | some fault =>
          -- no new point was put in, so none can stay
          refine abandon_endsFrom (fun _ => ?_) fun _ => ?_
          all_goals exact Or.inl (hunchanged (List.Subset.refl _) rfl rfl)
      | none =>
          refine ((conclude_entered staging (some index)).imp (fun _ _ h => h)
            fun _ t ht => ?_).bind
            fun _ t ht => .pure ?_
          · exact Or.inl (hunchanged ht.1 ht.2.1 ht.2.2)
          · exact hunchanged ht.1 ht.2.1 ht.2.2

end Editor

theorem Edit.run_leaves (edit : Edit) {rules : Rules σ} {e : Editor σ} :
    (edit.run rules).EndsFrom e (fun _ t => Editor.Entered rules e edit t)
      (fun fault t => Editor.Leaves rules e edit fault.isSpoken t) := by
  cases edit with
  | set a v =>
      exact Editor.set_leaves a v
  | erase a =>
      exact Editor.erase_leaves a

/-! ## Recorded keys -/

/-- The keys that an edit recorded, told by the number of its requests: one for its value, or two
for its argument and its value. What cannot be a key is left out. -/
def Edit.recorded (edit : Edit) (requests : Nat) : List Payload :=
  match edit with
  | .set a v => ([a, v].drop (2 - requests)).filter Payload.isHashable
  | .erase _ => []

theorem Pool.SameContent.requests_recordAll {looked pool : Pool} (h : looked.SameContent pool)
    (cells : List Cell) :
    (looked.recordAll cells).requests - pool.requests = cells.length := by
  rw [recordAll_requests, h.requests]
  exact Nat.add_sub_cancel_left _ _

namespace Editor

variable {rules : Rules σ} {e t : Editor σ} {edit : Edit} {p : Point} {keys : List Payload}
  {capacity : Int}

/-- The keys of an edit are those of the cells that it recorded, one after another, whether it
failed or not. -/
theorem Entered.records (h : Entered rules e edit t) :
    ∃ (looked : Pool) (cells : List Cell), looked.SameContent e.pool ∧
      t.pool = looked.recordAll cells ∧
      List.Forall₂ (fun cell x => cell.payload.same x = true) (cells.filter (·.payload.isHashable))
        (edit.recorded (t.pool.requests - e.pool.requests)) := by
  have hkeys : ∀ {cells : List Cell} {xs : List Payload},
      List.Forall₂ (fun cell x => cell.payload.same x = true) cells xs →
      List.Forall₂ (fun cell x => cell.payload.same x = true) (cells.filter (·.payload.isHashable))
        (xs.filter Payload.isHashable) := fun hall =>
    List.rel_filter (fun _ _ hsame => Bool.eq_iff_iff.1 (Payload.isHashable_of_same hsame)) hall
  cases h with
  | unchanged points pool nextCell nextPoint =>
      refine ⟨t.pool, [], pool, rfl, ?_⟩
      rw [pool.requests, Nat.sub_self]
      cases edit with
      | set a v =>
          exact .nil
      | erase a =>
          exact .nil
  | @replaced a v previous cell mint _ found tied handed points pool hmint =>
      have hlooked := Pool.touch_sameContent e.pool v
      refine ⟨_, [cell], hlooked, pool, ?_⟩
      rw [pool, hlooked.requests_recordAll]
      exact hkeys (.cons handed.same .nil)
  | @added a v argumentCell valueCell mint mint' _ argument value points pool hmint =>
      have hlooked := (Pool.touch_sameContent _ v).trans (Pool.touch_sameContent e.pool a)
      refine ⟨_, [argumentCell, valueCell], hlooked, pool, ?_⟩
      rw [pool, hlooked.requests_recordAll]
      exact hkeys (.cons argument.same (.cons value.same .nil))

/-- With room for all keys, an edit forgets no cell, and the value cell of a new point is
remembered. -/
theorem Entered.serves (hample : Pool.Ample keys capacity) (h : Entered rules e edit t)
    (hpool : Pool.Interned keys capacity e.mint.nextCell e.pool)
    (hkeys : ∀ x ∈ edit.recorded (t.pool.requests - e.pool.requests), x ∈ keys) :
    Pool.Interned keys capacity t.mint.nextCell t.pool ∧ Pool.Keeps e.pool t.pool ∧
      ∀ p ∈ t.store.points, p ∉ e.store.points → p.value.isHashable = true →
        t.pool.cellOf? p.value = some p.valueCell := by
  cases h with
  | unchanged points pool nextCell nextPoint =>
      refine ⟨(hpool.of_sameContent pool).mono nextCell, .of_sameContent hpool.apart pool,
        fun p hp hnew => ?_⟩
      exact absurd (points hp) hnew
  | @replaced a v previous cell mint _ found tied handed points pool hmint =>
      rw [pool, (Pool.touch_sameContent e.pool v).requests_recordAll] at hkeys
      have hv : v.isHashable = true → v ∈ keys :=
        fun hhash => hkeys v (by simp [Edit.recorded, hhash])
      have hserved := hpool.serve_one hample handed hv
      rw [← pool] at hserved
      refine ⟨?_, hserved.2.1, fun p hp hnew hhash => ?_⟩
      · rw [hmint]
        exact hserved.1
      · obtain rfl := eq_of_new points hp hnew
        exact hserved.2.2 ((Payload.isHashable_of_same handed.same).symm.trans hhash)
  | @added a v argumentCell valueCell mint mint' _ argument value points pool hmint =>
      have hlooked := (Pool.touch_sameContent _ v).trans (Pool.touch_sameContent e.pool a)
      rw [pool, hlooked.requests_recordAll] at hkeys
      have ha : a.isHashable = true → a ∈ keys :=
        fun hhash => hkeys a (by simp [Edit.recorded, hhash])
      have hv : v.isHashable = true → v ∈ keys :=
        fun hhash => hkeys v (by simp [Edit.recorded, hhash])
      have hserved := hpool.serve_two hample argument value ha hv
      rw [← pool] at hserved
      refine ⟨?_, hserved.2.1, fun p hp hnew hhash => ?_⟩
      · rw [hmint]
        exact hserved.1
      · obtain rfl := eq_of_new points hp hnew
        exact hserved.2.2 ((Payload.isHashable_of_same value.same).symm.trans hhash)

/-- However an edit ends, it forgets no cell. If it could be told, the value cell of a new point is
remembered. -/
theorem Leaves.serves {told : Bool} (hample : Pool.Ample keys capacity)
    (h : Leaves rules e edit told t)
    (hpool : Pool.Interned keys capacity e.mint.nextCell e.pool)
    (hkeys : ∀ x ∈ edit.recorded (t.pool.requests - e.pool.requests), x ∈ keys) :
    Pool.Interned keys capacity t.mint.nextCell t.pool ∧ Pool.Keeps e.pool t.pool ∧
      (told = true → ∀ p ∈ t.store.points, p ∉ e.store.points → p.value.isHashable = true →
        t.pool.cellOf? p.value = some p.valueCell) := by
  rcases h with hentered | ⟨hmute, hremains⟩
  · exact (hentered.serves hample hpool hkeys).imp_right (And.imp_right fun hnew _ => hnew)
  · refine ⟨(hpool.of_sameContent hremains.pool).mono hremains.nextCell,
      .of_sameContent hpool.apart hremains.pool, ?_⟩
    intro htold
    exact absurd (hmute.symm.trans htold) (by decide)

end Editor

/-! ## Runs -/

namespace Action

/-- Values are set and erased and holdings cloned, while the host may change by itself. -/
def plain : Action σ → Bool
  | .edit .. | .clone _ | .host _ => true
  | .arrive .. | .load .. | .assign .. | .step _ => false

end Action

namespace Workspace

variable {rules : Rules σ} {keys : List Payload} {capacity : Int} {pool : Pool} {w : Workspace σ}
  {action : Action σ} {p : Point}

/-- The workspace after some actions, one after another, however each of them ends. -/
def after (w : Workspace σ) (actions : List (Action σ)) : Workspace σ :=
  actions.foldl (fun w action => action.run.stateAfter w) w

theorem after_concat (w : Workspace σ) (actions : List (Action σ)) (action : Action σ) :
    w.after (actions ++ [action]) = action.run.stateAfter (w.after actions) := by
  rw [after, List.foldl_append]
  rfl

def requests (w : Workspace σ) : Nat :=
  (w.pools.map Pool.requests).sum

end Workspace

/-- The keys that an action recorded on its way from one workspace to the other. -/
def Action.recorded (w t : Workspace σ) : Action σ → List Payload
  | .edit _ change => change.recorded (t.requests - w.requests)
  | _ => []

namespace Workspace

/-- The keys that were recorded in some actions. -/
def recorded (w : Workspace σ) : List (Action σ) → List Payload
  | [] => []
  | action :: rest =>
      action.recorded w (action.run.stateAfter w) ++ recorded (action.run.stateAfter w) rest

variable {rules : Rules σ} {keys : List Payload} {capacity : Int}
  {left : Point → Prop} {pool : Pool}
  {w : Workspace σ} {action : Action σ} {p : Point}

theorem recorded_concat (w : Workspace σ) (actions : List (Action σ)) (action : Action σ) :
    w.recorded (actions ++ [action]) =
      w.recorded actions ++ action.recorded (w.after actions) (w.after (actions ++ [action])) := by
  induction actions generalizing w with
  | nil =>
      simp [recorded, after]
  | cons first actions ih =>
      rw [List.cons_append, recorded, recorded, ih, List.append_assoc]
      rfl

/-- The point is in the store of one of the holdings. -/
def Stores (w : Workspace σ) (p : Point) : Prop :=
  ∃ h ∈ w.holdings, p ∈ h.store.points

/-- The holdings draw on one pool, which remembers the value cells of all points that can be
remembered, those aside that were left over. -/
structure Family (rules : Rules σ) (keys : List Payload) (capacity : Int)
    (left : Point → Prop) (pool : Pool)
    (w : Workspace σ) : Prop where
  pools : w.pools = [pool]
  drawn : ∀ h ∈ w.holdings, h.rules = rules ∧ h.pool = 0
  interned : pool.Interned keys capacity w.mint.nextCell
  shared : ∀ p, w.Stores p → ¬ left p → p.value.isHashable = true →
    pool.cellOf? p.value = some p.valueCell
  numbered : ∀ p, w.Stores p → p.id < w.mint.nextPoint

/-- An action that could not tell of its failure has left the point behind. -/
def Spills (w : Workspace σ) (action : Action σ) (p : Point) : Prop :=
  action.run.told w = false ∧ ¬ w.Stores p ∧ (action.run.stateAfter w).Stores p

/-- A point that an action put into the store of a holding. -/
def Sets (rules : Rules σ) (w : Workspace σ) (action : Action σ) (t : Workspace σ)
    (p : Point) : Prop :=
  ¬ w.Stores p ∧ ∃ id a v, action = .edit id (.set a v) ∧
    (∃ h, t.holdings[id]? = some h ∧ p ∈ h.store.points) ∧
    Editor.Taken rules w.Stores a v p

theorem edit_leaves (hw : Family rules keys capacity left pool w) (id : Nat) (change : Edit) :
    (Action.edit id change).run.stateAfter w = w ∨
      ∃ h e, w.holdings[id]? = some h ∧
        Editor.Leaves rules (w.editor h pool) change ((Action.edit id change).run.told w) e ∧
        (Action.edit id change).run.stateAfter w = w.edited id 0 e := by
  cases hh : w.holdings[id]? with
  | none =>
      have hrun : (Action.edit id change).run w = .error (.unboundName "store") w :=
        Attempt.bind_of_error (holding_eq_error hh)
      left
      rw [Attempt.stateAfter, hrun]
  | some h =>
      rcases hw.drawn h (List.mem_of_getElem? hh) with ⟨hrules, hzero⟩
      have hpool : w.pools[h.pool]? = some pool := by
        rw [hw.pools, hzero]
        rfl
      have hact : (change.run h.rules).EndsFrom (w.editor h pool)
          (fun _ e => Editor.Entered rules (w.editor h pool) change e)
          (fun fault e => Editor.Leaves rules (w.editor h pool) change fault.isSpoken e) := by
        rw [hrules]
        exact change.run_leaves
      have hends : (Workspace.edit id fun rules => change.run rules).EndsFrom w _ _ :=
        edit_endsFrom hh hpool hact
      rw [hzero] at hends
      right
      rw [Attempt.told, Attempt.stateAfter]
      cases hrun : (Action.edit id change).run w with
      | ok changed t =>
          rcases hends.ok hrun with ⟨e, hentered, ht⟩
          exact ⟨h, e, rfl, Or.inl hentered, ht⟩
      | error fault t =>
          rcases hends.error hrun with ⟨e, hleaves, ht⟩
          exact ⟨h, e, rfl, hleaves, ht⟩

/-- A clone has the points of the original. -/
theorem stores_of_cloned {h : Holding σ} (hh : h ∈ w.holdings)
    (hp : Stores { w with holdings := w.holdings ++ [h.clone] } p) : w.Stores p := by
  rcases hp with ⟨g, hg, hp⟩
  rcases List.mem_append.1 hg with hg | hg
  · exact ⟨g, hg, hp⟩
  · obtain rfl := List.mem_singleton.1 hg
    exact ⟨h, hh, hp⟩

theorem stores_edited {id : Nat} {h : Holding σ} {e : Editor σ} (hh : w.holdings[id]? = some h)
    (hp : (w.edited id 0 e).Stores p) : p ∈ e.store.points ∨ w.Stores p := by
  rcases hp with ⟨g, hg, hp⟩
  rw [edited, modify_eq_set_of_getElem? _ hh] at hg
  rcases List.mem_or_eq_of_mem_set hg with hg | rfl
  · exact Or.inr ⟨g, hg, hp⟩
  · exact Or.inl hp

namespace Family

variable (hample : Pool.Ample keys capacity) (hw : Family rules keys capacity left pool w)

theorem mono {left' : Point → Prop} (hw : Family rules keys capacity left pool w)
    (hleft : ∀ p, left p → left' p) :
    Family rules keys capacity left' pool w :=
  { hw with shared := fun p hp hnot => hw.shared p hp fun h => hnot (hleft p h) }

/-- A new point is not in any of the stores, since its number is new. -/
theorem not_stores (hw : Family rules keys capacity left pool w) (hp : p.id = w.mint.nextPoint) :
    ¬ w.Stores p := by
  intro hstores
  have hlt := hw.numbered p hstores
  omega

theorem clone (hw : Family rules keys capacity left pool w) {h : Holding σ}
    (hh : h ∈ w.holdings) :
    Family rules keys capacity left pool { w with holdings := w.holdings ++ [h.clone] } where
  pools := hw.pools
  drawn g hg := by
    rcases List.mem_append.1 hg with hg | hg
    · exact hw.drawn g hg
    · obtain rfl := List.mem_singleton.1 hg
      exact hw.drawn h hh
  interned := hw.interned
  shared p hp := hw.shared p (stores_of_cloned hh hp)
  numbered p hp := hw.numbered p (stores_of_cloned hh hp)

include hample hw

theorem edit {id : Nat} {change : Edit} {told : Bool} {h : Holding σ} {e : Editor σ}
    (hh : w.holdings[id]? = some h) (hleaves : Editor.Leaves rules (w.editor h pool) change told e)
    (hkeys : ∀ x ∈ (Action.edit id change).recorded w (w.edited id 0 e), x ∈ keys) :
    Family rules keys capacity
        (fun p => left p ∨ told = false ∧ ¬ w.Stores p ∧ (w.edited id 0 e).Stores p) e.pool
        (w.edited id 0 e) ∧
      ∀ p, (w.edited id 0 e).Stores p → w.Stores p ∨ Sets rules w (.edit id change)
        (w.edited id 0 e) p := by
  have hmem := List.mem_of_getElem? hh
  have hpools : (w.edited id 0 e).pools = [e.pool] := by
    simp [edited, absorb, hw.pools]
  have hrequests : (w.edited id 0 e).requests - w.requests = e.pool.requests - pool.requests := by
    simp [requests, hpools, hw.pools]
  rw [Action.recorded, hrequests] at hkeys
  rcases hleaves.serves hample hw.interned hkeys with ⟨hinterned, hkeeps, hshared⟩
  -- a point that is not in the store of the holding was put there by the edit
  have hnew : ∀ p, (w.edited id 0 e).Stores p → w.Stores p ∨ p ∈ e.store.points ∧
      p ∉ h.store.points := by
    intro p hp
    by_cases hold : p ∈ h.store.points
    · exact Or.inl ⟨h, hmem, hold⟩
    · exact (stores_edited hh hp).symm.imp_right fun hin => ⟨hin, hold⟩
  have hout : ∀ p, p ∈ e.store.points ∧ p ∉ h.store.points → ¬ w.Stores p := fun p hp =>
    hw.not_stores (hleaves.numbers.new p hp.1 hp.2).1
  refine ⟨⟨hpools, fun g hg => ?_, hinterned, fun p hp hleft hhash => ?_, fun p hp => ?_⟩,
    fun p hp => ?_⟩
  · rw [edited, modify_eq_set_of_getElem? _ hh] at hg
    rcases List.mem_or_eq_of_mem_set hg with hg | rfl
    · exact hw.drawn g hg
    · exact hw.drawn h hmem
  · rcases hnew p hp with hold | hput
    · exact hkeeps _ _ (hw.shared p hold (fun h => hleft (Or.inl h)) hhash)
    · cases told with
      | false =>
          exact absurd (Or.inr ⟨rfl, hout p hput, hp⟩) hleft
      | true =>
          exact hshared rfl p hput.1 hput.2 hhash
  · rcases hnew p hp with hold | ⟨hin, hnot⟩
    · exact Nat.lt_of_lt_of_le (hw.numbered p hold) hleaves.numbers.nextPoint
    · exact (hleaves.numbers.new p hin hnot).2.1
  · rcases hnew p hp with hold | ⟨hin, hnot⟩
    · exact Or.inl hold
    · rcases hleaves.numbers.new p hin hnot with ⟨-, -, a, v, rfl, htaken⟩
      refine Or.inr ⟨hout p ⟨hin, hnot⟩, id, a, v, rfl,
        ⟨{ h with store := e.store }, ?_, hin⟩, htaken.1, ?_⟩
      · rw [edited, modify_eq_set_of_getElem? _ hh,
          List.getElem?_set_self (List.getElem?_eq_some_iff.1 hh).1]
      · refine htaken.2.imp_right fun hprevious => ?_
        rcases hprevious with ⟨previous, hprevious, htied⟩
        exact ⟨previous, ⟨h, hmem, hprevious⟩, htied⟩

/-- One action. -/
theorem step (hplain : action.plain = true)
    (hkeys : ∀ x ∈ action.recorded w (action.run.stateAfter w), x ∈ keys) :
    ∃ pool', Family rules keys capacity (fun p => left p ∨ w.Spills action p) pool'
      (action.run.stateAfter w) ∧
      ∀ p, (action.run.stateAfter w).Stores p → w.Stores p ∨ Sets rules w action
        (action.run.stateAfter w) p := by
  cases action with
  | edit id change =>
      simp only [Spills]
      rcases edit_leaves hw id change with heq | ⟨h, e, hh, hleaves, heq⟩
      · rw [heq]
        exact ⟨pool, hw.mono fun _ => Or.inl, fun p hp => Or.inl hp⟩
      · rw [heq] at hkeys ⊢
        exact ⟨e.pool, hw.edit hample hh hleaves hkeys⟩
  | clone id =>
      cases hh : w.holdings[id]? with
      | none =>
          have hrun : (Action.clone id : Action σ).run w = .error (.unboundName "store") w :=
            Attempt.bind_of_error (Attempt.bind_of_error (holding_eq_error hh))
          refine ⟨pool, .mono ?_ fun _ => Or.inl, ?_⟩ <;> rw [Attempt.stateAfter, hrun]
          · exact hw
          · exact fun p hp => Or.inl hp
      | some h =>
          have hclone : cloneHolding id w =
              .ok w.holdings.length { w with holdings := w.holdings ++ [h.clone] } :=
            Attempt.bind_of_ok (holding_eq_ok hh)
          have hrun : (Action.clone id : Action σ).run w =
              .ok true { w with holdings := w.holdings ++ [h.clone] } :=
            Attempt.bind_of_ok hclone
          have hmem := List.mem_of_getElem? hh
          refine ⟨pool, .mono ?_ fun _ => Or.inl, ?_⟩ <;> rw [Attempt.stateAfter, hrun]
          · exact hw.clone hmem
          · exact fun p hp => Or.inl (stores_of_cloned hmem hp)
  | host change =>
      refine ⟨pool, .mono ?_ fun _ => Or.inl, fun p hp => Or.inl hp⟩
      exact ⟨hw.pools, hw.drawn, hw.interned, hw.shared, hw.numbered⟩
  | arrive | load | assign | step =>
      cases hplain

end Family

/-- The call that put a point where it is. The value is the object of that call, and so is the
argument, or else it is the object of an earlier call that compared equal. -/
def WasSet (rules : Rules σ) (w : Workspace σ) (actions : List (Action σ)) (p : Point) : Prop :=
  ∃ earlier id a v later, actions = earlier ++ .edit id (.set a v) :: later ∧
    ¬ (w.after earlier).Stores p ∧
    (∃ h, (w.after (earlier ++ [.edit id (.set a v)])).holdings[id]? = some h ∧
      p ∈ h.store.points) ∧
    p.value.same v = true ∧
    (p.argument.same a = true ∨ ∃ id' a' v', Action.edit id' (.set a' v') ∈ earlier ∧
      p.argument.same a' = true ∧ ∃ host host', rules.argument p.argument a host = .ok 0 host')

/-- The call that put the point in failed and could not tell so. -/
def LeftOver (w : Workspace σ) (actions : List (Action σ)) (p : Point) : Prop :=
  ∃ earlier action later, actions = earlier ++ action :: later ∧ (w.after earlier).Spills action p

section WasSet

variable {actions : List (Action σ)}

theorem WasSet.concat (h : WasSet rules w actions p) (action : Action σ) :
    WasSet rules w (actions ++ [action]) p := by
  rcases h with ⟨earlier, id, a, v, later, rfl, hput⟩
  exact ⟨earlier, id, a, v, later ++ [action], by simp, hput⟩

theorem LeftOver.concat {action : Action σ}
    (h : LeftOver w actions p ∨ (w.after actions).Spills action p) :
    LeftOver w (actions ++ [action]) p := by
  rcases h with ⟨earlier, other, later, rfl, hspills⟩ | hspills
  · exact ⟨earlier, other, later ++ [action], by simp, hspills⟩
  · exact ⟨actions, action, [], rfl, hspills⟩

theorem LeftOver.exists_mute (h : LeftOver w actions p) :
    ∃ i : Fin actions.length, (actions.get i).run.told (w.after (actions.take i)) = false := by
  rcases h with ⟨earlier, action, later, rfl, hmute, -⟩
  refine ⟨⟨earlier.length, by simp⟩, ?_⟩
  simpa using hmute

/-- The argument is the object of one of the calls. -/
theorem WasSet.exists_set (h : WasSet rules w actions p) :
    ∃ id a v, Action.edit id (.set a v) ∈ actions ∧ p.argument.same a = true := by
  rcases h with ⟨earlier, id, a, v, later, rfl, -, -, -, hsame | ⟨id', a', v', hmem, hsame, -⟩⟩
  · exact ⟨id, a, v, by simp, hsame⟩
  · exact ⟨id', a', v', by simp [hmem], hsame⟩

theorem Sets.wasSet (h : Sets rules (w.after actions) action (w.after (actions ++ [action])) p)
    (hbefore : ∀ q, (w.after actions).Stores q → WasSet rules w actions q) :
    WasSet rules w (actions ++ [action]) p := by
  rcases h with ⟨hnew, id, a, v, rfl, hthere, hvalue, hargument⟩
  refine ⟨actions, id, a, v, [], rfl, hnew, hthere, hvalue, hargument.imp_right fun hprevious => ?_⟩
  rcases hprevious with ⟨previous, hstored, heq, htied⟩
  rcases (hbefore previous hstored).exists_set with ⟨id', a', v', hmem, hsame⟩
  exact ⟨id', a', v', hmem, heq ▸ hsame, htied⟩

/-- All actions. -/
theorem Family.after (hample : Pool.Ample keys capacity)
    (hw : Family rules keys capacity (fun _ => False) pool w)
    (hempty : ∀ p, ¬ w.Stores p) (hplain : ∀ action ∈ actions, action.plain = true)
    (hkeys : ∀ x ∈ w.recorded actions, x ∈ keys) :
    ∃ pool', Family rules keys capacity (LeftOver w actions) pool' (w.after actions) ∧
      ∀ p, (w.after actions).Stores p → WasSet rules w actions p := by
  induction actions using List.reverseRecOn with
  | nil =>
      exact ⟨pool, hw.mono fun _ => False.elim, fun p hp => absurd hp (hempty p)⟩
  | append_singleton actions action ih =>
      rw [recorded_concat] at hkeys
      have hfront : ∀ action ∈ actions, action.plain = true :=
        fun other hother => hplain other (by simp [hother])
      rcases ih hfront fun x hx => hkeys x (by simp [hx]) with ⟨pool', hfamily, hset⟩
      have hstep := hfamily.step hample (hplain action (by simp)) fun x hx => hkeys x (by
        rw [after_concat]
        exact List.mem_append_right _ hx)
      rw [← after_concat] at hstep
      rcases hstep with ⟨pool'', hfamily', hnew⟩
      refine ⟨pool'', hfamily'.mono fun _ => LeftOver.concat, fun p hp => ?_⟩
      rcases hnew p hp with hold | hsets
      · exact (hset p hold).concat action
      · exact hsets.wasSet hset

end WasSet

/-- One empty holding with a pool of its own. -/
def single (rules : Rules σ) (capacity : Int) (host : σ) (mint : Mint) : Workspace σ where
  host := host
  mint := mint
  pools := [{ capacity := capacity }]
  holdings := [{ rules := rules, pool := 0 }]

theorem single_empty (rules : Rules σ) (capacity : Int) (host : σ) (mint : Mint) (p : Point) :
    ¬ (single rules capacity host mint).Stores p := by
  rintro ⟨h, hh, hp⟩
  obtain rfl := List.mem_singleton.1 hh
  cases hp

theorem single_family (rules : Rules σ) (keys : List Payload) (capacity : Int) (host : σ)
    (mint : Mint) :
    Family rules keys capacity (fun _ => False) { capacity := capacity }
      (single rules capacity host mint) where
  pools := rfl
  drawn h hh := by
    obtain rfl := List.mem_singleton.1 hh
    exact ⟨rfl, rfl⟩
  interned := .of_empty { capacity := capacity } rfl _
  shared p hp := absurd hp (single_empty rules capacity host mint p)
  numbered p hp := absurd hp (single_empty rules capacity host mint p)

/-- Values are set and erased in a function and its clones, which may fail at any comparison. If the
pool has room for all keys that are recorded in it and those that match are one object, two points
with one value object have one value cell, wherever they are stored, unless one of them is left over
from a failure that could not be told; and every object in a point is one that was set there. -/
theorem cells_shared (rules : Rules σ) (capacity : Int) (host : σ) (mint : Mint)
    (actions : List (Action σ))
    (hplain : ∀ action ∈ actions, action.plain = true)
    (hroom : ((Pool.distinct ((single rules capacity host mint).recorded actions)).length : Int) ≤
      capacity)
    (hsame : ∀ x ∈ (single rules capacity host mint).recorded actions,
      ∀ y ∈ (single rules capacity host mint).recorded actions, Pool.keysMatch x y = true →
        x.same y = true) :
    (∀ p q, ((single rules capacity host mint).after actions).Stores p →
      ((single rules capacity host mint).after actions).Stores q →
      ¬ LeftOver (single rules capacity host mint) actions p →
      ¬ LeftOver (single rules capacity host mint) actions q →
      p.value.same q.value = true → p.value.isHashable = true → p.valueCell = q.valueCell) ∧
    ∀ p, ((single rules capacity host mint).after actions).Stores p →
      WasSet rules (single rules capacity host mint) actions p := by
  have hample : Pool.Ample ((single rules capacity host mint).recorded actions) capacity :=
    ⟨hroom, hsame⟩
  have hstart := single_family rules ((single rules capacity host mint).recorded actions)
    capacity host mint
  rcases hstart.after hample (single_empty rules capacity host mint) hplain
    fun x hx => hx with ⟨pool, hfamily, hset⟩
  refine ⟨fun p q hp hq hleft hleft' hvalue hhash => ?_, hset⟩
  have hhash' : q.value.isHashable = true := (Payload.isHashable_of_same hvalue).symm.trans hhash
  -- the pool remembers the cells of both under one key
  refine Option.some.inj ?_
  calc some p.valueCell = pool.cellOf? p.value := (hfamily.shared p hp hleft hhash).symm
    _ = pool.cellOf? q.value := Pool.cellOf?_of_match pool (Pool.keysMatch_of_same hvalue)
    _ = some q.valueCell := hfamily.shared q hq hleft' hhash'

/-- One object as argument and value, then a clone where it is set once more. The first attempt at
that fails. -/
def onesActions : List (Action Surroundings) :=
  [.edit 0 (.set (.int 1) (.int 1)), .clone 0, .host fun host => host.arm 1 0,
   .edit 1 (.set (.int 2) (.int 1)),
   .edit 1 (.set (.int 2) (.int 1))]

/-- A pool with room for two keys. -/
def onesStart : Workspace Surroundings :=
  single .metered 2 { meters := [{}, {}] } {}

theorem cells_shared_ones :
    ((Action.edit 1 (.set (.int 2) (.int 1))).run.outcome
      (onesStart.after (onesActions.take 3))).isOk = false ∧
    ∃ p q, (onesStart.after onesActions).Stores p ∧
      (onesStart.after onesActions).Stores q ∧ p.id ≠ q.id ∧
      p.valueCell = q.valueCell ∧ WasSet .metered onesStart onesActions q := by
  have hshared := cells_shared .metered 2 { meters := [{}, {}] } {} onesActions (by decide)
    (by decide +kernel)
    (by decide +kernel)
  have hpoints : ∃ h ∈ (onesStart.after onesActions).holdings, ∃ p ∈ h.store.points,
      ∃ g ∈ (onesStart.after onesActions).holdings, ∃ q ∈ g.store.points,
        p.id ≠ q.id ∧ p.value.same q.value = true ∧ p.value.isHashable = true := by decide +kernel
  rcases hpoints with ⟨h, hh, p, hp, g, hg, q, hq, hne, hsame, hhash⟩
  -- the call that failed could be told
  have hnone : ∀ p, ¬ onesStart.LeftOver onesActions p := by
    have htold : ∀ i : Fin onesActions.length,
        (onesActions.get i).run.told (onesStart.after (onesActions.take i)) = true := by
      decide +kernel
    intro p hleft
    obtain ⟨i, hmute⟩ := hleft.exists_mute
    exact absurd ((htold i).symm.trans hmute) (by decide)
  refine ⟨by decide +kernel, p, q, ⟨h, hh, hp⟩, ⟨g, hg, hq⟩, hne, ?_, hshared.2 q ⟨g, hg, hq⟩⟩
  exact hshared.1 p q ⟨h, hh, hp⟩ ⟨g, hg, hq⟩ (hnone p) (hnone q) hsame hhash

/-- A point with the value 5 is left over from a failure that could not be told, and then the value
is set. -/
def fivesActions : List (Action Surroundings) :=
  [.edit 0 (.set (.int 1) (.int 3)), .host fun host => host.arm 1 0,
   .edit 0 (.set longNumber (.int 5)),
   .edit 0 (.set (.int 2) (.int 5))]

def fivesStart : Workspace Surroundings :=
  single .metered 8 { meters := [{}, {}] } {}

/-- The value that was left over has a cell that the pool does not remember. -/
theorem cells_not_shared :
    (∀ action ∈ fivesActions, action.plain = true) ∧
      ((Pool.distinct (fivesStart.recorded fivesActions)).length : Int) ≤ 8 ∧
      (∀ x ∈ fivesStart.recorded fivesActions, ∀ y ∈ fivesStart.recorded fivesActions,
        Pool.keysMatch x y = true → x.same y = true) ∧
      ∃ p q, (fivesStart.after fivesActions).Stores p ∧ (fivesStart.after fivesActions).Stores q ∧
        p.value.same q.value = true ∧ p.value.isHashable = true ∧ p.valueCell ≠ q.valueCell := by
  have hpoints : ∃ h ∈ (fivesStart.after fivesActions).holdings,
      ∃ p ∈ h.store.points, ∃ q ∈ h.store.points,
      p.value.same q.value = true ∧ p.value.isHashable = true ∧
      p.valueCell.id ≠ q.valueCell.id := by
    decide +kernel
  rcases hpoints with ⟨h, hh, p, hp, q, hq, hsame, hhash, hapart⟩
  refine ⟨by decide, by decide +kernel, by decide +kernel, p, q, ⟨h, hh, hp⟩, ⟨h, hh, hq⟩,
    hsame, hhash, ?_⟩
  exact fun heq => hapart (heq ▸ rfl)

end Workspace

end Peaks
