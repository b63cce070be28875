import Peaks.Proofs.Aftermath

/-!
# The cells of a load

A load looks for all of its cells before it records any of them, and it records all of them before
it sorts the maxima. So two pairs of one load share a cell only if the pool knew that cell before,
and a load that fails in its last comparisons has recorded cells that come into no store.

- `Pool.Handed`     : the remembered cell, or else a new one
- `Editor.gather`, `Editor.load_eq` : the part of a load that comes before the recording
- `Editor.Supplied` : where the value cells of points come from
- `Editor.failed_load_records` : what a failed load leaves in the pool
- `Editor.load_shares_iff`     : which of the loaded points share their value cells
-/

namespace Peaks

variable {σ : Type}

/-! ## Cells that are handed out -/

namespace Pool

variable {pool : Pool} {mint : Mint} {x y : Payload} {cell : Cell}

/-- A cell for a payload, and the mint afterwards. -/
inductive Handed (pool : Pool) (mint : Mint) (x : Payload) : Cell → Mint → Prop
  | known {cell : Cell} (found : (pool.lookup x).1 = some cell) : Handed pool mint x cell mint
  | fresh (missed : (pool.lookup x).1 = none) : Handed pool mint x (mint.cell x).1 (mint.cell x).2

theorem obtain_handed (pool : Pool) (mint : Mint) (x : Payload) :
    Handed pool mint x (pool.obtain mint x).1 (pool.obtain mint x).2.2 := by
  unfold Pool.obtain
  split
  · next cell pool' heq =>
    exact .known (congrArg Prod.fst heq)
  · next pool' heq =>
    exact .fresh (congrArg Prod.fst heq)

theorem Handed.same {mint' : Mint} (h : Handed pool mint x cell mint') :
    cell.payload.same x = true := by
  cases h with
  | known found =>
      exact lookup_same found
  | fresh missed =>
      exact Payload.same_refl x

theorem Handed.nextCell_le {mint' : Mint} (h : Handed pool mint x cell mint') :
    mint.nextCell ≤ mint'.nextCell := by
  cases h with
  | known found =>
      exact Nat.le_refl _
  | fresh missed =>
      exact Nat.le_succ _

theorem Handed.nextPoint {mint' : Mint} (h : Handed pool mint x cell mint') :
    mint'.nextPoint = mint.nextPoint := by
  cases h with
  | known found =>
      rfl
  | fresh missed =>
      rfl

/-- Matching keys are looked for in the same place. -/
theorem find?_of_match (pool : Pool) (h : keysMatch x y = true) : pool.find? x = pool.find? y := by
  rw [find?, find?]
  exact congrArg (pool.entries.find? ·) (funext fun entry => keysMatch_congr_right h entry.key)

/-- So are two forms of one object, and what is found there is that object for both or for none. -/
theorem lookup_fst_of_same (pool : Pool) (h : x.same y = true) :
    (pool.lookup x).1 = (pool.lookup y).1 := by
  have hremembers : pool.remembers x = pool.remembers y := by
    rw [remembers, remembers, Payload.isHashable_of_same h]
  have hfind : pool.find? x = pool.find? y := pool.find?_of_match (keysMatch_of_same h)
  have hsame : ∀ p : Payload, p.same x = p.same y := fun p => by
    rw [Bool.eq_iff_iff]
    exact ⟨fun hx => Payload.same_trans hx h, fun hy => Payload.same_trans hy (Payload.same_symm h)⟩
  simp only [lookup, get, hremembers, hfind]
  split
  · cases pool.find? y with
    | none =>
        rfl
    | some entry =>
        simp only [hsame]
  · rfl

theorem record_requests (pool : Pool) (cell : Cell) :
    (pool.record cell).requests = pool.requests + 1 := by
  cases hused : pool.remembers cell.payload with
  | false =>
      rw [record_of_unused hused]
  | true =>
      cases hfind : pool.find? cell.payload with
      | none =>
          rw [record_of_missing hused hfind]
      | some entry =>
          rw [record_of_known hused hfind]
          split <;> rfl

theorem recordAll_requests (pool : Pool) (cells : List Cell) :
    (pool.recordAll cells).requests = pool.requests + cells.length := by
  induction cells generalizing pool with
  | nil =>
      rfl
  | cons cell cells ih =>
      have hrest := ih (pool.record cell)
      rw [record_requests] at hrest
      rw [List.length_cons, Nat.add_comm cells.length, ← Nat.add_assoc]
      exact hrest

end Pool

/-! ## Comparisons that may fail -/

/-- Without two elements there is nothing to compare. -/
theorem StableSort.two_le_of_sort_error {α : Type} {compare : α → α → Attempt σ Int}
    {xs : List α} {s t : σ}
    {fault : Fault} (h : sort compare xs s = .error fault t) : 2 ≤ xs.length := by
  match xs, h with
  | [], h => cases h
  | [_], h => cases h
  | _ :: _ :: _, _ => simp

theorem Scan.localMaximaAfter_sublist {α : Type} (compare : Comparator σ) (valueOf : α → Payload)
    (left : Option Payload) (xs : List α) :
    (localMaximaAfter compare valueOf left xs).Ensures (fun found _ => found.Sublist xs)
      (fun _ _ => True) := by
  induction xs generalizing left with
  | nil =>
      exact .pure fun _ => .slnil
  | cons x xs ih =>
      rw [localMaximaAfter]
      refine (any_ensures _).bind fun peak _ => (ih _).map fun others _ hothers => ?_
      split
      · exact hothers.cons_cons x
      · exact hothers.cons x

namespace Editor

variable {rules : Rules σ} {e t : Editor σ} {source : Source} {points : List Point}

/-! ## What comes before the recording -/

/-- The points that a load is going to install, and their maxima in the order of the points. -/
def gather (rules : Rules σ) (source : Source) : Attempt (Editor σ) (List Point × List Point) := do
  let points ← source.traverse obtainPoint
  let sorted ← onHost (PointIndex.sorted rules.argument points)
  let unique ← onHost (PointIndex.lastOfEach rules.argument sorted)
  let maxima ← onHost (Scan.localMaxima rules.value Point.value unique)
  return (unique, maxima)

/-- The cells of some points, the one of the argument before the one of the value. -/
def cellsOf (points : List Point) : List Cell :=
  points.flatMap fun p => [p.argumentCell, p.valueCell]

theorem length_cellsOf (points : List Point) : (cellsOf points).length = 2 * points.length := by
  rw [cellsOf, List.length_flatMap]
  simp [Nat.mul_comm]

theorem load_eq (rules : Rules σ) (source : Source) :
    load rules source = (do
      let found ← gather rules source
      recordCells (cellsOf found.1)
      adopt rules found.1 found.2) := by
  simp only [load, gather, cellsOf, bind_assoc, pure_bind]

/-- Each value cell is the one that the pool knew, or else a new one; the new ones are numbered in
the order of the points. -/
structure Supplied (pool : Pool) (low high : Nat) (points : List Point) : Prop where
  known : ∀ p ∈ points, ∀ cell, (pool.lookup p.value).1 = some cell → p.valueCell = cell
  fresh : ∀ p ∈ points, (pool.lookup p.value).1 = none → low ≤ p.valueCell.id ∧
    p.valueCell.id < high
  ascending : points.Pairwise fun p q =>
    (pool.lookup p.value).1 = none → (pool.lookup q.value).1 = none →
      p.valueCell.id < q.valueCell.id

theorem Supplied.nil (pool : Pool) (low high : Nat) : Supplied pool low high [] :=
  ⟨by simp, by simp, .nil⟩

/-- One more point, whose value cell was handed out before the others. -/
theorem Supplied.cons {pool : Pool} {low middle high : Nat} {p : Point}
    (h : Supplied pool middle high points)
    (hle : low ≤ middle) (hknown : ∀ cell, (pool.lookup p.value).1 = some cell → p.valueCell = cell)
    (hfresh : (pool.lookup p.value).1 = none → low ≤ p.valueCell.id ∧ p.valueCell.id < middle)
    (hhigh : middle ≤ high) : Supplied pool low high (p :: points) where
  known := List.forall_mem_cons.2 ⟨hknown, h.known⟩
  fresh := by
    refine List.forall_mem_cons.2 ⟨fun hmissed => ?_, fun q hq hmissed => ?_⟩
    · have := hfresh hmissed
      omega
    · have := h.fresh q hq hmissed
      omega
  ascending := by
    refine List.pairwise_cons.2 ⟨fun q hq hp hmissed => ?_, h.ascending⟩
    have := hfresh hp
    have := h.fresh q hq hmissed
    omega

/-- What looking for cells leaves as it is. -/
structure Looked (e t : Editor σ) : Prop where
  store : t.store = e.store
  pool : t.pool.SameContent e.pool
  nextCell : e.mint.nextCell ≤ t.mint.nextCell

theorem Looked.refl (e : Editor σ) : Looked e e :=
  ⟨rfl, .refl _, Nat.le_refl _⟩

theorem Looked.trans {u : Editor σ} (h : Looked e t) (h' : Looked t u) : Looked e u :=
  ⟨h'.store.trans h.store, h'.pool.trans h.pool, h.nextCell.trans h'.nextCell⟩

theorem Looked.host (h : Looked e t) (host : σ) : Looked e { t with host := host } :=
  ⟨h.store, h.pool, h.nextCell⟩

/-- A cell is handed out, and the key becomes the most recent one. -/
theorem obtainCell_handed_bind {β : Type} {x : Payload} {f : Cell → Attempt (Editor σ) β}
    {done : β → Editor σ → Prop} {failed : Fault → Editor σ → Prop}
    (hf : ∀ cell mint, Pool.Handed e.pool e.mint x cell mint →
      (f cell).EndsFrom { e with pool := e.pool.touch x, mint := mint } done failed) :
    (obtainCell x >>= f).EndsFrom e done failed := by
  rw [← Pool.obtain_pool e.pool e.mint x] at hf
  exact .modifyGet_bind (hf _ _ (Pool.obtain_handed e.pool e.mint x))

theorem obtainPoint_supplied {pool : Pool} (hpool : e.pool.SameContent pool) (a v : Payload) :
    (obtainPoint a v).EndsFrom e
      (fun p t => Looked e t ∧ (Pool.Apart pool.entries →
        (∀ cell, (pool.lookup p.value).1 = some cell → p.valueCell = cell) ∧
        ((pool.lookup p.value).1 = none → e.mint.nextCell ≤ p.valueCell.id ∧
          p.valueCell.id < t.mint.nextCell)))
      (fun _ _ => False) := by
  refine obtainCell_handed_bind fun argumentCell mint hargument => ?_
  refine obtainCell_handed_bind fun valueCell mint' hvalue => ?_
  have htouched : ((e.pool.touch a).touch v).SameContent e.pool :=
    (Pool.touch_sameContent _ v).trans (Pool.touch_sameContent _ a)
  refine ⟨⟨rfl, htouched, hargument.nextCell_le.trans hvalue.nextCell_le⟩, fun hapart => ?_⟩
  -- the argument was looked for in between, which changes no content
  have hlookup : (pool.lookup valueCell.payload).1 = ((e.pool.touch a).lookup v).1 := by
    rw [Pool.lookup_fst_of_same pool hvalue.same]
    exact (Pool.lookup_fst_eq ((Pool.touch_sameContent _ a).trans hpool) hapart v).symm
  change (∀ cell, (pool.lookup valueCell.payload).1 = some cell → valueCell = cell) ∧
    ((pool.lookup valueCell.payload).1 = none → e.mint.nextCell ≤ valueCell.id ∧
      valueCell.id < mint'.nextCell)
  rw [hlookup]
  cases hvalue with
  | known found =>
      rw [found]
      exact ⟨fun cell hcell => Option.some.inj hcell, fun hmissed => by cases hmissed⟩
  | fresh missed =>
      rw [missed]
      exact ⟨fun cell hcell => (by cases hcell),
        fun _ => ⟨hargument.nextCell_le, Nat.lt_succ_self _⟩⟩

theorem traverseRows_supplied {pool : Pool} (hpool : e.pool.SameContent pool) (rows : List Row) :
    (Source.traverseRows obtainPoint rows).EndsFrom e
      (fun points t => Looked e t ∧
        (Pool.Apart pool.entries → Supplied pool e.mint.nextCell t.mint.nextCell points))
      (fun _ t => Looked e t) := by
  induction rows generalizing e with
  | nil =>
      exact .pure ⟨.refl e, fun _ => .nil _ _ _⟩
  | cons row rows ih =>
      rw [Source.traverseRows]
      cases row.pair? with
      | error fault =>
          exact Looked.refl e
      | ok pair =>
          rcases pair with ⟨a, v⟩
          rw [Attempt.ofExcept, pure_bind]
          refine ((obtainPoint_supplied hpool a v).imp (fun _ _ h => h) fun _ _ h => h.elim).bind
            fun p t hp => ?_
          refine ((ih (hp.1.pool.trans hpool)).imp (fun _ _ h => h) fun _ u h => hp.1.trans h).bind
            fun points u h => ?_
          refine .pure ⟨hp.1.trans h.1, fun hapart => ?_⟩
          exact (h.2 hapart).cons hp.1.nextCell (hp.2 hapart).1 (hp.2 hapart).2 h.1.nextCell

/-- What was gathered: some of the points that were made for the rows, and some of these as
maxima. -/
structure Gathered (e : Editor σ) (unique maxima : List Point) (t : Editor σ) :
    Prop extends Looked e t where
  peaks : maxima.Sublist unique
  supplied : Pool.Apart e.pool.entries →
    ∃ points, unique ⊆ points ∧ Supplied e.pool e.mint.nextCell t.mint.nextCell points

theorem gather_ends (rules : Rules σ) (source : Source) (e : Editor σ) :
    (gather rules source).EndsFrom e (fun found t => Gathered e found.1 found.2 t)
      (fun _ t => Looked e t) := by
  have htraverse : (source.traverse obtainPoint).EndsFrom e
      (fun points t => Looked e t ∧
        (Pool.Apart e.pool.entries → Supplied e.pool e.mint.nextCell t.mint.nextCell points))
      (fun _ t => Looked e t) := by
    refine (traverseRows_supplied (.refl _) source.rows).bind fun points t h => ?_
    unfold Source.finish
    cases source.failure with
    | none =>
        exact h
    | some text =>
        exact h.1
  refine htraverse.bind fun points t hpoints => ?_
  have hlooked := hpoints.1
  refine onHost_run_bind (fun sorted host hsorted => ?_) fun _ host _ => hlooked.host host
  refine onHost_run_bind (fun unique host' hunique => ?_) fun _ host _ => hlooked.host host
  refine onHost_run_bind (fun maxima host'' hmaxima => ?_) fun _ host _ => hlooked.host host
  have hsubset : unique ⊆ points :=
    List.Subset.trans ((PointIndex.lastOfEach_subset _ _).ok hunique)
    ((StableSort.sort_subset _ _).ok hsorted)
  refine .pure ⟨hlooked.host host'', ?_, fun hapart => ⟨points, hsubset, hpoints.2 hapart⟩⟩
  exact (Scan.localMaximaAfter_sublist _ _ _ _).ok hmaxima

/-- What was gathered is installed. The recording cannot fail, so it is the sorting that does. -/
theorem install_ends (unique maxima : List Point) :
    (do
      recordCells (cellsOf unique)
      adopt rules unique maxima : Attempt (Editor σ) Unit).EndsFrom e
      (fun _ t => t.store.points = unique)
      (fun fault t => (∃ host, MaximaIndex.sorted rules maxima e.host = .error fault host) ∧
        t.store = e.store ∧
        t.pool = e.pool.recordAll (cellsOf unique)) :=
  .modify_bind (onHost_run_bind (fun _ _ _ => rfl) fun _ host hsort => ⟨⟨host, hsort⟩, rfl, rfl⟩)

/-! ## Loads that fail -/

/-- A load that fails leaves the store as it is, whatever the orderings do. It leaves the pool as it
is, too, if it fails before the maxima are sorted; if they cannot be sorted, both cells of every
point that was to be installed have been recorded by then, which are two points at least. -/
theorem failed_load_records {fault : Fault} (hrun : load rules source e = .error fault t) :
    t.store = e.store ∧
    (t.pool.SameContent e.pool ↔ gather rules source e = .error fault t) ∧
    ∀ unique maxima u, gather rules source e = .ok (unique, maxima) u →
      u.pool.SameContent e.pool ∧
      (∃ host, MaximaIndex.sorted rules maxima u.host = .error fault host) ∧
      t.pool = u.pool.recordAll (cellsOf unique) ∧
      t.pool.requests = e.pool.requests + 2 * unique.length ∧ 2 ≤ unique.length := by
  have hgather := gather_ends rules source e
  rw [load_eq] at hrun
  cases hfound : gather rules source e with
  | error fault' t' =>
      rw [Attempt.bind_of_error hfound] at hrun
      have hlooked := hgather.error hfound
      cases hrun
      exact ⟨hlooked.store, ⟨fun _ => rfl, fun _ => hlooked.pool⟩,
        fun unique maxima u hok => by cases hok⟩
  | ok found u =>
      rcases found with ⟨unique, maxima⟩
      rw [Attempt.bind_of_ok hfound] at hrun
      have hgathered := hgather.ok hfound
      have hrecorded := Pool.recordAll_requests u.pool (cellsOf unique)
      rw [length_cellsOf, hgathered.pool.requests] at hrecorded
      rcases (install_ends unique maxima).error hrun with ⟨⟨host, hsort⟩, hstore, hpool⟩
      have htwo : 2 ≤ unique.length :=
        (StableSort.two_le_of_sort_error hsort).trans hgathered.peaks.length_le
      rw [← hpool] at hrecorded
      refine ⟨hstore.trans hgathered.store, ⟨fun hsame => ?_, fun herror => by cases herror⟩, ?_⟩
      · have := hsame.requests
        omega
      · intro unique' maxima' u' hok
        cases hok
        exact ⟨hgathered.pool, ⟨host, hsort⟩, hpool, hrecorded, htwo⟩

/-- The first and the last value are the greatest. The scan compares values three times. -/
def zigzag : Source :=
  .ofPairs [(.int 1, .int 1), (.int 2, .int 0), (.int 3, .int 1)]

/-- An empty store; after three comparisons of values the next one will fail. -/
def brittleEditor : Editor Surroundings :=
  { blankEditor with host := blankEditor.host.arm 1 3 }

theorem brittleEditor_fails : ∃ fault t, load .metered zigzag brittleEditor = .error fault t :=
  Attempt.exists_error_of_outcome (by decide +kernel)

theorem failed_load_records_zigzag :
    ∃ fault t, load .metered zigzag brittleEditor = .error fault t ∧ t.store = brittleEditor.store ∧
      ¬ t.pool.SameContent brittleEditor.pool := by
  rcases brittleEditor_fails with ⟨fault, t, hrun⟩
  have hleft := failed_load_records hrun
  refine ⟨fault, t, hrun, hleft.1, fun hsame => ?_⟩
  have hgathers : ((gather .metered zigzag).outcome brittleEditor).isOk = true := by decide +kernel
  rcases Attempt.exists_ok_of_outcome hgathers with ⟨found, u, hok⟩
  rw [hleft.2.1.1 hsame] at hok
  cases hok

/-- Six requests and four cells, and no point. -/
theorem failed_load_traced :
    ∃ fault t, load .metered zigzag brittleEditor = .error fault t ∧
      (brittleEditor.pool.requests, brittleEditor.pool.shared,
        brittleEditor.pool.size) = (0, 0, 0) ∧
      (t.pool.requests, t.pool.shared, t.pool.size) = (6, 0, 4) ∧ t.store.points.length = 0 := by
  rcases brittleEditor_fails with ⟨fault, t, hrun⟩
  have ht : t = (load .metered zigzag).stateAfter brittleEditor := by
    rw [Attempt.stateAfter, hrun]
  refine ⟨fault, t, hrun, ?_⟩
  rw [ht]
  decide +kernel

/-! ## Loads that return -/

/-- The value cell of every loaded point is the one that the pool knew for the value before the
load. If it knew none, no two of the points share their value cells, even if they hold the same
object. -/
theorem load_shares_iff (hpool : Pool.Apart e.pool.entries)
    (hrun : load rules source e = .ok () t) {p q : Point}
    (hp : p ∈ t.store.points) (hq : q ∈ t.store.points) (hsame : p.value.same q.value = true) :
    (∀ cell, (e.pool.lookup p.value).1 = some cell → p.valueCell = cell) ∧
    (p.valueCell.id = q.valueCell.id ↔ p = q ∨ ((e.pool.lookup p.value).1).isSome = true) := by
  have hgather := gather_ends rules source e
  rw [load_eq] at hrun
  cases hfound : gather rules source e with
  | error fault' t' =>
      rw [Attempt.bind_of_error hfound] at hrun
      cases hrun
  | ok found u =>
      rcases found with ⟨unique, maxima⟩
      rw [Attempt.bind_of_ok hfound] at hrun
      rcases (hgather.ok hfound).supplied hpool with ⟨points, hsubset, hsupplied⟩
      rw [(install_ends unique maxima).ok hrun] at hp hq
      have hp' := hsubset hp
      have hq' := hsubset hq
      have hlookup := Pool.lookup_fst_of_same e.pool hsame
      refine ⟨hsupplied.known p hp', ?_⟩
      cases hknown : (e.pool.lookup p.value).1 with
      | some cell =>
          rw [hsupplied.known p hp' cell hknown,
            hsupplied.known q hq' cell (hlookup.symm.trans hknown)]
          simp
      | none =>
          have hknown' := hlookup.symm.trans hknown
          simp only [Option.isSome_none, Bool.false_eq_true, or_false]
          refine ⟨fun hid => ?_, fun heq => by rw [heq]⟩
          -- of two points the later one has the greater cell
          rcases eq_or_of_pairwise hsupplied.ascending hp' hq' with heq | hlt | hlt
          · exact heq
          · exact absurd hid (hlt hknown hknown').ne
          · exact absurd hid (hlt hknown' hknown).ne'

/-- One value at two arguments. -/
def twins : Source :=
  .ofPairs [(.int 1, .int 5), (.int 2, .int 5)]

/-- A store with one of these values, whose cell the pool remembers. -/
def knowingEditor : Editor Surroundings :=
  after .metered [.set (.int 0) (.int 5)] blankEditor

theorem load_shares_iff_known :
    ∃ t, load .metered twins knowingEditor = .ok () t ∧ ∃ p ∈ t.store.points, ∃ q ∈ t.store.points,
      p.id ≠ q.id ∧ p.value.same q.value = true ∧ p.valueCell.id = q.valueCell.id := by
  have hreturns : ((load .metered twins).outcome knowingEditor).isOk = true := by decide +kernel
  rcases Attempt.exists_ok_of_outcome hreturns with ⟨_, t, hrun⟩
  have ht : t = (load .metered twins).stateAfter knowingEditor := by
    rw [Attempt.stateAfter, hrun]
  have hpoints : ∃ p ∈ ((load .metered twins).stateAfter knowingEditor).store.points,
      ∃ q ∈ ((load .metered twins).stateAfter knowingEditor).store.points, p.id ≠ q.id ∧
        p.value.same q.value = true ∧ ((knowingEditor.pool.lookup p.value).1).isSome = true := by
        decide +kernel
  rw [← ht] at hpoints
  rcases hpoints with ⟨p, hp, q, hq, hne, hsame, hknown⟩
  have hblank : Pool.Apart blankEditor.pool.entries := List.Pairwise.nil
  have hpool : Pool.Apart knowingEditor.pool.entries := after_apart hblank _
  exact ⟨t, hrun, p, hp, q, hq, hne, hsame,
    (load_shares_iff hpool hrun hp hq hsame).2.2 (Or.inr hknown)⟩

/-- A fresh pool with room for all keys, and two points with one object in two cells. -/
theorem load_unshared :
    ∃ t, load .metered twins blankEditor = .ok () t ∧
      ((Pool.distinct twins.rows.flatten).length : Int) ≤ blankEditor.pool.capacity ∧
      (∀ x ∈ twins.rows.flatten, ∀ y ∈ twins.rows.flatten, Pool.keysMatch x y = true →
        x.same y = true) ∧
      ∃ p ∈ t.store.points, ∃ q ∈ t.store.points,
        p.value.same q.value = true ∧ p.value.isHashable = true ∧
        p.valueCell.id ≠ q.valueCell.id := by
  have hreturns : ((load .metered twins).outcome blankEditor).isOk = true := by decide +kernel
  rcases Attempt.exists_ok_of_outcome hreturns with ⟨_, t, hrun⟩
  have ht : t = (load .metered twins).stateAfter blankEditor := by
    rw [Attempt.stateAfter, hrun]
  refine ⟨t, hrun, ?_⟩
  rw [ht]
  decide +kernel

end Editor

end Peaks
