import Peaks.Proofs.Isolation

/-!
# Batches that fail

A batch of pairs is put into a private copy. If anything goes wrong before the last pair is in, the
copy is thrown away, and all that can be seen of the batch is that a rollback was counted. Not even
that is seen where the cause has a number with too many digits to be written.

- `Source.Broken`            : a source that no batch gets to the end of
- `Workspace.update_eq_error_iff` : a batch fails exactly if filling the copy fails
- `Workspace.failed_batch_leaves_all` : what a failed batch leaves behind, in every program
- `Workspace.failed_batch_uncounted` : a failed batch that is not counted
-/

namespace Peaks

variable {σ τ β : Type}

/-! ## Sources -/

/-- Some row is not a pair, or the source gives up after its last row. -/
def Source.Broken (s : Source) : Prop :=
  (∃ row ∈ s.rows, row.length ≠ 2) ∨ s.failure.isSome = true

theorem Row.exists_fault {row : Row} (h : row.length ≠ 2) : ∃ fault, row.pair? = .error fault := by
  unfold Row.pair?
  split
  · exact absurd rfl h
  · exact ⟨_, rfl⟩
  · exact ⟨_, rfl⟩

namespace Source

variable {step : β → Payload → Payload → Attempt τ β}

/-- A row that is not a pair is reached, unless something fails before it. -/
theorem foldRows_fails {rows : List Row} (h : ∃ row ∈ rows, row.length ≠ 2) (b : β) :
    (foldRows step b rows).Ensures (fun _ _ => False) (fun _ _ => True) := by
  induction rows generalizing b with
  | nil =>
      rcases h with ⟨row, hmem, _⟩
      cases hmem
  | cons row rows ih =>
      intro s
      rw [foldRows]
      cases hpair : row.pair? with
      | error fault =>
          exact trivial
      | ok pair =>
          -- this row is a pair, so the bad one is still to come
          have hrest : ∃ row ∈ rows, row.length ≠ 2 := by
            rcases h with ⟨bad, hmem, hlength⟩
            rcases List.mem_cons.1 hmem with rfl | hmem
            · rcases Row.exists_fault hlength with ⟨fault, hfault⟩
              rw [hfault] at hpair
              cases hpair
            · exact ⟨bad, hmem, hlength⟩
          have hany : (step b pair.1 pair.2).EndsFrom s (fun _ _ => True) (fun _ _ => True) :=
            .of_runs (fun _ _ _ => trivial) fun _ _ _ => trivial
          exact hany.bind fun b' t _ => ih hrest b' t

theorem fold_fails {source : Source} (h : source.Broken) (b : β) :
    (source.fold step b).Ensures (fun _ _ => False) (fun _ _ => True) := by
  intro s
  rcases h with hrow | hfailure
  · exact (foldRows_fails hrow b s).bind fun _ _ hfalse => hfalse.elim
  · have hany : (foldRows step b source.rows).EndsFrom s (fun _ _ => True) (fun _ _ => True) :=
      .of_runs (fun _ _ _ => trivial) fun _ _ _ => trivial
    refine hany.bind fun b' t _ => ?_
    -- all rows were read, and now the source gives up
    rcases Option.isSome_iff_exists.1 hfailure with ⟨text, htext⟩
    unfold finish
    rw [htext]
    exact trivial

end Source

namespace Workspace

variable {w t : Workspace σ} {name : String} {e : Nat}

/-! ## When a batch fails -/

theorem update_eq_error_iff {b : Batch σ} (hstart : Batch.start name w = .ok b w) (source : Source)
    {fault : Fault} :
    (∃ t, update name source w = .error fault t) ↔
      ∃ cause u, source.fold Batch.put b w = .error cause u ∧ fault = cause.reported := by
  have hends := update_endsFrom_fold hstart source
  constructor
  · intro hupdate
    rcases hupdate with ⟨t, hrun⟩
    rcases hends.error hrun with ⟨cause, u, hfold, hunpublished⟩
    exact ⟨cause, u, hfold, hunpublished.fault⟩
  · intro hfold
    rcases hfold with ⟨cause, u, hfold, hfault⟩
    -- a run has one end, so the batch cannot return after its filling has failed
    cases hrun : update name source w with
    | ok a t =>
        rcases hends.ok hrun with ⟨b', u', hfold', _⟩
        cases hfold.symm.trans hfold'
    | error fault' t =>
        rcases hends.error hrun with ⟨cause', u', hfold', hunpublished⟩
        cases hfold.symm.trans hfold'
        rw [hfault, ← hunpublished.fault]
        exact ⟨t, rfl⟩

theorem exists_fault_of_broken {b : Batch σ} (hstart : Batch.start name w = .ok b w)
    {source : Source}
    (hbroken : source.Broken) : ∃ fault t, update name source w = .error fault t := by
  have hfails : (source.fold Batch.put b).EndsFrom w (fun _ _ => False) (fun _ _ => True) :=
    Source.fold_fails hbroken b w
  cases hfold : source.fold Batch.put b w with
  | ok b' u =>
      exact (hfails.ok hfold).elim
  | error cause u =>
      exact ⟨cause.reported, (update_eq_error_iff hstart source).2 ⟨cause, u, hfold, rfl⟩⟩

/-! ## What is left behind -/

theorem handle?_counted (w : Workspace σ) (name g : String) (f : Tally → Tally) :
    (w.counted name f).handle? g =
      (w.handle? g).map fun h => if h.name == name then { h with tally := f h.tally } else h := by
  have hname : ((·.name == g) ∘ fun h : Handle =>
      if h.name == name then { h with tally := f h.tally } else h) = (·.name == g) := by
    funext h
    simp only [Function.comp]
    split
    · rfl
    · rfl
  rw [handle?, counted, List.find?_map, hname]
  rfl

theorem handle?_counted_self {owner : Handle} (h : w.handle? name = some owner)
    (f : Tally → Tally) :
    (w.counted name f).handle? name = some { owner with tally := f owner.tally } := by
  rw [handle?_counted, h, Option.map_some, if_pos (by simp [name_of_handle? h])]

theorem handle?_counted_ne {g : String} (hg : g ≠ name) (f : Tally → Tally) :
    (w.counted name f).handle? g = w.handle? g := by
  rw [handle?_counted]
  cases hfound : w.handle? g with
  | none =>
      rfl
  | some h =>
      rw [Option.map_some, if_neg (by simpa [name_of_handle? hfound] using hg)]

/-- In every program: a batch that is set through a handle fails exactly if a pair cannot be put
into the private copy or the source breaks off. Then every other handle is the same, and so are all
entries with their owners and all holdings with their points, maxima and versions. The handle has
its lease and its tally as before but for one rollback, which is counted exactly if the cause could
be told. -/
theorem failed_batch_leaves_all {host : σ} {mint : Mint} {events : List (Event σ)} {owner : Handle}
    (hw : w = (blank host mint).play events) (howner : w.handle? name = some owner)
    (source : Source) :
    (source.Broken → ∃ fault t, update name source w = .error fault t) ∧
    ∃ b, Batch.start name w = .ok b w ∧
      (∀ fault, (∃ t, update name source w = .error fault t) ↔
        ∃ cause u, source.fold Batch.put b w = .error cause u ∧ fault = cause.reported) ∧
      ∀ fault t, update name source w = .error fault t →
        (∃ cause u, source.fold Batch.put b w = .error cause u ∧ fault = cause.reported ∧
          t.handle? name = some { owner with
            tally := if cause.isWritable then owner.tally.rollback else owner.tally }) ∧
        (∀ g, g ≠ name → t.handle? g = w.handle? g) ∧ t.shares = w.shares ∧
        t.holdings = w.holdings := by
  -- in every program a handle leases an entry with a holding, so the batch begins
  have howned : w.Owned [] := hw ▸ (Owned.blank host mint).play events
  have hmem : owner ∈ w.handles := List.mem_of_find?_eq_some howner
  rcases howned.leases_of_mem hmem with ⟨e, s, hleases, hlt⟩
  rw [name_of_handle? howner] at hleases
  have hstart := hleases.start_eq (List.getElem?_eq_getElem hlt)
  refine ⟨exists_fault_of_broken hstart, _, hstart,
    fun fault => update_eq_error_iff hstart source, ?_⟩
  intro fault t hrun
  rcases (update_endsFrom_fold hstart source).error hrun with ⟨cause, u, hfold, hunpublished⟩
  have halike := hunpublished.alike
  refine ⟨⟨cause, u, hfold, hunpublished.fault, ?_⟩, fun g hg => ?_, halike.shares, halike.holdings⟩
  · rw [halike.handle?, handle?_counted_self howner]
  · rw [halike.handle?, handle?_counted_ne hg]

/-- Two handles on one entry, and the fourth comparison of values from there on fails. -/
def weakShared : Workspace Surroundings :=
  weakBlank.play (weakEvents ++ [.step (.copy "h" "g")])

def weakPairs : Source :=
  .ofPairs [(.weak 40, .weak 53), (.weak 60, .weak 12)]

theorem failed_batch_leaves_all_weak :
    ∃ owner fault t, update "g" weakPairs weakShared = .error fault t ∧
      weakShared.handle? "g" = some owner ∧
      t.handle? "g" = some { owner with tally := owner.tally.rollback } ∧
      (∀ g, g ≠ "g" → t.handle? g = weakShared.handle? g) ∧
      t.shares = weakShared.shares ∧ t.holdings = weakShared.holdings := by
  have howner : (weakShared.handle? "g").isSome = true := by decide +kernel
  rcases Option.isSome_iff_exists.1 howner with ⟨owner, howner⟩
  have hfails : (Attempt.outcome (update "g" weakPairs) weakShared).isOk = false := by
    decide +kernel
  rcases Attempt.exists_error_of_outcome hfails with ⟨fault, t, hrun⟩
  have htold : (update "g" weakPairs).told weakShared = true := by decide +kernel
  rcases (failed_batch_leaves_all rfl howner weakPairs).2 with ⟨b, _, _, hfailed⟩
  rcases hfailed fault t hrun with ⟨⟨cause, u, _, hreported, hhandle⟩, hrest⟩
  have hspoken := Attempt.isSpoken_of_told htold hrun
  rw [hreported] at hspoken
  rw [Fault.isWritable_of_reported hspoken] at hhandle
  exact ⟨owner, fault, t, hrun, howner, hhandle, hrest⟩

/-- A pair, and then a failure with a number of one digit too many. -/
def longFailure : Source where
  rows := [[.weak 40, .weak 12]]
  failure := some (.missingKey longNumber)

/-- No comparison fails but the source does, and no rollback is counted. -/
theorem failed_batch_uncounted :
    let w := weakShared.react (.host (·.arm 1 99))
    ((update "g" longFailure).outcome w).isOk = false ∧
      (((update "g" longFailure).stateAfter w).handle? "g").map (·.tally.rollbacks) = some 0 := by
  decide +kernel

end Workspace

end Peaks
