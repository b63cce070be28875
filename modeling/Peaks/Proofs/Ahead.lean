import Peaks.Editor
import Peaks.Proofs.Attempt

/-!
# What edits do not look at

Edits add lines to the journal and count up the version of the store, but they look at neither. An
edit that starts with more lines and a higher version therefore goes the same way and ends with as
many more.

- `Attempt.Commutes` : an attempt goes the same way from a transformed state
- `Editor.ahead`     : an editor with more lines in its journal and a higher version
- `Editor.set_commutes`, `Editor.erase_commutes`, `Editor.load_commutes` : the three edits
-/

namespace Peaks

/-! ## Going the same way -/

/-- From the transformed state `x` ends as `y` does from the state itself, in the transformed
state. -/
def Attempt.Commutes {σ α : Type} (f : σ → σ) (x y : Attempt σ α) (s : σ) : Prop :=
  x (f s) =
    match y s with
    | .ok a t => .ok a (f t)
    | .error fault t => .error fault (f t)

namespace Attempt.Commutes

variable {σ α β : Type} {f : σ → σ} {x y : Attempt σ α} {s : σ}

theorem bind {k l : α → Attempt σ β} (hx : Commutes f x y s)
    (hk : ∀ a t, y s = .ok a t → Commutes f (k a) (l a) t) :
    Commutes f (x >>= k) (y >>= l) s := by
  unfold Commutes at hx ⊢
  cases hy : y s with
  | ok a t =>
      rw [hy] at hx
      -- both go on with the same result, from states that are transformed into each other
      rw [bind_of_ok hx, bind_of_ok hy]
      exact hk a t hy
  | error fault t =>
      rw [hy] at hx
      rw [bind_of_error hx, bind_of_error hy]

theorem get_bind {k l : σ → Attempt σ β} (h : Commutes f (k (f s)) (l s) s) :
    Commutes f (get >>= k) (get >>= l) s :=
  h

theorem modify {g : σ → σ} (h : g (f s) = f (g s)) :
    Commutes f (modify g) (modify g) s := by
  unfold Commutes
  change EStateM.Result.ok _ (g (f s)) = .ok _ (f (g s))
  rw [h]

theorem modifyGet {g : σ → α × σ} (hvalue : (g (f s)).1 = (g s).1)
    (hstate : (g (f s)).2 = f (g s).2) :
    Commutes f (modifyGet g : Attempt σ α) (modifyGet g) s := by
  unfold Commutes
  change EStateM.Result.ok (g (f s)).1 (g (f s)).2 = .ok (g s).1 (f (g s).2)
  rw [hvalue, hstate]

end Attempt.Commutes

namespace Editor

variable {σ α : Type} {lines : Journal} {n : Nat} {e : Editor σ}

/-- The same editor with more lines in its journal and a higher version. -/
def ahead (lines : Journal) (n : Nat) (e : Editor σ) : Editor σ :=
  { e with
    journal := lines ++ e.journal
    store := { e.store with version := n + e.store.version } }

/-! ## Parts of an edit -/

theorem onHost_commutes (x : Attempt σ α) :
    Attempt.Commutes (ahead lines n) (onHost x) (onHost x) e := by
  unfold Attempt.Commutes onHost Attempt.within
  change (match x e.host with | .ok a t => _ | .error fault t => _) = _
  cases x e.host with
  | ok a t =>
      rfl
  | error fault t =>
      rfl

theorem obtainCell_commutes (p : Payload) :
    Attempt.Commutes (ahead lines n) (obtainCell (σ := σ) p) (obtainCell p) e :=
  .modifyGet rfl rfl

theorem makePoint_commutes (argument value : Cell) :
    Attempt.Commutes (ahead lines n) (makePoint (σ := σ) argument value)
      (makePoint argument value) e :=
  .modifyGet rfl rfl

theorem recordCells_commutes (cells : List Cell) :
    Attempt.Commutes (ahead lines n) (recordCells (σ := σ) cells) (recordCells cells) e :=
  .modify rfl

theorem stageAll_commutes (steps : List (Staging → Attempt σ Staging)) :
    Attempt.Commutes (ahead lines n) (stageAll steps) (stageAll steps) e :=
  .get_bind (.bind (onHost_commutes _) fun _ _ _ => .bind (.modify rfl) fun _ _ _ => rfl)

theorem abandon_commutes (edit : String) (argument : Payload) (staging : Staging)
    (added : Option Nat) (fault : Fault) :
    Attempt.Commutes (ahead lines n) (abandon (σ := σ) (α := α) edit argument staging added fault)
      (abandon edit argument staging added fault) e := by
  unfold abandon
  cases rollbackText? edit argument fault with
  | none =>
      rfl
  | some text =>
      refine .bind rfl fun _ _ _ => .bind (.modify ?_) fun _ _ _ => .bind (.modify rfl) fun _ _ _ =>
        .bind (.modify rfl) fun _ _ _ => rfl
      simp [ahead, Journal.debug]

theorem conclude_commutes (staging : Staging) (gone : Option Nat) :
    Attempt.Commutes (ahead lines n) (conclude (σ := σ) staging gone)
      (conclude staging gone) e := by
  unfold conclude
  cases staging.commit with
  | mk maxima failure =>
      cases failure with
      | none =>
          rfl
      | some fault =>
          rfl

theorem place_commutes (rules : Rules σ) (point : Point) (old : Option Nat) (cells : List Cell)
    (argument : Payload) :
    Attempt.Commutes (ahead lines n) (place rules point old cells argument)
      (place rules point old cells argument) e := by
  refine .get_bind (.bind (onHost_commutes _) ?_)
  rintro ⟨index, points⟩ t _
  refine .bind (.modify rfl) fun _ t _ => .bind (stageAll_commutes _) ?_
  rintro ⟨staging, failure⟩ t _
  cases failure with
  | some fault =>
      exact abandon_commutes _ _ _ _ _
  | none =>
      exact .bind (recordCells_commutes cells) fun _ t _ => conclude_commutes _ _

/-! ## The edits -/

theorem set_commutes (rules : Rules σ) (argument value : Payload) :
    Attempt.Commutes (ahead lines n) (set rules argument value) (set rules argument value) e := by
  refine .get_bind (.bind (onHost_commutes _) fun found t _ => ?_)
  cases found with
  | some entry =>
      obtain ⟨old, previous⟩ := entry
      refine .bind (onHost_commutes _) fun tie t _ => ?_
      split
      · rfl
      · refine .bind (obtainCell_commutes value) fun cell t _ => ?_
        refine .bind (makePoint_commutes _ cell) fun point t _ => ?_
        exact .bind (place_commutes rules point _ _ _) fun _ t _ => rfl
  | none =>
      refine .bind (obtainCell_commutes argument) fun argumentCell t _ => ?_
      refine .bind (obtainCell_commutes value) fun valueCell t _ => ?_
      refine .bind (makePoint_commutes argumentCell valueCell) fun point t _ => ?_
      exact .bind (place_commutes rules point _ _ _) fun _ t _ => rfl

theorem erase_commutes (rules : Rules σ) (argument : Payload) :
    Attempt.Commutes (ahead lines n) (erase rules argument) (erase rules argument) e := by
  refine .get_bind (.bind (onHost_commutes _) fun found t _ => ?_)
  cases found with
  | none =>
      rfl
  | some index =>
      refine .bind (stageAll_commutes _) ?_
      rintro ⟨staging, failure⟩ t _
      cases failure with
      | some fault =>
          exact abandon_commutes _ _ _ _ _
      | none =>
          exact .bind (conclude_commutes _ _) fun _ t _ => rfl

theorem obtainPoint_commutes (argument value : Payload) :
    Attempt.Commutes (ahead lines n) (obtainPoint (σ := σ) argument value)
      (obtainPoint argument value) e := by
  refine .bind (obtainCell_commutes argument) fun argumentCell t _ => ?_
  exact .bind (obtainCell_commutes value) fun valueCell t _ => makePoint_commutes _ _

theorem traverseRows_commutes (rows : List Row) :
    Attempt.Commutes (ahead lines n) (Source.traverseRows (τ := Editor σ) obtainPoint rows)
      (Source.traverseRows obtainPoint rows) e := by
  induction rows generalizing e with
  | nil =>
      rfl
  | cons row rows ih =>
      rw [Source.traverseRows]
      have hpair : Attempt.Commutes (ahead lines n) (Attempt.ofExcept (σ := Editor σ) row.pair?)
          (Attempt.ofExcept row.pair?) e := by
        cases row.pair? with
        | ok pair =>
            rfl
        | error fault =>
            rfl
      refine .bind hpair ?_
      rintro ⟨argument, value⟩ t _
      refine .bind (obtainPoint_commutes argument value) fun point t _ => ?_
      exact .bind ih fun points t _ => rfl

theorem load_commutes (rules : Rules σ) (source : Source) :
    Attempt.Commutes (ahead lines n) (load rules source) (load rules source) e := by
  have hfinish : ∀ t, Attempt.Commutes (ahead lines n) (source.finish (τ := Editor σ))
      source.finish t := by
    intro t
    unfold Source.finish
    cases source.failure with
    | none =>
        rfl
    | some fault =>
        rfl
  -- first all rows are drawn, then every question goes to the host
  refine .bind (.bind (traverseRows_commutes source.rows) fun points t _ =>
    .bind (hfinish t) fun _ t _ => rfl) fun points t _ => ?_
  refine .bind (onHost_commutes _) fun sorted t _ => .bind (onHost_commutes _) fun unique t _ => ?_
  refine .bind (onHost_commutes _) fun maxima t _ => .bind (recordCells_commutes _) fun _ t _ => ?_
  refine .bind (onHost_commutes _) fun maxima t _ => .modify ?_
  simp [ahead, Nat.add_assoc]

end Editor

end Peaks
