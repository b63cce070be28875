import Peaks.Workspace.Basic
import Peaks.Proofs.Editor

/-!
# Edits inside a workspace

An edit of a holding runs on an editor that is made for it, and what the editor leaves behind goes
back into the workspace. Here the ends of an edit are carried over from the editor to the workspace.

- `Workspace.edited`  : the workspace that takes an editor back
- `Workspace.Sound`   : every holding has a valid store and a pool
- `Workspace.Refused` : what a failed edit of a holding leaves behind that was taken back
- `Workspace.Stranded` : what it leaves behind if its failure could not be told
- `Workspace.edit_endsFrom`, `Workspace.editDetached_endsFrom` : an edit in place, and one of a copy
-/

namespace Peaks

theorem modify_eq_set_of_getElem? {α : Type} {xs : List α} {i : Nat} {x : α} (f : α → α)
    (h : xs[i]? = some x) : xs.modify i f = xs.set i (f x) := by
  refine List.ext_getElem? fun j => ?_
  rw [List.getElem?_modify, List.getElem?_set]
  grind

theorem set_eq_of_getElem? {α : Type} {xs : List α} {i : Nat} {x : α} (h : xs[i]? = some x) :
    xs.set i x = xs := by
  refine List.ext_getElem? fun j => ?_
  rw [List.getElem?_set]
  grind

theorem forall₂_set {α : Type} {r : α → α → Prop} (hrefl : ∀ x, r x x) {xs : List α} {i : Nat}
    {x y : α} (h : xs[i]? = some x) (hr : r y x) : List.Forall₂ r (xs.set i y) xs := by
  induction xs generalizing i with
  | nil =>
      exact .nil
  | cons z xs ih =>
      have hsame : List.Forall₂ r xs xs := List.forall₂_same.2 fun x _ => hrefl x
      cases i with
      | zero =>
          cases h
          exact .cons hr hsame
      | succ i =>
          exact .cons (hrefl z) (ih h)

namespace Workspace

variable {σ α : Type} {w : Workspace σ} {id : Nat} {h : Holding σ} {pool : Pool}

/-! ## Where an edit ends -/

/-- The workspace that takes an editor back after an edit in place. -/
def edited (w : Workspace σ) (id poolId : Nat) (e : Editor σ) : Workspace σ :=
  { w.absorb poolId e with
    holdings := w.holdings.modify id fun h => { h with store := e.store } }

theorem holding_eq_ok (hh : w.holdings[id]? = some h) : holding id w = .ok h w := by
  rw [holding, Attempt.get_bind_run, hh]
  rfl

theorem pool_eq_ok {poolId : Nat} (hpool : w.pools[poolId]? = some pool) :
    Workspace.pool poolId w = .ok pool w := by
  rw [Workspace.pool, Attempt.get_bind_run, hpool]
  rfl

theorem holding_eq_error (hh : w.holdings[id]? = none) :
    holding id w = .error (.unboundName "store") w := by
  rw [holding, Attempt.get_bind_run, hh]
  rfl

theorem pool_eq_error {poolId : Nat} (hpool : w.pools[poolId]? = none) :
    Workspace.pool poolId w = .error (.unboundName "pool") w := by
  rw [Workspace.pool, Attempt.get_bind_run, hpool]
  rfl

theorem edit_endsFrom {act : Rules σ → Attempt (Editor σ) α} {done : α → Editor σ → Prop}
    {failed : Fault → Editor σ → Prop} (hh : w.holdings[id]? = some h)
    (hpool : w.pools[h.pool]? = some pool)
    (hact : (act h.rules).EndsFrom (w.editor h pool) done failed) :
    (edit id act).EndsFrom w (fun a t => ∃ e, done a e ∧ t = w.edited id h.pool e)
      (fun fault t => ∃ e, failed fault e ∧ t = w.edited id h.pool e) := by
  refine .bind_ok (holding_eq_ok hh) (.bind_ok (pool_eq_ok hpool) ?_)
  unfold Attempt.EndsFrom Attempt.within
  cases hrun : act h.rules (w.editor h pool) with
  | ok a e =>
      exact ⟨e, hact.ok hrun, rfl⟩
  | error fault e =>
      exact ⟨e, hact.error hrun, rfl⟩

theorem editDetached_endsFrom {act : Rules σ → Attempt (Editor σ) α} {done : α → Editor σ → Prop}
    {failed : Fault → Editor σ → Prop} (hpool : w.pools[h.pool]? = some pool)
    (hact : (act h.rules).EndsFrom (w.editor h pool) done failed) :
    (editDetached h act).EndsFrom w
      (fun r t => ∃ e, done r.1 e ∧ r.2 = e.store ∧ t = w.absorb h.pool e)
      (fun fault t => ∃ e, failed fault e ∧ t = w.absorb h.pool e) := by
  refine .bind_ok (pool_eq_ok hpool) ?_
  unfold Attempt.EndsFrom Attempt.within
  cases hrun : act h.rules (w.editor h pool) with
  | ok a e =>
      rw [Attempt.bind_of_ok hrun]
      exact ⟨e, hact.ok hrun, rfl, rfl⟩
  | error fault e =>
      rw [Attempt.bind_of_error hrun]
      exact ⟨e, hact.error hrun, rfl⟩

/-- What became of a fault is told, unless the text cannot be formed. -/
theorem report_bind {β : Type} {outcome : String} {fault : Fault}
    {k : Unit → Attempt (Workspace σ) β}
    {done : β → Workspace σ → Prop} {failed : Fault → Workspace σ → Prop}
    (htold : fault.isWritable = true →
      ∀ journal, (k ⟨⟩).EndsFrom { w with journal := journal } done failed)
    (huntold : fault.isWritable = false → failed (.unspoken fault) w) :
    (report outcome fault >>= k).EndsFrom w done failed := by
  unfold report Fault.text?
  split
  · next hwritable =>
    exact .bind_ok rfl (htold hwritable _)
  · next hmute =>
    exact .bind_error rfl (huntold (Bool.eq_false_iff.2 hmute))

/-! ## Valid stores everywhere -/

/-- Every holding has rules that follow the rankings given for them, a store that is valid under
these, and a pool. -/
structure Sound (rank : Rules σ → Rankings) (w : Workspace σ) : Prop where
  follow : ∀ h ∈ w.holdings, h.rules.Follow (rank h.rules)
  valid : ∀ h ∈ w.holdings, h.store.Valid (rank h.rules) w.mint.nextPoint
  pool : ∀ h ∈ w.holdings, h.pool < w.pools.length

/-- No edit counts the points backwards. -/
theorem Sound.absorb {rank : Rules σ → Rankings} (hw : w.Sound rank) {poolId : Nat} {e : Editor σ}
    (hmint : w.mint.nextPoint ≤ e.mint.nextPoint) : (w.absorb poolId e).Sound rank where
  follow := hw.follow
  valid h hh := (hw.valid h hh).mono hmint
  pool h hh := by
    simpa [Workspace.absorb] using hw.pool h hh

theorem Sound.setStore {rank : Rules σ → Rankings} (hw : w.Sound rank)
    (hh : w.holdings[id]? = some h)
    {s : Store} (hvalid : s.Valid (rank h.rules) w.mint.nextPoint) :
    Sound rank { w with holdings := w.holdings.modify id fun h => { h with store := s } } := by
  have hmem : ∀ g ∈ w.holdings.modify id (fun h => { h with store := s }),
      g ∈ w.holdings ∨ g = { h with store := s } := by
    intro g hg
    rw [modify_eq_set_of_getElem? _ hh] at hg
    exact List.mem_or_eq_of_mem_set hg
  -- the written holding keeps its rules and its pool
  have hhold : h ∈ w.holdings := List.mem_of_getElem? hh
  refine ⟨fun g hg => ?_, fun g hg => ?_, fun g hg => ?_⟩
  · rcases hmem g hg with hg | rfl
    · exact hw.follow g hg
    · exact hw.follow h hhold
  · rcases hmem g hg with hg | rfl
    · exact hw.valid g hg
    · exact hvalid
  · rcases hmem g hg with hg | rfl
    · exact hw.pool g hg
    · exact hw.pool h hhold

theorem Sound.edited {rank : Rules σ → Rankings} (hw : w.Sound rank) {e : Editor σ}
    (hh : w.holdings[id]? = some h) (hvalid : e.store.Valid (rank h.rules) e.mint.nextPoint)
    (hmint : w.mint.nextPoint ≤ e.mint.nextPoint) : (w.edited id h.pool e).Sound rank :=
  have habsorb : (w.absorb h.pool e).Sound rank := hw.absorb hmint
  habsorb.setStore hh hvalid

/-! ## Failed edits -/

/-- A failed edit of a holding: the fault was raised on the way, all holdings are as they were, and
so are the counters and the cells of all pools. -/
structure Refused (rules : Rules σ) (w : Workspace σ) (fault : Fault) (t : Workspace σ) : Prop where
  raised : rules.Raised fault t.host
  holdings : t.holdings = w.holdings
  pools : List.Forall₂ Pool.SameContent t.pools w.pools

/-- A failed edit of a holding whose failure could not be told: the holding has the new points and
the staged insertions beside what it had, all others are as they were, and so are the counters and
the cells of all pools. -/
structure Stranded (rules : Rules σ) (id : Nat) (argument : Payload) (added : Nat) (w : Workspace σ)
    (fault : Fault) (t : Workspace σ) : Prop where
  cause : ∃ cause, fault = .unspoken cause ∧ rules.Raised cause t.host ∧
    (argument.isWritable && cause.isWritable) = false
  holding : ∃ h s, w.holdings[id]? = some h ∧ t.holdings = w.holdings.set id { h with store := s } ∧
    (∃ new : List Point, new.length = added ∧ s.points.Perm (new ++ h.store.points)) ∧
    h.store.maxima.Sublist s.maxima ∧ s.version = h.store.version
  pools : List.Forall₂ Pool.SameContent t.pools w.pools

/-- A failed edit is taken back, unless its failure could not be told. -/
def Failed (rules : Rules σ) (id : Nat) (argument : Payload) (added : Nat) (w : Workspace σ)
    (fault : Fault) (t : Workspace σ) : Prop :=
  Refused rules w fault t ∨ Stranded rules id argument added w fault t

theorem Failed.refused {rules : Rules σ} {argument : Payload} {added : Nat} {fault : Fault}
    {t : Workspace σ} (h : Failed rules id argument added w fault t)
    (hspoken : fault.isSpoken = true) : Refused rules w fault t := by
  rcases h with h | h
  · exact h
  · obtain ⟨cause, rfl, -⟩ := h.cause
    cases hspoken

theorem edited_holdings_of_store_eq {e : Editor σ} (hh : w.holdings[id]? = some h)
    (hstore : e.store = h.store) : (w.edited id h.pool e).holdings = w.holdings := by
  simp only [edited, modify_eq_set_of_getElem? _ hh, hstore]
  exact set_eq_of_getElem? hh

theorem refused_of_edited {fault : Fault} {e : Editor σ} (hh : w.holdings[id]? = some h)
    (hpool : w.pools[h.pool]? = some pool)
    (he : Editor.Refused h.rules (w.editor h pool) fault e) :
    Refused h.rules w fault (w.edited id h.pool e) where
  raised := he.raised
  holdings := edited_holdings_of_store_eq hh he.store
  pools := forall₂_set Pool.SameContent.refl hpool he.pool

theorem failed_of_edited {argument : Payload} {added : Nat} {fault : Fault} {e : Editor σ}
    (hh : w.holdings[id]? = some h) (hpool : w.pools[h.pool]? = some pool)
    (he : Editor.Failed h.rules argument added (w.editor h pool) fault e) :
    Failed h.rules id argument added w fault (w.edited id h.pool e) := by
  rcases he with he | he
  · exact Or.inl (refused_of_edited hh hpool he)
  · refine Or.inr ⟨he.cause, ⟨h, e.store, hh, modify_eq_set_of_getElem? _ hh, he.points, he.maxima,
      he.version⟩, ?_⟩
    exact forall₂_set Pool.SameContent.refl hpool he.pool

/-! ## The three edits -/

section Edits

variable {rank : Rules σ → Rankings} (hw : w.Sound rank) (hh : w.holdings[id]? = some h)
include hw hh

theorem Sound.exists_pool : ∃ pool, w.pools[h.pool]? = some pool :=
  ⟨_, List.getElem?_eq_getElem (hw.pool h (List.mem_of_getElem? hh))⟩

theorem Sound.valid_editor (pool : Pool) :
    (w.editor h pool).store.Valid (rank h.rules) (w.editor h pool).mint.nextPoint :=
  hw.valid h (List.mem_of_getElem? hh)

theorem Sound.edited_of_refused {fault : Fault} {pool : Pool} {e : Editor σ}
    (he : Editor.Refused h.rules (w.editor h pool) fault e) :
    (w.edited id h.pool e).Sound rank := by
  -- the store is the old one, which stays valid while the numbers go up
  refine hw.edited hh ?_ he.mint
  rw [he.store]
  exact (hw.valid_editor hh pool).mono he.mint

theorem edit_set_endsFrom {a v : Payload} (ha : (rank h.rules).argument.domain a)
    (hv : (rank h.rules).value.domain v) :
    (edit id (Editor.set · a v)).EndsFrom w
      (fun changed t => ∃ pool e, Editor.SetDone (rank h.rules) a v (w.editor h pool) changed e ∧
        w.pools[h.pool]? = some pool ∧ t = w.edited id h.pool e ∧ t.Sound rank)
      (fun fault t => Failed h.rules id a 1 w fault t ∧
        (fault.isSpoken = true → t.Sound rank)) := by
  obtain ⟨pool, hpool⟩ := hw.exists_pool hh
  have hvalid := hw.valid_editor hh pool
  have hset := Editor.set_endsFrom (hw.follow h (List.mem_of_getElem? hh)) hvalid ha hv
  refine (edit_endsFrom hh hpool hset).imp ?_ ?_
  · rintro changed _ ⟨e, he, rfl⟩
    exact ⟨pool, e, he, hpool, rfl, hw.edited hh (he.valid hvalid) he.mint⟩
  · rintro fault _ ⟨e, he, rfl⟩
    exact ⟨failed_of_edited hh hpool he,
      fun hspoken => hw.edited_of_refused hh (he.refused hspoken)⟩

theorem edit_erase_endsFrom {a : Payload} (ha : (rank h.rules).argument.domain a) :
    (edit id (Editor.erase · a)).EndsFrom w
      (fun changed t => ∃ pool e, Editor.EraseDone (rank h.rules) a (w.editor h pool) changed e ∧
        w.pools[h.pool]? = some pool ∧ t = w.edited id h.pool e ∧ t.Sound rank)
      (fun fault t => Failed h.rules id a 0 w fault t ∧
        (fault.isSpoken = true → t.Sound rank)) := by
  obtain ⟨pool, hpool⟩ := hw.exists_pool hh
  have hvalid := hw.valid_editor hh pool
  have herase := Editor.erase_endsFrom (hw.follow h (List.mem_of_getElem? hh)) hvalid ha
  refine (edit_endsFrom hh hpool herase).imp ?_ ?_
  · rintro changed _ ⟨e, he, rfl⟩
    exact ⟨pool, e, he, hpool, rfl, hw.edited hh (he.valid hvalid) he.mint⟩
  · rintro fault _ ⟨e, he, rfl⟩
    exact ⟨failed_of_edited hh hpool he,
      fun hspoken => hw.edited_of_refused hh (he.refused hspoken)⟩

/-- A failed load changes no holding; the pool may have counted the new cells already. -/
theorem edit_load_endsFrom {source : Source} (hsource : (rank h.rules).CoversSource source) :
    (edit id (Editor.load · source)).EndsFrom w
      (fun _ t => t.Sound rank ∧ ∃ s, t.holdings = w.holdings.set id { h with store := s })
      (fun fault t => t.Sound rank ∧ t.holdings = w.holdings ∧
        (h.rules.Raised fault t.host ∨ Editor.SourceFault source fault)) := by
  obtain ⟨pool, hpool⟩ := hw.exists_pool hh
  have hvalid := hw.valid_editor hh pool
  have hload := Editor.load_endsFrom (e := w.editor h pool)
    (hw.follow h (List.mem_of_getElem? hh)) hsource
  refine (edit_endsFrom hh hpool hload).imp ?_ ?_
  · rintro _ _ ⟨e, he, rfl⟩
    exact ⟨hw.edited hh he.valid he.mint, e.store, modify_eq_set_of_getElem? _ hh⟩
  · rintro fault _ ⟨e, he, rfl⟩
    refine ⟨hw.edited hh ?_ he.mint, edited_holdings_of_store_eq hh he.store, he.cause⟩
    rw [he.store]
    exact hvalid.mono he.mint

end Edits

end Workspace

end Peaks
