import Peaks.Proofs.Batches
import Peaks.Proofs.SideBySide

/-!
# Where writes lead

The workspace that a published batch, and a write through a handle, leave behind, told exactly.

- `Workspace.Arrived` : the handle of a name shows this now, and the others lease what they leased
- `Batch.publish_eq_of_shared`, `Batch.publish_eq_of_sole` : the two ways to publish
- `Workspace.Leases.publish_arrived`, `Workspace.Leases.mutate_endsFrom` : what they are good for
-/

namespace Peaks

variable {σ α : Type}

/-! ## Publishing -/

namespace Tally

/-- Some more sets, all of them made by one batch. -/
def batch (n : Nat) (t : Tally) : Tally :=
  { t with sets := t.sets + n }

end Tally

namespace Batch

open Workspace

variable {w : Workspace σ} {b : Batch σ} {s : Shared Nat}

/-- The handle moves to the private copy. -/
theorem publish_eq_of_shared {owner : Handle} (hs : w.shares[b.entry]? = some s)
    (hshared : s.isShared = true) (howner : w.handle? b.name = some owner) :
    b.publish w = .ok ⟨⟩
      (((w.installed b.copy).rebound b.name owner.lease w.shares.length).counted b.name
      (Tally.batch b.changed ∘ Tally.clone)) := by
  have howner' : (w.installed b.copy).handle? b.name = some owner := howner
  rw [publish, Attempt.bind_of_ok (share_eq_ok hs), if_pos hshared, ← counted_counted]
  exact Attempt.bind_of_ok (x := rebind b.name w.shares.length) (rebind_eq howner' _)

/-- The holding of the entry takes over the content of the private copy. -/
theorem publish_eq_of_sole {h : Holding σ} (hs : w.shares[b.entry]? = some s)
    (hsole : s.isShared = false) (hh : w.holdings[s.content]? = some h) :
    b.publish w = .ok ⟨⟩ ((w.stored s.content h (h.store.assign b.copy.store)).counted b.name
      (Tally.batch b.changed)) := by
  rw [publish, Attempt.bind_of_ok (share_eq_ok hs), if_neg (by simp [hsole])]
  rw [stored, ← modify_eq_set_of_getElem?
    (fun h' => { h' with store := h.store.assign b.copy.store }) hh]
  exact Attempt.bind_of_ok (holding_eq_ok hh)

end Batch

namespace Workspace

variable {w u t : Workspace σ} {name g : String} {e : Nat} {owner : Handle} {s : Shared Nat}
  {h : Holding σ}

/-! ## What is behind a handle -/

theorem handle?_rebound (w : Workspace σ) (name g : String) (old : Lease) (e : Nat) :
    (w.rebound name old e).handle? g =
      (w.handle? g).map fun h => if h.name == name then { h with lease := .on e } else h := by
  have hname :
      ((·.name == g) ∘ fun h : Handle => if h.name == name then { h with lease := .on e } else h) =
      (·.name == g) := by
    funext h
    simp only [Function.comp]
    split
    · rfl
    · rfl
  rw [handle?, rebound, List.find?_map, hname]
  rfl

theorem handle?_rebound_self (howner : w.handle? name = some owner) (old : Lease) (e : Nat) :
    (w.rebound name old e).handle? name = some { owner with lease := .on e } := by
  rw [handle?_rebound, howner, Option.map_some, if_pos (by simp [name_of_handle? howner])]

/-- Calls through one handle led here: the handle has this tally and shows this content, and every
other handle leases what it leased. -/
structure Arrived (name : String) (w : Workspace σ) (tally : Tally) (c : Shown σ)
    (t : Workspace σ) : Prop where
  owned : t.Owned []
  tally : (t.handle? name).map Handle.tally = some tally
  shown : t.shown? name = some c
  kept : ∀ g, g ≠ name → t.leaseOf? g = w.leaseOf? g

namespace Arrived

variable {tally tally' : Tally} {c c' : Shown σ}

theorem counted (harrived : Arrived name w tally c t) (f : Tally → Tally) :
    Arrived name w (f tally) c (t.counted name f) where
  owned := harrived.owned.tallied name f
  tally := by
    rcases Option.map_eq_some_iff.1 harrived.tally with ⟨owner, howner, rfl⟩
    rw [handle?_counted_self howner]
    rfl
  shown := by
    rw [shown?, leaseOf?_counted]
    exact harrived.shown
  kept g hg := (leaseOf?_counted t name f g).trans (harrived.kept g hg)

theorem alike (harrived : Arrived name w tally c u) (halike : Alike u t) :
    Arrived name w tally c t where
  owned := harrived.owned.alike halike
  tally := by
    rw [halike.handle?]
    exact harrived.tally
  shown := by
    rw [shown?, halike.leaseOf?_eq]
    exact harrived.shown
  kept g hg := (halike.leaseOf?_eq g).trans (harrived.kept g hg)

theorem trans (harrived : Arrived name w tally c u) (harrived' : Arrived name u tally' c' t) :
    Arrived name w tally' c' t :=
  { harrived' with kept := fun g hg => (harrived'.kept g hg).trans (harrived.kept g hg) }

end Arrived

/-! ## Moving and writing in place -/

namespace Leases

variable (hw : w.Owned []) (hleases : w.Leases name owner e s)
include hw hleases

theorem refl_arrived (hh : w.holdings[s.content]? = some h) :
    Arrived name w owner.tally h.shown w where
  owned := hw
  tally := by
    rw [hleases.handle]
    rfl
  shown := by
    rw [shown?, hleases.leaseOf?_eq hh]
    rfl
  kept _ _ := rfl

/-- The handle moves to a holding of its own. -/
theorem moved_arrived (copy : Holding σ) :
    Arrived name w owner.tally copy.shown
      ((w.installed copy).rebound name owner.lease w.shares.length) := by
  have hlt : w.shares.length < (w.installed copy).shares.length := by simp [installed]
  have howner : (w.installed copy).handle? name = some owner := hleases.handle
  refine ⟨(hw.installed copy).rebound howner hlt, ?_, ?_, fun g hg => ?_⟩
  · rw [handle?_rebound_self howner]
    rfl
  · rw [shown?, leaseOf?_rebound_self howner hw.names, heldAt?_installed_new]
    rfl
  · exact (leaseOf?_rebound hg _ _).trans (hw.leaseOf?_installed copy g)

/-- The only owner writes in place. -/
theorem stored_arrived (hsole : s.isShared = false) (store : Store) :
    Arrived name w owner.tally { h with store := store }.shown (w.stored s.content h store) := by
  refine ⟨hw.stored s.content h store, ?_, ?_, fun g hg => ?_⟩
  · rw [show (w.stored s.content h store).handle? name = w.handle? name from rfl, hleases.handle]
    rfl
  · have hself : (w.stored s.content h store).leaseOf? name =
        some (s.content, { h with store := store }) :=
      Owned.leaseOf?_set_self (w := w) rfl rfl rfl hw hleases.lookup hleases.share
    rw [shown?, hself]
    rfl
  · exact hw.leaseOf?_set rfl rfl rfl hleases.lookup hleases.share hsole hg

/-- Either way the handle shows the content of the batch. -/
theorem publish_arrived {b : Batch σ} (hname : b.name = name) (hentry : b.entry = e)
    (hh : w.holdings[s.content]? = some h)
    (hcopy : ∃ store, b.copy = { h.clone with store := store }) :
    ∃ t tally, b.publish w = .ok ⟨⟩ t ∧ Arrived name w (tally.batch b.changed) b.copy.shown t ∧
      (tally = owner.tally ∨ tally = owner.tally.clone) ∧ t.mint = w.mint ∧ t.pools = w.pools := by
  subst hname
  subst hentry
  cases hshared : s.isShared with
  | true =>
      refine ⟨_, owner.tally.clone,
        Batch.publish_eq_of_shared hleases.share hshared hleases.handle, ?_,
        Or.inr rfl, rfl, rfl⟩
      exact (hleases.moved_arrived hw b.copy).counted (Tally.batch b.changed ∘ Tally.clone)
  | false =>
      refine ⟨_, owner.tally, Batch.publish_eq_of_sole hleases.share hshared hh, ?_,
        Or.inl rfl, rfl, rfl⟩
      -- the holding has the rules and the pool that its copy has
      have hshown : { h with store := h.store.assign b.copy.store }.shown = b.copy.shown := by
        rcases hcopy with ⟨store, hcopy⟩
        rw [hcopy]
        rfl
      have hstored := hleases.stored_arrived (h := h) hw hshared (h.store.assign b.copy.store)
      rw [hshown] at hstored
      exact hstored.counted (Tally.batch b.changed)

end Leases

/-- A write that returns has run on an editor with the content of the handle, and the handle shows
what the editor made of it. -/
theorem Resolved.mutate_endsFrom {p : Pool} (hw : w.Owned []) (hr : w.Resolved name owner e s h p)
    (act : Rules σ → Attempt (Editor σ) α) :
    (mutate name act).EndsFrom w
      (fun a t => ∃ x x' tally, Editor.Matches (w.editor h p) x ∧ act h.rules x = .ok a x' ∧
        Arrived name w tally { h with store := x'.store }.shown t ∧
        (tally = owner.tally ∨ tally = owner.tally.clone) ∧ t.mint = x'.mint ∧
        t.pools = w.pools.set h.pool x'.pool)
      (fun _ _ => True) := by
  have hrun : ∀ x : Editor σ, (act h.rules).EndsFrom x (fun a x' => act h.rules x = .ok a x')
      fun _ _ => True := fun x => .of_runs (fun _ _ hrun => hrun) fun _ _ _ => trivial
  refine .bind_ok hr.leased_eq (.bind_ok (share_eq_ok hr.share) ?_)
  split
  · -- the copy is at version zero, and the journal has a line more, but an editor for it matches
    -- all the same
    have hclone : ∀ journal, (editClone s.content act).EndsFrom { w with journal := journal }
        (fun r t => ∃ x x', Editor.Matches (w.editor h p) x ∧ act h.rules x = .ok r.1 x' ∧
          r.2 = { h.clone with store := x'.store } ∧
          t = { w with journal := journal }.absorb h.pool x')
        fun _ _ => True := by
      intro journal
      have hedit := editDetached_endsFrom (w := { w with journal := journal }) (h := h.clone)
        hr.pool (hrun _)
      refine .bind_ok (holding_eq_ok hr.holding)
        (.bind (hedit.imp (fun _ _ h => h) fun _ _ _ => trivial) ?_)
      intro r t ht
      rcases ht with ⟨x', hx', hstore, rfl⟩
      refine .pure ⟨{ w with journal := journal }.editor h.clone p, x',
        ⟨rfl, rfl, rfl, rfl⟩, hx', ?_, rfl⟩
      rw [hstore]
    refine .bind_ok (holding_eq_ok hr.holding) (.modify_bind (.settle_bind (hclone _) ?_ ?_))
    · intro r t ht
      rcases r with ⟨a, copy⟩
      rcases ht with ⟨x, x', hmatches, hx', rfl, ht⟩
      have halike : Alike w t := by
        rw [ht]
        exact ⟨rfl, rfl, rfl⟩
      have howner : t.handle? name = some owner := (halike.handle? name).trans hr.handle
      refine move_bind howner (.bind_ok (count_eq _ name Tally.clone) (.pure ?_))
      refine ⟨x, x', owner.tally.clone, hmatches, hx', ?_, Or.inr rfl, ?_, ?_⟩
      · rw [halike.shares]
        refine ((hr.moved_arrived hw { h.clone with store := x'.store }).counted
          Tally.clone).alike ?_
        exact ((halike.installed _).rebound name owner.lease _).counted name Tally.clone
      · rw [ht]
        rfl
      · rw [ht]
        rfl
    · intro fault t _
      exact report_bind (fun _ _ => .bind_ok (count_eq _ name Tally.rollback) trivial)
        fun _ => trivial
  · next hshared =>
    have hsole : s.isShared = false := by simpa using hshared
    refine .settle_bind (edit_endsFrom hr.holding hr.pool (hrun _)) ?_ ?_
    · intro a t ht
      rcases ht with ⟨x', hx', rfl⟩
      refine .pure ⟨w.editor h p, x', owner.tally, ⟨rfl, rfl, rfl, rfl⟩, hx', ?_,
        Or.inl rfl, rfl, rfl⟩
      refine (hr.stored_arrived hw hsole x'.store).alike ⟨rfl, rfl, ?_⟩
      exact modify_eq_set_of_getElem? _ hr.holding
    · intro fault t _
      exact trivial

/-! ## Reading a run back -/

theorem onHost_eq_ok {x : Attempt σ α} {a : α} {host : σ} (hx : x w.host = .ok a host) :
    onHost x w = .ok a { w with host := host } := by
  unfold onHost Attempt.within
  rw [hx]

theorem onHost_eq_error {x : Attempt σ α} {fault : Fault} {host : σ}
    (hx : x w.host = .error fault host) :
    onHost x w = .error fault { w with host := host } := by
  unfold onHost Attempt.within
  rw [hx]

theorem exists_of_onHost_ok {x : Attempt σ α} {a : α} (hrun : onHost x w = .ok a t) :
    ∃ host, x w.host = .ok a host ∧ t = { w with host := host } := by
  cases hx : x w.host with
  | ok a' host =>
      cases (onHost_eq_ok hx).symm.trans hrun
      exact ⟨host, rfl, rfl⟩
  | error fault host =>
      cases (onHost_eq_error hx).symm.trans hrun

theorem Arrived.resolve {tally : Tally} {c : Shown σ} (harrived : Arrived name w tally c t) :
    ∃ owner e s h, t.Leases name owner e s ∧ t.holdings[s.content]? = some h ∧ h.shown = c ∧
      owner.tally = tally := by
  rcases Option.map_eq_some_iff.1 harrived.tally with ⟨owner, howner, htally⟩
  rcases harrived.owned.leases_of_mem (List.mem_of_find?_eq_some howner) with ⟨e, s, hleases, hlt⟩
  rw [name_of_handle? howner] at hleases
  have hh := List.getElem?_eq_getElem hlt
  have hshown := harrived.shown
  rw [shown?, hleases.leaseOf?_eq hh] at hshown
  exact ⟨owner, e, s, _, hleases, hh, Option.some.inj hshown, htally⟩

/-- A detached edit that returns has run on an editor for the store. -/
theorem exists_of_editDetached_ok {act : Rules σ → Attempt (Editor σ) α} {r : α × Store}
    (hrun : editDetached h act w = .ok r t) :
    ∃ p x, w.pools[h.pool]? = some p ∧ act h.rules (w.editor h p) = .ok r.1 x ∧ r.2 = x.store ∧
      t = w.absorb h.pool x := by
  cases hpool : w.pools[h.pool]? with
  | none =>
      rw [editDetached, Attempt.bind_of_error (pool_eq_error hpool)] at hrun
      cases hrun
  | some p =>
      have hact : (act h.rules).EndsFrom (w.editor h p)
          (fun a x => act h.rules (w.editor h p) = .ok a x)
          fun _ _ => True := .of_runs (fun _ _ hrun => hrun) fun _ _ _ => trivial
      rcases (editDetached_endsFrom hpool hact).ok hrun with ⟨x, hx, hstore, ht⟩
      exact ⟨p, x, rfl, hx, hstore, ht⟩

/-- A batch that returns has filled its copy and published it. -/
theorem exists_of_update_ok {b : Batch σ} {source : Source} (hstart : Batch.start name w = .ok b w)
    (hrun : update name source w = .ok ⟨⟩ t) :
    ∃ b' u, source.fold Batch.put b w = .ok b' u ∧ b'.publish u = .ok ⟨⟩ t := by
  rw [update, Attempt.bind_of_ok hstart] at hrun
  rcases Attempt.exists_of_bind_ok hrun with ⟨r, u, hsettle, hrun⟩
  rcases Attempt.exists_settle_of_ok hsettle with ⟨b', rfl, hfold⟩ | ⟨fault, rfl, _⟩
  · exact ⟨b', u, hfold, hrun⟩
  · rcases Attempt.exists_of_bind_ok hrun with ⟨_, _, _, hrun⟩
    cases hrun

end Workspace

end Peaks
