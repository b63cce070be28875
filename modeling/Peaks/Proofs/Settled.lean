import Peaks.Proofs.Heirs

/-!
# Actions under orderings that follow rankings

Where all orderings follow rankings, an action that fails and can tell so leaves every store as it
was. The lists that a holding shows then change only together with its version, or with that of the
holding that has taken them over.

- `Action.Fits`       : an action whose payloads lie in the domains of the rules that it meets
- `Workspace.Settled` : owners counted right, valid stores, and lists that are ordered alike
- `Workspace.Settled.run_sound` : a failed action has changed no holding
- `Workspace.Settled.run` : every action that fits keeps the invariant and is steady
-/

namespace Peaks

variable {σ : Type} {rank : Rules σ → Rankings}

/-! ## Actions that fit -/

def Edit.Fits (R : Rankings) : Edit → Prop
  | .set a v => R.argument.domain a ∧ R.value.domain v
  | .erase a => R.argument.domain a

/-- The arrays load as a content that is valid under the rankings. -/
structure Config.Loads (rank : Rules σ → Rankings) (config : Config σ)
    (arguments values : NumericArray) : Prop where
  follow : config.rules.Follow (rank config.rules)
  ends : ∀ e : Editor σ, e.store = {} → (Editor.loadArrays config.rules arguments values).EndsFrom e
    (fun _ t => t.store.Valid (rank config.rules) t.mint.nextPoint ∧
      e.mint.nextPoint ≤ t.mint.nextPoint)
    (fun _ t => e.mint.nextPoint ≤ t.mint.nextPoint)

/-- The step fits, or it reads arrays that load as a valid content. -/
def Step.Suits (rank : Rules σ → Rankings) (shown : String → Option (Shown σ)) : Step σ → Prop
  | .fromArrays _ arguments values config => config.Loads rank arguments values
  | s => s.Fits rank shown

/-- The payloads of an action lie in the domains of the rules that it meets, and what is new is
valid. A holding that has handed its lists on is read by walks and by nobody else. -/
def Action.Fits (rank : Rules σ → Rankings) (w : Workspace σ) : Action σ → Prop
  | .arrive config content =>
      config.rules.Follow (rank config.rules) ∧ content.Valid (rank config.rules) w.mint.nextPoint
  | .edit id change => ∀ h, w.holdings[id]? = some h → h.heir = none ∧ change.Fits (rank h.rules)
  | .load id source => ∀ h, w.holdings[id]? = some h → h.heir = none ∧
  (rank h.rules).CoversSource source
  | .clone id => ∀ h, w.holdings[id]? = some h → h.heir = none
  | .assign id other => w.Meets rank id other
  | .step s => s.Suits rank w.shown? ∧ ∀ g id h, w.leaseOf? g = some (id, h) → h.heir = none
  | .host _ => True

namespace Workspace

variable {w t : Workspace σ} {id other : Nat} {h : Holding σ} {s : Store}

/-! ## Valid stores everywhere -/

namespace Sound

variable (hw : w.Sound rank)
include hw

theorem released (hkindred : w.Kindred rank) (hh : w.holdings[id]? = some h) :
    (w.released id h.store).Sound rank := by
  refine ⟨?_, ?_, ?_⟩
  all_goals
    intro g hg
    rcases List.mem_map.1 hg with ⟨f, hf, rfl⟩
  · rw [Holding.released_rules]
    exact hw.follow f hf
  · rw [Holding.released_rules]
    by_cases hheir : f.heir = some id
    · rcases hkindred f hf id hheir with ⟨h', hh', _, hrank⟩
      rw [hh] at hh'
      cases hh'
      rw [Holding.released_of_eq hheir, ← hrank]
      exact (hw.valid h (List.mem_of_getElem? hh)).of_lists _
    · rw [Holding.released_of_ne hheir]
      exact hw.valid f hf
  · rw [Holding.released_pool]
    exact hw.pool f hf

theorem bequeathed (other id : Nat) : (w.bequeathed other id).Sound rank := by
  refine ⟨?_, ?_, ?_⟩
  all_goals
    intro g hg
    rcases List.mem_mapIdx.1 hg with ⟨i, hi, rfl⟩
    have hmem : w.holdings[i] ∈ w.holdings := List.getElem_mem hi
    rcases w.holdings[i].bequeathed_eq other id i with ⟨heir, heq⟩
    rw [heq]
  · exact hw.follow w.holdings[i] hmem
  · exact hw.valid w.holdings[i] hmem
  · exact hw.pool w.holdings[i] hmem

theorem stored (hh : w.holdings[id]? = some h) (hvalid : s.Valid (rank h.rules) w.mint.nextPoint) :
    (w.stored id h s).Sound rank := by
  have hset := hw.setStore hh hvalid
  rw [modify_eq_set_of_getElem? _ hh] at hset
  exact hset

theorem renewed (hkindred : w.Kindred rank) (hh : w.holdings[id]? = some h) (hfree : h.heir = none)
    (hvalid : s.Valid (rank h.rules) w.mint.nextPoint) : (w.renewed id h s).Sound rank :=
  (hw.released hkindred hh).stored (getElem?_released_of_free hh hfree) hvalid

end Sound

/-! ## What actions keep -/

theorem edit_owned {α : Type} (hw : w.Owned []) (act : Rules σ → Attempt (Editor σ) α) :
    (edit id act).EndsFrom w (fun _ t => t.Owned []) (fun _ t => t.Owned []) := by
  refine (edit_alike act id).imp ?_ ?_
  · intro a t ht
    rcases ht with ⟨h, s, _, _, halike⟩
    exact (hw.stored id h s).alike halike
  · intro fault t ht
    rcases ht with rfl | ⟨h, s, _, _, halike⟩
    · exact hw
    · exact (hw.stored id h s).alike halike

/-- No action on a holding touches a lease, and steps count their owners right. -/
theorem Owned.run (hw : w.Owned []) (a : Action σ) :
    a.run.EndsFrom w (fun _ t => t.Owned []) (fun _ t => t.Owned []) := by
  -- what counts for the owners are the leases, the entries and that no holding goes away
  have hlonger : ∀ {u t : Workspace σ}, u.Owned [] → t.leases = u.leases → t.shares = u.shares →
      u.holdings.length ≤ t.holdings.length → t.Owned [] := by
    intro u t hu hleases hshares hlength
    exact hu.of_perm (.of_eq hleases) hshares hlength
  cases a with
  | arrive config content =>
      exact hlonger hw rfl rfl (by simp)
  | edit id change =>
      exact edit_owned hw (change.run ·)
  | load id source =>
      have hload : (overwrite id (Editor.load · source)).EndsFrom w (fun _ t => t.Owned [])
          (fun _ t => t.Owned []) := by
        refine holding_bind (fun h _ => ?_) fun _ => hw
        refine (edit_owned hw (Editor.load · source)).bind ?_
        intro _ t ht
        exact .modify_bind (.pure (hlonger ht rfl rfl (by simp)))
      exact hload.bind fun _ _ ht => .pure ht
  | clone id =>
      have hclone : (cloneHolding id).EndsFrom w (fun _ t => t.Owned [])
          (fun _ t => t.Owned []) := by
        refine holding_bind (fun h _ => ?_) fun _ => hw
        exact hlonger hw rfl rfl (by simp)
      exact hclone.bind fun _ _ ht => .pure ht
  | assign id other =>
      have hassign : (assignHolding id other).EndsFrom w (fun _ t => t.Owned [])
          (fun _ t => t.Owned []) := by
        refine holding_bind (fun h _ => ?_) fun _ => hw
        refine holding_bind (fun o _ => ?_) fun _ => hw
        split
        · exact .modify_bind (.modify_bind (hlonger hw rfl rfl (by simp)))
        · exact hlonger hw rfl rfl (by simp)
      exact hassign.bind fun _ _ ht => .pure ht
  | step s =>
      refine .get_bind
        (((perform_endsFrom s).imp (fun _ _ => hw.done) fun _ _ => hw.missed).bind ?_)
      intro _ t ht
      exact .get_bind (.pure ht)
  | host change =>
      exact hlonger hw rfl rfl (Nat.le_refl _)

/-- The owners are counted right, all stores are valid, and lists that were handed on are ordered
alike. -/
structure Settled (rank : Rules σ → Rankings) (w : Workspace σ) : Prop extends w.Orderly rank where
  kindred : w.Kindred rank

/-- A write that left every handle what it leased has left nothing behind. -/
theorem Missed.holdings_eq {name : String} {change : Holding σ → Store → Prop}
    (hmissed : Missed name change w t)
    (hkept : t.leaseOf? name = w.leaseOf? name) : t.holdings = w.holdings := by
  cases hmissed with
  | idle ht =>
      exact ht.holdings
  | undone _ ht =>
      exact ht.holdings
  | @spoiled owner e entry h store hleases _ hh _ ht =>
      have hlookup : t.leases.lookup name = some (.on e) := by
        rw [ht.leases, leases_counted]
        exact hleases.lookup
      have hholdings : t.holdings = w.holdings.set entry.content { h with store := store } :=
        ht.holdings
      have hself : t.holdings[entry.content]? = some { h with store := store } := by
        rw [hholdings, List.getElem?_set_self (List.getElem?_eq_some_iff.1 hh).1]
      have hshares : t.shares[e]? = some entry := by
        rw [ht.shares]
        exact hleases.share
      -- what the name leases now is the written holding, and it is the one from before
      have hsame : { h with store := store } = h := by
        rw [hleases.leaseOf?_eq hh, leaseOf?_eq_heldAt? hlookup] at hkept
        simpa [heldAt?, hshares, hself] using hkept
      rw [hholdings, hsame, set_eq_of_getElem? hh]

section Lawful

variable (hw : w.Settled rank)
include hw

theorem Settled.edit_sound {change : Edit}
    (hfits : ∀ h, w.holdings[id]? = some h → change.Fits (rank h.rules)) :
    (edit id (change.run ·)).EndsFrom w (fun _ t => t.Sound rank)
      (fun fault t => fault.isSpoken = true → t.Sound rank ∧ t.holdings = w.holdings) := by
  cases hh : w.holdings[id]? with
  | none =>
      exact .bind_error (holding_eq_error hh) fun _ => ⟨hw.sound, rfl⟩
  | some h =>
      have hdomain := hfits h hh
      cases change with
      | set a v =>
          refine (edit_set_endsFrom hw.sound hh hdomain.1 hdomain.2).imp ?_ ?_
          · intro changed t ht
            rcases ht with ⟨pool, e, _, _, _, hsound⟩
            exact hsound
          · intro fault t ht hspoken
            exact ⟨ht.2 hspoken, (ht.1.refused hspoken).holdings⟩
      | erase a =>
          refine (edit_erase_endsFrom hw.sound hh hdomain).imp ?_ ?_
          · intro changed t ht
            rcases ht with ⟨pool, e, _, _, _, hsound⟩
            exact hsound
          · intro fault t ht hspoken
            exact ⟨ht.2 hspoken, (ht.1.refused hspoken).holdings⟩

theorem Settled.overwrite_sound {source : Source}
    (hfits : ∀ h, w.holdings[id]? = some h → h.heir = none ∧ (rank h.rules).CoversSource source) :
    (overwrite id (Editor.load · source)).EndsFrom w (fun _ t => t.Sound rank)
      (fun fault t => fault.isSpoken = true → t.Sound rank ∧ t.holdings = w.holdings) := by
  refine holding_bind (fun h hh => ?_) fun _ _ => ⟨hw.sound, rfl⟩
  rcases hfits h hh with ⟨hfree, hsource⟩
  rcases hw.sound.exists_pool hh with ⟨pool, hpool⟩
  have hload := Editor.load_endsFrom (e := w.editor h pool)
    (hw.sound.follow h (List.mem_of_getElem? hh)) hsource
  refine ((edit_endsFrom hh hpool hload).imp (fun _ _ ht => ht) ?_).bind ?_
  · intro fault t ht _
    rcases ht with ⟨e, he, rfl⟩
    -- the points that were made are lost, but their numbers are not given out again
    refine ⟨hw.sound.edited hh ?_ he.mint, edited_holdings_of_store_eq hh he.store⟩
    rw [he.store]
    exact (hw.sound.valid_editor hh pool).mono he.mint
  · intro _ t ht
    rcases ht with ⟨e, he, rfl⟩
    refine .modify_bind (.pure ?_)
    -- the old lists are kept first, in a workspace that has counted its points on already
    have habsorbed : (w.absorb h.pool e).Sound rank := hw.sound.absorb he.mint
    have hkindred : (w.absorb h.pool e).Kindred rank := hw.kindred.of_holdings_eq rfl
    refine (habsorbed.renewed hkindred hh hfree he.valid).of_holdings_eq ?_ rfl rfl
    have hedited : (w.edited id h.pool e).holdings = (w.absorb h.pool e).holdings.set id
        { h with store := e.store } := modify_eq_set_of_getElem? _ hh
    show (w.edited id h.pool e).holdings.map (Holding.released id h.store) = _
    rw [hedited, loaded_holdings hfree]

theorem Settled.assign_sound (hmeets : w.Meets rank id other) :
    (assignHolding id other).EndsFrom w (fun _ t => t.Sound rank)
      (fun fault t => fault.isSpoken = true → t.Sound rank ∧ t.holdings = w.holdings) := by
  refine holding_bind (fun h hh => ?_) fun _ _ => ⟨hw.sound, rfl⟩
  refine holding_bind (fun o ho => ?_) fun _ _ => ⟨hw.sound, rfl⟩
  rcases hmeets h hh with ⟨hfree, hgiver⟩
  have hrank := (hgiver o ho).2
  have hvalid : (h.store.assign o.store).Valid (rank h.rules) w.mint.nextPoint := by
    rw [← hrank]
    exact (hw.sound.valid o (List.mem_of_getElem? ho)).assign h.store
  split
  · next hne =>
    -- the lists are valid here since both holdings order them alike
    have hassigned := (hw.sound.renewed hw.kindred hh hfree hvalid).bequeathed other id
    exact .modify_bind
      (.modify_bind (hassigned.of_holdings_eq (assigned_holdings hh hfree hne) rfl rfl))
  · exact hw.sound.setStore hh hvalid

theorem Settled.sound_addEmpty (config : Config σ) :
    Sound rank { w with pools := w.pools ++ [config.pool] } := by
  have hadvanced : Advanced rank w (fun _ => True) _ _ := addEmpty_advanced hw.owned hw.sound config
  exact hadvanced.sound

/-- A function of arrays is bound only if the arrays load. -/
theorem Settled.fromArrays_sound {config : Config σ} {arguments values : NumericArray}
    (hloads : config.Loads rank arguments values) (name : String) :
    (fromArrays name arguments values config).EndsFrom w (fun _ t => t.Sound rank)
      (fun fault t => fault.isSpoken = true → t.Sound rank ∧ t.holdings = w.holdings) := by
  have hempty := hw.sound_addEmpty config
  have hpool : (w.pools ++ [config.pool])[w.pools.length]? = some config.pool := by simp
  have hload := hloads.ends (editor { w with pools := w.pools ++ [config.pool] }
    { rules := config.rules, pool := w.pools.length } config.pool) rfl
  have hedit : (editDetached { rules := config.rules, pool := w.pools.length }
      (Editor.loadArrays · arguments values)).EndsFrom
      { w with pools := w.pools ++ [config.pool] } _ _ :=
    editDetached_endsFrom hpool hload
  refine .bind_ok (show addEmpty config w = .ok _ _ from rfl)
    ((hedit.imp (fun _ _ ht => ht) ?_).bind ?_)
  · intro fault t ht _
    rcases ht with ⟨e, hmint, rfl⟩
    exact ⟨hempty.absorb hmint, rfl⟩
  · intro r t ht
    rcases ht with ⟨e, ⟨hvalid, hmint⟩, hstore, rfl⟩
    have hfitting :
        Fitting rank (absorb { w with pools := w.pools ++ [config.pool] } w.pools.length e)
        { rules := config.rules, pool := w.pools.length, store := r.2 } :=
      ⟨hloads.follow, hstore ▸ hvalid, by simp [absorb]⟩
    exact ((hempty.absorb hmint).installed hfitting).bound name _

theorem Settled.step_sound {s : Step σ} (hs : s.Suits rank w.shown?) :
    (perform s).EndsFrom w (fun _ t => t.Sound rank)
      (fun fault t => fault.isSpoken = true → t.Sound rank ∧ t.holdings = w.holdings) := by
  have hfits : s.Fits rank w.shown? → (perform s).EndsFrom w (fun _ t => t.Sound rank)
      (fun fault t => fault.isSpoken = true → t.Sound rank ∧ t.holdings = w.holdings) := by
    intro hs
    refine ((perform_tracks hw.owned hw.sound s hs).and (perform_endsFrom s)).imp ?_ ?_
    · intro _ t ht
      rcases ht with ⟨⟨sh, _, hadvanced⟩, _⟩
      exact hadvanced.sound
    · intro fault t ht hspoken
      rcases ht with ⟨hmisses, hmissed⟩
      rcases hmisses.told hspoken with ⟨sh, _, hadvanced⟩
      exact ⟨hadvanced.sound, hmissed.holdings_eq (hadvanced.kept s.name trivial)⟩
  cases s with
  | fromArrays name arguments values config =>
      exact hw.fromArrays_sound hs name
  | _ =>
      exact hfits hs

/-- An action that fits keeps all stores valid, and leaves them as they are if it fails, unless the
failure cannot be told. -/
theorem Settled.run_sound {a : Action σ} (ha : a.Fits rank w) :
    a.run.EndsFrom w (fun _ t => t.Sound rank)
      (fun fault t => fault.isSpoken = true → t.Sound rank ∧ t.holdings = w.holdings) := by
  cases a with
  | arrive config content =>
      have hempty := hw.sound_addEmpty config
      have hfitting : Fitting rank { w with pools := w.pools ++ [config.pool] }
          { rules := config.rules, pool := w.pools.length, store := content } :=
        ⟨ha.1, ha.2, by simp⟩
      exact (hempty.installed hfitting).of_holdings_eq rfl rfl rfl
  | edit id change =>
      exact hw.edit_sound fun h hh => (ha h hh).2
  | load id source =>
      exact (hw.overwrite_sound ha).bind fun _ _ ht => .pure ht
  | clone id =>
      have hclone : (cloneHolding id).EndsFrom w (fun _ t => t.Sound rank)
          (fun fault t => fault.isSpoken = true → t.Sound rank ∧ t.holdings = w.holdings) := by
        refine holding_bind (fun h hh => ?_) fun _ _ => ⟨hw.sound, rfl⟩
        have hfitting := hw.sound.fitting_clone (List.mem_of_getElem? hh)
        exact (hw.sound.installed hfitting).of_holdings_eq rfl rfl rfl
      exact hclone.bind fun _ _ ht => .pure ht
  | assign id other =>
      exact (hw.assign_sound ha).bind fun _ _ ht => .pure ht
  | step s =>
      refine .get_bind ((hw.step_sound ha.1).bind ?_)
      intro _ t ht
      exact .get_bind (.pure ht)
  | host change =>
      exact hw.sound.of_holdings_eq rfl rfl rfl

end Lawful

theorem getElem?_of_leaseOf? {name : String} (hlease : w.leaseOf? name = some (id, h)) :
    w.holdings[id]? = some h := by
  simp only [leaseOf?, heldAt?, Option.bind_eq_bind, Option.bind_eq_some_iff] at hlease
  rcases hlease with ⟨lease, _, e, _, entry, _, f, hf, heq⟩
  cases heq
  exact hf

end Workspace

namespace Action

variable {w : Workspace σ} {a : Action σ} (ha : a.Fits rank w)
include ha

/-- An action that fits writes to no holding that has handed its lists on. -/
theorem Fits.free_target {id : Nat} {h : Holding σ} (hid : a.target w = some id)
    (hh : w.holdings[id]? = some h) : h.heir = none := by
  cases a with
  | arrive config content =>
      cases hid
  | edit id' change =>
      cases hid
      exact (ha h hh).1
  | load id' source =>
      cases hid
      exact (ha h hh).1
  | clone id' =>
      cases hid
  | assign id' other =>
      cases hid
      exact (ha h hh).1
  | step s =>
      rcases Option.map_eq_some_iff.1 hid with ⟨⟨id', g⟩, hlease, rfl⟩
      rw [Workspace.getElem?_of_leaseOf? hlease] at hh
      cases hh
      exact ha.2 s.name id' h hlease
  | host change =>
      cases hid

theorem Fits.meets {id other : Nat} (hid : a.target w = some id) (hother : a.donor = some other) :
    w.Meets rank id other := by
  cases a with
  | assign id' other' =>
      cases hid
      cases hother
      exact ha
  | _ =>
      cases hother

end Action

namespace Workspace

variable {w t : Workspace σ}

/-- An action that fits keeps the invariant and is steady, whether or not it fails, unless the
failure cannot be told. -/
theorem Settled.run (hw : w.Settled rank) {a : Action σ} (ha : a.Fits rank w)
    (htold : a.run.told w = true) :
    (a.run.stateAfter w).Settled rank ∧ Steady w (a.run.stateAfter w) := by
  refine Attempt.EndsFrom.stateAfter_of_told
    (P := fun t : Workspace σ => t.Settled rank ∧ Steady w t) ?_ htold
  refine (((hw.owned.run a).and (hw.run_sound ha)).and (run_shift a)).imp ?_ ?_
  · intro changed t ht
    rcases ht with ⟨⟨howned, hsound⟩, hshift⟩
    -- an action that says it had nothing to do has no target at all
    have htarget : ∀ {id}, (if changed then a.target w else none) = some id →
        a.target w = some id := by
      intro id hid
      cases changed with
      | true =>
          exact hid
      | false =>
          cases hid
    have hfree : ∀ id h, (if changed then a.target w else none) = some id →
        w.holdings[id]? = some h →
        h.heir = none := fun id h hid hh => ha.free_target (htarget hid) hh
    have hmeets : ∀ id other, (if changed then a.target w else none) = some id →
        a.donor = some other →
        w.Meets rank id other := fun id other hid hother => ha.meets (htarget hid) hother
    exact ⟨⟨⟨howned, hsound⟩, Shift.kindred hw.kindred hshift hfree hmeets⟩,
      Shift.steady hw.kindred hshift hfree hmeets⟩
  · intro fault t ht hspoken
    rcases ht with ⟨⟨howned, hlawful⟩, _⟩
    rcases hlawful hspoken with ⟨hsound, hholdings⟩
    exact ⟨⟨⟨howned, hsound⟩, hw.kindred.of_holdings_eq hholdings⟩, .of_holdings_eq hholdings⟩

end Workspace

end Peaks
