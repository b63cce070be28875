import Peaks.Proofs.Batches

/-!
# How versions move

Whatever the orderings do, a version is counted up by one when something was changed and stays when
nothing was, so that it never comes back to a number that it had before.

- `Store.Counts`     : an edit that returned has counted what it did
- `Editor.set_version`, `Editor.erase_version`, `Editor.load_version` : the three edits
- `Action`           : a call on a holding, a step through a handle, or a change in the host
- `Workspace.Shift`  : what an action that returned has done to the holdings
- `Workspace.run_shift` : every action
- `Workspace.Aged`   : what that means for the versions
-/

namespace Peaks

variable {σ α β : Type}

/-! ## Edits of one store -/

/-- One up for a change; no change leaves the store as it is. -/
def Store.Counts (changed : Bool) (s t : Store) : Prop :=
  match changed with
  | true => t.version = s.version + 1
  | false => t = s

namespace Editor

variable {rules : Rules σ} {e : Editor σ}

theorem onHost_any_bind {x : Attempt σ α} {f : α → Attempt (Editor σ) β}
    {done : β → Editor σ → Prop}
    {failed : Fault → Editor σ → Prop}
    (hf : ∀ a host, (f a).EndsFrom { e with host := host } done failed)
    (hfailed : ∀ fault host, failed fault { e with host := host }) :
    (onHost x >>= f).EndsFrom e done failed :=
  onHost_run_bind (fun a host _ => hf a host) fun fault host _ => hfailed fault host

/-- The commit counts the change, or stops half-way and does not. -/
theorem conclude_version (staging : Staging) (gone : Option Nat) :
    (conclude staging gone : Attempt (Editor σ) Unit).EndsFrom e
      (fun _ t => t.store.version = e.store.version + 1)
      (fun _ t => t.store.version = e.store.version) :=
  conclude_endsFrom (fun _ _ => rfl) fun _ _ _ => rfl

/-- Told or not, a failed edit counts nothing. -/
theorem abandon_version (edit : String) (argument : Payload) (staging : Staging)
    (added : Option Nat)
    (fault : Fault) {done : α → Editor σ → Prop} :
    (abandon edit argument staging added fault : Attempt (Editor σ) α).EndsFrom e done
      (fun _ t => t.store.version = e.store.version) :=
  abandon_endsFrom (fun _ => rfl) fun _ => rfl

theorem place_version (point : Point) (old : Option Nat) (cells : List Cell) (argument : Payload) :
    (place rules point old cells argument).EndsFrom e
      (fun _ t => t.store.version = e.store.version + 1)
      (fun _ t => t.store.version = e.store.version) := by
  refine .get_bind (onHost_any_bind (fun placed host => ?_) fun _ _ => rfl)
  rcases placed with ⟨index, points⟩
  refine .modify_bind (stageAll_bind fun attempted host' _ => ?_)
  rcases attempted with ⟨staging, failure⟩
  cases failure with
  | some fault =>
      exact abandon_version _ _ _ _ _
  | none =>
      exact .modify_bind (conclude_version staging old)

theorem set_version (a v : Payload) :
    (set rules a v).EndsFrom e (fun changed t => e.store.Counts changed t.store)
      (fun _ t => t.store.version = e.store.version) := by
  refine .get_bind (onHost_any_bind (fun found host => ?_) fun _ _ => rfl)
  cases found with
  | some located =>
      refine onHost_any_bind (fun tied host' => ?_) fun _ _ => rfl
      split
      · exact rfl
      -- a new point is made before it is placed, and only placing it writes to the store
      · refine .modifyGet_bind (.modifyGet_bind ?_)
        exact (place_version _ _ _ _).bind fun _ t ht => .pure ht
  | none =>
      refine .modifyGet_bind (.modifyGet_bind (.modifyGet_bind ?_))
      exact (place_version _ _ _ _).bind fun _ t ht => .pure ht

theorem erase_version (a : Payload) :
    (erase rules a).EndsFrom e (fun changed t => e.store.Counts changed t.store)
      (fun _ t => t.store.version = e.store.version) := by
  refine .get_bind (onHost_any_bind (fun found host => ?_) fun _ _ => rfl)
  cases found with
  | none =>
      exact rfl
  | some index =>
      refine stageAll_bind fun attempted host' _ => ?_
      rcases attempted with ⟨staging, failure⟩
      cases failure with
      | some fault =>
          exact abandon_version _ _ _ _ _
      | none =>
          exact (conclude_version staging _).bind fun _ t ht => .pure ht

/-- The content is replaced in one go, at the very end. -/
theorem load_version (source : Source) :
    (load rules source).EndsFrom e (fun _ t => t.store.version = e.store.version + 1)
      (fun _ t => t.store = e.store) := by
  have hdrawn : (source.traverse obtainPoint).EndsFrom e (Drawn e source.rows)
      (Unloaded rules.Raised source e) := traverse_endsFrom source
  refine (hdrawn.imp (fun _ _ h => h.store) fun _ _ h => h.store).bind ?_
  intro points t ht
  refine onHost_any_bind (fun sorted host => ?_) fun _ _ => ht
  refine onHost_any_bind (fun unique host => ?_) fun _ _ => ht
  refine onHost_any_bind (fun maxima host => ?_) fun _ _ => ht
  refine .modify_bind (onHost_any_bind (fun ranked host => ?_) fun _ _ => ht)
  rw [← ht]
  exact rfl

end Editor

theorem Edit.run_version (edit : Edit) {rules : Rules σ} {e : Editor σ} :
    (edit.run rules).EndsFrom e (fun changed t => e.store.Counts changed t.store)
      (fun _ t => t.store.version = e.store.version) := by
  cases edit with
  | set a v =>
      exact Editor.set_version a v
  | erase a =>
      exact Editor.erase_version a

/-! ## Actions -/

/-- A call on the holding with the given number, a step through a handle, or a change in the host. A
new holding arrives empty or with a content from elsewhere. -/
inductive Action (σ : Type)
  | arrive (config : Config σ) (content : Store)
  | edit (id : Nat) (change : Edit)
  | load (id : Nat) (source : Source)
  | clone (id : Nat)
  | assign (id other : Nat)
  | step (s : Step σ)
  | host (change : σ → σ)

namespace Workspace

variable {w t : Workspace σ} {id : Nat}

/-- How many edits through a handle had nothing to do. -/
def noopsOf (w : Workspace σ) (name : String) : Option Nat :=
  (w.handle? name).map (·.tally.noops)

end Workspace

namespace Action

/-- Runs an action and returns false if it says that nothing was to be done. -/
def run : Action σ → Attempt (Workspace σ) Bool
  | .arrive config content => do
      let h ← Workspace.addEmpty config
      let _ ← Workspace.addHolding { h with store := content }
      return true
  | .edit id change => Workspace.edit id (change.run ·)
  | .load id source => do
      Workspace.overwrite id (Editor.load · source)
      return true
  | .clone id => do
      let _ ← Workspace.cloneHolding id
      return true
  | .assign id other => do
      Workspace.assignHolding id other
      return true
  | .step s => do
      let before := (← get).noopsOf s.name
      Workspace.perform s
      return (← get).noopsOf s.name == before
  | .host change => do
      modify fun w => { w with host := change w.host }
      return true

/-- The holding that an action writes to, if it writes in place at all. -/
def target (w : Workspace σ) : Action σ → Option Nat
  | .edit id _ | .load id _ | .assign id _ => some id
  | .step s => (w.leaseOf? s.name).map (·.1)
  | .arrive .. | .clone _ | .host _ => none

/-- The holding that hands its lists on in an action, if one does. -/
def donor : Action σ → Option Nat
  | .assign _ other => some other
  | _ => none

end Action

/-! ## Holdings, one by one -/

/-- A holding that shares the lists of another keeps them as they are. -/
def Holding.released (id : Nat) (lists : Store) (h : Holding σ) : Holding σ :=
  if h.heir = some id then
    { h with store := { lists with version := h.store.version }, heir := none }
  else h

/-- A holding whose lists go to another. -/
def Holding.bequeathed (other id i : Nat) (h : Holding σ) : Holding σ :=
  if i = other ∨ h.heir = some other then { h with heir := some id } else h

namespace Workspace

variable {w t : Workspace σ} {id other : Nat} {target : Option Nat}

/-- Whoever took over the lists of a holding is there. -/
def Inherited (w : Workspace σ) : Prop :=
  ∀ h ∈ w.holdings, ∀ j, h.heir = some j → j < w.holdings.length

/-- Every version is as it was, except that the version of one holding may have been counted up. -/
structure Aged (target : Option Nat) (w t : Workspace σ) : Prop where
  versions : ∀ i h, w.holdings[i]? = some h → ∃ g, t.holdings[i]? = some g ∧
    (g.store.version = h.store.version ∨ target = some i ∧ g.store.version = h.store.version + 1)
  inherited : w.Inherited → t.Inherited

namespace Aged

/-- Holdings that change one by one. -/
theorem of_getElem? {f : Nat → Holding σ → Holding σ}
    (hget : ∀ i, t.holdings[i]? = (w.holdings[i]?).map (f i))
    (hversion : ∀ i h, w.holdings[i]? = some h → (f i h).store.version = h.store.version ∨
      target = some i ∧ (f i h).store.version = h.store.version + 1)
    (hheir : ∀ i h j, (f i h).heir = some j → h.heir = some j ∨ j < w.holdings.length) :
    Aged target w t := by
  -- behind its last holding the new workspace has none, and so neither has the old one
  have hlength : w.holdings.length ≤ t.holdings.length := by
    have hend := hget t.holdings.length
    rw [List.getElem?_eq_none (Nat.le_refl _)] at hend
    exact List.getElem?_eq_none_iff.1 (Option.map_eq_none_iff.1 hend.symm)
  refine ⟨fun i h hh => ?_, fun hinherited g hg j hj => ?_⟩
  · exact ⟨f i h, by rw [hget, hh, Option.map_some], hversion i h hh⟩
  · rcases List.getElem?_of_mem hg with ⟨i, hi⟩
    rw [hget, Option.map_eq_some_iff] at hi
    rcases hi with ⟨h, hh, rfl⟩
    refine Nat.lt_of_lt_of_le ?_ hlength
    rcases hheir i h j hj with hold | hlt
    · exact hinherited h (List.mem_of_getElem? hh) j hold
    · exact hlt

theorem of_holdings_eq (heq : t.holdings = w.holdings) : Aged target w t := by
  refine .of_getElem? (f := fun _ h => h) (fun i => ?_) (fun _ _ _ => Or.inl rfl)
    fun _ _ _ => Or.inl
  rw [heq, Option.map_id']

theorem trans {u : Workspace σ} (h : Aged target w u) (h' : Aged none u t) : Aged target w t := by
  refine ⟨fun i g hg => ?_, fun hinherited => h'.inherited (h.inherited hinherited)⟩
  rcases h.versions i g hg with ⟨g', hg', hversion⟩
  rcases h'.versions i g' hg' with ⟨g'', hg'', hversion' | ⟨hnone, _⟩⟩
  · exact ⟨g'', hg'', hversion' ▸ hversion⟩
  · cases hnone

theorem after {u : Workspace σ} (h : Aged none w u) (h' : Aged target u t) : Aged target w t := by
  refine ⟨fun i g hg => ?_, fun hinherited => h'.inherited (h.inherited hinherited)⟩
  rcases h.versions i g hg with ⟨g', hg', hversion | ⟨hnone, _⟩⟩
  · rw [← hversion]
    exact h'.versions i g' hg'
  · cases hnone

/-- One more holding. -/
theorem of_append {g : Holding σ} (heq : t.holdings = w.holdings ++ [g]) (hg : g.heir = none) :
    Aged target w t := by
  refine ⟨fun i h hh => ?_, fun hinherited h hh j hj => ?_⟩
  · refine ⟨h, ?_, Or.inl rfl⟩
    rw [heq, List.getElem?_append_left (List.getElem?_eq_some_iff.1 hh).1, hh]
  · rw [heq, List.mem_append, List.mem_singleton] at hh
    rw [heq, List.length_append]
    rcases hh with hh | rfl
    · exact Nat.lt_add_right _ (hinherited h hh j hj)
    · rw [hg] at hj
      cases hj

theorem of_set {h : Holding σ} {s : Store} (hh : w.holdings[id]? = some h)
    (heq : t.holdings = w.holdings.set id { h with store := s })
    (hversion : s.version = h.store.version ∨ target = some id ∧ s.version = h.store.version + 1) :
    Aged target w t := by
  refine .of_getElem? (f := fun i g => if i = id then { g with store := s } else g) (fun i => ?_)
    (fun i g hg => ?_) fun i g j hj => Or.inl ?_
  · rw [heq]
    by_cases hi : i = id
    · rw [hi, List.getElem?_set_self (List.getElem?_eq_some_iff.1 hh).1, hh]
      simp
    · rw [List.getElem?_set_ne (Ne.symm hi)]
      simp [hi]
  · by_cases hi : i = id
    · subst hi
      rw [hh] at hg
      cases hg
      simpa using hversion
    · simp [hi]
  · by_cases hi : i = id
    · simpa [hi] using hj
    · simpa [hi] using hj

/-- Keeping the lists as they are, or getting another heir, is no change. -/
theorem of_released {lists : Store}
    (heq : t.holdings = w.holdings.map (Holding.released id lists)) :
    Aged none w t := by
  refine .of_getElem? (f := fun _ => Holding.released id lists) (fun i => ?_)
    (fun i h hh => Or.inl ?_)
    fun i h j hj => Or.inl ?_
  · rw [heq, List.getElem?_map]
  · unfold Holding.released
    split
    · rfl
    · rfl
  · unfold Holding.released at hj
    split at hj
    · cases hj
    · exact hj

theorem of_bequeathed (hid : id < w.holdings.length)
    (heq : t.holdings = w.holdings.mapIdx (Holding.bequeathed other id)) : Aged none w t := by
  refine .of_getElem? (f := Holding.bequeathed other id) (fun i => ?_) (fun i h hh => Or.inl ?_)
    fun i h j hj => ?_
  · rw [heq, List.getElem?_mapIdx]
  · unfold Holding.bequeathed
    split
    · rfl
    · rfl
  · unfold Holding.bequeathed at hj
    split at hj
    · cases hj
      exact Or.inr hid
    · exact Or.inl hj

/-- A store that is put in place of one with the version before it. -/
theorem of_modify {u : Workspace σ} {h : Holding σ} {s : Store} (haged : Aged none w u)
    (hh : w.holdings[id]? = some h) (hs : s.version = h.store.version + 1)
    (heq : t.holdings = u.holdings.modify id fun h => { h with store := s }) :
    Aged (some id) w t := by
  rcases haged.versions id h hh with ⟨h', hh', hversion | ⟨hnone, _⟩⟩
  · rw [modify_eq_set_of_getElem? _ hh'] at heq
    refine haged.after (.of_set hh' heq (Or.inr ⟨rfl, ?_⟩))
    rw [hs, hversion]
  · cases hnone

end Aged

/-! ## What actions do to holdings -/

/-- What an action that returned has done to the holdings. Only the holding at the target has a new
store, and only the lists of the donor have a new heir. -/
inductive Shift (target donor : Option Nat) (w t : Workspace σ) : Prop
  | same (holdings : t.holdings = w.holdings)
  | added {g : Holding σ} (fresh : g.heir = none) (holdings : t.holdings = w.holdings ++ [g])
  | stored {id : Nat} {h : Holding σ} {s : Store} (holding : w.holdings[id]? = some h)
      (counts : s = h.store ∨ target = some id ∧ s.version = h.store.version + 1)
      (holdings : t.holdings = w.holdings.set id { h with store := s })
  | loaded {id : Nat} {h : Holding σ} {s : Store} (holding : w.holdings[id]? = some h)
      (targets : target = some id) (counts : s.version = h.store.version + 1)
      (holdings : t.holdings =
        (w.holdings.set id { h with store := s }).map (Holding.released id h.store))
  | assigned {id other : Nat} {h o : Holding σ} (holding : w.holdings[id]? = some h)
      (giver : w.holdings[other]? = some o) (ne : id ≠ other) (targets : target = some id)
      (donates : donor = some other)
      (holdings : t.holdings = ((w.holdings.map (Holding.released id h.store)).mapIdx
        (Holding.bequeathed other id)).modify id
          fun g => { g with store := h.store.assign o.store })

/-- What an action that failed has done: it may have left something behind in one store, but not
counted it. -/
inductive Worn (w t : Workspace σ) : Prop
  | same (holdings : t.holdings = w.holdings)
  | stored {id : Nat} {h : Holding σ} {s : Store} (holding : w.holdings[id]? = some h)
      (counts : s.version = h.store.version)
      (holdings : t.holdings = w.holdings.set id { h with store := s })

theorem Yields.counts {edit : Edit} {mint : Mint} {h : Holding σ} {changed : Bool} {s : Store}
    (hyields : Yields (edit.run ·) mint h changed s) : h.store.Counts changed s := by
  rcases hyields with ⟨e, e', hstore, _, hrun, rfl⟩
  rw [← hstore]
  exact edit.run_version.ok hrun

theorem Leaves.version {edit : Edit} {mint : Mint} {h : Holding σ} {s : Store}
    (hleaves : Leaves (edit.run ·) mint h s) : s.version = h.store.version := by
  rcases hleaves with ⟨e, e', fault, hstore, _, hrun, rfl⟩
  rw [← hstore]
  exact edit.run_version.error hrun

theorem edit_shift (edit : Edit) :
    (Workspace.edit id (edit.run ·)).EndsFrom w
      (fun changed t => Shift (if changed then some id else none) none w t)
      (fun _ t => Worn w t) := by
  refine (edit_alike (edit.run ·) id).imp ?_ ?_
  · intro changed t ht
    rcases ht with ⟨h, s, hh, hyields, halike⟩
    have hcounts := hyields.counts
    cases changed with
    | true =>
        exact .stored hh (Or.inr ⟨rfl, hcounts⟩) halike.holdings
    | false =>
        exact .stored hh (Or.inl hcounts) halike.holdings
  · intro fault t ht
    rcases ht with rfl | ⟨h, s, hh, hleaves, halike⟩
    · exact .same rfl
    · exact .stored hh hleaves.version halike.holdings

/-- A load replaces the lists of one holding; those that shared the old ones keep them. -/
theorem overwrite_shift (source : Source) :
    (overwrite id (Editor.load · source)).EndsFrom w (fun _ t => Shift (some id) none w t)
      (fun _ t => Worn w t) := by
  refine holding_bind (fun h hh => ?_) fun _ => .same rfl
  refine ((edit_alike (Editor.load · source) id).imp (fun _ _ ht => ht) ?_).bind ?_
  · intro fault t ht
    rcases ht with rfl | ⟨g, s, hg, ⟨e, e', fault', hstore, _, hrun, rfl⟩, halike⟩
    · exact .same rfl
    · -- a load that fails has put nothing into the store
      have hkept : e'.store = g.store := ((Editor.load_version source).error hrun).trans hstore
      exact .stored hg (congrArg Store.version hkept) halike.holdings
  · intro _ t ht
    rcases ht with ⟨g, s, hg, ⟨e, e', hstore, _, hrun, rfl⟩, halike⟩
    rw [hh] at hg
    cases hg
    have hcounts : e'.store.version = h.store.version + 1 := by
      rw [← hstore]
      exact (Editor.load_version source).ok hrun
    refine .modify_bind (.pure (.loaded hh rfl hcounts ?_))
    show t.holdings.map (Holding.released id h.store) = _
    rw [halike.holdings]
    rfl

theorem assignHolding_shift :
    (assignHolding id other).EndsFrom w (fun _ t => Shift (some id) (some other) w t)
      (fun _ t => Worn w t) := by
  refine holding_bind (fun h hh => ?_) fun _ => .same rfl
  refine holding_bind (fun o ho => ?_) fun _ => .same rfl
  split
  · next hne =>
    -- first those that read the old lists are released, then the new lists get a new heir
    exact .modify_bind (.modify_bind (.assigned hh ho hne rfl rfl rfl))
  · exact .stored hh (Or.inr ⟨rfl, rfl⟩) (modify_eq_set_of_getElem? _ hh)

/-- A write goes to the holding that the handle leases. If it was counted as one that had nothing to
do, it was not made there. -/
theorem Landed.shift {name : String} {change : Holding σ → Store → Prop} {f : Tally → Tally}
    (hlanded : Landed name change f w t) (hf : ∀ t, (f t).noops = t.noops)
    (hchange : ∀ h s, change h s → s = h.store ∨ s.version = h.store.version + 1) :
    Shift (if t.noopsOf name == w.noopsOf name then (w.leaseOf? name).map (·.1) else none)
      none w t := by
  cases hlanded with
  | moved copy hfresh _ _ ht =>
      exact .added hfresh ht.holdings
  | @written owner e s h store hleases _ hh hchanged ht =>
      have htarget : (w.leaseOf? name).map (·.1) = some s.content := by
        rw [hleases.leaseOf?_eq hh, Option.map_some]
      have hhandle : (w.stored s.content h store).handle? name = some owner := hleases.handle
      -- a write in place was not counted as one that had nothing to do
      have hnoops : t.noopsOf name = w.noopsOf name := by
        rw [noopsOf, noopsOf, ht.handle?, handle?_counted_self hhandle, hleases.handle]
        simp [hf]
      rw [if_pos (by simp [hnoops]), htarget]
      refine .stored hh ?_ ht.holdings
      rcases hchange h store hchanged with hsame | hup
      · exact Or.inl hsame
      · exact Or.inr ⟨rfl, hup⟩

theorem Missed.worn {name : String} {change : Holding σ → Store → Prop}
    (hmissed : Missed name change w t)
    (hchange : ∀ h s, change h s → s.version = h.store.version) : Worn w t := by
  cases hmissed with
  | idle ht =>
      exact .same ht.holdings
  | undone _ ht =>
      exact .same ht.holdings
  | spoiled _ _ hh hchanged ht =>
      exact .stored hh (hchange _ _ hchanged) ht.holdings

theorem noops_counts (s : Step σ) (t : Tally) : (s.counts t).noops = t.noops := by
  cases s with
  | _ => rfl

theorem Done.shift {s : Step σ} (hdone : Done s w t) :
    Shift (if t.noopsOf s.name == w.noopsOf s.name then (w.leaseOf? s.name).map (·.1)
      else none) none
      w t := by
  have hdropped : ∀ u : Workspace σ, (u.dropped s.name).holdings = u.holdings := by
    intro u
    rw [dropped_eq]
  cases hdone with
  | dropped _ ht =>
      exact .same (ht.holdings.trans (hdropped w))
  | @copied _ _ e _ _ _ ht =>
      exact .same (ht.holdings.trans (hdropped (w.acquired e)))
  | installed h hfresh _ ht =>
      exact .added hfresh (ht.holdings.trans (hdropped (w.installed h)))
  | kept _ ht =>
      exact .same ht.holdings
  | edited hlanded =>
      refine hlanded.shift (noops_counts s) fun h store hedits => ?_
      rcases hedits with ⟨edit, changed, _, hyields⟩
      have hcounts := hyields.counts
      cases changed with
      | true =>
          exact Or.inr hcounts
      | false =>
          exact Or.inl hcounts
  | published _ hlanded =>
      refine hlanded.shift (fun _ => rfl) fun h store hassigned => ?_
      rcases hassigned with ⟨other, rfl⟩
      exact Or.inr rfl

/-- Every action: one that has nothing to do puts no new store anywhere, and one that does something
at most into the holding it writes to. -/
theorem run_shift (a : Action σ) :
    a.run.EndsFrom w (fun changed t => Shift (if changed then a.target w else none) a.donor w t)
      (fun _ t => Worn w t) := by
  cases a with
  | arrive config content =>
      exact Shift.added rfl rfl
  | edit id change =>
      exact edit_shift change
  | load id source =>
      exact (overwrite_shift source).bind fun _ _ ht => .pure ht
  | clone id =>
      have hclone : (cloneHolding id).EndsFrom w (fun _ t => Shift none none w t)
          (fun _ t => Worn w t) := by
        refine holding_bind (fun h hh => ?_) fun _ => .same rfl
        exact Shift.added rfl rfl
      exact hclone.bind fun _ _ ht => .pure ht
  | assign id other =>
      exact assignHolding_shift.bind fun _ _ ht => .pure ht
  | step s =>
      refine .get_bind (((perform_endsFrom s).imp (fun _ _ ht => ht) ?_).bind ?_)
      · intro fault t hmissed
        refine hmissed.worn fun h store hspoils => ?_
        rcases hspoils with ⟨edit, _, hleaves⟩
        exact hleaves.version
      · intro _ t hdone
        exact .get_bind (.pure hdone.shift)
  | host change =>
      exact Shift.same rfl

/-! ## What that means for the versions -/

theorem Shift.aged {donor : Option Nat} (hshift : Shift target donor w t) : Aged target w t := by
  cases hshift with
  | same hholdings =>
      exact .of_holdings_eq hholdings
  | added hfresh hholdings =>
      exact .of_append hholdings hfresh
  | stored hh hcounts hholdings =>
      refine .of_set hh hholdings ?_
      rcases hcounts with hsame | hup
      · exact Or.inl (congrArg Store.version hsame)
      · exact Or.inr hup
  | @loaded id h s hh htarget hcounts hholdings =>
      -- the new store is counted, and keeping the old lists elsewhere is not
      have hset : Aged target w (w.stored id h s) := .of_set hh rfl (Or.inr ⟨htarget, hcounts⟩)
      exact hset.trans (.of_released hholdings)
  | @assigned id other h o hh _ _ htarget _ hholdings =>
      have hid : id < w.holdings.length := (List.getElem?_eq_some_iff.1 hh).1
      have hreleased : Aged none w
          { w with holdings := w.holdings.map (Holding.released id h.store) } := .of_released rfl
      have hbequeathed :
          Aged none { w with holdings := w.holdings.map (Holding.released id h.store) }
          { w with holdings := (w.holdings.map (Holding.released id h.store)).mapIdx
                     (Holding.bequeathed other id) } := .of_bequeathed (by simpa using hid) rfl
      rw [htarget]
      exact (hreleased.trans hbequeathed).of_modify hh rfl hholdings

theorem Worn.aged (hworn : Worn w t) : Aged none w t := by
  cases hworn with
  | same hholdings =>
      exact .of_holdings_eq hholdings
  | stored hh hcounts hholdings =>
      exact .of_set hh hholdings (Or.inl hcounts)

end Workspace

end Peaks
