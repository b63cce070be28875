import Peaks.Proofs.Steps

/-!
# What one step can do

Every step of a program over handles, under any orderings and in any workspace, has one of a few
effects on the handles, the entries and the holdings. Everything else about programs that does not
rest on the orderings is read off from here.

- `Workspace.Alike`  : nothing but the host, the mint, the journal and the pools differs
- `Workspace.Landed`, `Workspace.Missed` : a write through a handle that returned, and one that
  failed
- `Workspace.Done`   : the effects of a step that returned
- `Workspace.perform_endsFrom` : every step has one of these effects
-/

namespace Peaks

variable {σ α β : Type}

/-! ## Kinds of steps -/

/-- An edit at one argument. -/
inductive Edit
  | set (argument value : Payload)
  | erase (argument : Payload)

def Edit.run (rules : Rules σ) : Edit → Attempt (Editor σ) Bool
  | .set a v => Editor.set rules a v
  | .erase a => Editor.erase rules a

namespace Step

/-- The edit that a step makes through a handle, if it makes one. -/
def edit? : Step σ → Option Edit
  | .set _ a v => some (.set a v)
  | .erase _ a | .remove _ a => some (.erase a)
  | _ => none

/-- The step binds its name to a holding of its own. -/
def builds : Step σ → Bool
  | .create .. | .fromItems .. | .fromArrays .. | .deepCopy .. => true
  | _ => false

/-- The step sets a batch of pairs. -/
def batches : Step σ → Bool
  | .update .. | .updateFrom .. => true
  | _ => false

/-- What a step counts when it has made its edit. -/
def counts : Step σ → Tally → Tally
  | .set .., t => { t with sets := t.sets + 1 }
  | .erase .., t | .remove .., t => { t with erases := t.erases + 1 }
  | _, t => t

end Step

namespace Tally

/-- One more edit that had nothing to do. -/
def noop (t : Tally) : Tally :=
  { t with noops := t.noops + 1 }

/-- One more write that failed and was taken back. -/
def rollback (t : Tally) : Tally :=
  { t with rollbacks := t.rollbacks + 1 }

/-- One more private copy that a handle moved to. -/
def clone (t : Tally) : Tally :=
  { t with clones := t.clones + 1 }

end Tally

namespace Workspace

variable {w u t : Workspace σ} {name : String} {e : Nat}

/-! ## The parts that matter -/

/-- The same handles, entries and holdings. -/
structure Alike (w t : Workspace σ) : Prop where
  handles : t.handles = w.handles
  shares : t.shares = w.shares
  holdings : t.holdings = w.holdings

namespace Alike

theorem refl (w : Workspace σ) : Alike w w :=
  ⟨rfl, rfl, rfl⟩

theorem trans (h : Alike w u) (h' : Alike u t) : Alike w t :=
  ⟨h'.handles.trans h.handles, h'.shares.trans h.shares, h'.holdings.trans h.holdings⟩

theorem leases (h : Alike w t) : t.leases = w.leases := by
  rw [Workspace.leases, Workspace.leases, h.handles]

theorem handle? (h : Alike w t) (name : String) : t.handle? name = w.handle? name := by
  rw [Workspace.handle?, Workspace.handle?, h.handles]

theorem dropped (h : Alike w t) (name : String) : Alike (w.dropped name) (t.dropped name) := by
  unfold Workspace.dropped
  rw [h.handle? name]
  cases w.handle? name with
  | none =>
      exact h
  | some owner =>
      refine ⟨?_, ?_, h.holdings⟩
      · simp only [h.handles]
      · simp only [h.shares]

theorem bound (h : Alike w t) (name : String) (e : Nat) :
    Alike (w.bound name e) (t.bound name e) := by
  have hdropped := h.dropped name
  refine ⟨?_, hdropped.shares, hdropped.holdings⟩
  simp only [Workspace.bound, hdropped.handles]

theorem installed (h : Alike w t) (g : Holding σ) : Alike (w.installed g) (t.installed g) := by
  refine ⟨h.handles, ?_, ?_⟩
  · simp only [Workspace.installed, h.shares, h.holdings]
  · simp only [Workspace.installed, h.holdings]

theorem rebound (h : Alike w t) (name : String) (lease : Lease) (e : Nat) :
    Alike (w.rebound name lease e) (t.rebound name lease e) := by
  refine ⟨?_, ?_, h.holdings⟩
  · simp only [Workspace.rebound, h.handles]
  · simp only [Workspace.rebound, h.shares]

end Alike

/-- The workspace with the tally of one handle changed. -/
def counted (w : Workspace σ) (name : String) (f : Tally → Tally) : Workspace σ :=
  { w with
    handles := w.handles.map fun h => if h.name == name then { h with tally := f h.tally } else h }

theorem count_eq (w : Workspace σ) (name : String) (f : Tally → Tally) :
    count name f w = .ok ⟨⟩ (w.counted name f) :=
  rfl

theorem leases_counted (w : Workspace σ) (name : String) (f : Tally → Tally) :
    (w.counted name f).leases = w.leases := by
  simp only [leases, counted, List.map_map]
  refine List.map_congr_left fun h _ => ?_
  simp only [Function.comp]
  split
  · rfl
  · rfl

theorem counted_counted (w : Workspace σ) (name : String) (f g : Tally → Tally) :
    (w.counted name f).counted name g = w.counted name (g ∘ f) := by
  simp only [counted, List.map_map]
  congr 1
  refine List.map_congr_left fun h _ => ?_
  by_cases hname : h.name = name
  · simp [hname]
  · simp [hname]

theorem counted_id (w : Workspace σ) (name : String) : w.counted name id = w := by
  have hsame :
      (w.handles.map fun h => if h.name == name then { h with tally := id h.tally } else h) =
      w.handles := by
    refine (List.map_congr_left fun h _ => ?_).trans (List.map_id _)
    split
    · rfl
    · rfl
  rw [counted, hsame]

theorem Alike.counted (h : Alike w t) (name : String) (f : Tally → Tally) :
    Alike (w.counted name f) (t.counted name f) := by
  refine ⟨?_, h.shares, h.holdings⟩
  simp only [Workspace.counted, h.handles]

/-- The workspace with another store in a holding. -/
def stored (w : Workspace σ) (id : Nat) (h : Holding σ) (s : Store) : Workspace σ :=
  { w with holdings := w.holdings.set id { h with store := s } }

theorem Alike.stored (h : Alike w t) (id : Nat) (g : Holding σ) (s : Store) :
    Alike (w.stored id g s) (t.stored id g s) := by
  refine ⟨h.handles, h.shares, ?_⟩
  simp only [Workspace.stored, h.holdings]

/-! ## What stands behind a name -/

theorem Leases.of_alike {owner : Handle} {s : Shared Nat} (halike : Alike w u)
    (h : u.Leases name owner e s) :
    w.Leases name owner e s where
  handle := halike.handle? name ▸ h.handle
  lease := h.lease
  share := halike.shares ▸ h.share

section Looking

variable {done : β → Workspace σ → Prop} {failed : Fault → Workspace σ → Prop}

/-- Looking up what a name leases either fails at once or finds it. -/
theorem claim_bind {k : Nat → Attempt (Workspace σ) β}
    (hk : ∀ owner e, w.handle? name = some owner → owner.lease = .on e →
      (k e).EndsFrom w done failed)
    (hfailed : ∀ fault, failed fault w) : (leased name >>= k).EndsFrom w done failed := by
  cases hhandle : w.handle? name with
  | none =>
      exact .bind_error (leased_eq_error hhandle) (hfailed _)
  | some owner =>
      cases hclaim : owner.lease.claim with
      | none =>
          -- the handle is known by its name, but it was released
          have hreleased : leased name w = .error .leaseReleased w := by
            rw [leased, Attempt.bind_of_ok (handle_eq_ok hhandle), Lease.claimed?, hclaim]
            rfl
          exact .bind_error hreleased (hfailed _)
      | some e =>
          have hlease : owner.lease = .on e := by
            rw [Lease.on, ← hclaim]
          have hleased : leased name w = .ok e w := by
            rw [leased, Attempt.bind_of_ok (handle_eq_ok hhandle), hlease]
            rfl
          exact .bind_ok hleased (hk owner e hhandle hlease)

theorem leased_bind {k : Nat → Shared Nat → Attempt (Workspace σ) β}
    (hk : ∀ owner e s, w.Leases name owner e s → (k e s).EndsFrom w done failed)
    (hfailed : ∀ fault, failed fault w) :
    (do
      let e ← leased name
      let s ← share e
      k e s : Attempt (Workspace σ) β).EndsFrom w done failed := by
  refine claim_bind (fun owner e hhandle hlease => ?_) hfailed
  cases hshare : w.shares[e]? with
  | none =>
      exact .bind_error (share_eq_error hshare) (hfailed _)
  | some s =>
      exact .bind_ok (share_eq_ok hshare) (hk owner e s ⟨hhandle, hlease, hshare⟩)

theorem holdingOf_bind {k : Nat → Attempt (Workspace σ) β}
    (hk : ∀ owner e s, w.Leases name owner e s → (k s.content).EndsFrom w done failed)
    (hfailed : ∀ fault, failed fault w) : (holdingOf name >>= k).EndsFrom w done failed := by
  have hfound : (holdingOf name).EndsFrom w
      (fun id t => t = w ∧ ∃ owner e s, w.Leases name owner e s ∧ id = s.content)
      (fun _ t => t = w) := by
    refine leased_bind (fun owner e s hleases => ?_) fun _ => rfl
    exact .pure ⟨rfl, owner, e, s, hleases, rfl⟩
  refine (hfound.imp (fun _ _ h => h) ?_).bind ?_
  · intro fault t ht
    exact ht ▸ hfailed fault
  · intro id t hid
    rcases hid with ⟨rfl, owner, e, s, hleases, rfl⟩
    exact hk owner e s hleases

theorem holding_bind {id : Nat} {k : Holding σ → Attempt (Workspace σ) β}
    (hk : ∀ h, w.holdings[id]? = some h → (k h).EndsFrom w done failed)
    (hfailed : ∀ fault, failed fault w) : (holding id >>= k).EndsFrom w done failed := by
  cases hh : w.holdings[id]? with
  | none =>
      exact .bind_error (holding_eq_error hh) (hfailed _)
  | some h =>
      exact .bind_ok (holding_eq_ok hh) (hk h hh)

/-- A question changes the host at most. -/
theorem ask_bind {id : Nat} {question : Rules σ → Store → Attempt σ α}
    {k : α → Attempt (Workspace σ) β}
    (hk : ∀ a host, (k a).EndsFrom { w with host := host } done failed)
    (hfailed : ∀ fault host, failed fault { w with host := host }) :
    (ask id question >>= k).EndsFrom w done failed := by
  have hask : (ask id question).EndsFrom w (fun _ t => ∃ host, t = { w with host := host })
      (fun _ t => ∃ host, t = { w with host := host }) := by
    refine holding_bind (fun h _ => ?_) fun _ => ⟨w.host, rfl⟩
    unfold Attempt.EndsFrom onHost Attempt.within
    cases question h.rules h.store w.host with
    | ok a host =>
        exact ⟨host, rfl⟩
    | error fault host =>
        exact ⟨host, rfl⟩
  refine (hask.imp (fun _ _ h => h) ?_).bind ?_
  · intro fault t ht
    rcases ht with ⟨host, rfl⟩
    exact hfailed fault host
  · intro a t ht
    rcases ht with ⟨host, rfl⟩
    exact hk a host

end Looking

/-! ## Edits -/

/-- The edit turns the store of a holding into another and returns. -/
def Yields (act : Rules σ → Attempt (Editor σ) α) (mint : Mint) (h : Holding σ) (a : α)
    (s : Store) : Prop :=
  ∃ e e' : Editor σ, e.store = h.store ∧ e.mint = mint ∧ act h.rules e = .ok a e' ∧ e'.store = s

/-- The edit fails and leaves another store behind. -/
def Leaves (act : Rules σ → Attempt (Editor σ) α) (mint : Mint) (h : Holding σ)
    (s : Store) : Prop :=
  ∃ (e e' : Editor σ) (fault : Fault),
    e.store = h.store ∧ e.mint = mint ∧ act h.rules e = .error fault e' ∧ e'.store = s

theorem edit_alike (act : Rules σ → Attempt (Editor σ) α) (id : Nat) :
    (edit id act).EndsFrom w
      (fun a t => ∃ h s, w.holdings[id]? = some h ∧ Yields act w.mint h a s ∧ Alike
        (w.stored id h s) t)
      (fun _ t => t = w ∨
        ∃ h s, w.holdings[id]? = some h ∧ Leaves act w.mint h s ∧ Alike (w.stored id h s) t) := by
  refine holding_bind (fun h hh => ?_) fun _ => Or.inl rfl
  -- only the store of an editor comes back into the part that counts
  have hedited : ∀ e : Editor σ, Alike (w.stored id h e.store) (w.edited id h.pool e) := fun e =>
    ⟨rfl, rfl, modify_eq_set_of_getElem? _ hh⟩
  cases hpool : w.pools[h.pool]? with
  | none =>
      exact .bind_error (pool_eq_error hpool) (Or.inl rfl)
  | some p =>
      refine .bind_ok (pool_eq_ok hpool) ?_
      unfold Attempt.EndsFrom Attempt.within
      cases hrun : act h.rules (w.editor h p) with
      | ok a e =>
          exact ⟨h, e.store, hh, ⟨_, e, rfl, rfl, hrun, rfl⟩, hedited e⟩
      | error fault e =>
          exact Or.inr ⟨h, e.store, hh, ⟨_, e, fault, rfl, rfl, hrun, rfl⟩, hedited e⟩

/-- An edit of a store that belongs to no holding. -/
theorem editDetached_alike (hu : Alike w u) (h : Holding σ) (act : Rules σ → Attempt (Editor σ) α) :
    (editDetached h act).EndsFrom u (fun _ t => Alike w t) (fun _ t => Alike w t) := by
  cases hpool : u.pools[h.pool]? with
  | none =>
      exact .bind_error (pool_eq_error hpool) hu
  | some p =>
      have hany : (act h.rules).EndsFrom (u.editor h p) (fun _ _ => True) (fun _ _ => True) :=
        .of_runs (fun _ _ _ => trivial) fun _ _ _ => trivial
      refine (editDetached_endsFrom hpool hany).imp ?_ ?_
      · intro r t ht
        rcases ht with ⟨e, _, _, rfl⟩
        exact ⟨hu.handles, hu.shares, hu.holdings⟩
      · intro fault t ht
        rcases ht with ⟨e, _, rfl⟩
        exact ⟨hu.handles, hu.shares, hu.holdings⟩

/-! ## Writes through a handle -/

/-- A write that returned: a handle that shared its entry has moved to a private copy, and one that
did not has made a change in place. -/
inductive Landed (name : String) (change : Holding σ → Store → Prop) (f : Tally → Tally)
    (w t : Workspace σ) : Prop
  | moved {owner : Handle} {e : Nat} {s : Shared Nat} (copy : Holding σ) (fresh : copy.heir = none)
      (leases : w.Leases name owner e s) (shared : s.isShared = true)
      (alike : Alike (((w.installed copy).rebound name owner.lease w.shares.length).counted name
        (f ∘ Tally.clone)) t)
  | written {owner : Handle} {e : Nat} {s : Shared Nat} {h : Holding σ} {store : Store}
      (leases : w.Leases name owner e s) (sole : s.isShared = false)
      (holding : w.holdings[s.content]? = some h) (changed : change h store)
      (alike : Alike ((w.stored s.content h store).counted name f) t)

/-- A write that failed: nothing was done or told, or it was counted as taken back. Only in the
store of a sole owner may it have left something behind. -/
inductive Missed (name : String) (change : Holding σ → Store → Prop) (w t : Workspace σ) : Prop
  | idle (alike : Alike w t)
  | undone {owner : Handle} {e : Nat} {s : Shared Nat} (leases : w.Leases name owner e s)
      (alike : Alike (w.counted name Tally.rollback) t)
  | spoiled {owner : Handle} {e : Nat} {s : Shared Nat} {h : Holding σ} {store : Store}
      (leases : w.Leases name owner e s) (sole : s.isShared = false)
      (holding : w.holdings[s.content]? = some h) (changed : change h store)
      (alike : Alike ((w.stored s.content h store).counted name Tally.rollback) t)

section Writes

variable {change change' : Holding σ → Store → Prop} {f : Tally → Tally}

/-- What comes before a write does not matter if it changes no handle, entry or holding. -/
theorem Landed.of_alike (halike : Alike w u) (h : Landed name change f u t)
    (himp : ∀ h s, change h s → change' h s) : Landed name change' f w t := by
  cases h with
  | moved copy hfresh hleases hshared ht =>
      refine .moved copy hfresh (hleases.of_alike halike) hshared (Alike.trans ?_ ht)
      rw [halike.shares]
      exact ((halike.installed copy).rebound name _ _).counted name _
  | written hleases hsole hholding hchanged ht =>
      refine .written (hleases.of_alike halike) hsole (halike.holdings ▸ hholding)
        (himp _ _ hchanged)
        (Alike.trans ?_ ht)
      exact (halike.stored _ _ _).counted name f

theorem Missed.of_alike (halike : Alike w u) (h : Missed name change u t)
    (himp : ∀ h s, change h s → change' h s) : Missed name change' w t := by
  cases h with
  | idle ht =>
      exact .idle (halike.trans ht)
  | undone hleases ht =>
      exact .undone (hleases.of_alike halike) ((halike.counted name _).trans ht)
  | spoiled hleases hsole hholding hchanged ht =>
      refine .spoiled (hleases.of_alike halike) hsole (halike.holdings ▸ hholding)
        (himp _ _ hchanged)
        (Alike.trans ?_ ht)
      exact (halike.stored _ _ _).counted name _

/-- What was done is counted at the end. -/
theorem Landed.count (h : Landed name change id w t) (f : Tally → Tally) :
    Landed name change f w (t.counted name f) := by
  cases h with
  | moved copy hfresh hleases hshared ht =>
      -- the move to the copy was counted before
      refine .moved copy hfresh hleases hshared ?_
      have hcounted := ht.counted name f
      rw [counted_counted] at hcounted
      exact hcounted
  | written hleases hsole hholding hchanged ht =>
      refine .written hleases hsole hholding hchanged ?_
      rw [counted_id] at ht
      exact ht.counted name f

end Writes

/-- A handle moves to a private copy, and the move is counted. -/
theorem move_alike {owner : Handle} {k : Attempt (Workspace σ) β} {copy : Holding σ}
    {done : β → Workspace σ → Prop} {failed : Fault → Workspace σ → Prop} (halike : Alike w u)
    (hhandle : w.handle? name = some owner)
    (hk : ∀ t, Alike (((w.installed copy).rebound name owner.lease w.shares.length).counted name
      Tally.clone) t → k.EndsFrom t done failed) :
    (do
      let id ← addHolding copy
      let e ← addShare id
      rebind name e
      count name Tally.clone
      k : Attempt (Workspace σ) β).EndsFrom u done failed := by
  have hhandle' : u.handle? name = some owner := (halike.handle? name).trans hhandle
  refine move_bind hhandle' (.bind_ok (count_eq _ name Tally.clone) (hk _ ?_))
  rw [← halike.shares]
  exact ((halike.installed copy).rebound name owner.lease _).counted name Tally.clone

theorem mutate_endsFrom (act : Rules σ → Attempt (Editor σ) α) :
    (mutate name act).EndsFrom w (fun a t => Landed name (Yields act w.mint · a ·) id w t)
      (fun _ t => Missed name (Leaves act w.mint) w t) := by
  refine leased_bind (fun owner e s hleases => ?_) fun _ => .idle (.refl w)
  split
  · next hshared =>
    refine holding_bind (fun h hh => .modify_bind ?_) fun _ => .idle (.refl w)
    -- whatever happens on the private copy, the others do not see it
    have hclone : ∀ journal, (editClone s.content act).EndsFrom { w with journal := journal }
        (fun r t => r.2.heir = none ∧ Alike w t) (fun _ t => Alike w t) := by
      intro journal
      have hjournal : Alike w { w with journal := journal } := ⟨rfl, rfl, rfl⟩
      refine .bind_ok (holding_eq_ok hh) (.bind (editDetached_alike hjournal h.clone act) ?_)
      intro r t ht
      exact .pure ⟨rfl, ht⟩
    refine .settle_bind (hclone _) ?_ ?_
    · intro r t ht
      rcases r with ⟨a, copy⟩
      rcases ht with ⟨hfresh, ht⟩
      refine move_alike ht hleases.handle fun u hu => .pure ?_
      exact .moved copy hfresh hleases hshared hu
    · intro fault t ht
      refine report_bind (fun _ journal => .bind_ok (count_eq _ name Tally.rollback) ?_)
        fun _ => .idle ht
      refine .undone hleases (Alike.counted ?_ name _)
      exact ⟨ht.handles, ht.shares, ht.holdings⟩
  · next hshared =>
    -- a sole owner writes in place, and a failed edit may leave something behind there
    have hsole : s.isShared = false := by simpa using hshared
    refine .settle_bind (edit_alike act s.content) ?_ ?_
    · intro a t ht
      rcases ht with ⟨h, store, hh, hyields, ht⟩
      refine .pure (.written hleases hsole hh hyields ?_)
      rw [counted_id]
      exact ht
    · intro fault t ht
      refine .bind_ok (count_eq _ name Tally.rollback) ?_
      rcases ht with rfl | ⟨h, store, hh, hleaves, ht⟩
      · exact .undone hleases (.refl _)
      · exact .spoiled hleases hsole hh hleaves (ht.counted name _)

/-! ## Effects of a step -/

/-- What a step that makes an edit has turned the store of a holding into. -/
def Edits (s : Step σ) (mint : Mint) (h : Holding σ) (store : Store) : Prop :=
  ∃ edit changed, s.edit? = some edit ∧ Yields (edit.run ·) mint h changed store

/-- What such a step has left behind in the store of a holding when it failed. -/
def Spoils (s : Step σ) (mint : Mint) (h : Holding σ) (store : Store) : Prop :=
  ∃ edit, s.edit? = some edit ∧ Leaves (edit.run ·) mint h store

/-- The change that a published batch makes in place. -/
def Assigned (h : Holding σ) (store : Store) : Prop :=
  ∃ other, store = h.store.assign other

/-- The effects that a step may have had when it returns. -/
inductive Done (s : Step σ) (w t : Workspace σ) : Prop
  | dropped (drops : s = .drop s.name) (alike : Alike (w.dropped s.name) t)
  | copied {source : String} {owner : Handle} {e : Nat} (copies : s = .copy s.name source)
      (handle : w.handle? source = some owner) (lease : owner.lease = .on e)
      (alike : Alike ((w.acquired e).bound s.name e) t)
  | installed (h : Holding σ) (fresh : h.heir = none) (builds : s.builds = true)
      (alike : Alike ((w.installed h).bound s.name w.shares.length) t)
  | kept (edits : s.edit?.isSome = true) (alike : Alike (w.counted s.name Tally.noop) t)
  | edited (landed : Landed s.name (Edits s w.mint) s.counts w t)
  | published {n : Nat} (batches : s.batches = true)
      (landed : Landed s.name Assigned (fun t => { t with sets := t.sets + n }) w t)

section Edits

variable {s : Step σ} {edit : Edit}

/-- A write that a step makes after it has asked whether there is anything to do. -/
theorem mutate_count_endsFrom (hs : s.edit? = some edit) (host : σ) :
    (do
      let _ ← mutate s.name (edit.run ·)
      count s.name s.counts : Attempt (Workspace σ) Unit).EndsFrom { w with host := host }
      (fun _ t => Done s w t) (fun _ t => Missed s.name (Spoils s w.mint) w t) := by
  have hasked : Alike w { w with host := host } := ⟨rfl, rfl, rfl⟩
  refine ((mutate_endsFrom (edit.run ·)).imp (fun _ _ h => h) ?_).bind ?_
  · intro fault t ht
    exact ht.of_alike hasked fun h store hleaves => ⟨edit, hs, hleaves⟩
  · intro changed t ht
    refine .edited (Landed.of_alike hasked (ht.count s.counts) fun h store hyields => ?_)
    exact ⟨edit, changed, hs, hyields⟩

theorem kept_endsFrom {failed : Fault → Workspace σ → Prop} (hs : s.edit? = some edit) (host : σ) :
    (count s.name Tally.noop : Attempt (Workspace σ) Unit).EndsFrom { w with host := host }
      (fun _ t => Done s w t) failed := by
  have hasked : Alike w { w with host := host } := ⟨rfl, rfl, rfl⟩
  exact .kept (by rw [hs]; rfl) (hasked.counted s.name Tally.noop)

theorem set_endsFrom (name : String) (a v : Payload) :
    (set name a v).EndsFrom w (fun _ t => Done (.set name a v) w t)
      (fun _ t => Missed name (Spoils (.set name a v) w.mint) w t) := by
  refine holdingOf_bind (fun _ _ _ _ => ?_) fun _ => .idle (.refl w)
  refine ask_bind (fun keep host => ?_) fun _ _ => .idle ⟨rfl, rfl, rfl⟩
  split
  · exact kept_endsFrom (s := .set name a v) rfl host
  · exact mutate_count_endsFrom (s := .set name a v) rfl host

/-- Two steps erase, and one of them asks first whether the argument is there. -/
theorem erase_endsFrom {a : Payload} (hs : s.edit? = some (.erase a))
    (hcounts : s.counts = fun t => { t with erases := t.erases + 1 }) (host : σ) :
    (erase s.name a).EndsFrom { w with host := host } (fun _ t => Done s w t)
      (fun _ t => Missed s.name (Spoils s w.mint) w t) := by
  refine holdingOf_bind (fun _ _ _ _ => ?_) fun _ => .idle ⟨rfl, rfl, rfl⟩
  refine ask_bind (fun found host => ?_) fun _ _ => .idle ⟨rfl, rfl, rfl⟩
  cases found with
  | none =>
      exact kept_endsFrom hs host
  | some point =>
      have hwrite := mutate_count_endsFrom (w := w) hs host
      rw [hcounts] at hwrite
      exact hwrite

theorem remove_endsFrom (name : String) (a : Payload) :
    (remove name a).EndsFrom w (fun _ t => Done (.remove name a) w t)
      (fun _ t => Missed name (Spoils (.remove name a) w.mint) w t) := by
  refine holdingOf_bind (fun _ _ _ _ => ?_) fun _ => .idle (.refl w)
  refine ask_bind (fun found host => ?_) fun _ _ => .idle ⟨rfl, rfl, rfl⟩
  cases found with
  | none =>
      -- an argument that is not there is a fault here, and nothing has been counted
      exact .idle ⟨rfl, rfl, rfl⟩
  | some point =>
      exact erase_endsFrom (s := .remove name a) rfl rfl host

end Edits

section Names

variable {change : Holding σ → Store → Prop}

theorem copy_endsFrom (name source : String) :
    (copy name source).EndsFrom w (fun _ t => Done (.copy name source) w t)
      (fun _ t => Missed name change w t) := by
  refine claim_bind (fun owner e hhandle hlease => ?_) fun _ => .idle (.refl w)
  exact .copied rfl hhandle hlease (.refl _)

theorem install_endsFrom {s : Step σ} {failed : Fault → Workspace σ → Prop} (hu : Alike w u)
    (hs : s.builds = true) {h : Holding σ} (hh : h.heir = none) :
    (install s.name h).EndsFrom u (fun _ t => Done s w t) failed := by
  have hinstalled : install s.name h u =
      .ok ⟨⟩ ((u.installed h).bound s.name u.shares.length) := rfl
  rw [Attempt.EndsFrom, hinstalled]
  refine .installed h hh hs ?_
  rw [← hu.shares]
  exact (hu.installed h).bound s.name _

theorem deepCopy_endsFrom (name source : String) :
    (deepCopy name source).EndsFrom w (fun _ t => Done (.deepCopy name source) w t)
      (fun _ t => Missed name change w t) := by
  refine holdingOf_bind (fun _ _ s _ => ?_) fun _ => .idle (.refl w)
  cases hh : w.holdings[s.content]? with
  | none =>
      exact .bind_error (Attempt.bind_of_error (holding_eq_error hh)) (.idle (.refl w))
  | some h =>
      exact .bind_ok (Attempt.bind_of_ok (holding_eq_ok hh)) (.installed h.clone rfl rfl (.refl _))

theorem create_endsFrom (name : String) (config : Config σ) :
    (create name config).EndsFrom w (fun _ t => Done (.create name config) w t)
      (fun _ t => Missed name change w t) := by
  have hempty : Alike w { w with pools := w.pools ++ [config.pool] } := ⟨rfl, rfl, rfl⟩
  refine .bind_ok (show addEmpty config w = .ok _ _ from rfl) ?_
  exact install_endsFrom (s := .create name config) hempty rfl rfl

/-- The name is bound only after the edit that makes the content. -/
theorem build_endsFrom {s : Step σ} (hs : s.builds = true) (config : Config σ)
    (act : Rules σ → Attempt (Editor σ) Unit) :
    (build s.name config act).EndsFrom w (fun _ t => Done s w t)
      (fun _ t => Missed s.name change w t) := by
  have hempty : Alike w { w with pools := w.pools ++ [config.pool] } := ⟨rfl, rfl, rfl⟩
  have hedit := editDetached_alike hempty { rules := config.rules, pool := w.pools.length } act
  refine .bind_ok (show addEmpty config w = .ok _ _ from rfl)
    ((hedit.imp (fun _ _ h => h) ?_).bind ?_)
  · intro fault t ht
    exact .idle ht
  · intro r t ht
    exact install_endsFrom ht hs rfl

end Names

/-! ## Batches -/

theorem put_alike {b : Batch σ} (hu : Alike w u) (a v : Payload) :
    (b.put a v).EndsFrom u (fun b' t => Alike w t ∧ Continues b b') (fun _ t => Alike w t) := by
  refine (editDetached_alike hu b.copy (Editor.set · a v)).bind ?_
  intro r t ht
  exact .pure ⟨ht, rfl, rfl, r.2, rfl⟩

/-- Whatever the pairs are, they go into the private copy only. -/
theorem foldRows_alike (rows : List Row) {b : Batch σ} (hu : Alike w u) :
    (Source.foldRows Batch.put b rows).EndsFrom u (fun b' t => Alike w t ∧ Continues b b')
      (fun _ t => Alike w t) := by
  -- each row starts with the batch and the workspace that the rows before it have left
  induction rows generalizing b u with
  | nil =>
      exact ⟨hu, rfl, rfl, b.copy.store, rfl⟩
  | cons row rows ih =>
      rw [Source.foldRows]
      cases hpair : row.pair? with
      | error fault =>
          exact hu
      | ok pair =>
          simp only [Attempt.ofExcept, pure_bind]
          refine (put_alike hu pair.1 pair.2).bind ?_
          intro b' t ht
          refine (ih ht.1).imp ?_ fun _ _ h => h
          intro b'' t' ht'
          exact ⟨ht'.1, ht.2.trans ht'.2⟩

theorem fold_alike (source : Source) (b : Batch σ) :
    (source.fold Batch.put b).EndsFrom w (fun b' t => Alike w t ∧ Continues b b')
      (fun _ t => Alike w t) := by
  refine (foldRows_alike source.rows (.refl w)).bind ?_
  intro b' t ht
  unfold Source.finish
  cases source.failure with
  | none =>
      exact ht
  | some text =>
      exact ht.1

theorem publish_landed {b : Batch σ} {owner : Handle} {s : Shared Nat}
    {failed : Fault → Workspace σ → Prop} {h : Holding σ} (hu : Alike w u)
    (hleases : w.Leases b.name owner b.entry s) (hh : w.holdings[s.content]? = some h)
    (hcopy : b.copy.heir = none) :
    b.publish.EndsFrom u
      (fun _ t => Landed b.name Assigned
        (fun t => { t with sets := t.sets + b.changed }) w t) failed := by
  have hshare : u.shares[b.entry]? = some s := hu.shares ▸ hleases.share
  have hholding : u.holdings[s.content]? = some h := hu.holdings ▸ hh
  refine .bind_ok (share_eq_ok hshare) ?_
  split
  · next hshared =>
    -- others still read the holding, so the copy gets an entry of its own
    refine move_alike hu hleases.handle fun t ht => ?_
    have hmoved : Landed b.name Assigned id w t := .moved b.copy hcopy hleases hshared ht
    exact hmoved.count _
  · next hshared =>
    have hsole : s.isShared = false := by simpa using hshared
    refine .bind_ok (holding_eq_ok hholding) (.modify_bind ?_)
    have hwritten : Landed b.name Assigned id w
        { u with holdings := u.holdings.modify s.content
                   fun h' => { h' with store := h.store.assign b.copy.store } } := by
      refine .written hleases hsole hh ⟨b.copy.store, rfl⟩ ?_
      rw [counted_id, modify_eq_set_of_getElem? _ hholding]
      exact hu.stored s.content h _
    exact hwritten.count _

/-- A batch begins with a copy of what the name leases, or fails at once. -/
theorem start_endsFrom (name : String) :
    (Batch.start name).EndsFrom w
      (fun b t => t = w ∧ b.name = name ∧ b.copy.heir = none ∧
        ∃ owner s h, w.Leases b.name owner b.entry s ∧ w.holdings[s.content]? = some h)
      (fun _ t => t = w) := by
  refine leased_bind (fun owner e s hleases => ?_) fun _ => rfl
  refine holding_bind (fun h hh => ?_) fun _ => rfl
  exact .pure ⟨rfl, rfl, rfl, owner, s, h, hleases, hh⟩

/-- What is left of a batch when the filling of its copy has failed. The failure is counted if it
could be told. -/
structure Unpublished (name : String) (cause fault : Fault) (w t : Workspace σ) : Prop where
  fault : fault = cause.reported
  alike : Alike (w.counted name fun t => if cause.isWritable then t.rollback else t) t

/-- Once the copy is filled nothing can go wrong, so a batch ends as the filling of its copy
does. -/
theorem update_endsFrom_fold {b : Batch σ} (hstart : Batch.start name w = .ok b w)
    (source : Source) :
    (update name source).EndsFrom w
      (fun _ t => ∃ b' u, source.fold Batch.put b w = .ok b' u ∧
        Landed name Assigned (fun t => { t with sets := t.sets + b'.changed }) w t)
      (fun fault t => ∃ cause u, source.fold Batch.put b w = .error cause u ∧
        Unpublished name cause fault w t) := by
  rcases (start_endsFrom name).ok hstart with ⟨_, rfl, hcopy, owner, s, h, hleases, hh⟩
  refine .bind_ok hstart (.settle_bind (fold_alike source b).run ?_ ?_)
  · intro b' t hfold
    rcases hfold with ⟨hrun, ht, hcontinues⟩
    rw [← hcontinues.name, ← hcontinues.entry] at hleases
    -- the copy has changed its store only
    have hcopy' : b'.copy.heir = none := by
      rcases hcontinues.copy with ⟨store, heq⟩
      rw [heq]
      exact hcopy
    refine (publish_landed ht hleases hh hcopy').imp ?_ fun _ _ h => h
    intro _ u hu
    exact ⟨b', t, hrun, hcontinues.name ▸ hu⟩
  · intro fault t hfold
    rcases hfold with ⟨hrun, ht⟩
    refine report_bind (fun hwritable journal => .bind_ok (count_eq _ b.name Tally.rollback) ?_) ?_
    · have ht' : Alike w { t with journal := journal } := ⟨ht.handles, ht.shares, ht.holdings⟩
      refine ⟨fault, t, hrun, (Fault.reported_of_writable hwritable).symm, ?_⟩
      simp only [hwritable, if_true]
      exact ht'.counted b.name Tally.rollback
    · intro hmute
      refine ⟨fault, t, hrun, (Fault.reported_of_mute hmute).symm, ?_⟩
      simp only [hmute]
      exact (counted_id w b.name).symm ▸ ht

theorem Unpublished.missed {owner : Handle} {s : Shared Nat} {cause fault : Fault}
    {change : Holding σ → Store → Prop} (h : Unpublished name cause fault w t)
    (hleases : w.Leases name owner e s) : Missed name change w t := by
  have halike := h.alike
  cases hwritable : cause.isWritable with
  | true =>
      simp only [hwritable, if_true] at halike
      exact .undone hleases halike
  | false =>
      simp only [hwritable] at halike
      exact .idle (counted_id w name ▸ halike)

theorem update_endsFrom (name : String) (source : Source) {change : Holding σ → Store → Prop} :
    (update name source).EndsFrom w
      (fun _ t => ∃ n, Landed name Assigned (fun t => { t with sets := t.sets + n }) w t)
      (fun _ t => Missed name change w t) := by
  cases hstart : Batch.start name w with
  | error fault t =>
      have ht : t = w := (start_endsFrom name).error hstart
      exact .bind_error hstart (.idle (ht ▸ .refl w))
  | ok b t =>
      rcases (start_endsFrom name).ok hstart with ⟨rfl, rfl, _, owner, s, h, hleases, _⟩
      refine (update_endsFrom_fold hstart source).imp ?_ ?_
      · intro _ u hu
        rcases hu with ⟨b', _, _, hlanded⟩
        exact ⟨b'.changed, hlanded⟩
      · intro fault u hu
        rcases hu with ⟨cause, _, _, hunpublished⟩
        exact hunpublished.missed hleases

theorem updateFrom_endsFrom (name source : String) {change : Holding σ → Store → Prop} :
    (updateFrom name source).EndsFrom w
      (fun _ t => ∃ n, Landed name Assigned (fun t => { t with sets := t.sets + n }) w t)
      (fun _ t => Missed name change w t) := by
  have hstore : (store source).EndsFrom w (fun _ t => t = w)
      (fun _ t => Missed name change w t) := by
    refine holdingOf_bind (fun _ _ s _ => ?_) fun _ => .idle (.refl w)
    exact holding_bind (fun h _ => .pure rfl) fun _ => .idle (.refl w)
  refine hstore.bind ?_
  intro s t ht
  rw [ht]
  exact update_endsFrom name _

/-! ## Every step -/

theorem perform_endsFrom (s : Step σ) :
    (perform s).EndsFrom w (fun _ t => Done s w t)
      (fun _ t => Missed s.name (Spoils s w.mint) w t) := by
  cases s with
  | create name config =>
      exact create_endsFrom name config
  | fromItems name source config =>
      exact build_endsFrom (s := .fromItems name source config) rfl config _
  | fromArrays name arguments values config =>
      exact build_endsFrom (s := .fromArrays name arguments values config) rfl config _
  | copy name source =>
      exact copy_endsFrom name source
  | deepCopy name source =>
      exact deepCopy_endsFrom name source
  | drop name =>
      exact .dropped rfl (.refl _)
  | set name a v =>
      exact set_endsFrom name a v
  | erase name a =>
      exact erase_endsFrom (s := .erase name a) rfl rfl w.host
  | remove name a =>
      exact remove_endsFrom name a
  | update name source =>
      refine (update_endsFrom name source).imp ?_ fun _ _ h => h
      intro _ t ht
      rcases ht with ⟨n, hlanded⟩
      exact .published rfl hlanded
  | updateFrom name source =>
      refine (updateFrom_endsFrom name source).imp ?_ fun _ _ h => h
      intro _ t ht
      rcases ht with ⟨n, hlanded⟩
      exact .published rfl hlanded

end Workspace

end Peaks
