import Peaks.Proofs.Shelf
import Peaks.Proofs.Workspace

/-!
# Steps through handles

Every step of a program does to a workspace what it does to the shelf that the workspace shows,
keeps the count of owners right and all stores valid, and leaves alone what the other handles lease.

- `Editor.Regular`      : an edit that a handle may make
- `Workspace.Advanced`  : what a step through one handle may lead to
- `Workspace.Tracks`    : a step does what it does on the shelf
- `Workspace.mutate_tracks` : a write, in place or on a private copy
-/

namespace Peaks

variable {σ α : Type} {rank : Rules σ → Rankings}

/-! ## Edits that a handle may make -/

/-- The edit keeps a valid store valid or fails without a change to it, unless it cannot tell that
it failed, and looks neither at the journal nor at the version. -/
structure Editor.Regular (R : Rankings) (x : Attempt (Editor σ) α) : Prop where
  ends : ∀ e : Editor σ, e.store.Valid R e.mint.nextPoint →
    x.EndsFrom e
      (fun _ t => t.store.Valid R t.mint.nextPoint ∧ e.mint.nextPoint ≤ t.mint.nextPoint)
      (fun fault t => (fault.isSpoken = true → t.store = e.store) ∧
        e.mint.nextPoint ≤ t.mint.nextPoint)
  commutes : ∀ lines n e, Attempt.Commutes (Editor.ahead lines n) x x e

namespace Editor

variable {rules : Rules σ} {R : Rankings} {a v : Payload}

theorem set_regular (hR : rules.Follow R) (ha : R.argument.domain a) (hv : R.value.domain v) :
    Regular R (set rules a v) where
  ends _ he := (set_endsFrom hR he ha hv).imp (fun _ _ h => ⟨h.valid he, h.mint⟩)
    fun _ _ h => ⟨fun hspoken => (h.refused hspoken).store, h.mint⟩
  commutes _ _ _ := set_commutes rules a v

theorem erase_regular (hR : rules.Follow R) (ha : R.argument.domain a) :
    Regular R (erase rules a) where
  ends _ he := (erase_endsFrom hR he ha).imp (fun _ _ h => ⟨h.valid he, h.mint⟩)
    fun _ _ h => ⟨fun hspoken => (h.refused hspoken).store, h.mint⟩
  commutes _ _ _ := erase_commutes rules a

theorem load_regular (hR : rules.Follow R) {source : Source} (hsource : R.CoversSource source) :
    Regular R (load rules source) where
  ends _ _ := (load_endsFrom hR hsource).imp (fun _ _ h => ⟨h.valid, h.mint⟩)
    fun _ _ h => ⟨fun _ => h.store, h.mint⟩
  commutes _ _ _ := load_commutes rules source

end Editor

namespace Workspace

variable {w t : Workspace σ} {name g : String} {e : Nat}

/-! ## Names -/

theorem handle_eq_error (hh : w.handle? name = none) :
    handle name w = .error (.unboundName name) w := by
  rw [handle, Attempt.get_bind_run, hh]
  rfl

theorem share_eq_ok {s : Shared Nat} (hs : w.shares[e]? = some s) : share e w = .ok s w := by
  rw [share, Attempt.get_bind_run, hs]
  rfl

theorem share_eq_error (hs : w.shares[e]? = none) :
    share e w = .error (.unboundName "share") w := by
  rw [share, Attempt.get_bind_run, hs]
  rfl

/-- The handle of a name and the entry that it leases. -/
structure Leases (w : Workspace σ) (name : String) (owner : Handle) (e : Nat)
    (s : Shared Nat) : Prop where
  handle : w.handle? name = some owner
  lease : owner.lease = .on e
  share : w.shares[e]? = some s

namespace Leases

variable {owner : Handle} {s : Shared Nat} (h : w.Leases name owner e s)
include h

theorem lookup : w.leases.lookup name = some (.on e) := by
  rw [lookup_leases, h.handle, Option.map_some, h.lease]

theorem leased_eq : leased name w = .ok e w := by
  rw [leased, Attempt.bind_of_ok (handle_eq_ok h.handle), h.lease]
  rfl

theorem holdingOf_eq : holdingOf name w = .ok s.content w := by
  rw [holdingOf, Attempt.bind_of_ok h.leased_eq, Attempt.bind_of_ok (share_eq_ok h.share)]
  rfl

theorem start_eq {g : Holding σ} (hg : w.holdings[s.content]? = some g) :
    Batch.start name w = .ok { name := name, entry := e, copy := g.clone } w := by
  rw [Batch.start, Attempt.bind_of_ok h.leased_eq, Attempt.bind_of_ok (share_eq_ok h.share),
    Attempt.bind_of_ok (holding_eq_ok hg)]
  rfl

theorem leaseOf?_eq {g : Holding σ} (hg : w.holdings[s.content]? = some g) :
    w.leaseOf? name = some (s.content, g) := by
  rw [leaseOf?_eq_heldAt? h.lookup]
  simp [heldAt?, h.share, hg]

end Leases

/-- All that stands behind a name. -/
structure Resolved (w : Workspace σ) (name : String) (owner : Handle) (e : Nat) (s : Shared Nat)
    (h : Holding σ) (p : Pool) : Prop extends w.Leases name owner e s where
  holding : w.holdings[s.content]? = some h
  pool : w.pools[h.pool]? = some p

theorem Owned.resolve (hw : w.Owned []) (hsound : w.Sound rank) (name : String) :
    w.handle? name = none ∨ ∃ owner e s h pool, w.Resolved name owner e s h pool := by
  cases hhandle : w.handle? name with
  | none =>
      exact Or.inl rfl
  | some owner =>
      have hlookup := lookup_leases w name
      rw [hhandle, Option.map_some] at hlookup
      obtain ⟨e, he, _⟩ := hw.claimed _ (mem_of_lookup hlookup)
      replace he : owner.lease = .on e := he
      -- the entry is there because it is claimed, and its holding because it is an entry's
      obtain ⟨s, h, hs, hh, _⟩ := hw.heldAt?_eq_some (he ▸ hlookup)
      obtain ⟨pool, hpool⟩ := hsound.exists_pool hh
      exact Or.inr ⟨owner, e, s, h, pool, ⟨hhandle, he, hs⟩, hh, hpool⟩

theorem shown?_eq_none (hh : w.handle? name = none) : w.shelf.shown name = none := by
  have hlookup : w.leases.lookup name = none := by rw [lookup_leases, hh, Option.map_none]
  simp [shelf, shown?, leaseOf?_eq_none hlookup]

theorem leased_eq_error (hh : w.handle? name = none) :
    leased name w = .error (.unboundName name) w :=
  Attempt.bind_of_error (handle_eq_error hh)

theorem read_eq_error (hh : w.handle? name = none) :
    Shelf.read name w.shelf = .error (.unboundName name) w.shelf := by
  rw [Shelf.read, shown?_eq_none hh]

namespace Resolved

variable {owner : Handle} {s : Shared Nat} {h : Holding σ} {p : Pool}
  (hr : w.Resolved name owner e s h p)
include hr

theorem shown?_eq : w.shown? name = some h.shown := by
  rw [shown?, hr.leaseOf?_eq hr.holding]
  rfl

theorem read_eq : Shelf.read name w.shelf = .ok h.shown w.shelf := by
  have hshown : w.shelf.shown name = some h.shown := hr.shown?_eq
  rw [Shelf.read, hshown]

end Resolved

/-! ## Where a step may lead -/

/-- A workspace in good order that shows the given shelf, and in which some handles lease what they
leased. -/
structure Advanced (rank : Rules σ → Rankings) (w : Workspace σ) (keep : String → Prop)
    (sh : Shelf σ)
    (t : Workspace σ) : Prop where
  owned : t.Owned []
  sound : t.Sound rank
  kept : ∀ g, keep g → t.leaseOf? g = w.leaseOf? g
  shelf : t.shelf = sh

/-- No entry has a second owner. -/
def Unshared (w : Workspace σ) : Prop :=
  ∀ s ∈ w.shares, s.isShared = false

/-- How a step through one handle fails: if the failure could be told, the step fails on the shelf
too and leaves every handle what it leased. Where nothing is shared it fails as on the shelf in any
case. -/
structure Misses (rank : Rules σ → Rankings) (y : Attempt (Shelf σ) α) (w : Workspace σ)
    (fault : Fault) (t : Workspace σ) : Prop where
  told : fault.isSpoken = true →
    ∃ sh, y w.shelf = .error fault sh ∧ Advanced rank w (fun _ => True) sh t
  alone : w.Unshared → ∃ sh, y w.shelf = .error fault sh

/-- The attempt through one handle ends as it does on the shelf. A fault leaves every handle what it
leased if it could be told, and a success every other handle. -/
def Tracks (rank : Rules σ → Rankings) (name : String) (x : Attempt (Workspace σ) α)
    (y : Attempt (Shelf σ) α) (w : Workspace σ) : Prop :=
  x.EndsFrom w (fun a t => ∃ sh, y w.shelf = .ok a sh ∧ Advanced rank w (· ≠ name) sh t)
    (Misses rank y w)

theorem Misses.of_advanced {y : Attempt (Shelf σ) α} {fault : Fault} {sh : Shelf σ}
    (hy : y w.shelf = .error fault sh) (h : Advanced rank w (fun _ => True) sh t) :
    Misses rank y w fault t :=
  ⟨fun _ => ⟨sh, hy, h⟩, fun _ => ⟨sh, hy⟩⟩

/-- A step that fails as another one does on the shelf. -/
theorem Misses.of_shelf {β : Type} {y : Attempt (Shelf σ) α} {l : Attempt (Shelf σ) β}
    {fault : Fault}
    (h : Misses rank l w fault t)
    (hshelf : ∀ sh, l w.shelf = .error fault sh → y w.shelf = .error fault sh) :
    Misses rank y w fault t where
  told hspoken := (h.told hspoken).imp fun sh h => ⟨hshelf sh h.1, h.2⟩
  alone hsole := (h.alone hsole).imp hshelf

theorem Sound.of_holdings_eq (hw : w.Sound rank) (hholdings : t.holdings = w.holdings)
    (hmint : t.mint = w.mint) (hpools : t.pools = w.pools) : t.Sound rank where
  follow := hholdings ▸ hw.follow
  valid := by
    rw [hholdings, hmint]
    exact hw.valid
  pool := by
    rw [hholdings, hpools]
    exact hw.pool

/-- Neither the journal nor the tallies matter. -/
theorem Advanced.of_same {keep : String → Prop} {sh : Shelf σ} {u : Workspace σ}
    (h : Advanced rank w keep sh t) (hleases : u.leases = t.leases) (hshares : u.shares = t.shares)
    (hholdings : u.holdings = t.holdings) (hhost : u.host = t.host) (hmint : u.mint = t.mint)
    (hpools : u.pools = t.pools) : Advanced rank w keep sh u := by
  have hsame : ∀ g, u.leaseOf? g = t.leaseOf? g := fun g =>
    leaseOf?_congr (by rw [hleases]) fun e _ => by rw [heldAt?, heldAt?, hshares, hholdings]
  refine ⟨?_, h.sound.of_holdings_eq hholdings hmint hpools, fun g hg => ?_, ?_⟩
  · exact h.owned.of_perm (.of_eq hleases) hshares (Nat.le_of_eq (by rw [hholdings]))
  · rw [hsame g, h.kept g hg]
  · rw [shelf_of_kept hsame, hhost, hmint, hpools]
    exact h.shelf

theorem count_bind {β : Type} {k : Unit → Attempt (Workspace σ) β} {done : β → Workspace σ → Prop}
    {failed : Fault → Workspace σ → Prop} {f : Tally → Tally}
    (hk : ∀ handles, leases { w with handles := handles } = w.leases →
      (k ⟨⟩).EndsFrom { w with handles := handles } done failed) :
    (count name f >>= k).EndsFrom w done failed := by
  obtain ⟨t, hcount, hleases, ht⟩ := leases_count w name f
  refine .bind_ok hcount ?_
  rw [ht] at hleases ⊢
  exact hk _ hleases

/-- What was left alone, with its own tally counted up. -/
theorem count_endsFrom {keep : String → Prop} {sh : Shelf σ} {failed : Fault → Workspace σ → Prop}
    (h : Advanced rank w keep sh t) (f : Tally → Tally) :
    (count name f).EndsFrom t (fun _ u => Advanced rank w keep sh u) failed := by
  obtain ⟨u, hcount, hleases, hu⟩ := leases_count t name f
  refine .of_runs (fun a u' hrun => ?_) fun fault u' hrun => ?_
  · cases hcount.symm.trans hrun
    rw [hu] at hleases ⊢
    exact h.of_same hleases rfl rfl rfl rfl rfl
  · cases hcount.symm.trans hrun

section Good

variable (howned : w.Owned []) (hsound : w.Sound rank)
include howned hsound

theorem Advanced.refl {keep : String → Prop} : Advanced rank w keep w.shelf w :=
  ⟨howned, hsound, fun _ _ => rfl, rfl⟩

/-- The host, the mint, the journal and the pools change without a handle noticing. -/
theorem Advanced.absorb {keep : String → Prop} {poolId : Nat} {e : Editor σ}
    (hmint : w.mint.nextPoint ≤ e.mint.nextPoint) :
    Advanced rank w keep (w.shelf.absorb poolId e) (w.absorb poolId e) :=
  ⟨howned.of_perm (.refl _) rfl (Nat.le_refl _), hsound.absorb hmint, fun _ _ => rfl, rfl⟩

end Good

theorem Advanced.trans {keep : String → Prop} {sh sh' : Shelf σ} {u : Workspace σ}
    (h : Advanced rank w (fun _ => True) sh t) (h' : Advanced rank t keep sh' u) :
    Advanced rank w keep sh' u :=
  ⟨h'.owned, h'.sound, fun g hg => (h'.kept g hg).trans (h.kept g trivial), h'.shelf⟩

/-- A step that goes on after a part that left all handles alone. -/
theorem Misses.after {β : Type} {y : Attempt (Shelf σ) α} {l : Attempt (Shelf σ) β} {fault : Fault}
    {sh₀ : Shelf σ} {u : Workspace σ} (hbase : Advanced rank w (fun _ => True) sh₀ u)
    (hshares : u.shares = w.shares) (h : Misses rank l u fault t)
    (hshelf : ∀ sh, l u.shelf = .error fault sh → y w.shelf = .error fault sh) :
    Misses rank y w fault t where
  told hspoken := by
    obtain ⟨sh, hl, hadvanced⟩ := h.told hspoken
    exact ⟨sh, hshelf sh hl, hbase.trans hadvanced⟩
  alone hsole := by
    rw [Unshared, ← hshares] at hsole
    exact (h.alone hsole).imp hshelf

/-! ## Ways to give a name something else -/

/-- A holding that may join the others. -/
structure Fitting (rank : Rules σ → Rankings) (w : Workspace σ) (h : Holding σ) : Prop where
  follow : h.rules.Follow (rank h.rules)
  valid : h.store.Valid (rank h.rules) w.mint.nextPoint
  pool : h.pool < w.pools.length

theorem Sound.installed (hw : w.Sound rank) {h : Holding σ} (hh : Fitting rank w h) :
    (w.installed h).Sound rank := by
  have hmem : ∀ g ∈ (w.installed h).holdings, g ∈ w.holdings ∨ g = h := by
    simp [Workspace.installed]
  refine ⟨fun g hg => ?_, fun g hg => ?_, fun g hg => ?_⟩
  · rcases hmem g hg with hg | rfl
    · exact hw.follow g hg
    · exact hh.follow
  · rcases hmem g hg with hg | rfl
    · exact hw.valid g hg
    · exact hh.valid
  · rcases hmem g hg with hg | rfl
    · exact hw.pool g hg
    · exact hh.pool

/-- Only entries and handles change when a name is dropped. -/
theorem dropped_eq (w : Workspace σ) (name : String) :
    w.dropped name =
      { w with shares := (w.dropped name).shares, handles := (w.dropped name).handles } := by
  unfold dropped
  split
  · rfl
  · rfl

theorem Sound.bound (hw : w.Sound rank) (name : String) (e : Nat) :
    (w.bound name e).Sound rank := by
  rw [Workspace.bound, dropped_eq]
  exact hw.of_holdings_eq rfl rfl rfl

section Good

variable {h : Holding σ} (howned : w.Owned []) (hsound : w.Sound rank)
include howned hsound

/-- A name without a handle. -/
theorem Advanced.dropped :
    Advanced rank w (· ≠ name) { w.shelf with shown := Function.update w.shelf.shown name none }
      (w.dropped name) := by
  have hkept : ∀ g, g ≠ name → (w.dropped name).leaseOf? g = w.leaseOf? g := fun g hg =>
    leaseOf?_dropped hg
  have hshown : (w.dropped name).shown? = Function.update w.shown? name none := by
    funext g
    by_cases hg : g = name
    · subst hg
      rw [Function.update_self, shown?, leaseOf?_eq_none (lookup_dropped w g)]
      rfl
    · rw [Function.update_of_ne hg, shown?, shown?, hkept g hg]
  refine ⟨howned.dropped name, ?_, hkept, ?_⟩
  · rw [dropped_eq]
    exact hsound.of_holdings_eq rfl rfl rfl
  · rw [Workspace.shelf, hshown, dropped_eq]
    rfl

/-- A new handle on an entry that somebody else leases too. -/
theorem Advanced.copied {source : String} {owner : Handle} {s : Shared Nat} {p : Pool}
    (hr : w.Resolved source owner e s h p) :
    Advanced rank w (· ≠ name) (w.shelf.replaced name h.shown) ((w.acquired e).bound name e) := by
  have hlt : e < (w.acquired e).shares.length := by
    simpa [Workspace.acquired] using (List.getElem?_eq_some_iff.1 hr.share).1
  have hself : ((w.acquired e).bound name e).leaseOf? name = some (s.content, h) := by
    rw [leaseOf?_bound_self, heldAt?_acquired]
    simp [heldAt?, hr.share, hr.holding]
  have hkept : ∀ g, g ≠ name → ((w.acquired e).bound name e).leaseOf? g =
      w.leaseOf? g := fun g hg =>
    (leaseOf?_bound hg e).trans (leaseOf?_acquired w e g)
  refine ⟨(howned.acquired e).bound hlt name, ?_, hkept, ?_⟩
  · exact (hsound.of_holdings_eq (t := w.acquired e) rfl rfl rfl).bound name e
  · rw [shelf_of_update hself hkept, Workspace.bound, dropped_eq]
    rfl

variable (hh : Fitting rank w h)
include hh

/-- A new handle on a holding of its own. -/
theorem Advanced.installed :
    Advanced rank w (· ≠ name) (w.shelf.replaced name h.shown)
      ((w.installed h).bound name w.shares.length) := by
  have hlt : w.shares.length < (w.installed h).shares.length := by simp [Workspace.installed]
  have hself : ((w.installed h).bound name w.shares.length).leaseOf? name =
      some (w.holdings.length, h) := by
    rw [leaseOf?_bound_self, heldAt?_installed_new]
  have hkept : ∀ g, g ≠ name →
      ((w.installed h).bound name w.shares.length).leaseOf? g = w.leaseOf? g := fun g hg =>
    (leaseOf?_bound hg _).trans (howned.leaseOf?_installed h g)
  refine ⟨(howned.installed h).bound hlt name, (hsound.installed hh).bound name _, hkept, ?_⟩
  rw [shelf_of_update hself hkept, Workspace.bound, dropped_eq]
  rfl

/-- A handle that moves to a holding of its own. -/
theorem Advanced.moved {owner : Handle} (howner : w.handle? name = some owner) :
    Advanced rank w (· ≠ name) (w.shelf.replaced name h.shown)
      ((w.installed h).rebound name owner.lease w.shares.length) := by
  have hlt : w.shares.length < (w.installed h).shares.length := by simp [Workspace.installed]
  have howner' : (w.installed h).handle? name = some owner := howner
  have hself : ((w.installed h).rebound name owner.lease w.shares.length).leaseOf? name =
      some (w.holdings.length, h) := by
    rw [leaseOf?_rebound_self howner' howned.names, heldAt?_installed_new]
  have hkept : ∀ g, g ≠ name →
      ((w.installed h).rebound name owner.lease w.shares.length).leaseOf? g =
      w.leaseOf? g := fun g hg =>
    (leaseOf?_rebound hg _ _).trans (howned.leaseOf?_installed h g)
  refine ⟨(howned.installed h).rebound howner' hlt, ?_, hkept, ?_⟩
  · exact (hsound.installed hh).of_holdings_eq rfl rfl rfl
  · rw [shelf_of_update hself hkept]
    rfl

end Good

/-- A sole owner that writes in place. -/
theorem Advanced.written (howned : w.Owned []) (hsound : t.Sound rank) {owner : Handle}
    {s : Shared Nat}
    {h h' : Holding σ} {p : Pool} (hr : w.Resolved name owner e s h p) (hsole : s.isShared = false)
    (hleases : t.leases = w.leases) (hshares : t.shares = w.shares)
    (hholdings : t.holdings = w.holdings.set s.content h') :
    Advanced rank w (· ≠ name)
      { host := t.host, mint := t.mint, pools := t.pools,
        shown := Function.update w.shelf.shown name (some h'.shown) } t := by
  have hself := howned.leaseOf?_set_self hleases hshares hholdings hr.lookup hr.share
  have hkept : ∀ g, g ≠ name → t.leaseOf? g = w.leaseOf? g := fun g hg =>
    howned.leaseOf?_set hleases hshares hholdings hr.lookup hr.share hsole hg
  refine ⟨howned.of_perm (.of_eq hleases) hshares ?_, hsound, hkept, shelf_of_update hself hkept⟩
  rw [hholdings, List.length_set]

/-! ## Writing -/

theorem mutate_shelf_of_ok {act : Rules σ → Attempt (Editor σ) α} {owner : Handle} {s : Shared Nat}
    {h : Holding σ} {p : Pool} {a : α} {c : Shown σ} {sh : Shelf σ}
    (hr : w.Resolved name owner e s h p) (hedit : Shelf.edit h.shown act w.shelf = .ok (a, c) sh) :
    Shelf.mutate name act w.shelf = .ok a (sh.replaced name c) := by
  rw [Shelf.mutate, Attempt.bind_of_ok hr.read_eq, Attempt.bind_of_ok hedit]
  rfl

theorem mutate_shelf_of_error {act : Rules σ → Attempt (Editor σ) α} {owner : Handle}
    {s : Shared Nat}
    {h : Holding σ} {p : Pool} {fault : Fault} {sh : Shelf σ}
    (hr : w.Resolved name owner e s h p)
    (hedit : Shelf.edit h.shown act w.shelf = .error fault sh) :
    Shelf.mutate name act w.shelf = .error fault sh := by
  rw [Shelf.mutate, Attempt.bind_of_ok hr.read_eq, Attempt.bind_of_error hedit]

/-- Only what stands outside the holdings was changed. -/
structure Quiet (rank : Rules σ → Rankings) (w : Workspace σ) (sh : Shelf σ)
    (t : Workspace σ) : Prop
    extends Advanced rank w (fun _ => True) sh t where
  handles : t.handles = w.handles
  shares : t.shares = w.shares
  holdings : t.holdings = w.holdings

/-- An edit of a private copy leaves all handles alone; what becomes of the copy is what becomes of
its content on the shelf. -/
theorem editDetached_quiet {act : Rules σ → Attempt (Editor σ) α} {h : Holding σ}
    (howned : w.Owned [])
    (hsound : w.Sound rank) (hh : Fitting rank w h)
    (hact : Editor.Regular (rank h.rules) (act h.rules)) :
    (editDetached h act).EndsFrom w
      (fun r t => ∃ sh, Shelf.edit h.shown act w.shelf = .ok
        (r.1, { h with store := r.2 }.shown) sh ∧
        Quiet rank w sh t ∧ Fitting rank t { h with store := r.2 })
      (fun fault t => ∃ sh, Shelf.edit h.shown act w.shelf = .error fault sh ∧
        Quiet rank w sh t) := by
  -- the edit runs on an editor for the copy, of which only the store comes back
  obtain ⟨pool, hpool⟩ : ∃ pool, w.pools[h.pool]? = some pool :=
    ⟨_, List.getElem?_eq_getElem hh.pool⟩
  have hvalid : (w.editor h pool).store.Valid (rank h.rules)
      (w.editor h pool).mint.nextPoint := hh.valid
  refine (editDetached_endsFrom hpool (hact.ends _ hvalid).run).imp ?_ ?_
  · rintro ⟨a, _⟩ _ ⟨e', ⟨hrun, hvalid', hmint⟩, rfl, rfl⟩
    refine ⟨_, edit_shelf_of_ok hact.commutes hpool hrun, ?_, hh.follow, hvalid', ?_⟩
    · exact ⟨.absorb howned hsound hmint, rfl, rfl, rfl⟩
    · simpa [Workspace.absorb] using hh.pool
  · rintro fault _ ⟨e', ⟨hrun, _, hmint⟩, rfl⟩
    refine ⟨_, edit_shelf_of_error hact.commutes hpool hrun, ?_⟩
    exact ⟨.absorb howned hsound hmint, rfl, rfl, rfl⟩

theorem Sound.fitting_clone (hsound : w.Sound rank) {h : Holding σ} (hmem : h ∈ w.holdings) :
    Fitting rank w h.clone :=
  ⟨hsound.follow h hmem, (hsound.valid h hmem).clone, hsound.pool h hmem⟩

section Mutate

variable {act : Rules σ → Attempt (Editor σ) α} {owner : Handle} {s : Shared Nat}
  {h : Holding σ} {p : Pool}
  (howned : w.Owned []) (hsound : w.Sound rank) (hr : w.Resolved name owner e s h p)
  (hact : Editor.Regular (rank h.rules) (act h.rules))
include howned hsound hr hact

/-- A sole owner writes in place. -/
theorem edit_tracks (hsole : s.isShared = false) :
    Tracks rank name (edit s.content act) (Shelf.mutate name act) w := by
  have hvalid := hsound.valid_editor hr.holding p
  refine (edit_endsFrom hr.holding hr.pool (hact.ends _ hvalid).run).imp ?_ ?_
  · rintro a _ ⟨e', ⟨hrun, hvalid', hmint⟩, rfl⟩
    refine ⟨_, mutate_shelf_of_ok hr (edit_shelf_of_ok hact.commutes hr.pool hrun), ?_⟩
    exact .written howned (hsound.edited hr.holding hvalid' hmint) hr hsole rfl rfl
      (modify_eq_set_of_getElem? _ hr.holding)
  · -- a failed edit has put the store back, if it could be told, so nothing was written
    rintro fault _ ⟨e', ⟨hrun, hstore, hmint⟩, rfl⟩
    have hshelf := mutate_shelf_of_error hr (edit_shelf_of_error hact.commutes hr.pool hrun)
    refine ⟨fun hspoken => ⟨_, hshelf, ?_⟩, fun _ => ⟨_, hshelf⟩⟩
    exact (Advanced.absorb howned hsound hmint).of_same rfl rfl
      (edited_holdings_of_store_eq hr.holding (hstore hspoken)) rfl rfl rfl

theorem editClone_quiet :
    (editClone s.content act).EndsFrom w
      (fun r t => ∃ sh, Shelf.edit h.shown act w.shelf = .ok (r.1, r.2.shown) sh ∧
        Quiet rank w sh t ∧ Fitting rank t r.2)
      (fun fault t => ∃ sh, Shelf.edit h.shown act w.shelf = .error fault sh ∧
        Quiet rank w sh t) := by
  have hfitting := hsound.fitting_clone (List.mem_of_getElem? hr.holding)
  have hdetached := editDetached_quiet howned hsound hfitting hact
  refine .bind_ok (holding_eq_ok hr.holding) (hdetached.bind ?_)
  rintro ⟨a, store⟩ t ⟨sh, hedit, hquiet, hfitting⟩
  exact .pure ⟨sh, hedit, hquiet, hfitting⟩

end Mutate

/-- Moves a handle to a new holding and goes on from there. -/
theorem move_bind {β : Type} {owner : Handle} {h : Holding σ} {k : Attempt (Workspace σ) β}
    {done : β → Workspace σ → Prop} {failed : Fault → Workspace σ → Prop}
    (howner : w.handle? name = some owner)
    (hk : k.EndsFrom ((w.installed h).rebound name owner.lease w.shares.length) done failed) :
    (do
      let id ← addHolding h
      let e ← addShare id
      rebind name e
      k : Attempt (Workspace σ) β).EndsFrom w done failed := by
  have howner' : (w.installed h).handle? name = some owner := howner
  exact .modifyGet_bind (.modifyGet_bind (.bind_ok (rebind_eq howner' _) hk))

/-- A write does what it does on the shelf, whether it is made in place or on a private copy. -/
theorem mutate_tracks {act : Rules σ → Attempt (Editor σ) α} (howned : w.Owned [])
    (hsound : w.Sound rank)
    (hact : ∀ c, w.shown? name = some c → Editor.Regular (rank c.rules) (act c.rules)) :
    Tracks rank name (mutate name act) (Shelf.mutate name act) w := by
  rcases howned.resolve hsound name with hnone | ⟨owner, e, s, h, p, hr⟩
  · refine .bind_error (leased_eq_error hnone) (.of_advanced ?_ (.refl howned hsound))
    exact Attempt.bind_of_error (read_eq_error hnone)
  have hregular : Editor.Regular (rank h.rules) (act h.rules) := hact _ hr.shown?_eq
  refine .bind_ok hr.leased_eq (.bind_ok (share_eq_ok hr.share) ?_)
  split
  · next hshared =>
    -- the entry is shared: a private copy is edited, and the handle moves to it
    have hjournal : ∀ journal,
        Advanced rank w (fun _ => True) w.shelf { w with journal := journal } :=
      fun _ => (Advanced.refl howned hsound).of_same rfl rfl rfl rfl rfl rfl
    have hr' : ∀ journal, Resolved { w with journal := journal } name owner e s h p :=
      fun _ => ⟨⟨hr.handle, hr.lease, hr.share⟩, hr.holding, hr.pool⟩
    refine .bind_ok (holding_eq_ok hr.holding) (.modify_bind ?_)
    refine .settle_bind
      (editClone_quiet (hjournal _).owned (hjournal _).sound (hr' _) hregular) ?_ ?_
    · rintro ⟨a, clone⟩ t ⟨sh, hedit, hquiet, hfitting⟩
      have howner : t.handle? name = some owner := by
        rw [handle?, hquiet.handles]
        exact hr.handle
      -- the others stay on the old entry, which loses one owner
      have hmoved := Advanced.moved hquiet.owned hquiet.sound hfitting howner
      refine move_bind howner ?_
      refine count_bind fun handles hleases => .pure ?_
      refine ⟨_, mutate_shelf_of_ok hr hedit, ?_⟩
      rw [← hquiet.shelf]
      exact ((hjournal _).trans (hquiet.toAdvanced.trans hmoved)).of_same hleases rfl
        rfl rfl rfl rfl
    · rintro fault t ⟨sh, hedit, hquiet⟩
      -- the copy is thrown away with what went wrong on it
      have hthrown := (hjournal _).trans hquiet.toAdvanced
      refine report_bind (fun _ journal => count_bind fun handles hleases => ?_) fun _ => ?_
      · refine .of_advanced (mutate_shelf_of_error hr hedit) ?_
        exact hthrown.of_same hleases rfl rfl rfl rfl rfl
      · refine ⟨nofun, fun hsole => ?_⟩
        simp [hsole s (List.mem_of_getElem? hr.share)] at hshared
  · next hshared =>
    -- a sole owner edits its holding in place
    have hsole : s.isShared = false := by simpa using hshared
    refine .settle_bind (edit_tracks howned hsound hr hregular hsole) ?_ ?_
    · exact fun a t ht => .pure ht
    · intro fault t ht
      refine count_bind fun handles hleases => ⟨fun hspoken => ?_, ht.alone⟩
      obtain ⟨sh, hshelf, hadvanced⟩ := ht.told hspoken
      exact ⟨sh, hshelf, hadvanced.of_same hleases rfl rfl rfl rfl rfl⟩

end Workspace

end Peaks
