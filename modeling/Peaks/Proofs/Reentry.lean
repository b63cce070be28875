import Peaks.Proofs.Landings

/-!
# Batches whose source uses handles

A batch remembers the entry that its handle leased when it began, and looks only at the end whether
that entry is shared. A source of pairs may use handles in between, even the handle of the batch,
which then moves to an entry of its own. If one other handle is left on the old entry, the batch is
published into it.

- `Workspace.Underway`    : a batch that has begun, and what happened since
- `Workspace.OnlyLessee`  : one handle, and no other, leases an entry
- `Workspace.Underway.kept` : what the events and pairs in between leave alone
- `Workspace.publish_overwrites_iff` : whom publishing changes something for
-/

namespace Peaks

variable {σ : Type}

/-- The event neither takes the handle of a name away nor binds the name to another one. -/
def Event.Spares (name : String) : Event σ → Prop
  | .step s => s.name = name → s.edit?.isSome = true ∨ s.batches = true
  | .host _ => True

namespace Workspace

variable {w t u : Workspace σ} {name g : String} {e : Nat} {b : Batch σ}

/-- A batch that has begun in `w`, and where the workspace has come since: pairs were put into the
private copy, and before each of them the source may have used handles. -/
inductive Underway (name : String) (w : Workspace σ) : Batch σ → Workspace σ → Prop
  | start {b : Batch σ} (begins : Batch.start name w = .ok b w) : Underway name w b w
  | event {b : Batch σ} {t : Workspace σ} (underway : Underway name w b t) (event : Event σ)
      (spares : event.Spares name) : Underway name w b (t.react event)
  | put {b b' : Batch σ} {t u : Workspace σ} {a v : Payload} (underway : Underway name w b t)
      (puts : b.put a v t = .ok b' u) : Underway name w b' u

/-- One handle leases the entry, and no other does. -/
def OnlyLessee (w : Workspace σ) (g : String) (e : Nat) : Prop :=
  w.leases.lookup g = some (.on e) ∧ ∀ g', w.leases.lookup g' = some (.on e) → g' = g

/-! ## What lasts -/

/-- A name that had a handle still has one, and no entry is gone. -/
structure Persists (name : String) (w t : Workspace σ) : Prop where
  handle : (w.handle? name).isSome = true → (t.handle? name).isSome = true
  shares : w.shares.length ≤ t.shares.length

theorem isSome_handle?_iff (w : Workspace σ) (name : String) :
    (w.handle? name).isSome = (w.leases.lookup name).isSome := by
  rw [lookup_leases, Option.isSome_map]

namespace Persists

theorem trans (h : Persists name w t) (h' : Persists name t u) : Persists name w u :=
  ⟨h'.handle ∘ h.handle, h.shares.trans h'.shares⟩

theorem of_leases (hleases : t.leases.lookup name = w.leases.lookup name)
    (hshares : w.shares.length ≤ t.shares.length) : Persists name w t := by
  refine ⟨fun h => ?_, hshares⟩
  rw [isSome_handle?_iff, hleases, ← isSome_handle?_iff]
  exact h

theorem alike (halike : Alike w t) : Persists name w t :=
  of_leases (by rw [halike.leases]) (by rw [halike.shares])

theorem counted (w : Workspace σ) (n : String) (f : Tally → Tally) :
    Persists name w (w.counted n f) :=
  of_leases (by rw [leases_counted]) (Nat.le_refl _)

theorem stored (w : Workspace σ) (id : Nat) (h : Holding σ) (s : Store) :
    Persists name w (w.stored id h s) :=
  of_leases rfl (Nat.le_refl _)

theorem installed (w : Workspace σ) (h : Holding σ) : Persists name w (w.installed h) := by
  refine of_leases rfl ?_
  rw [Workspace.installed, List.length_append]
  exact Nat.le_add_right _ _

theorem acquired (w : Workspace σ) (e : Nat) : Persists name w (w.acquired e) :=
  of_leases rfl (by simp [Workspace.acquired])

theorem rebound (w : Workspace σ) (n : String) (old : Lease) (e : Nat) :
    Persists name w (w.rebound n old e) := by
  refine ⟨fun h => ?_, ?_⟩
  · rw [handle?_rebound, Option.isSome_map]
    exact h
  · have hlength := congrArg List.length (map_content_releaseClaim old w.shares)
    rw [List.length_map, List.length_map] at hlength
    exact Nat.le_of_eq hlength.symm

theorem dropped {n : String} (hn : name ≠ n) (w : Workspace σ) : Persists name w (w.dropped n) := by
  refine of_leases ?_ (Nat.le_of_eq (length_shares_dropped w n).symm)
  rw [leases_dropped, lookup_filter_ne hn]

theorem bound {n : String} (hn : name ≠ n) (w : Workspace σ) (e : Nat) :
    Persists name w (w.bound n e) := by
  have hne : (name == n) = false := by simpa using hn
  refine (dropped hn w).trans (of_leases ?_ (Nat.le_refl _))
  rw [leases_bound, List.lookup_append, List.lookup_cons, hne]
  simp

theorem landed {n : String} {change : Holding σ → Store → Prop} {f : Tally → Tally}
    (hlanded : Landed n change f w t) : Persists name w t := by
  cases hlanded with
  | moved copy _ _ _ halike =>
      exact (installed w copy).trans
        ((rebound _ n _ _).trans ((counted _ n _).trans (alike halike)))
  | written _ _ _ _ halike =>
      exact (stored w _ _ _).trans ((counted _ n _).trans (alike halike))

theorem missed {n : String} {change : Holding σ → Store → Prop} (hmissed : Missed n change w t) :
    Persists name w t := by
  cases hmissed with
  | idle halike =>
      exact alike halike
  | undone _ halike =>
      exact (counted w n _).trans (alike halike)
  | spoiled _ _ _ _ halike =>
      exact (stored w _ _ _).trans ((counted _ n _).trans (alike halike))

theorem done {s : Step σ} (hspares : Event.Spares name (.step s)) (hdone : Done s w t) :
    Persists name w t := by
  -- steps that bind a name or take it away go through another name
  have hother : s.edit?.isSome = false → s.batches = false → name ≠ s.name := by
    intro hedit hbatches heq
    rcases hspares heq.symm with h | h
    · rw [hedit] at h
      cases h
    · rw [hbatches] at h
      cases h
  cases hdone with
  | dropped hdrops halike =>
      have hne : name ≠ s.name := hother (by rw [hdrops]; rfl) (by rw [hdrops]; rfl)
      exact (dropped hne w).trans (alike halike)
  | copied hcopies _ _ halike =>
      have hne : name ≠ s.name := hother (by rw [hcopies]; rfl) (by rw [hcopies]; rfl)
      exact (acquired w _).trans ((bound hne _ _).trans (alike halike))
  | installed h _ hbuilds halike =>
      have hne : name ≠ s.name := by
        refine hother (by rw [edit?_eq_none hbuilds]; rfl) ?_
        revert hbuilds
        cases s with
        | _ => simp [Step.builds, Step.batches]
      exact (installed w h).trans ((bound hne _ _).trans (alike halike))
  | kept _ halike =>
      exact (counted w s.name _).trans (alike halike)
  | edited hlanded =>
      exact landed hlanded
  | published _ hlanded =>
      exact landed hlanded

/-- One event, whether or not it failed. -/
theorem react {event : Event σ} (hspares : event.Spares name) (w : Workspace σ) :
    Persists name w (w.react event) := by
  cases event with
  | step s =>
      refine Attempt.EndsFrom.stateAfter (P := fun t : Workspace σ => Persists name w t) ?_
      exact (perform_endsFrom s).imp (fun _ _ => done hspares) fun _ _ => missed
  | host change =>
      exact alike ⟨rfl, rfl, rfl⟩

end Persists

/-- Whatever happens while a batch is under way: the count of owners is right, the entry that the
batch began with is there, and its name has a handle, which may lease another entry by now. -/
theorem Underway.kept (hw : w.Owned []) (hunder : Underway name w b t) :
    t.Owned [] ∧ b.name = name ∧ b.entry < t.shares.length ∧ (t.handle? name).isSome = true := by
  induction hunder with
  | start begins =>
      rcases (start_endsFrom name).ok begins with ⟨_, hname, _, owner, s, h, hleases, _⟩
      refine ⟨hw, hname, (List.getElem?_eq_some_iff.1 hleases.share).1, ?_⟩
      rw [← hname, hleases.handle]
      rfl
  | @event b t _ event hspares ih =>
      rcases ih with ⟨howned, hname, hentry, hhandle⟩
      have hpersists : Persists name t (t.react event) := .react hspares t
      exact ⟨howned.react event, hname, hentry.trans_le hpersists.shares, hpersists.handle hhandle⟩
  | put _ hputs ih =>
      rcases ih with ⟨howned, hname, hentry, hhandle⟩
      rcases (put_alike (.refl _) _ _).ok hputs with ⟨halike, hcontinues⟩
      refine ⟨howned.alike halike, hcontinues.name.trans hname, ?_, ?_⟩
      · rw [hcontinues.entry, halike.shares]
        exact hentry
      · rw [halike.handle?]
        exact hhandle

theorem Underway.foldRows {rows : List Row} {b' : Batch σ} (hunder : Underway name w b t)
    (hrun : Source.foldRows Batch.put b rows t = .ok b' u) : Underway name w b' u := by
  induction rows generalizing b t with
  | nil =>
      cases hrun
      exact hunder
  | cons row rows ih =>
      rcases Attempt.exists_of_bind_ok hrun with ⟨pair, t₁, hpair, hrun⟩
      rcases Attempt.exists_of_bind_ok hrun with ⟨b₁, t₂, hput, hrun⟩
      -- reading a row changes nothing
      have ht₁ : t₁ = t := by
        cases hread : row.pair? with
        | ok pair' =>
            rw [hread] at hpair
            cases hpair
            rfl
        | error fault =>
            rw [hread] at hpair
            cases hpair
      rw [ht₁] at hput
      exact ih (hunder.put hput) hrun

/-- A batch whose source is a list of rows is one in which nothing else happens. -/
theorem Underway.of_update {source : Source} (hrun : update name source w = .ok ⟨⟩ u) :
    ∃ b t, Underway name w b t ∧ b.publish t = .ok ⟨⟩ u := by
  rcases Attempt.exists_of_bind_ok hrun with ⟨b, w', hstart, _⟩
  cases ((start_endsFrom name).ok hstart).1
  rcases exists_of_update_ok hstart hrun with ⟨b', t, hfold, hpublish⟩
  rcases Attempt.exists_of_bind_ok hfold with ⟨b₁, t₁, hrows, hfinish⟩
  rcases Attempt.exists_of_bind_ok hfinish with ⟨_, t₂, hend, hreturn⟩
  cases hreturn
  -- a source that comes to its end changes nothing there
  have ht : t = t₁ := by
    unfold Source.finish at hend
    cases hfailure : source.failure with
    | none =>
        rw [hfailure] at hend
        cases hend
        rfl
    | some text =>
        rw [hfailure] at hend
        cases hend
  rw [ht] at hpublish
  exact ⟨_, t₁, (Underway.start hstart).foldRows hrows, hpublish⟩

/-! ## Publishing -/

theorem Owned.exists_holding (hw : w.Owned []) (he : e < w.shares.length) :
    ∃ s h, w.shares[e]? = some s ∧ w.holdings[s.content]? = some h := by
  have hlt := hw.content _ (List.mem_map_of_mem (List.getElem_mem he))
  exact ⟨_, _, List.getElem?_eq_getElem he, List.getElem?_eq_getElem hlt⟩

section Publishing

variable {s : Shared Nat} (hw : w.Owned []) (hs : w.shares[e]? = some s)
include hw hs

/-- A handle on another entry does not see what is written to this one. -/
theorem Owned.leaseOf?_stored_of_ne (h : Holding σ) (store : Store)
    (hg : w.leases.lookup g ≠ some (.on e)) :
    (w.stored s.content h store).leaseOf? g = w.leaseOf? g := by
  refine leaseOf?_congr rfl fun e' he' => ?_
  have hne : e' ≠ e := by
    intro heq
    rw [heq] at he'
    exact hg he'
  rcases hw.heldAt?_eq_some he' with ⟨s', h', hs', _, _⟩
  have hcontent := hw.content_ne hs hs' hne
  simp [heldAt?, Workspace.stored, hs', List.getElem?_set_ne (Ne.symm hcontent)]

/-- An entry that is not shared has one lessee at most. -/
theorem Owned.onlyLessee (hsole : s.isShared = false) (hg : w.leases.lookup g = some (.on e)) :
    w.OnlyLessee g e := by
  refine ⟨hg, fun g' hg' => ?_⟩
  by_contra hne
  exact hw.sole hg hs hsole hne hg'

/-- An entry with one lessee is not shared. -/
theorem OnlyLessee.sole (honly : w.OnlyLessee g e) : s.isShared = false := by
  rcases honly with ⟨hlookup, hothers⟩
  rw [lookup_leases] at hlookup
  rcases Option.map_eq_some_iff.1 hlookup with ⟨h, hh, hlease⟩
  have hmem : h ∈ w.handles := List.mem_of_find?_eq_some hh
  have hleases : w.Leases h.name h e s := ⟨hw.handle?_eq hmem, hlease, hs⟩
  cases hshared : s.isShared with
  | false =>
      rfl
  | true =>
      -- the second lessee would be the handle itself
      rcases (hw.isShared_iff hmem hleases).1 hshared with ⟨h', hmem', hne, hlease'⟩
      have hlookup' : w.leases.lookup h'.name = some (.on e) := by
        rw [lookup_leases, hw.handle?_eq hmem', Option.map_some, hlease']
      rw [hothers _ hlookup', name_of_handle? hh] at hne
      exact absurd rfl hne

end Publishing

/-- In every program, whatever a source does with handles while a batch is under way: publishing
returns, and for another handle it changes something exactly if that handle alone leases the entry
that the batch began with. Then the implementation of the handle is overwritten with the batch and
goes one version up. So nobody else notices a batch whose handle still leases that entry. -/
theorem publish_overwrites_iff {host : σ} {mint : Mint} {events : List (Event σ)}
    (hw : w = (blank host mint).play events) (hunder : Underway name w b t) :
    ∃ u, b.publish t = .ok ⟨⟩ u ∧
      (∀ g, g ≠ name → (u.leaseOf? g ≠ t.leaseOf? g ↔ t.OnlyLessee g b.entry)) ∧
      (∀ g, g ≠ name → t.OnlyLessee g b.entry → ∃ id h, t.leaseOf? g = some (id, h) ∧
        u.leaseOf? g = some (id, { h with store := h.store.assign b.copy.store })) ∧
      (t.leases.lookup name = some (.on b.entry) → ∀ g, g ≠ name →
        u.leaseOf? g = t.leaseOf? g) := by
  have howned : w.Owned [] := hw ▸ (Owned.blank host mint).play events
  rcases hunder.kept howned with ⟨howned, hname, hentry, hhandle⟩
  rcases Option.isSome_iff_exists.1 hhandle with ⟨owner, howner⟩
  rw [← hname] at howner
  rcases howned.exists_holding hentry with ⟨s, h, hs, hh⟩
  cases hshared : s.isShared with
  | true =>
      -- the handle moves to the private copy, and nobody else does
      have hkept : ∀ g, g ≠ name →
          (((t.installed b.copy).rebound b.name owner.lease t.shares.length).counted
          b.name (Tally.batch b.changed ∘ Tally.clone)).leaseOf? g = t.leaseOf? g := by
        intro g hg
        rw [leaseOf?_counted, hname, leaseOf?_rebound hg, howned.leaseOf?_installed]
      have hnone : ∀ g, ¬ t.OnlyLessee g b.entry := by
        intro g honly
        rw [honly.sole howned hs] at hshared
        cases hshared
      refine ⟨_, Batch.publish_eq_of_shared hs hshared howner, fun g hg => ?_, fun g _ honly => ?_,
        fun _ g hg => hkept g hg⟩
      · exact ⟨fun hne => absurd (hkept g hg) hne, fun honly => absurd honly (hnone g)⟩
      · exact absurd honly (hnone g)
  | false =>
      -- whoever leases the entry by now gets the content of the batch
      have hother : ∀ g, t.leases.lookup g ≠ some (.on b.entry) →
          ((t.stored s.content h (h.store.assign b.copy.store)).counted b.name
            (Tally.batch b.changed)).leaseOf? g = t.leaseOf? g := by
        intro g hg
        rw [leaseOf?_counted]
        exact howned.leaseOf?_stored_of_ne hs h _ hg
      have hlessee : ∀ g, t.OnlyLessee g b.entry → t.leaseOf? g = some (s.content, h) ∧
          ((t.stored s.content h (h.store.assign b.copy.store)).counted b.name
            (Tally.batch b.changed)).leaseOf? g =
            some (s.content, { h with store := h.store.assign b.copy.store }) := by
        intro g honly
        rw [leaseOf?_counted, leaseOf?_eq_heldAt? honly.1]
        refine ⟨by simp [heldAt?, hs, hh], ?_⟩
        exact Owned.leaseOf?_set_self (w := t) rfl rfl rfl howned honly.1 hs
      refine ⟨_, Batch.publish_eq_of_sole hs hshared hh,
        fun g hg => ⟨fun hne => ?_, fun honly heq => ?_⟩,
        fun g _ honly => ⟨_, h, hlessee g honly⟩, fun hlookup g hg => hother g fun hlookup' => ?_⟩
      · exact howned.onlyLessee hs hshared
          (Classical.byContradiction fun hlookup => hne (hother g hlookup))
      · -- one version up is not the same
        rw [(hlessee g honly).1, (hlessee g honly).2] at heq
        have hversion :=
          congrArg (fun l : Option (Nat × Holding σ) => l.map (·.2.store.version)) heq
        simp [Store.assign] at hversion
      · exact hg ((howned.onlyLessee hs hshared hlookup).2 g hlookup')

/-- Two handles on one entry. -/
def weakTwins : Workspace Surroundings :=
  weakBlank.play [.step (.create "h" { rules := .metered }), .step (.set "h" (.weak 10) (.weak 50)),
    .step (.copy "g" "h")]

/-- A batch with one pair, before which the source sets another pair through the handle of the
batch. -/
def reentrantBatch : Attempt (Workspace Surroundings) (Batch Surroundings) := do
  let b ← Batch.start "h"
  set "h" (.weak 20) (.weak 60)
  b.put (.weak 10) (.weak 90)

theorem underway_of_reentrantBatch {b : Batch Surroundings} {w t : Workspace Surroundings}
    (hrun : reentrantBatch w = .ok b t) : Underway "h" w b t := by
  rcases Attempt.exists_of_bind_ok hrun with ⟨b₀, w₀, hstart, hrun⟩
  cases ((start_endsFrom "h").ok hstart).1
  rcases Attempt.exists_of_bind_ok hrun with ⟨_, t₁, hset, hput⟩
  have hreact : w.react (.step (.set "h" (.weak 20) (.weak 60))) = t₁ := by
    change Attempt.stateAfter (set "h" (.weak 20) (.weak 60)) w = t₁
    rw [Attempt.stateAfter, hset]
  rw [← hreact] at hput
  exact .put (.event (.start hstart) (.step (.set "h" (.weak 20) (.weak 60)))
    fun _ => Or.inl rfl) hput

/-- The tens of the points that a handle shows, with the version of its store. -/
def glimpse (w : Workspace σ) (name : String) : Option (List (Int × Int) × Nat) :=
  (w.leaseOf? name).map fun l =>
    (l.2.store.points.map fun p => (p.argument.tens?.getD 0, p.value.tens?.getD 0),
      l.2.store.version)

/-- What the other handle shows when the batch is about to be published, and what it shows then. -/
def reentrantViews : Option (List (Option (List (Int × Int) × Nat))) :=
  match reentrantBatch weakTwins with
  | .ok b t =>
      match b.publish t with
      | .ok _ u => some [t.glimpse "g", u.glimpse "g"]
      | .error _ _ => none
  | .error _ _ => none

theorem reentrantViews_eq : reentrantViews = some [some ([(1, 5)], 1), some ([(1, 9)], 2)] := by
  decide +kernel

theorem exists_of_reentrantViews {views : List (Option (List (Int × Int) × Nat))}
    (hviews : reentrantViews = some views) :
    ∃ b t u, Underway "h" weakTwins b t ∧ b.publish t = .ok ⟨⟩ u ∧
      [t.glimpse "g", u.glimpse "g"] = views := by
  unfold reentrantViews at hviews
  cases hrun : reentrantBatch weakTwins with
  | error fault t =>
      rw [hrun] at hviews
      cases hviews
  | ok b t =>
      rw [hrun] at hviews
      cases hpublish : b.publish t with
      | error fault u =>
          simp only [hpublish] at hviews
          cases hviews
      | ok _ u =>
          simp only [hpublish, Option.some.injEq] at hviews
          exact ⟨b, t, u, underway_of_reentrantBatch hrun, hpublish, hviews⟩

theorem publish_overwrites_iff_weak :
    ∃ b t u, Underway "h" weakTwins b t ∧ b.publish t = .ok ⟨⟩ u ∧ t.OnlyLessee "g" b.entry ∧
      ∃ id h, t.leaseOf? "g" = some (id, h) ∧
        u.leaseOf? "g" = some (id, { h with store := h.store.assign b.copy.store }) := by
  rcases exists_of_reentrantViews reentrantViews_eq with ⟨b, t, u, hunder, hpublish, hsee⟩
  rcases publish_overwrites_iff rfl hunder with ⟨u', hpublish', hiff, hcontent, _⟩
  cases hpublish.symm.trans hpublish'
  have hne : u.leaseOf? "g" ≠ t.leaseOf? "g" := by
    intro heq
    simp only [glimpse, heq, List.cons.injEq, and_true] at hsee
    exact absurd (hsee.1.symm.trans hsee.2) (by decide)
  have honly := (hiff "g" (by decide)).1 hne
  exact ⟨b, t, u, hunder, hpublish, honly, hcontent "g" (by decide) honly⟩

/-- The batch is published into the implementation of the other handle, which shows the pair of the
batch from then on. -/
theorem batch_overwrites_peer :
    ∃ b t u, Underway "h" weakTwins b t ∧ b.publish t = .ok ⟨⟩ u ∧
      t.glimpse "g" = some ([(1, 5)], 1) ∧ u.glimpse "g" = some ([(1, 9)], 2) := by
  rcases exists_of_reentrantViews reentrantViews_eq with ⟨b, t, u, hunder, hpublish, hsee⟩
  simp only [List.cons.injEq, and_true] at hsee
  exact ⟨b, t, u, hunder, hpublish, hsee.1, hsee.2⟩

end Workspace
end Peaks
