import Peaks.Proofs.Handles

/-!
# Steps of a program

Each kind of step does to a workspace what it does to the shelf that the workspace shows.

- `Step.Fits`                : the payloads of a step lie in the domains of the rules it meets
- `Workspace.update_tracks`  : a batch of pairs, set on a private copy and then published
- `Workspace.perform_tracks` : every step
-/

namespace Peaks

variable {σ α : Type} {rank : Rules σ → Rankings}

namespace Workspace

variable {w t : Workspace σ} {name g : String} {e : Nat}

/-! ## Questions and tallies -/

/-- A question changes nothing but the host. -/
theorem Advanced.asked (howned : w.Owned []) (hsound : w.Sound rank)
    {keep : String → Prop} (host : σ) :
    Advanced rank w keep { w.shelf with host := host } { w with host := host } :=
  ⟨howned.of_perm (.refl _) rfl (Nat.le_refl _), hsound.of_holdings_eq rfl rfl rfl,
    fun _ _ => rfl, rfl⟩

theorem ask_bind_tracks {β : Type} {question : Rules σ → Store → Attempt σ β}
    {k : β → Attempt (Workspace σ) α} {l : β → Attempt (Shelf σ) α} {id : Nat} {h : Holding σ}
    (howned : w.Owned []) (hsound : w.Sound rank) (hh : w.holdings[id]? = some h)
    (hk : ∀ b host, Tracks rank name (k b) (l b) { w with host := host }) :
    Tracks rank name (ask id question >>= k) (Shelf.ask (question h.rules h.store) >>= l) w := by
  have hask : ask id question w = onHost (question h.rules h.store) w :=
    Attempt.bind_of_ok (holding_eq_ok hh)
  cases hrun : question h.rules h.store w.host with
  | ok b host =>
      have hask' : ask id question w = .ok b { w with host := host } := by
        rw [hask, onHost, Attempt.within, hrun]
      have hshelf : Shelf.ask (question h.rules h.store) w.shelf =
          .ok b { w.shelf with host := host } := by
        have hrun' : question h.rules h.store w.shelf.host = .ok b host := hrun
        rw [Shelf.ask, Attempt.within, hrun']
      have hbase : Advanced rank w (fun _ => True) _ _ := .asked howned hsound host
      refine .bind_ok hask' ((hk b host).imp ?_ ?_)
      · rintro a t ⟨sh, hl, hadvanced⟩
        exact ⟨sh, (Attempt.bind_of_ok hshelf).trans hl, hbase.trans hadvanced⟩
      · intro fault t ht
        exact ht.after hbase rfl fun sh hl => (Attempt.bind_of_ok hshelf).trans hl
  | error fault host =>
      have hask' : ask id question w = .error fault { w with host := host } := by
        rw [hask, onHost, Attempt.within, hrun]
      have hshelf : Shelf.ask (question h.rules h.store) w.shelf =
          .error fault { w.shelf with host := host } := by
        have hrun' : question h.rules h.store w.shelf.host = .error fault host := hrun
        rw [Shelf.ask, Attempt.within, hrun']
      exact .bind_error hask'
        (.of_advanced (Attempt.bind_of_error hshelf) (.asked howned hsound host))

theorem Tracks.count_after {x : Attempt (Workspace σ) α} {y : Attempt (Shelf σ) α}
    {f : Tally → Tally}
    (h : Tracks rank name x y w) :
    Tracks rank name (x >>= fun _ => count name f) (y >>= fun _ => pure ()) w := by
  refine (h.imp (fun _ _ h => h) ?_).bind ?_
  · exact fun fault t ht => ht.of_shelf fun _ => Attempt.bind_of_error
  · rintro a t ⟨sh, hy, hadvanced⟩
    refine (count_endsFrom hadvanced f).imp (fun _ u hu => ?_) fun _ _ h => h
    exact ⟨sh, Attempt.bind_of_ok hy, hu⟩

theorem count_tracks (howned : w.Owned []) (hsound : w.Sound rank) (f : Tally → Tally) :
    Tracks rank name (count name f) (pure ()) w :=
  (count_endsFrom (Advanced.refl howned hsound) f).imp (fun _ _ hu => ⟨_, rfl, hu⟩) fun _ _ h => h

/-- A fault that comes before anything was done. -/
theorem failed_tracks {x : Attempt (Workspace σ) α} {y : Attempt (Shelf σ) α} {fault : Fault}
    (howned : w.Owned []) (hsound : w.Sound rank) (hx : x w = .error fault w)
    (hy : y w.shelf = .error fault w.shelf) : Tracks rank name x y w := by
  refine .of_runs (fun a t hrun => ?_) fun fault' t hrun => ?_
  · cases hx.symm.trans hrun
  · cases hx.symm.trans hrun
    exact .of_advanced hy (.refl howned hsound)

theorem Tracks.bind_read {β γ : Type} {x : Attempt (Workspace σ) β} {y : Attempt (Shelf σ) γ}
    {k : β → Attempt (Workspace σ) α} {l : γ → Attempt (Shelf σ) α} {b : β} {c : γ}
    (hx : x w = .ok b w)
    (hy : y w.shelf = .ok c w.shelf) (h : Tracks rank name (k b) (l c) w) :
    Tracks rank name (x >>= k) (y >>= l) w := by
  refine .bind_ok hx (h.imp ?_ ?_)
  · rintro a t ⟨sh, hl, hadvanced⟩
    exact ⟨sh, (Attempt.bind_of_ok hy).trans hl, hadvanced⟩
  · exact fun fault t ht => ht.of_shelf fun _ => (Attempt.bind_of_ok hy).trans

theorem holdingOf_eq_error (hnone : w.handle? name = none) :
    holdingOf name w = .error (.unboundName name) w :=
  Attempt.bind_of_error (leased_eq_error hnone)

/-! ## Single edits -/

section Edits

variable {a v : Payload} (howned : w.Owned []) (hsound : w.Sound rank)
include howned hsound

/-- A name that shows a content has rules that follow the rankings given for them. -/
theorem Sound.follow_shown {c : Shown σ} (hc : w.shown? name = some c) :
    c.rules.Follow (rank c.rules) := by
  rcases howned.resolve hsound name with hnone | ⟨owner, e, s, h, p, hr⟩
  · exact absurd ((shown?_eq_none hnone).symm.trans hc) (by simp)
  · rw [hr.shown?_eq] at hc
    cases hc
    exact hsound.follow h (List.mem_of_getElem? hr.holding)

theorem set_tracks (hfits : ∀ c, w.shown? name = some c →
    (rank c.rules).argument.domain a ∧ (rank c.rules).value.domain v) :
    Tracks rank name (set name a v) (Shelf.set name a v) w := by
  rcases howned.resolve hsound name with hnone | ⟨owner, e, s, h, p, hr⟩
  · exact failed_tracks howned hsound (Attempt.bind_of_error (holdingOf_eq_error hnone))
      (Attempt.bind_of_error (read_eq_error hnone))
  refine .bind_read hr.holdingOf_eq hr.read_eq ?_
  refine ask_bind_tracks howned hsound hr.holding fun keep host => ?_
  have hasked : Advanced rank w (fun _ => True) _ { w with host := host } :=
    .asked howned hsound host
  split
  · exact count_tracks hasked.owned hasked.sound _
  · refine Tracks.count_after (mutate_tracks hasked.owned hasked.sound fun c hc => ?_)
    have hdomain := hfits c hc
    exact Editor.set_regular (Sound.follow_shown howned hsound hc) hdomain.1 hdomain.2

theorem erase_tracks (hfits : ∀ c, w.shown? name = some c → (rank c.rules).argument.domain a) :
    Tracks rank name (erase name a) (Shelf.erase name a) w := by
  rcases howned.resolve hsound name with hnone | ⟨owner, e, s, h, p, hr⟩
  · exact failed_tracks howned hsound (Attempt.bind_of_error (holdingOf_eq_error hnone))
      (Attempt.bind_of_error (read_eq_error hnone))
  refine .bind_read hr.holdingOf_eq hr.read_eq ?_
  refine ask_bind_tracks howned hsound hr.holding fun found host => ?_
  have hasked : Advanced rank w (fun _ => True) _ { w with host := host } :=
    .asked howned hsound host
  cases found with
  | none =>
      exact count_tracks hasked.owned hasked.sound _
  | some point =>
      refine Tracks.count_after (mutate_tracks hasked.owned hasked.sound fun c hc => ?_)
      exact Editor.erase_regular (Sound.follow_shown howned hsound hc) (hfits c hc)

theorem remove_tracks (hfits : ∀ c, w.shown? name = some c → (rank c.rules).argument.domain a) :
    Tracks rank name (remove name a) (Shelf.remove name a) w := by
  rcases howned.resolve hsound name with hnone | ⟨owner, e, s, h, p, hr⟩
  · exact failed_tracks howned hsound (Attempt.bind_of_error (holdingOf_eq_error hnone))
      (Attempt.bind_of_error (read_eq_error hnone))
  refine .bind_read hr.holdingOf_eq hr.read_eq ?_
  refine ask_bind_tracks howned hsound hr.holding fun found host => ?_
  have hasked : Advanced rank w (fun _ => True) _ { w with host := host } :=
    .asked howned hsound host
  cases found with
  | none =>
      exact failed_tracks hasked.owned hasked.sound rfl rfl
  | some point =>
      exact erase_tracks hasked.owned hasked.sound hfits

end Edits

/-! ## Handles that come and go -/

theorem fitting_empty {config : Config σ} (hconfig : config.rules.Follow (rank config.rules)) :
    Fitting rank { w with pools := w.pools ++ [config.pool] }
      { rules := config.rules, pool := w.pools.length } :=
  ⟨hconfig, Store.valid_empty _ _, by simp⟩

section Names

variable (howned : w.Owned []) (hsound : w.Sound rank)
include howned hsound

theorem drop_tracks : Tracks rank name (drop name) (Shelf.withdraw name) w :=
  ⟨_, rfl, .dropped howned hsound⟩

theorem copy_tracks {source : String} :
    Tracks rank name (copy name source) (Shelf.copy name source) w := by
  rcases howned.resolve hsound source with hnone | ⟨owner, e, s, h, p, hr⟩
  · exact failed_tracks howned hsound (Attempt.bind_of_error (leased_eq_error hnone))
      (Attempt.bind_of_error (read_eq_error hnone))
  refine .bind_read hr.leased_eq hr.read_eq ?_
  exact ⟨_, rfl, .copied howned hsound hr⟩

theorem deepCopy_tracks {source : String} :
    Tracks rank name (deepCopy name source) (Shelf.copy name source) w := by
  rcases howned.resolve hsound source with hnone | ⟨owner, e, s, h, p, hr⟩
  · exact failed_tracks howned hsound (Attempt.bind_of_error (holdingOf_eq_error hnone))
      (Attempt.bind_of_error (read_eq_error hnone))
  refine .bind_read hr.holdingOf_eq hr.read_eq
    (.bind_ok (Attempt.bind_of_ok (holding_eq_ok hr.holding)) ?_)
  exact ⟨_, rfl, .installed howned hsound (hsound.fitting_clone (List.mem_of_getElem? hr.holding))⟩

theorem addEmpty_advanced (config : Config σ) {keep : String → Prop} :
    Advanced rank w keep { w.shelf with pools := w.pools ++ [config.pool] }
      { w with pools := w.pools ++ [config.pool] } := by
  refine ⟨howned.of_perm (.refl _) rfl (Nat.le_refl _), ?_, fun _ _ => rfl, rfl⟩
  refine ⟨hsound.follow, hsound.valid, fun h hh => ?_⟩
  simpa using Nat.lt_succ_of_lt (hsound.pool h hh)

theorem create_tracks {config : Config σ} (hconfig : config.rules.Follow (rank config.rules)) :
    Tracks rank name (create name config) (do Shelf.put name (← Shelf.addEmpty config)) w := by
  have hempty : Advanced rank w (fun _ => True) _ _ := addEmpty_advanced howned hsound config
  have hinstall : Advanced rank _ (· ≠ name) _ _ :=
    .installed hempty.owned hempty.sound (fitting_empty hconfig)
  exact ⟨_, rfl, hempty.trans hinstall⟩

theorem fromItems_tracks {config : Config σ} {source : Source}
    (hconfig : config.rules.Follow (rank config.rules))
    (hsource : (rank config.rules).CoversSource source) :
    Tracks rank name (fromItems name source config) (Shelf.fromItems name source config) w := by
  have hempty : Advanced rank w (fun _ => True) _ _ := addEmpty_advanced howned hsound config
  have hload := @editDetached_quiet σ Unit rank _ (Editor.load · source) _ hempty.owned hempty.sound
    (fitting_empty hconfig) (Editor.load_regular hconfig hsource)
  have hshelf : Shelf.addEmpty config w.shelf = .ok _ _ := rfl
  refine .bind_ok (show addEmpty config w = .ok _ _ from rfl)
    ((hload.imp (fun _ _ h => h) ?_).bind ?_)
  · rintro fault t ⟨sh, hedit, hquiet⟩
    exact .of_advanced ((Attempt.bind_of_ok hshelf).trans (Attempt.bind_of_error hedit))
      (hempty.trans hquiet.toAdvanced)
  · rintro ⟨_, store⟩ t ⟨sh, hedit, hquiet, hfitting⟩
    have hinstall : Advanced rank t (· ≠ name) _ _ := .installed hquiet.owned hquiet.sound hfitting
    refine ⟨_, (Attempt.bind_of_ok hshelf).trans (Attempt.bind_of_ok hedit), ?_⟩
    rw [← hquiet.shelf]
    exact hempty.trans (hquiet.toAdvanced.trans hinstall)

end Names

/-! ## Batches -/

theorem Quiet.trans {sh sh' : Shelf σ} {u : Workspace σ} (h : Quiet rank w sh t)
    (h' : Quiet rank t sh' u) : Quiet rank w sh' u where
  toAdvanced := h.toAdvanced.trans h'.toAdvanced
  handles := h'.handles.trans h.handles
  shares := h'.shares.trans h.shares
  holdings := h'.holdings.trans h.holdings

/-- Only the store of the private copy, and the number of changes, may differ. -/
structure Continues (b b' : Batch σ) : Prop where
  name : b'.name = b.name
  entry : b'.entry = b.entry
  copy : ∃ store, b'.copy = { b.copy with store := store }

theorem Continues.trans {b b' b'' : Batch σ} (h : Continues b b') (h' : Continues b' b'') :
    Continues b b'' where
  name := h'.name.trans h.name
  entry := h'.entry.trans h.entry
  copy := by
    obtain ⟨store, hcopy⟩ := h.copy
    obtain ⟨store', hcopy'⟩ := h'.copy
    exact ⟨store', by rw [hcopy', hcopy]⟩

theorem put_quiet {b : Batch σ} {a v : Payload} (howned : w.Owned []) (hsound : w.Sound rank)
    (hh : Fitting rank w b.copy) (ha : (rank b.copy.rules).argument.domain a)
    (hv : (rank b.copy.rules).value.domain v) :
    (b.put a v).EndsFrom w
      (fun b' t => ∃ sh, Shelf.setOn b.copy.shown a v w.shelf = .ok b'.copy.shown sh ∧
        Quiet rank w sh t ∧ Fitting rank t b'.copy ∧ Continues b b')
      (fun fault t => ∃ sh, Shelf.setOn b.copy.shown a v w.shelf = .error fault sh ∧
        Quiet rank w sh t) := by
  have hset := @editDetached_quiet σ Bool rank _ (Editor.set · a v) _ howned hsound hh
    (Editor.set_regular hh.follow ha hv)
  refine (hset.imp (fun _ _ h => h) ?_).bind ?_
  · rintro fault t ⟨sh, hedit, hquiet⟩
    exact ⟨sh, Attempt.bind_of_error hedit, hquiet⟩
  · rintro ⟨changed, store⟩ t ⟨sh, hedit, hquiet, hfitting⟩
    exact .pure ⟨sh, Attempt.bind_of_ok hedit, hquiet, hfitting, rfl, rfl, store, rfl⟩

/-- All pairs of a batch go in, or a fault ends it; the handles see nothing of it. -/
theorem foldRows_quiet (rows : List Row) {b : Batch σ} (howned : w.Owned []) (hsound : w.Sound rank)
    (hh : Fitting rank w b.copy)
    (hrows : ∀ a v, [a, v] ∈ rows →
      (rank b.copy.rules).argument.domain a ∧ (rank b.copy.rules).value.domain v) :
    (Source.foldRows Batch.put b rows).EndsFrom w
      (fun b' t => ∃ sh, Source.foldRows Shelf.setOn b.copy.shown rows w.shelf =
        .ok b'.copy.shown sh ∧
        Quiet rank w sh t ∧ Fitting rank t b'.copy ∧ Continues b b')
      (fun fault t => ∃ sh, Source.foldRows Shelf.setOn b.copy.shown rows w.shelf =
        .error fault sh ∧
        Quiet rank w sh t) := by
  have hrefl : Quiet rank w w.shelf w := ⟨.refl howned hsound, rfl, rfl, rfl⟩
  induction rows generalizing b w with
  | nil =>
      exact ⟨w.shelf, rfl, hrefl, hh, rfl, rfl, b.copy.store, rfl⟩
  | cons row rows ih =>
      rw [Source.foldRows, Source.foldRows]
      cases hpair : row.pair? with
      | error fault =>
          exact ⟨w.shelf, rfl, hrefl⟩
      | ok pair =>
          obtain ⟨a, v⟩ := pair
          obtain rfl := Row.eq_of_pair? hpair
          obtain ⟨ha, hv⟩ := hrows a v (by simp)
          simp only [Attempt.ofExcept, pure_bind]
          refine ((put_quiet howned hsound hh ha hv).imp (fun _ _ h => h) ?_).bind ?_
          · rintro fault t ⟨sh, hset, hquiet⟩
            exact ⟨sh, Attempt.bind_of_error hset, hquiet⟩
          · rintro b' t ⟨sh, hset, hquiet, hfitting, hcontinues⟩
            -- the rest of the rows goes into a copy with the same rules
            obtain ⟨store, hcopy⟩ := hcontinues.copy
            have hrest := ih hquiet.owned hquiet.sound hfitting (by
              intro a' v' hmem
              rw [hcopy]
              exact hrows a' v' (by simp [hmem])) ⟨.refl hquiet.owned hquiet.sound, rfl, rfl, rfl⟩
            rw [hquiet.shelf] at hrest
            refine hrest.imp ?_ ?_
            · rintro b'' u ⟨sh', hfold, hquiet', hfitting', hcontinues'⟩
              exact ⟨sh', (Attempt.bind_of_ok hset).trans hfold, hquiet.trans hquiet', hfitting',
                hcontinues.trans hcontinues'⟩
            · rintro fault u ⟨sh', hfold, hquiet'⟩
              exact ⟨sh', (Attempt.bind_of_ok hset).trans hfold, hquiet.trans hquiet'⟩

theorem fold_quiet {source : Source} {b : Batch σ} (howned : w.Owned []) (hsound : w.Sound rank)
    (hh : Fitting rank w b.copy) (hsource : (rank b.copy.rules).CoversSource source) :
    (source.fold Batch.put b).EndsFrom w
      (fun b' t => ∃ sh, source.fold Shelf.setOn b.copy.shown w.shelf = .ok b'.copy.shown sh ∧
        Quiet rank w sh t ∧ Fitting rank t b'.copy ∧ Continues b b')
      (fun fault t => ∃ sh, source.fold Shelf.setOn b.copy.shown w.shelf = .error fault sh ∧
        Quiet rank w sh t) := by
  refine ((foldRows_quiet source.rows howned hsound hh hsource).imp (fun _ _ h => h) ?_).bind ?_
  · rintro fault t ⟨sh, hfold, hquiet⟩
    exact ⟨sh, Attempt.bind_of_error hfold, hquiet⟩
  · rintro b' t ⟨sh, hfold, hquiet, hfitting, hcontinues⟩
    unfold Source.finish
    cases hfailure : source.failure with
    | none =>
        refine ⟨sh, (Attempt.bind_of_ok hfold).trans ?_, hquiet, hfitting, hcontinues⟩
        simp only [Source.finish, hfailure]
        rfl
    | some fault =>
        refine ⟨sh, (Attempt.bind_of_ok hfold).trans ?_, hquiet⟩
        simp only [Source.finish, hfailure]
        rfl

theorem publish_endsFrom {b : Batch σ} {owner : Handle} {s : Shared Nat} {h : Holding σ} {p : Pool}
    {failed : Fault → Workspace σ → Prop} (howned : w.Owned []) (hsound : w.Sound rank)
    (hr : w.Resolved b.name owner b.entry s h p) (hh : Fitting rank w b.copy)
    (hcopy : ∃ store, b.copy = { h.clone with store := store }) :
    b.publish.EndsFrom w
      (fun _ t => Advanced rank w (· ≠ b.name)
        (w.shelf.replaced b.name b.copy.shown) t) failed := by
  refine .bind_ok (share_eq_ok hr.share) ?_
  split
  · -- shared with others: the copy becomes a holding of its own
    refine move_bind hr.handle (count_bind fun handles hleases => ?_)
    have hmoved := (Advanced.moved howned hsound hh hr.handle).of_same hleases rfl rfl rfl rfl rfl
    exact count_endsFrom hmoved _
  · next hshared =>
    have hsole : s.isShared = false := by simpa using hshared
    refine .bind_ok (holding_eq_ok hr.holding) (.modify_bind ?_)
    -- alone on the entry: the lists of the copy replace those of the holding
    obtain ⟨store, hcopy⟩ := hcopy
    have hvalid : (h.store.assign b.copy.store).Valid (rank h.rules) w.mint.nextPoint := by
      have hvalid := hh.valid
      rw [hcopy] at hvalid ⊢
      exact hvalid.assign h.store
    have hshown : { h with store := h.store.assign b.copy.store }.shown = b.copy.shown := by
      rw [hcopy]
      rfl
    refine count_endsFrom ?_ _
    rw [Shelf.replaced, ← hshown]
    exact .written howned (hsound.setStore hr.holding hvalid) hr hsole rfl rfl
      (modify_eq_set_of_getElem? _ hr.holding)

/-- A batch lands as a whole or not at all. -/
theorem update_tracks {source : Source} (howned : w.Owned []) (hsound : w.Sound rank)
    (hfits : ∀ c, w.shown? name = some c → (rank c.rules).CoversSource source) :
    Tracks rank name (update name source) (Shelf.update name source) w := by
  rcases howned.resolve hsound name with hnone | ⟨owner, e, s, h, p, hr⟩
  · exact failed_tracks howned hsound
      (Attempt.bind_of_error (Attempt.bind_of_error (leased_eq_error hnone)))
      (Attempt.bind_of_error (read_eq_error hnone))
  have hfold := fold_quiet (b := { name := name, entry := e, copy := h.clone }) howned hsound
    (hsound.fitting_clone (List.mem_of_getElem? hr.holding)) (hfits _ hr.shown?_eq)
  refine .bind_ok (hr.start_eq hr.holding) (.settle_bind hfold ?_ ?_)
  · rintro b t ⟨sh, hshelf, hquiet, hfitting, hcontinues⟩
    -- while the batch was filled, nothing behind the name has changed
    have hholding : t.holdings[s.content]? = some h := hquiet.holdings ▸ hr.holding
    obtain ⟨p', hp'⟩ := hquiet.sound.exists_pool hholding
    have hr' : t.Resolved b.name owner b.entry s h p' :=
      { handle := by
          rw [hcontinues.name, handle?, hquiet.handles]
          exact hr.handle
        lease := hcontinues.entry ▸ hr.lease
        share := by
          rw [hcontinues.entry, hquiet.shares]
          exact hr.share
        holding := hholding
        pool := hp' }
    refine (publish_endsFrom hquiet.owned hquiet.sound hr' hfitting hcontinues.copy).imp ?_
      fun _ _ h => h
    intro _ u hpublished
    rw [hcontinues.name, hquiet.shelf] at hpublished
    exact ⟨_, Shelf.update_of_ok hr.read_eq hshelf, hquiet.toAdvanced.trans hpublished⟩
  · rintro fault t ⟨sh, hshelf, hquiet⟩
    -- a batch that failed is never published
    have hupdate := Shelf.update_of_error hr.read_eq hshelf
    refine report_bind (fun hwritable journal => count_bind fun handles hleases => ?_)
      fun hmute => ?_
    · rw [Fault.reported_of_writable hwritable] at hupdate
      exact .of_advanced hupdate (hquiet.toAdvanced.of_same hleases rfl rfl rfl rfl rfl)
    · rw [Fault.reported_of_mute hmute] at hupdate
      exact .of_advanced hupdate hquiet.toAdvanced

theorem updateFrom_tracks {source : String} (howned : w.Owned []) (hsound : w.Sound rank)
    (hfits : ∀ c d, w.shown? name = some c → w.shown? source = some d →
      (rank c.rules).CoversSource (.ofPairs d.store.pairs)) :
    Tracks rank name (updateFrom name source)
      (do Shelf.update name (.ofPairs (← Shelf.read source).store.pairs)) w := by
  rcases howned.resolve hsound source with hnone | ⟨owner, e, s, h, p, hr⟩
  · exact failed_tracks howned hsound
      (Attempt.bind_of_error (Attempt.bind_of_error (holdingOf_eq_error hnone)))
      (Attempt.bind_of_error (read_eq_error hnone))
  have hstore : store source w = .ok h.store w := by
    rw [store, Attempt.bind_of_ok hr.holdingOf_eq, Attempt.bind_of_ok (holding_eq_ok hr.holding)]
    rfl
  refine .bind_read hstore hr.read_eq (update_tracks howned hsound fun c hc => ?_)
  exact hfits c _ hc hr.shown?_eq

end Workspace

/-! ## Every step -/

/-- The payloads of a step lie in the domains of the rules that the step meets, and new rules follow
the rankings given for them. Functions of arrays have an ordering of their own and are left out. -/
def Step.Fits (rank : Rules σ → Rankings) (shown : String → Option (Shown σ)) : Step σ → Prop
  | .create _ config => config.rules.Follow (rank config.rules)
  | .fromItems _ source config =>
      config.rules.Follow (rank config.rules) ∧ (rank config.rules).CoversSource source
  | .fromArrays .. => False
  | .copy .. | .deepCopy .. | .drop _ => True
  | .set name a v => ∀ c, shown name = some c →
      (rank c.rules).argument.domain a ∧ (rank c.rules).value.domain v
  | .erase name a | .remove name a => ∀ c, shown name = some c → (rank c.rules).argument.domain a
  | .update name source => ∀ c, shown name = some c → (rank c.rules).CoversSource source
  | .updateFrom name source => ∀ c d, shown name = some c → shown source = some d →
      (rank c.rules).CoversSource (.ofPairs d.store.pairs)

theorem Workspace.perform_tracks {w : Workspace σ} (howned : w.Owned []) (hsound : w.Sound rank)
    (s : Step σ) (hs : s.Fits rank w.shown?) :
    Tracks rank s.name (perform s) (Shelf.perform s) w := by
  cases s with
  | create name config =>
      exact create_tracks howned hsound hs
  | fromItems name source config =>
      exact fromItems_tracks howned hsound hs.1 hs.2
  | fromArrays name arguments values config =>
      exact hs.elim
  | copy name source =>
      exact copy_tracks howned hsound
  | deepCopy name source =>
      exact deepCopy_tracks howned hsound
  | drop name =>
      exact drop_tracks howned hsound
  | set name a v =>
      exact set_tracks howned hsound hs
  | erase name a =>
      exact erase_tracks howned hsound hs
  | remove name a =>
      exact remove_tracks howned hsound hs
  | update name source =>
      exact update_tracks howned hsound hs
  | updateFrom name source =>
      exact updateFrom_tracks howned hsound hs

end Peaks
