import Peaks.Proofs.Landings

/-!
# A batch and its pairs one by one

A batch of pairs leaves a handle with the same points, the same maxima and the same pool as the same
pairs set one after another through the handle. The batch works on a private copy that it fills
without asking first, and the single calls ask first and make a private copy when they must, but
whether a pair finds anything to change is decided alike on both sides.

- `Workspace.setEach`   : the pairs one after another
- `Workspace.changesIn` : how many of the calls find something to change
- `Workspace.Mirror`    : the private copy of a batch shows what the handle shows on the other side
- `Workspace.put_beside_set` : one pair
- `Workspace.update_eq_setEach` : all pairs, in every program
-/

namespace Peaks
namespace Workspace

variable {σ : Type}

/-! ## Calls in a row -/

/-- Sets pairs through a handle, one after another. -/
def setEach (name : String) : List (Payload × Payload) → Attempt (Workspace σ) Unit
  | [] => pure ()
  | (a, v) :: rest => do
      set name a v
      setEach name rest

/-- How many pairs have no tied value at their argument when they are set one after another. -/
def changesIn (name : String) : List (Payload × Payload) → Workspace σ → Nat
  | [], _ => 0
  | (a, v) :: rest, w =>
      (match query name (Store.wouldKeep · · a v) w with
        | .ok true _ => 0
        | _ => 1) + changesIn name rest ((set name a v).stateAfter w)

variable {w t u u' : Workspace σ} {name : String} {e : Nat} {owner : Handle} {s : Shared Nat}
  {h : Holding σ}
  {b : Batch σ} {tally : Tally} {a v : Payload}

theorem Leases.query_eq (hleases : w.Leases name owner e s) (hh : w.holdings[s.content]? = some h)
    {α : Type} (question : Rules σ → Store → Attempt σ α) :
    query name question w = onHost (question h.rules h.store) w := by
  rw [query, Attempt.bind_of_ok hleases.holdingOf_eq, ask, Attempt.bind_of_ok (holding_eq_ok hh)]

/-- A set that returns has asked first, and has written only if there was something to change. -/
theorem Leases.exists_of_set_ok (hleases : w.Leases name owner e s)
    (hh : w.holdings[s.content]? = some h)
    (hrun : set name a v w = .ok ⟨⟩ t) :
    ∃ keep host, h.store.wouldKeep h.rules a v w.host = .ok keep host ∧
      query name (Store.wouldKeep · · a v) w = .ok keep { w with host := host } ∧
      (keep = true → t = { w with host := host }.counted name Tally.noop) ∧
      (keep = false → ∃ changed u, mutate name (Editor.set · a v)
        { w with host := host } = .ok changed u ∧
        t = u.counted name fun t => { t with sets := t.sets + 1 }) := by
  rw [set, Attempt.bind_of_ok hleases.holdingOf_eq] at hrun
  rcases Attempt.exists_of_bind_ok hrun with ⟨keep, u, hask, hrun⟩
  have hquery : query name (Store.wouldKeep · · a v) w = .ok keep u := by
    rw [query, Attempt.bind_of_ok hleases.holdingOf_eq]
    exact hask
  rcases exists_of_onHost_ok
    ((hleases.query_eq hh (Store.wouldKeep · · a v)).symm.trans hquery) with
    ⟨host, hkeep, rfl⟩
  refine ⟨keep, host, hkeep, hquery, fun htrue => ?_, fun hfalse => ?_⟩
  · rw [htrue, if_pos rfl] at hrun
    cases hrun
    rfl
  · rw [hfalse, if_neg (by simp)] at hrun
    rcases Attempt.exists_of_bind_ok hrun with ⟨changed, u, hmutate, hcount⟩
    cases hcount
    exact ⟨changed, u, hmutate, rfl⟩

/-! ## One pair -/

/-- A batch in the making in `t`, and single calls that have led from `w` to `u`: the private copy
shows what the handle shows, and both have taken the same from the mint and from the pools. -/
structure Mirror (name : String) (w : Workspace σ) (tally : Tally) (b : Batch σ)
    (t u : Workspace σ) : Prop where
  arrived : Arrived name w tally b.copy.shown u
  mint : u.mint = t.mint
  pools : u.pools = t.pools

/-- An editor that only asked gives everything back as it was, but for the host. -/
theorem absorb_eq_of_idle {p : Pool} (hpool : w.pools[h.pool]? = some p) (host : σ) :
    w.absorb h.pool { w.editor h p with host := host } = { w with host := host } := by
  simp only [absorb, editor, set_eq_of_getElem? hpool]

/-- The editors for the private copy and for the holding of the handle match. -/
theorem Mirror.matches_editor (hmirror : Mirror name w tally b t u)
    (hshown : h.shown = b.copy.shown)
    (p : Pool) : Editor.Matches (t.editor b.copy p) (u.editor h p) where
  mint := hmirror.mint
  pool := rfl
  points := congrArg Shown.points hshown
  maxima := congrArg Shown.maxima hshown

/-- One pair, put into the private copy and set through the handle. -/
theorem put_beside_set (hsteady : b.copy.rules.Steady) (hmirror : Mirror name w tally b t u) :
    (b.put a v).Beside (set name a v) t u fun b' t' _ u' => ∃ keep tally' u₁,
      query name (Store.wouldKeep · · a v) u = .ok keep u₁ ∧ Mirror name w tally' b' t' u' ∧
      b'.copy.rules = b.copy.rules ∧ b'.changed = b.changed + (if keep then 0 else 1) ∧
      tally'.sets = tally.sets + (if keep then 0 else 1) ∧
      tally'.noops = tally.noops + (if keep then 1 else 0) := by
  intro b' t' _ u' hput hset
  -- what the batch does
  rcases Attempt.exists_of_bind_ok hput with ⟨⟨changed, store⟩, t₁, hedit, hput⟩
  rcases exists_of_editDetached_ok hedit with ⟨p, x, hpool, hx, rfl, rfl⟩
  cases hput
  -- what the call does
  rcases hmirror.arrived.resolve with ⟨owner, e, s, h, hleases, hh, hshown, rfl⟩
  rcases hleases.exists_of_set_ok hh hset with ⟨keep, host, hkeep, hquery, hkept, hwritten⟩
  have hrules : h.rules = b.copy.rules := congrArg Shown.rules hshown
  have hpoolId : h.pool = b.copy.pool := congrArg Shown.pool hshown
  -- both find out the same, though they ask at different times
  rcases Editor.set_endsFrom_wouldKeep.ok hx with ⟨host', hkeep', hidle⟩
  have hsame : keep = !changed := by
    have hpoints : h.store.points = b.copy.store.points := congrArg Shown.points hshown
    rw [hrules, Store.wouldKeep_congr hpoints] at hkeep
    exact Store.wouldKeep_steady hsteady _ a v _ _ _ _ _ _ hkeep hkeep'
  have hasked : Alike u { u with host := host } := ⟨rfl, rfl, rfl⟩
  cases changed with
  | false =>
      -- the copy is as it was, and nothing was taken from the pool
      have hkept := hkept hsame
      have hidle := hidle rfl
      subst hidle hkept hsame
      rw [absorb_eq_of_idle hpool]
      have harrived := (hmirror.arrived.alike hasked).counted Tally.noop
      exact ⟨true, _, _, hquery, ⟨harrived, hmirror.mint, hmirror.pools⟩, rfl, rfl, rfl, rfl⟩
  | true =>
      rcases hwritten hsame with ⟨changed, u₂, hmutate, rfl⟩
      subst hsame
      -- the handle writes what went into the copy
      have hr : Resolved { u with host := host } name owner e s h p := by
        refine ⟨⟨hleases.handle, hleases.lease, hleases.share⟩, hh, ?_⟩
        rw [hpoolId]
        exact hmirror.pools ▸ hpool
      rcases (hr.mutate_endsFrom (hmirror.arrived.owned.alike hasked) (Editor.set · a v)).ok
        hmutate with
        ⟨y, y', tally', hmatches, hy, harrived, htally, hmint, hpools⟩
      rw [hrules] at hy
      have hboth : Editor.Matches (t.editor b.copy p) y :=
        (hmirror.matches_editor hshown p).trans
          ⟨hmatches.mint, hmatches.pool, hmatches.points, hmatches.maxima⟩
      rcases Editor.set_beside hsteady a v hboth _ _ _ _ hx hy with ⟨_, hdone⟩
      have hshown' : { h with store := y'.store }.shown =
          { b.copy with store := x.store }.shown := by
        simp only [Holding.shown, hrules, hpoolId, hdone.points, hdone.maxima]
      rw [hshown'] at harrived
      have hled := ((hmirror.arrived.alike hasked).trans harrived).counted
        fun t => { t with sets := t.sets + 1 }
      refine ⟨false, _, _, hquery, ⟨hled, ?_, ?_⟩, rfl, rfl, ?_, ?_⟩
      · exact hmint.trans hdone.mint
      · calc u₂.pools = u.pools.set h.pool y'.pool := hpools
          _ = t.pools.set b.copy.pool x.pool := by rw [hmirror.pools, hpoolId, hdone.pool]
      · rcases htally with rfl | rfl
        · rfl
        · rfl
      · rcases htally with rfl | rfl
        · rfl
        · rfl

/-! ## All pairs -/

theorem changesIn_cons {keep : Bool} {u₁ : Workspace σ} (rest : List (Payload × Payload))
    (hquery : query name (Store.wouldKeep · · a v) w = .ok keep u₁)
    (hset : set name a v w = .ok ⟨⟩ t) :
    changesIn name ((a, v) :: rest) w = (if keep then 0 else 1) + changesIn name rest t := by
  have hafter : (set name a v).stateAfter w = t := by
    rw [Attempt.stateAfter, hset]
  rw [changesIn, hafter, hquery]
  cases keep with
  | true =>
      rfl
  | false =>
      rfl

theorem foldRows_ofPairs_cons {β τ : Type} {step : β → Payload → Payload → Attempt τ β} (b : β)
    (rest : List (Payload × Payload)) :
    Source.foldRows step b (Source.ofPairs ((a, v) :: rest)).rows =
      step b a v >>= fun b' => Source.foldRows step b' (Source.ofPairs rest).rows :=
  rfl

/-- The private copy goes on to show what the handle shows, pair after pair. -/
theorem foldRows_beside_setEach (pairs : List (Payload × Payload)) (hsteady : b.copy.rules.Steady)
    (hmirror : Mirror name w tally b t u) :
    (Source.foldRows Batch.put b (Source.ofPairs pairs).rows).Beside (setEach name pairs) t u
      fun b' t' _ u' => ∃ tally', Mirror name w tally' b' t' u' ∧
        b'.changed = b.changed + changesIn name pairs u ∧
        tally'.sets = tally.sets + changesIn name pairs u ∧
        tally'.noops + changesIn name pairs u = tally.noops + pairs.length := by
  -- each pair starts where the pairs before it have led on both sides
  induction pairs generalizing b tally t u with
  | nil =>
      exact .pure ⟨tally, hmirror, rfl, rfl, rfl⟩
  | cons pair rest ih =>
      rcases pair with ⟨a, v⟩
      intro b'' t'' _ u'' hfold hsets
      rw [foldRows_ofPairs_cons] at hfold
      rcases Attempt.exists_of_bind_ok hfold with ⟨b', t', hput, hfold⟩
      rcases Attempt.exists_of_bind_ok hsets with ⟨_, u', hset, hsets⟩
      rcases put_beside_set hsteady hmirror _ _ _ _ hput hset with
        ⟨keep, tally', u₁, hquery, hmirror', hrules, hchanged, hsetsCount, hnoops⟩
      rcases ih (hrules ▸ hsteady) hmirror' _ _ _ _ hfold hsets with
        ⟨tally'', hmirror'', hchanged', hsetsCount', hnoops'⟩
      have hcount := changesIn_cons rest hquery hset
      refine ⟨tally'', hmirror'', ?_, ?_, ?_⟩
      · rw [hchanged', hchanged, hcount, Nat.add_assoc]
      · rw [hsetsCount', hsetsCount, hcount, Nat.add_assoc]
      · rw [hcount, List.length_cons]
        cases keep with
        | true =>
            simp only [if_true] at hnoops ⊢
            omega
        | false =>
            simp only [Bool.false_eq_true, if_false] at hnoops ⊢
            omega

theorem exists_of_fold_ofPairs_ok {pairs : List (Payload × Payload)} {b' : Batch σ}
    (hrun : (Source.ofPairs pairs).fold Batch.put b t = .ok b' u) :
    Source.foldRows Batch.put b (Source.ofPairs pairs).rows t = .ok b' u := by
  rcases Attempt.exists_of_bind_ok hrun with ⟨b₁, u₁, hrows, hfinish⟩
  cases hfinish
  exact hrows

/-- In every program, for every handle with steady rules: if a batch of pairs and the same pairs set
one after another both return, they leave the handle with the same points, made of the same cells,
and the same maxima in the same order. They leave the pools with the same entries and counters. The
batch counts as many sets as there are single calls that find something to change, and so do the
single calls, which count all others as no-ops. No other handle notices either. -/
theorem update_eq_setEach {host : σ} {mint : Mint} {events : List (Event σ)}
    {pairs : List (Payload × Payload)} (hw : w = (blank host mint).play events)
    (howner : w.handle? name = some owner) (hsteady : ∀ c, w.shown? name = some c → c.rules.Steady)
    (hupdate : update name (.ofPairs pairs) w = .ok ⟨⟩ t)
    (hsets : setEach name pairs w = .ok ⟨⟩ u) :
    (∃ c, t.shown? name = some c ∧ u.shown? name = some c) ∧ t.mint = u.mint ∧ t.pools = u.pools ∧
    (∃ tally, (t.handle? name).map Handle.tally = some tally ∧
      tally.sets = owner.tally.sets + changesIn name pairs w) ∧
    (∃ tally, (u.handle? name).map Handle.tally = some tally ∧
      tally.sets = owner.tally.sets + changesIn name pairs w ∧
      tally.noops + changesIn name pairs w = owner.tally.noops + pairs.length) ∧
    ∀ g, g ≠ name → t.leaseOf? g = w.leaseOf? g ∧ u.leaseOf? g = w.leaseOf? g := by
  have howned : w.Owned [] := hw ▸ (Owned.blank host mint).play events
  rcases howned.leases_of_mem (List.mem_of_find?_eq_some howner) with ⟨e, s, hleases, hlt⟩
  rw [name_of_handle? howner] at hleases
  have hh := List.getElem?_eq_getElem hlt
  have harrived := hleases.refl_arrived howned hh
  -- at first the private copy shows what the handle shows
  have hstart := hleases.start_eq hh
  have hmirror : Mirror name w owner.tally
      { name := name, entry := e, copy := w.holdings[s.content].clone } w w :=
    ⟨harrived, rfl, rfl⟩
  rcases exists_of_update_ok hstart hupdate with ⟨b, t₁, hfold, hpublish⟩
  rcases (fold_alike _ _).ok hfold with ⟨halike, hcontinues⟩
  rcases foldRows_beside_setEach pairs (hsteady _ harrived.shown) hmirror _ _ _ _
    (exists_of_fold_ofPairs_ok hfold) hsets with ⟨tally, hmirror', hchanged, hsetsCount, hnoops⟩
  -- and then the handle shows the private copy
  have hleases' : t₁.Leases name owner e s :=
    ⟨(halike.handle? name).trans hleases.handle, hleases.lease, halike.shares ▸ hleases.share⟩
  rcases hleases'.publish_arrived (howned.alike halike) hcontinues.name hcontinues.entry
    (by rw [halike.holdings]; exact hh) hcontinues.copy with ⟨t₂, tally', hpublish', harrived',
      htally, hmint, hpools⟩
  cases hpublish.symm.trans hpublish'
  refine ⟨⟨_, harrived'.shown, hmirror'.arrived.shown⟩, hmint.trans hmirror'.mint.symm,
    hpools.trans hmirror'.pools.symm, ⟨_, harrived'.tally, ?_⟩,
    ⟨tally, hmirror'.arrived.tally, hsetsCount, hnoops⟩,
    fun g hg => ⟨?_, hmirror'.arrived.kept g hg⟩⟩
  · rw [Tally.batch, hchanged]
    rcases htally with rfl | rfl
    · simp
    · simp [Tally.clone]
  · exact (harrived'.kept g hg).trans (halike.leaseOf?_eq g)

/-- Two handles on one entry. -/
def weakPeers : Workspace Surroundings :=
  weakBlank.play [.step (.create "f" { rules := .metered }), .step (.set "f" (.weak 10) (.weak 50)),
    .step (.copy "g" "f")]

/-- The second pair is tied with the first one, and the last one takes the place of a point. -/
def weakRow : List (Payload × Payload) :=
  [(.weak 25, .weak 52), (.weak 27, .weak 51), (.weak 11, .weak 70)]

theorem weakPeers_rules : (weakPeers.shown? "g").map Shown.rules = some Rules.metered := by
  with_unfolding_all rfl

theorem update_eq_setEach_weak :
    ∃ t u, update "g" (.ofPairs weakRow) weakPeers = .ok ⟨⟩ t ∧
      setEach "g" weakRow weakPeers = .ok ⟨⟩ u ∧
      changesIn "g" weakRow weakPeers = 2 ∧ (∃ c, t.shown? "g" = some c ∧ u.shown? "g" = some c) ∧
      t.pools = u.pools ∧ t.leaseOf? "f" = weakPeers.leaseOf? "f" := by
  rcases Attempt.exists_ok_of_outcome
    (show (Attempt.outcome (update "g" (.ofPairs weakRow)) weakPeers).isOk = true by
    decide +kernel) with ⟨_, t, hupdate⟩
  rcases Attempt.exists_ok_of_outcome
    (show (Attempt.outcome (setEach "g" weakRow) weakPeers).isOk = true by
    decide +kernel) with ⟨_, u, hsets⟩
  have howner : (weakPeers.handle? "g").isSome = true := by decide +kernel
  rcases Option.isSome_iff_exists.1 howner with ⟨owner, howner⟩
  have hsteady : ∀ c, weakPeers.shown? "g" = some c → c.rules.Steady := by
    intro c hc
    have hrules := weakPeers_rules
    rw [hc] at hrules
    rw [Option.some.inj hrules]
    exact Rules.ofOrders_steady _ _
  rcases update_eq_setEach rfl howner hsteady hupdate hsets with ⟨hshown, _, hpools, _, _, hkept⟩
  exact ⟨t, u, hupdate, hsets, by decide +kernel, hshown, hpools, (hkept "f" (by decide)).1⟩

end Workspace
end Peaks
