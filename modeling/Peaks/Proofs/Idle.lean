import Peaks.Proofs.Heirs
import Peaks.Proofs.OneByOne

/-!
# Calls with nothing to do

A set of a value that is tied with the one already there, and an erasure of an argument that is not
there, are counted and otherwise leave everything as it was. A batch of such sets is published all
the same: an owner that shares its holding moves to a private copy, and a sole owner's holding goes
one version up, so that no walk over it can go on.

- `Store.Holds`, `Store.Lacks` : a tied value is there, and no tied argument is
- `Workspace.Idle`    : nothing but the host and one tally was changed
- `Workspace.foldRows_idle` : a batch of pairs that are all there leaves its private copy as it is
- `Workspace.Halted`  : a batch that failed over one of its questions
- `Workspace.Frugal`  : what calls with nothing to do leave behind
- `Workspace.play_frugal` : all of it, in every program
-/

namespace Peaks

variable {σ : Type} {rank : Rules σ → Rankings}

/-! ## What a store holds -/

namespace Store

/-- A point tied with the argument has a value tied with the given one. -/
def Holds (R : Rankings) (s : Store) (a v : Payload) : Prop :=
  ∃ p ∈ s.points, Tied R.argument.before p.argument a ∧ Tied R.value.before p.value v

/-- No point is tied with the argument. -/
def Lacks (R : Rankings) (s : Store) (a : Payload) : Prop :=
  ∀ p ∈ s.points, ¬ Tied R.argument.before p.argument a

variable {rules : Rules σ} {R : Rankings} {next : Nat} {s : Store} {a v : Payload}
  (hs : s.Valid R next)
  (hR : rules.Follow R) (ha : R.argument.domain a)
include hs hR ha

theorem Valid.find?_ensures :
    (s.find? rules a).Ensures
      (fun found _ => ∃ entry, Located R s.points a entry ∧ found = entry.map (·.2))
      rules.Raised :=
  (PointIndex.locate_ensures hR ha hs.covers hs.increasing).map fun entry _ h => ⟨entry, h, rfl⟩

theorem Valid.find?_of_lacks (hlacks : s.Lacks R a) :
    (s.find? rules a).Ensures (fun found _ => found = none) fun _ _ => True := by
  intro host
  refine (Valid.find?_ensures hs hR ha host).imp ?_ fun _ _ _ => trivial
  intro found t hfound
  rcases hfound with ⟨entry, hlocated, rfl⟩
  cases entry with
  | none =>
      rfl
  | some entry =>
      exact absurd hlocated.tied (hlacks entry.2 hlocated.mem)

/-- A tied value is found wherever the comparisons return. -/
theorem Valid.wouldKeep_of_holds (hv : R.value.domain v) (hholds : s.Holds R a v) :
    (s.wouldKeep rules a v).Ensures (fun keep _ => keep = true) fun _ _ => True := by
  rcases hholds with ⟨p, hp, hargument, hvalue⟩
  intro host
  have hfind : (s.find? rules a).EndsFrom host
      (fun found _ => ∃ entry, Located R s.points a entry ∧ found = entry.map (·.2))
      fun _ _ => True :=
    (Valid.find?_ensures hs hR ha host).imp (fun _ _ h => h) fun _ _ _ => trivial
  refine hfind.bind ?_
  intro found t hfound
  rcases hfound with ⟨entry, hlocated, rfl⟩
  cases entry with
  | none =>
      exact absurd hargument (hlocated.not_tied_of_none hp)
  | some entry =>
      -- there is no other point at this argument
      rw [hlocated.eq_of_tied hp hargument] at hvalue
      have hcovers := hs.covers entry.2 hlocated.mem
      have htie := Comparator.equivalent_ensures (hR.value_ensures hcovers.2 hv)
      exact (htie t).imp (fun tie _ h => h.2 hvalue) fun _ _ _ => trivial

end Store

namespace Workspace

variable {w t u : Workspace σ} {name : String} {e : Nat} {owner : Handle} {s : Shared Nat}
  {h : Holding σ}
  {p : Pool} {a v : Payload}

/-! ## Single calls -/

/-- Nothing but the host and the tally of one handle was changed. -/
def Idle (name : String) (f : Tally → Tally) (w t : Workspace σ) : Prop :=
  ∃ host, t = { w with host := host }.counted name f

section Calls

variable (hleases : w.Leases name owner e s) (hh : w.holdings[s.content]? = some h)
include hleases hh

theorem Leases.set_idle
    (hkeep : (h.store.wouldKeep h.rules a v).Ensures (fun keep _ => keep = true) fun _ _ => True) :
    (set name a v).EndsFrom w (fun _ t => Idle name Tally.noop w t)
      (fun _ t => Idle name id w t) := by
  refine .bind_ok hleases.holdingOf_eq ?_
  cases hrun : h.store.wouldKeep h.rules a v w.host with
  | ok keep host =>
      refine .bind_ok ((Attempt.bind_of_ok (holding_eq_ok hh)).trans (onHost_eq_ok hrun)) ?_
      rw [hkeep.ok hrun, if_pos rfl]
      exact ⟨host, rfl⟩
  | error fault host =>
      refine .bind_error ((Attempt.bind_of_ok (holding_eq_ok hh)).trans (onHost_eq_error hrun))
        ⟨host, ?_⟩
      rw [counted_id]

theorem Leases.erase_idle
    (hfind : (h.store.find? h.rules a).Ensures (fun found _ => found = none) fun _ _ => True) :
    (erase name a).EndsFrom w (fun _ t => Idle name Tally.noop w t)
      (fun _ t => Idle name id w t) := by
  refine .bind_ok hleases.holdingOf_eq ?_
  cases hrun : h.store.find? h.rules a w.host with
  | ok found host =>
      refine .bind_ok ((Attempt.bind_of_ok (holding_eq_ok hh)).trans (onHost_eq_ok hrun)) ?_
      rw [hfind.ok hrun]
      exact ⟨host, rfl⟩
  | error fault host =>
      refine .bind_error ((Attempt.bind_of_ok (holding_eq_ok hh)).trans (onHost_eq_error hrun))
        ⟨host, ?_⟩
      rw [counted_id]

end Calls

/-- A set is counted as a no-op exactly if a set on the implementation itself would say that it
changed nothing. -/
theorem Resolved.noop_iff (hw : w.Owned []) (hr : w.Resolved name owner e s h p) :
    (∃ t, set name a v w = .ok ⟨⟩ t ∧ t.handle? name = some
      { owner with tally := owner.tally.noop }) ↔
      ∃ x, Editor.set h.rules a v (w.editor h p) = .ok false x := by
  rw [Editor.set_eq_false_iff]
  constructor
  · intro hset
    rcases hset with ⟨t, hset, hcounted⟩
    rcases hr.exists_of_set_ok hr.holding hset with ⟨keep, host, hkeep, _, _, hwritten⟩
    cases keep with
    | true =>
        exact ⟨host, hkeep⟩
    | false =>
        -- a set that was made has left the number of no-ops as it was
        rcases hwritten rfl with ⟨changed, u, hmutate, rfl⟩
        have hr' : Resolved { w with host := host } name owner e s h p :=
          ⟨⟨hr.handle, hr.lease, hr.share⟩, hr.holding, hr.pool⟩
        have hasked : Alike w { w with host := host } := ⟨rfl, rfl, rfl⟩
        rcases (hr'.mutate_endsFrom (hw.alike hasked) _).ok hmutate with
          ⟨_, _, tally, _, _, harrived, htally, _⟩
        have hsets := (harrived.counted fun t => { t with sets := t.sets + 1 }).tally
        rw [hcounted, Option.map_some] at hsets
        have hnoops := congrArg Tally.noops (Option.some.inj hsets)
        rcases htally with rfl | rfl
        · simp [Tally.noop] at hnoops
        · simp [Tally.noop, Tally.clone] at hnoops
  · intro hkeep
    rcases hkeep with ⟨host, hkeep⟩
    have hask : ask s.content (Store.wouldKeep · · a v) w = .ok true { w with host := host } :=
      (Attempt.bind_of_ok (holding_eq_ok hr.holding)).trans (onHost_eq_ok hkeep)
    refine ⟨{ w with host := host }.counted name Tally.noop, ?_, handle?_counted_self hr.handle _⟩
    rw [set, Attempt.bind_of_ok hr.holdingOf_eq, Attempt.bind_of_ok hask, if_pos rfl]
    rfl

/-! ## Batches -/

/-- A pair that is already there goes into the private copy without a change. -/
theorem put_idle {b : Batch σ} (hpool : w.pools[b.copy.pool]? = some p)
    (hkeep : (b.copy.store.wouldKeep b.copy.rules a v).Ensures
      (fun keep _ => keep = true) fun _ _ => True) :
    (b.put a v).EndsFrom w (fun b' t => b' = b ∧ ∃ host, t = { w with host := host })
      (fun _ t => ∃ host, t = { w with host := host }) := by
  have hset : (Editor.set b.copy.rules a v).EndsFrom (w.editor b.copy p)
      (fun changed x => changed = false ∧ ∃ host, x = { w.editor b.copy p with host := host })
      (fun _ x => ∃ host, x = { w.editor b.copy p with host := host }) := by
    refine Editor.set_endsFrom_wouldKeep.imp ?_ ?_
    · intro changed x hx
      rcases hx with ⟨host, hrun, hidle⟩
      have hchanged : changed = false := by simpa using hkeep.ok hrun
      exact ⟨hchanged, host, hidle hchanged⟩
    · intro fault x hx
      rcases hx with ⟨host, hrun | ⟨_, hidle⟩⟩
      · exact absurd (hkeep.ok hrun) (by simp)
      · exact ⟨host, hidle⟩
  refine ((editDetached_endsFrom hpool hset).imp (fun _ _ h => h) ?_).bind ?_
  · intro fault t ht
    rcases ht with ⟨x, ⟨host, rfl⟩, rfl⟩
    exact ⟨host, absorb_eq_of_idle hpool host⟩
  · intro r t ht
    rcases ht with ⟨x, ⟨hchanged, host, rfl⟩, hstore, rfl⟩
    refine .pure ⟨?_, host, absorb_eq_of_idle hpool host⟩
    rw [hchanged, hstore]
    rfl

/-- A batch of pairs that are all there leaves its private copy as it is. -/
theorem foldRows_idle {b : Batch σ} {pairs : List (Payload × Payload)}
    (hpool : w.pools[b.copy.pool]? = some p)
    (hkeep : ∀ q ∈ pairs, (b.copy.store.wouldKeep b.copy.rules q.1 q.2).Ensures
      (fun keep _ => keep = true)
      fun _ _ => True) :
    (Source.foldRows Batch.put b (Source.ofPairs pairs).rows).EndsFrom w
      (fun b' t => b' = b ∧ ∃ host, t = { w with host := host })
      (fun _ t => ∃ host, t = { w with host := host }) := by
  induction pairs generalizing w with
  | nil =>
      exact ⟨rfl, w.host, rfl⟩
  | cons pair rest ih =>
      rcases pair with ⟨a, v⟩
      rw [foldRows_ofPairs_cons]
      refine (put_idle hpool (hkeep (a, v) List.mem_cons_self)).bind ?_
      intro b' t ht
      rcases ht with ⟨rfl, host, rfl⟩
      exact ih hpool fun q hq => hkeep q (List.mem_cons_of_mem _ hq)

/-- A batch that changed nothing was published: a handle that shares its entry has moved to a
private copy at version zero, and the holding of a sole owner has gone one version up. -/
inductive Republished (name : String) (owner : Handle) (s : Shared Nat) (h : Holding σ)
    (w t : Workspace σ) : Prop
  | moved (host : σ) (shared : s.isShared = true)
      (eq : t = (({ w with host := host }.installed h.clone).rebound name owner.lease
        w.shares.length).counted name Tally.clone)
  | bumped (host : σ) (sole : s.isShared = false)
      (eq : t = { w with host := host }.stored s.content h
        { h.store with version := h.store.version + 1 })

/-- What is left of a batch that had nothing to do when a comparison failed. The failure is counted
if it could be told. -/
def Halted (name : String) (fault : Fault) (w t : Workspace σ) : Prop :=
  ∃ (cause : Fault) (host : σ) (journal : Journal), fault = cause.reported ∧
    t = { w with host := host, journal := journal }.counted name
      (if cause.isWritable then Tally.rollback else id)

theorem Leases.update_idle {pairs : List (Payload × Payload)} (hleases : w.Leases name owner e s)
    (hh : w.holdings[s.content]? = some h) (hpool : w.pools[h.pool]? = some p)
    (hkeep : ∀ q ∈ pairs, (h.store.wouldKeep h.rules q.1 q.2).Ensures (fun keep _ => keep = true)
      fun _ _ => True) :
    (update name (.ofPairs pairs)).EndsFrom w (fun _ t => Republished name owner s h w t)
      (fun fault t => Halted name fault w t) := by
  have hkeep' : ∀ q ∈ pairs, (h.clone.store.wouldKeep h.clone.rules q.1 q.2).Ensures
      (fun keep _ => keep = true) fun _ _ => True := hkeep
  refine .bind_ok (hleases.start_eq hh)
    (.settle_bind ((foldRows_idle hpool hkeep').bind fun b t ht => .pure ht)
    ?_ ?_)
  · intro b t ht
    rcases ht with ⟨rfl, host, rfl⟩
    cases hshared : s.isShared with
    | true =>
        have hpublish := Batch.publish_eq_of_shared (w := { w with host := host })
          (b := { name := name, entry := e, copy := h.clone }) hleases.share hshared hleases.handle
        refine .of_runs (fun _ u hrun => ?_) fun _ u hrun => ?_
        · cases hpublish.symm.trans hrun
          exact .moved host hshared rfl
        · cases hpublish.symm.trans hrun
    | false =>
        have hpublish := Batch.publish_eq_of_sole (w := { w with host := host })
          (b := { name := name, entry := e, copy := h.clone }) hleases.share hshared hh
        refine .of_runs (fun _ u hrun => ?_) fun _ u hrun => ?_
        · cases hpublish.symm.trans hrun
          refine .bumped host hshared ?_
          exact counted_id _ name
        · cases hpublish.symm.trans hrun
  · intro fault t ht
    rcases ht with ⟨host, rfl⟩
    refine report_bind (fun hwritable journal => ?_) fun hmute => ?_
    · refine .bind_ok (count_eq _ name Tally.rollback) ?_
      refine ⟨fault, host, journal, (Fault.reported_of_writable hwritable).symm, ?_⟩
      rw [if_pos hwritable]
    · refine ⟨fault, host, w.journal, (Fault.reported_of_mute hmute).symm, ?_⟩
      rw [if_neg (by simp [hmute])]
      exact (counted_id _ name).symm

/-! ## Walks -/

/-- What a cursor gives out next. -/
def peek (w : Workspace σ) (c : Cursor) : Option (Except Fault (Option Point)) :=
  (w.shows? c.holding).map fun s => (c.next s).1

theorem Idle.peek_eq {f : Tally → Tally} (hidle : Idle name f w t) (c : Cursor) :
    t.peek c = w.peek c := by
  have hholdings : t.holdings = w.holdings := by
    rcases hidle with ⟨host, rfl⟩
    rfl
  rw [peek, peek, shows?_of_holdings_eq hholdings]

/-- Steps are actions too. -/
theorem stateAfter_step (s : Step σ) (w : Workspace σ) :
    (Action.step s).run.stateAfter w = (perform s).stateAfter w := by
  unfold Attempt.stateAfter
  cases hrun : perform s w with
  | ok a t =>
      rw [Action.run, Attempt.get_bind_run, Attempt.bind_of_ok hrun]
      rfl
  | error fault t =>
      rw [Action.run, Attempt.get_bind_run, Attempt.bind_of_error hrun]

theorem Inherited.play (hw : w.Inherited) (events : List (Event σ)) :
    (w.play events).Inherited := by
  induction events generalizing w with
  | nil =>
      exact hw
  | cons event events ih =>
      refine ih ?_
      cases event with
      | step s =>
          rcases Tour.act_aged w (.step s) with ⟨target, haged⟩
          rw [stateAfter_step] at haged
          exact haged.inherited hw
      | host change =>
          exact hw

/-- A cursor that was up to date with the holding has missed a version. -/
theorem Inherited.peek_bumped (hw : w.Inherited) (hh : w.holdings[s.content]? = some h) {c : Cursor}
    (hholding : c.holding = s.content) (hunfinished : c.finished = false)
    (hversion : c.version = h.store.version) :
    (w.stored s.content h { h.store with version := h.store.version + 1 }).peek c =
      some (.error .modifiedDuringIteration) := by
  have haged : w.Aged (some s.content)
      (w.stored s.content h { h.store with version := h.store.version + 1 }) :=
    .of_set hh rfl (Or.inr ⟨rfl, rfl⟩)
  have hself := List.getElem?_set_self
    (a := { h with store := { h.store with version := h.store.version + 1 } })
    (List.getElem?_eq_some_iff.1 hh).1
  rcases (haged.inherited hw).shown_eq hself with ⟨s', _, hversion', hshows⟩
  have hstale : s'.version ≠ c.version := by
    rw [hversion', hversion]
    exact Nat.succ_ne_self _
  rw [peek, hholding, hshows, Option.map_some, Cursor.next_of_version_ne hunfinished hstale]

/-! ## Every program -/

/-- What calls with nothing to do leave behind. -/
structure Frugal (rank : Rules σ → Rankings) (w : Workspace σ) (name : String) (owner : Handle)
    (s : Shared Nat) (h : Holding σ) (p : Pool) : Prop where
  /-- A set of a tied value is counted, and nothing else changes: no lease, no count of owners, no
  holding. So all cursors can go on. -/
  set : ∀ a v, (rank h.rules).argument.domain a → (rank h.rules).value.domain v →
    h.store.Holds (rank h.rules) a v →
    (set name a v).EndsFrom w (fun _ t => Idle name Tally.noop w t ∧ ∀ c, t.peek c = w.peek c)
      (fun _ t => Idle name id w t)
  /-- So does an erasure of an argument that is not there. -/
  erase : ∀ a, (rank h.rules).argument.domain a → h.store.Lacks (rank h.rules) a →
    (erase name a).EndsFrom w (fun _ t => Idle name Tally.noop w t ∧ ∀ c, t.peek c = w.peek c)
      (fun _ t => Idle name id w t)
  /-- A set is counted as a no-op exactly if the implementation would have said that it changed
  nothing. -/
  noop_iff : ∀ a v,
    (∃ t, Workspace.set name a v w = .ok ⟨⟩ t ∧
      t.handle? name = some { owner with tally := owner.tally.noop }) ↔
      ∃ x, Editor.set h.rules a v (w.editor h p) = .ok false x
  /-- A batch of tied values, or of none at all, is published. -/
  batch : ∀ pairs : List (Payload × Payload), (∀ q ∈ pairs, (rank h.rules).argument.domain q.1 ∧
      (rank h.rules).value.domain q.2 ∧ h.store.Holds (rank h.rules) q.1 q.2) →
    (update name (.ofPairs pairs)).EndsFrom w (fun _ t => Republished name owner s h w t)
      (fun fault t => Halted name fault w t)
  /-- Where it is published in place, no cursor that was up to date can go on. -/
  stale : s.isShared = false → ∀ t, Republished name owner s h w t →
    ∀ c : Cursor, c.holding = s.content →
    c.finished = false → c.version = h.store.version →
    t.peek c = some (.error .modifiedDuringIteration)

/-- In every program over strict weak orderings: sets of tied values and erasures of absent
arguments cost nothing but a tick of the counter, and batches with nothing to do cost a private copy
or a version. -/
theorem play_frugal {host : σ} {mint : Mint} {events : List (Event σ)}
    (hplays : Plays rank (blank host mint) events) (hw : w = (blank host mint).play events)
    (hr : w.Resolved name owner e s h p) : w.Frugal rank name owner s h p := by
  have hblank : (blank host mint).Orderly rank := .blank host mint
  have horderly : w.Orderly rank := hw ▸ hblank.play hplays
  have hinherited : w.Inherited := by
    have hnone : (blank host mint : Workspace σ).Inherited := fun h hh => nomatch hh
    exact hw ▸ hnone.play events
  have hmem : h ∈ w.holdings := List.mem_of_getElem? hr.holding
  have hvalid := horderly.sound.valid h hmem
  have hfollow := horderly.sound.follow h hmem
  refine ⟨fun a v ha hv hholds => ?_, fun a ha hlacks => ?_, fun a v => hr.noop_iff horderly.owned,
    fun pairs hpairs => ?_, fun hsole t ht c hholding hunfinished hversion => ?_⟩
  · refine (hr.set_idle hr.holding (hvalid.wouldKeep_of_holds hfollow ha hv hholds)).imp ?_
      fun _ _ h => h
    intro _ t ht
    exact ⟨ht, ht.peek_eq⟩
  · refine (hr.erase_idle hr.holding (hvalid.find?_of_lacks hfollow ha hlacks)).imp ?_
      fun _ _ h => h
    intro _ t ht
    exact ⟨ht, ht.peek_eq⟩
  · refine hr.update_idle hr.holding hr.pool fun q hq => ?_
    rcases hpairs q hq with ⟨ha, hv, hholds⟩
    exact hvalid.wouldKeep_of_holds hfollow ha hv hholds
  · cases ht with
    | moved host hshared _ =>
        rw [hsole] at hshared
        cases hshared
    | bumped host _ heq =>
        rw [heq]
        exact Inherited.peek_bumped (w := { w with host := host }) hinherited hr.holding
          hholding hunfinished
          hversion

/-- One handle with one point. -/
def weakLoner : Workspace Surroundings :=
  weakBlank.play [.step (.create "f" { rules := .metered }), .step (.set "f" (.weak 10) (.weak 50))]

theorem play_frugal_weak :
    ∃ owner e s h p, weakLoner.Resolved "f" owner e s h p ∧
      weakLoner.Frugal (fun _ => ⟨.tens, .tens⟩) "f" owner s h p ∧
      h.store.Holds ⟨.tens, .tens⟩ (.weak 13) (.weak 57) := by
  have hplays : Plays (fun _ => ⟨.tens, .tens⟩) weakBlank
      [.step (.create "f" { rules := .metered }), .step (.set "f" (.weak 10) (.weak 50))] :=
    ⟨⟨Rules.metered_follow, by decide +kernel⟩,
      ⟨fun _ _ => ⟨⟨_, rfl⟩, ⟨_, rfl⟩⟩, by decide +kernel⟩, trivial⟩
  have horderly : weakLoner.Orderly (fun _ => ⟨.tens, .tens⟩) := (Orderly.blank _ _).play hplays
  have hsome : (weakLoner.handle? "f").isSome = true := by decide +kernel
  rcases horderly.owned.resolve horderly.sound "f" with hnone | ⟨owner, e, s, h, p, hr⟩
  · rw [hnone] at hsome
    cases hsome
  · refine ⟨owner, e, s, h, p, hr, play_frugal hplays rfl hr, ?_⟩
    have hpoints : (weakLoner.leaseOf? "f").map (fun l => l.2.store.points.map fun p =>
        (p.argument.tens?, p.value.tens?)) = some [(some 1, some 5)] := by decide +kernel
    rw [hr.leaseOf?_eq hr.holding, Option.map_some, Option.some.injEq] at hpoints
    rcases List.map_eq_singleton_iff.1 hpoints with ⟨q, hq, htens⟩
    rcases Prod.mk.inj htens with ⟨hargument, hvalue⟩
    refine ⟨q, by rw [hq]; exact List.mem_singleton_self q, ?_, ?_⟩
    · have hweak : (Payload.weak 13).tens? = some 1 := rfl
      simp only [Tied, Ranking.tens, hargument, hweak]
      decide
    · have hweak : (Payload.weak 57).tens? = some 5 := rfl
      simp only [Tied, Ranking.tens, hvalue, hweak]
      decide

/-- An empty batch takes the holding of a sole owner one version up, and moves a handle that shares
its holding to a private copy. -/
theorem empty_batch_costs :
    (weakLoner.leaseOf? "f").map (fun l => (l.1, l.2.store.version)) = some (0, 1) ∧
    (((update "f" (.ofPairs [])).stateAfter weakLoner).leaseOf? "f").map
      (fun l => (l.1, l.2.store.version)) = some (0, 2) ∧
    (weakPeers.leaseOf? "g").map (fun l => (l.1, l.2.store.version)) = some (0, 1) ∧
    weakPeers.shares.map Shared.owners = [2] ∧
    (((update "g" (.ofPairs [])).stateAfter weakPeers).leaseOf? "g").map
      (fun l => (l.1, l.2.store.version)) = some (1, 0) ∧
    ((update "g" (.ofPairs [])).stateAfter weakPeers).shares.map Shared.owners = [1, 1] := by
  decide +kernel

end Workspace
end Peaks
