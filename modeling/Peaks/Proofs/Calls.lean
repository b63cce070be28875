import Peaks.Proofs.WeakNumbers
import Peaks.Proofs.Workspace

/-!
# Sequences of calls on stores

A workspace that began with one empty holding and then went through any number of calls: values were
set and erased, contents loaded and holdings cloned, and every call may have succeeded, changed
nothing or failed. Only a call that cannot tell of its failure leaves something behind, and nothing
is said of what follows it.

- `Call`              : one call on a holding
- `Workspace.Reached` : the workspaces that such a sequence leads to
- `Workspace.Uniform` : the invariant that every call keeps
- `Workspace.Reached.maxima_exact` : the maxima are those of a rescan, after every call
- `Workspace.maxima_missed` : a failure that cannot be told, and the maximum it leaves out
- `Workspace.Reached.failed_call_restores` : a failed call has changed nothing, if it could be told
- `Workspace.failed_set_remains` : what is left if it could not
-/

namespace Peaks

/-! ## Calls -/

/-- One call on the holding with the given number. -/
inductive Call
  | set (id : Nat) (argument value : Payload)
  | erase (id : Nat) (argument : Payload)
  | load (id : Nat) (source : Source)
  | clone (id : Nat)

namespace Call

/-- All payloads of a call lie in the domains. -/
def Fits (R : Rankings) : Call → Prop
  | .set _ a v => R.argument.domain a ∧ R.value.domain v
  | .erase _ a => R.argument.domain a
  | .load _ source => R.CoversSource source
  | .clone _ => True

def run {σ : Type} : Call → Attempt (Workspace σ) Unit
  | .set id a v => do
      let _ ← Workspace.edit id (Editor.set · a v)
  | .erase id a => do
      let _ ← Workspace.edit id (Editor.erase · a)
  | .load id source => Workspace.overwrite id (Editor.load · source)
  | .clone id => do
      let _ ← Workspace.cloneHolding id

end Call

namespace Workspace

variable {σ α : Type} {rules : Rules σ} {R : Rankings} {w : Workspace σ}

/-- What a sequence of calls leads to from one empty holding. Between two calls the host may change
in any way: orderings are told to fail, or other questions are asked. -/
inductive Reached (rules : Rules σ) (R : Rankings) : Workspace σ → Prop
  | start (host : σ) (mint : Mint) (journal : Journal) (pool : Pool) :
      Reached rules R
        { host := host, mint := mint, journal := journal, pools := [pool],
          holdings := [{ rules := rules, pool := 0 }] }
  | call {w : Workspace σ} (c : Call) (reached : Reached rules R w) (fits : c.Fits R)
      (told : c.run.told w = true) : Reached rules R (c.run.stateAfter w)
  | elsewhere {w : Workspace σ} (host : σ) (reached : Reached rules R w) :
      Reached rules R { w with host := host }

/-- The workspace after some calls, one after another. -/
def afterCalls (w : Workspace σ) (calls : List Call) : Workspace σ :=
  calls.foldl (fun w c => c.run.stateAfter w) w

/-- No call among these, one after another, fails over the telling of a fault. -/
def toldCalls (w : Workspace σ) : List Call → Bool
  | [] => true
  | c :: calls => c.run.told w && (c.run.stateAfter w).toldCalls calls

theorem Reached.afterCalls (hw : Reached rules R w) (calls : List Call)
    (hcalls : ∀ c ∈ calls, c.Fits R) (htold : w.toldCalls calls = true) :
    Reached rules R (w.afterCalls calls) := by
  induction calls generalizing w with
  | nil =>
      exact hw
  | cons c calls ih =>
      obtain ⟨hhead, htail⟩ := Bool.and_eq_true_iff.1 htold
      have hstep := Reached.call c hw (hcalls c (by simp)) hhead
      exact ih hstep (fun d hd => hcalls d (by simp [hd])) htail

/-! ## Weak numbers under metered comparisons -/

/-- One empty holding. -/
def weakStart : Workspace Surroundings :=
  { host := { meters := [{}, {}] }, pools := [{}], holdings := [{ rules := .metered, pool := 0 }] }

/-- Two arguments whose values are tied, then a copy that gets a third one. -/
def weakCalls : List Call :=
  [.set 0 (.weak 10) (.weak 50), .set 0 (.weak 25) (.weak 52), .clone 0,
   .set 1 (.weak 40) (.weak 53)]

def weakWorkspace : Workspace Surroundings :=
  weakStart.afterCalls weakCalls

/-- The seventh comparison of values from here on fails. -/
def weakArmed : Workspace Surroundings :=
  { weakWorkspace with host := weakWorkspace.host.arm 1 6 }

theorem weakWorkspace_reached : Reached .metered ⟨.tens, .tens⟩ weakWorkspace := by
  refine Reached.afterCalls (.start _ _ _ _) weakCalls ?_ (by decide +kernel)
  simp only [weakCalls, List.forall_mem_cons, List.not_mem_nil, Call.Fits]
  exact ⟨⟨⟨_, rfl⟩, ⟨_, rfl⟩⟩, ⟨⟨_, rfl⟩, ⟨_, rfl⟩⟩, trivial, ⟨⟨_, rfl⟩, ⟨_, rfl⟩⟩, by simp⟩

/-! ## The invariant -/

/-- All holdings are sound under the same rules and rankings, and none has handed its lists on. -/
structure Uniform (rules : Rules σ) (R : Rankings) (w : Workspace σ) : Prop
    extends w.Sound fun _ => R where
  rules : ∀ h ∈ w.holdings, h.rules = rules
  heir : ∀ h ∈ w.holdings, h.heir = none

/-- An edit changes nothing of a holding but its store. -/
theorem Uniform.of_set (hw : w.Uniform rules R) {id : Nat} {h : Holding σ} {s : Store}
    {t : Workspace σ} (hh : w.holdings[id]? = some h) (ht : t.Sound fun _ => R)
    (hset : t.holdings = w.holdings.set id { h with store := s }) : t.Uniform rules R := by
  have hhold := List.mem_of_getElem? hh
  refine ⟨ht, fun g hg => ?_, fun g hg => ?_⟩
  · rw [hset] at hg
    rcases List.mem_or_eq_of_mem_set hg with hg | rfl
    · exact hw.rules g hg
    · exact hw.rules h hhold
  · rw [hset] at hg
    rcases List.mem_or_eq_of_mem_set hg with hg | rfl
    · exact hw.heir g hg
    · exact hw.heir h hhold

theorem Uniform.of_holdings_eq (hw : w.Uniform rules R) {t : Workspace σ} (ht : t.Sound fun _ => R)
    (heq : t.holdings = w.holdings) : t.Uniform rules R where
  toSound := ht
  rules := heq ▸ hw.rules
  heir := heq ▸ hw.heir

theorem Uniform.elsewhere (hw : w.Uniform rules R) (host : σ) :
    Uniform rules R { w with host := host } :=
  ⟨⟨hw.follow, hw.valid, hw.pool⟩, hw.rules, hw.heir⟩

/-- Without heirs there is nobody to release. -/
theorem Uniform.releasePredecessors_eq (hw : w.Uniform rules R) (id : Nat) (lists : Store) :
    releasePredecessors id lists w = .ok ⟨⟩ w := by
  have hmap : (w.holdings.map fun h => if h.heir = some id then
      { h with store := { lists with version := h.store.version }, heir := none } else h) =
      w.holdings := by
    refine (List.map_congr_left fun h hh => ?_).trans (List.map_id _)
    rw [hw.heir h hh, if_neg (by simp)]
    rfl
  rw [releasePredecessors, Attempt.modify_run, hmap]

/-! ## Single calls -/

theorem edit_endsFrom_of_none {id : Nat} (hid : w.holdings[id]? = none)
    {act : Rules σ → Attempt (Editor σ) α} {P : Workspace σ → Prop} (hw : P w) :
    (do let _ ← edit id act : Attempt (Workspace σ) Unit).EndsFrom w (fun _ t => P t)
      (fun _ t => P t) := by
  exact .bind_error (Attempt.bind_of_error (holding_eq_error hid)) hw

theorem overwrite_load_endsFrom (hw : w.Uniform rules R) {id : Nat} {h : Holding σ}
    (hh : w.holdings[id]? = some h) {source : Source} (hsource : R.CoversSource source) :
    (overwrite id (Editor.load · source)).EndsFrom w (fun _ t => t.Uniform rules R)
      (fun _ t => t.Uniform rules R ∧ t.holdings = w.holdings) := by
  have hload := edit_load_endsFrom hw.toSound hh hsource
  refine .bind_ok (holding_eq_ok hh) ((hload.imp (fun _ _ ht => ht) ?_).bind ?_)
  · rintro fault t ⟨hsound, hholdings, _⟩
    exact ⟨hw.of_holdings_eq hsound hholdings, hholdings⟩
  · rintro _ t ⟨hsound, s, hset⟩
    -- a load publishes new lists, which only matters to holdings with heirs
    have ht := hw.of_set hh hsound hset
    exact .bind_ok (ht.releasePredecessors_eq _ _) (.pure ht)

theorem Uniform.edited (hw : w.Uniform rules R) {id : Nat} {h : Holding σ} {e : Editor σ}
    (hh : w.holdings[id]? = some h) (ht : (w.edited id h.pool e).Sound fun _ => R) :
    (w.edited id h.pool e).Uniform rules R :=
  hw.of_set hh ht (modify_eq_set_of_getElem? _ hh)

theorem Uniform.cloneHolding (hw : w.Uniform rules R) {id : Nat} {h : Holding σ}
    (hh : w.holdings[id]? = some h) :
    Uniform rules R { w with holdings := w.holdings ++ [h.clone] } := by
  have hhold := List.mem_of_getElem? hh
  have hvalid := hw.valid h hhold
  have hmem : ∀ g ∈ w.holdings ++ [h.clone], g ∈ w.holdings ∨ g = h.clone := by simp
  refine ⟨⟨fun g hg => ?_, fun g hg => ?_, fun g hg => ?_⟩, fun g hg => ?_, fun g hg => ?_⟩
  all_goals rcases hmem g hg with hg | rfl
  · exact hw.follow g hg
  · exact hw.follow h hhold
  · exact hw.valid g hg
  · exact hvalid.clone
  · exact hw.pool g hg
  · exact hw.pool h hhold
  · exact hw.rules g hg
  · exact hw.rules h hhold
  · exact hw.heir g hg
  · rfl

/-- One call keeps the invariant, however it ends, unless its failure cannot be told. -/
theorem Uniform.call (hw : w.Uniform rules R) (c : Call) (hc : c.Fits R) :
    (c.run : Attempt (Workspace σ) Unit).EndsFrom w (fun _ t => t.Uniform rules R)
      (fun fault t => fault.isSpoken = true → t.Uniform rules R) := by
  -- a number without a holding is refused before anything is done
  cases c with
  | set id a v =>
      cases hh : w.holdings[id]? with
      | none =>
          exact (edit_endsFrom_of_none hh hw).imp (fun _ _ ht => ht) fun _ _ ht _ => ht
      | some h =>
          refine ((edit_set_endsFrom hw.toSound hh hc.1 hc.2).imp ?_ ?_).bind fun _ _ ht => .pure ht
          · rintro changed _ ⟨pool, e, _, _, rfl, ht⟩
            exact hw.edited hh ht
          · exact fun fault t ht hspoken =>
              hw.of_holdings_eq (ht.2 hspoken) (ht.1.refused hspoken).holdings
  | erase id a =>
      cases hh : w.holdings[id]? with
      | none =>
          exact (edit_endsFrom_of_none hh hw).imp (fun _ _ ht => ht) fun _ _ ht _ => ht
      | some h =>
          refine ((edit_erase_endsFrom hw.toSound hh hc).imp ?_ ?_).bind fun _ _ ht => .pure ht
          · rintro changed _ ⟨pool, e, _, _, rfl, ht⟩
            exact hw.edited hh ht
          · exact fun fault t ht hspoken =>
              hw.of_holdings_eq (ht.2 hspoken) (ht.1.refused hspoken).holdings
  | load id source =>
      cases hh : w.holdings[id]? with
      | none =>
          exact .bind_error (holding_eq_error hh) fun _ => hw
      | some h =>
          exact (overwrite_load_endsFrom hw hh hc).imp (fun _ _ ht => ht) fun _ _ ht _ => ht.1
  | clone id =>
      cases hh : w.holdings[id]? with
      | none =>
          exact .bind_error (Attempt.bind_of_error (holding_eq_error hh)) fun _ => hw
      | some h =>
          exact .bind_ok (Attempt.bind_of_ok (holding_eq_ok hh)) (.pure (hw.cloneHolding hh))

theorem Reached.uniform (hR : rules.Follow R) (hw : Reached rules R w) : w.Uniform rules R := by
  induction hw with
  | start host mint journal pool =>
      refine ⟨⟨?_, ?_, ?_⟩, ?_, ?_⟩
      all_goals simp only [List.mem_singleton, forall_eq]
      · exact hR
      · exact Store.valid_empty R _
      · exact Nat.zero_lt_one
  | call c _ fits told ih =>
      exact (ih.call c fits).stateAfter_of_told told
  | elsewhere host _ ih =>
      exact ih.elsewhere host

/-! ## The maxima after every call -/

/-- After any calls, whether or not they failed, if only they could tell so: every holding has its
points in strict order of their arguments and as its maxima exactly the local maxima among them,
each once, in maxima order. A rescan finds the same list, unless one of its comparisons fails. -/
theorem Reached.maxima_exact (hR : rules.Follow R) (hw : Reached rules R w) {h : Holding σ}
    (hh : h ∈ w.holdings) :
    h.store.points.Pairwise R.Precedes ∧
      (∀ p ∈ h.store.points, ∀ q ∈ h.store.points,
        Tied R.argument.before p.argument q.argument → p = q) ∧
      (∀ p, p ∈ h.store.maxima ↔ R.IsPeak h.store.points p) ∧
      (h.store.maxima.Pairwise fun p q => ¬ p.same q) ∧
      h.store.maxima.Pairwise R.Outranks ∧
      (Store.rescan rules h.store.points).Ensures (fun found _ => found = h.store.maxima)
        rules.Raised := by
  have hvalid := (hw.uniform hR).valid h hh
  have hpoints : ∀ p ∈ h.store.maxima, p ∈ h.store.points := fun p hp =>
    ((hvalid.mem_maxima_iff p).1 hp).mem
  refine ⟨hvalid.increasing, ?_, hvalid.mem_maxima_iff, ?_, hvalid.ranked,
    hvalid.rescan_ensures hR hvalid.covers⟩
  · intro p hp q hq htied
    -- of two points, one comes strictly before the other
    rcases eq_or_of_pairwise hvalid.increasing hp hq with heq | hpq | hqp
    · exact heq
    · exact absurd hpq htied.1
    · exact absurd hqp htied.2
  · refine (hvalid.ranked.imp_of_mem fun {p q} hp hq hpq hsame => ?_)
    have heq := hvalid.eq_of_same p (hpoints p hp) q (hpoints q hq) hsame
    exact irrefl_of R.Outranks q (heq ▸ hpq)

theorem Reached.maxima_exact_weak :
    ∃ h ∈ weakWorkspace.holdings, (h.store.points.length, h.store.maxima.length) = (3, 3) ∧
      h.store.maxima.Pairwise (Rankings.Outranks ⟨.tens, .tens⟩) ∧
      (Store.rescan .metered h.store.points).Ensures (fun found _ => found = h.store.maxima)
        Rules.metered.Raised := by
  have hsizes : (3, 3) ∈ weakWorkspace.holdings.map fun h =>
      (h.store.points.length, h.store.maxima.length) := by decide +kernel
  obtain ⟨h, hh, hsize⟩ := List.mem_map.1 hsizes
  have hexact := Reached.maxima_exact Rules.metered_follow weakWorkspace_reached hh
  exact ⟨h, hh, hsize, hexact.2.2.2.2.1, hexact.2.2.2.2.2⟩

/-- One point, and the next comparison of values fails. -/
def armedLoner : Workspace Surroundings :=
  let w := weakStart.afterCalls [.set 0 (.int 1) (.int 5)]
  { w with host := w.host.arm 1 0 }

/-- A failed call that cannot be told leaves a higher point beside the only one, and no maximum
there. -/
theorem maxima_missed :
    let t := (Call.set 0 longNumber (.int 7)).run.stateAfter armedLoner
    t.holdings.map (fun h => (h.store.points.map Point.id, h.store.maxima.map Point.id)) =
        [([0, 1], [0])] ∧
      t.holdings.map (fun h =>
        ((Store.rescan h.rules h.store.points).outcome t.host).toOption.map fun r =>
          r.1.map Point.id) = [some [1]] := by
  decide +kernel

/-! ## Failed calls -/

/-- A call that fails leaves the points, the maxima and the version of every holding as they were.
If it was to set or to erase, then the pools have the same counters and cells too, and the fault is
the one that was raised. Only if the argument or that fault has a number with too many digits to be
written, then nothing is taken back: the new point stays, and so do the insertions into the
maxima. -/
theorem Reached.failed_call_restores (hR : rules.Follow R) (hw : Reached rules R w) {id : Nat}
    (hid : id < w.holdings.length) {fault : Fault} {t : Workspace σ} :
    (∀ a v, R.argument.domain a → R.value.domain v →
      edit id (Editor.set · a v) w = .error fault t → Failed rules id a 1 w fault t) ∧
    (∀ a, R.argument.domain a →
      edit id (Editor.erase · a) w = .error fault t → Failed rules id a 0 w fault t) ∧
    (∀ source, R.CoversSource source →
      overwrite id (Editor.load · source) w = .error fault t → t.holdings = w.holdings) := by
  have huniform := hw.uniform hR
  have hh : w.holdings[id]? = some w.holdings[id] := List.getElem?_eq_getElem hid
  have hrules := huniform.rules _ (List.getElem_mem hid)
  refine ⟨fun a v ha hv hrun => ?_, fun a ha hrun => ?_, fun source hsource hrun => ?_⟩
  · rw [← hrules]
    exact ((edit_set_endsFrom huniform.toSound hh ha hv).error hrun).1
  · rw [← hrules]
    exact ((edit_erase_endsFrom huniform.toSound hh ha).error hrun).1
  · exact ((overwrite_load_endsFrom huniform hh hsource).error hrun).2

theorem Reached.failed_call_restores_weak :
    ∃ fault t, edit 0 (Editor.set · (.weak 21) (.weak 70)) weakArmed = .error fault t ∧
      Refused .metered weakArmed fault t := by
  have htold : (edit 0 (Editor.set · (.weak 21) (.weak 70))).told weakArmed = true := by
    decide +kernel
  obtain ⟨fault, t, hrun⟩ := Attempt.exists_error_of_outcome
    (show (Attempt.outcome (edit 0 (Editor.set · (.weak 21) (.weak 70))) weakArmed).isOk = false by
      decide +kernel)
  have hid : 0 < weakArmed.holdings.length := by decide +kernel
  have hreached := Reached.elsewhere (weakWorkspace.host.arm 1 6) weakWorkspace_reached
  have hfailed := (Reached.failed_call_restores Rules.metered_follow hreached hid).1 _ _
    ⟨_, rfl⟩ ⟨_, rfl⟩ hrun
  exact ⟨fault, t, hrun, hfailed.refused (Attempt.isSpoken_of_told htold hrun)⟩

/-- The failure of the comparison does not get out, and the point that was to be set stays. -/
theorem failed_set_remains :
    (edit 0 (Editor.set · longNumber (.int 7))).told armedLoner = false ∧
      armedLoner.holdings.map (fun h => h.store.points.map Point.id) = [[0]] ∧
      ((edit 0 (Editor.set · longNumber (.int 7))).stateAfter armedLoner).holdings.map
        (fun h => h.store.points.map Point.id) = [[0, 1]] := by
  decide +kernel

end Workspace

end Peaks
