import Peaks.Proofs.Effects

/-!
# Owners are counted right

In every program over handles, whatever its orderings do and however its steps end, each entry
counts as its owners the handles that lease it, so that a handle is told that it shares its holding
exactly if it does.

- `Event`            : a step of a program, or a change in the host between two steps
- `Workspace.play`   : the workspace after some events
- `Workspace.Owned.react`, `Workspace.Owned.play` : one event, and a whole program
- `Workspace.Accounted`   : what the count of owners is good for
- `Workspace.play_accounted` : all of it, after every program
-/

namespace Peaks

/-! ## Programs -/

/-- A step, or a change in the host that no step makes: an ordering is told to fail, say. -/
inductive Event (σ : Type)
  | step (s : Step σ)
  | host (change : σ → σ)

namespace Workspace

variable {σ α : Type} {w t : Workspace σ} {name g : String} {e : Nat}

/-- A workspace without handles. -/
def blank (host : σ) (mint : Mint) : Workspace σ :=
  { host := host, mint := mint }

def react (w : Workspace σ) : Event σ → Workspace σ
  | .step s => (perform s).stateAfter w
  | .host change => { w with host := change w.host }

def play (w : Workspace σ) (events : List (Event σ)) : Workspace σ :=
  events.foldl react w

theorem Owned.blank (host : σ) (mint : Mint) : (blank host mint).Owned [] := by
  refine ⟨?_, ?_, ?_, ?_, ?_⟩
  all_goals simp [Workspace.blank, leases]

/-! ## What one step keeps -/

section Keeps

variable {change : Holding σ → Store → Prop} {f : Tally → Tally} (hw : w.Owned [])
include hw

theorem Owned.alike (halike : Alike w t) : t.Owned [] :=
  hw.of_perm (.of_eq halike.leases) halike.shares (Nat.le_of_eq (by rw [halike.holdings]))

theorem Owned.tallied (name : String) (f : Tally → Tally) : (w.counted name f).Owned [] :=
  hw.of_perm (.of_eq (leases_counted w name f)) rfl (Nat.le_refl _)

theorem Owned.stored (id : Nat) (h : Holding σ) (s : Store) : (w.stored id h s).Owned [] := by
  refine hw.of_perm (.refl _) rfl ?_
  rw [Workspace.stored, List.length_set]

/-- A handle that moves takes its claim to the new entry and leaves the old one. -/
theorem Owned.landed (hlanded : Landed name change f w t) : t.Owned [] := by
  cases hlanded with
  | @moved owner e s copy _ hleases _ ht =>
      -- first there is a new entry without a handle, and then the handle claims it
      have hlt : w.shares.length < (w.installed copy).shares.length := by simp [Workspace.installed]
      have howner : (w.installed copy).handle? name = some owner := hleases.handle
      have hmoved := (hw.installed copy).rebound howner hlt
      exact (hmoved.tallied name _).alike ht
  | written _ _ _ _ ht =>
      exact ((hw.stored _ _ _).tallied name f).alike ht

theorem Owned.missed (hmissed : Missed name change w t) : t.Owned [] := by
  cases hmissed with
  | idle ht =>
      exact hw.alike ht
  | undone _ ht =>
      exact (hw.tallied name _).alike ht
  | spoiled _ _ _ _ ht =>
      exact ((hw.stored _ _ _).tallied name _).alike ht

theorem Owned.done {s : Step σ} (hdone : Done s w t) : t.Owned [] := by
  cases hdone with
  | dropped _ ht =>
      exact (hw.dropped s.name).alike ht
  | @copied source owner e _ hhandle hlease ht =>
      -- the entry of the source has an owner more, and the new handle is that owner
      have hlookup : w.leases.lookup source = some (.on e) := by
        rw [lookup_leases, hhandle, Option.map_some, hlease]
      rcases hw.claimed _ (mem_of_lookup hlookup) with ⟨e', he', hlt⟩
      cases he'
      have hlt' : e < (w.acquired e).shares.length := by simpa [Workspace.acquired] using hlt
      exact ((hw.acquired e).bound hlt' s.name).alike ht
  | installed h _ _ ht =>
      have hlt : w.shares.length < (w.installed h).shares.length := by simp [Workspace.installed]
      exact ((hw.installed h).bound hlt s.name).alike ht
  | kept _ ht =>
      exact (hw.tallied s.name _).alike ht
  | edited hlanded =>
      exact hw.landed hlanded
  | published _ hlanded =>
      exact hw.landed hlanded

/-- One event, whether or not it failed. -/
theorem Owned.react (event : Event σ) : (w.react event).Owned [] := by
  cases event with
  | step s =>
      refine Attempt.EndsFrom.stateAfter (P := fun t : Workspace σ => t.Owned []) ?_
      exact (perform_endsFrom s).imp (fun _ _ => hw.done) fun _ _ => hw.missed
  | host change =>
      exact hw.alike ⟨rfl, rfl, rfl⟩

theorem Owned.play (events : List (Event σ)) : (w.play events).Owned [] := by
  induction events generalizing w with
  | nil =>
      exact hw
  | cons event events ih =>
      exact ih (hw.react event)

end Keeps

/-! ## What one step leaves to the other handles -/

theorem Alike.leaseOf?_eq (h : Alike w t) (g : String) : t.leaseOf? g = w.leaseOf? g :=
  leaseOf?_congr (by rw [h.leases]) fun e _ => by rw [heldAt?, heldAt?, h.shares, h.holdings]

theorem leaseOf?_counted (w : Workspace σ) (name : String) (f : Tally → Tally) (g : String) :
    (w.counted name f).leaseOf? g = w.leaseOf? g :=
  leaseOf?_congr (by rw [leases_counted]) fun _ _ => rfl

section Others

variable {change : Holding σ → Store → Prop} {f : Tally → Tally} (hw : w.Owned []) (hg : g ≠ name)
include hw hg

/-- Nobody else leases what a sole owner writes. -/
theorem Owned.leaseOf?_written {owner : Handle} {s : Shared Nat} {h : Holding σ} {store : Store}
    (hleases : w.Leases name owner e s) (hsole : s.isShared = false)
    (halike : Alike ((w.stored s.content h store).counted name f) t) :
    t.leaseOf? g = w.leaseOf? g := by
  rw [halike.leaseOf?_eq, leaseOf?_counted]
  exact hw.leaseOf?_set rfl rfl rfl hleases.lookup hleases.share hsole hg

theorem Owned.leaseOf?_landed (hlanded : Landed name change f w t) :
    t.leaseOf? g = w.leaseOf? g := by
  cases hlanded with
  | moved copy _ _ _ ht =>
      rw [ht.leaseOf?_eq, leaseOf?_counted, leaseOf?_rebound hg]
      exact hw.leaseOf?_installed copy g
  | written hleases hsole _ _ ht =>
      exact hw.leaseOf?_written hg hleases hsole ht

theorem Owned.leaseOf?_missed (hmissed : Missed name change w t) : t.leaseOf? g = w.leaseOf? g := by
  cases hmissed with
  | idle ht =>
      exact ht.leaseOf?_eq g
  | undone _ ht =>
      rw [ht.leaseOf?_eq, leaseOf?_counted]
  | spoiled hleases hsole _ _ ht =>
      exact hw.leaseOf?_written hg hleases hsole ht

end Others

theorem Owned.leaseOf?_done (hw : w.Owned []) {s : Step σ} (hg : g ≠ s.name) (hdone : Done s w t) :
    t.leaseOf? g = w.leaseOf? g := by
  cases hdone with
  | dropped _ ht =>
      rw [ht.leaseOf?_eq, leaseOf?_dropped hg]
  | copied _ _ _ ht =>
      rw [ht.leaseOf?_eq, leaseOf?_bound hg, leaseOf?_acquired]
  | installed h _ _ ht =>
      rw [ht.leaseOf?_eq, leaseOf?_bound hg]
      exact hw.leaseOf?_installed h g
  | kept _ ht =>
      rw [ht.leaseOf?_eq, leaseOf?_counted]
  | edited hlanded =>
      exact hw.leaseOf?_landed hg hlanded
  | published _ hlanded =>
      exact hw.leaseOf?_landed hg hlanded

/-- A step through one handle, whether or not it failed, leaves every other handle what it
leased. -/
theorem Owned.leaseOf?_perform (hw : w.Owned []) (s : Step σ) (hg : g ≠ s.name) :
    ((perform s).stateAfter w).leaseOf? g = w.leaseOf? g := by
  refine Attempt.EndsFrom.stateAfter (P := fun t : Workspace σ => t.leaseOf? g = w.leaseOf? g) ?_
  refine (perform_endsFrom s).imp ?_ ?_
  · exact fun _ _ hdone => hw.leaseOf?_done hg hdone
  · exact fun _ _ hmissed => hw.leaseOf?_missed hg hmissed

/-! ## What the count is good for -/

theorem name_of_handle? {owner : Handle} (h : w.handle? name = some owner) : owner.name = name := by
  simpa using List.find?_some h

section Handles

variable {g h : Handle} (hw : w.Owned []) (hh : h ∈ w.handles)
include hw

theorem Owned.nodup_names : (w.handles.map Handle.name).Nodup := by
  have hnames := hw.names
  rw [leases, List.map_map] at hnames
  exact hnames

/-- A handle in use is the one of its name. -/
theorem Owned.handle?_eq (hh : h ∈ w.handles) : w.handle? h.name = some h := by
  cases hfound : w.handle? h.name with
  | none =>
      have hnone := List.find?_eq_none.1 hfound h hh
      simp at hnone
  | some g =>
      have hmem : g ∈ w.handles := List.mem_of_find?_eq_some hfound
      rw [List.inj_on_of_nodup_map hw.nodup_names hmem hh (name_of_handle? hfound)]

theorem Owned.owners_eq {s : Shared Nat} (hs : w.shares[e]? = some s) :
    s.owners = Int.ofNat (w.handles.countP (·.lease == .on e)) := by
  have hcounted := hw.counted e s hs
  rw [leases, List.countP_map, List.count_nil, Nat.add_zero] at hcounted
  exact hcounted

include hh

theorem Owned.leases_of_mem :
    ∃ e s, w.Leases h.name h e s ∧ s.content < w.holdings.length := by
  have hlease : (h.name, h.lease) ∈ w.leases := List.mem_map_of_mem hh
  rcases hw.claimed _ hlease with ⟨e, he, hlt⟩
  have hs : w.shares[e]? = some w.shares[e] := List.getElem?_eq_getElem hlt
  refine ⟨e, w.shares[e], ⟨hw.handle?_eq hh, he, hs⟩, ?_⟩
  exact hw.content _ (List.mem_map_of_mem (List.getElem_mem hlt))

/-- An entry is shared exactly if a second handle leases it. -/
theorem Owned.isShared_iff {s : Shared Nat} (hleases : w.Leases h.name h e s) :
    s.isShared = true ↔ ∃ g ∈ w.handles, g.name ≠ h.name ∧ g.lease = .on e := by
  have howners := hw.owners_eq hleases.share
  simp only [Shared.isShared, decide_eq_true_eq, howners, Int.ofNat_eq_natCast]
  constructor
  · intro hmany
    -- the handle itself is one of those counted, so there is one more among the others
    rcases List.append_of_mem hh with ⟨front, back, hsplit⟩
    have hnames : ((h :: (front ++ back)).map Handle.name).Nodup := by
      refine ((List.perm_middle.map Handle.name).nodup_iff).1 ?_
      rw [← hsplit]
      exact hw.nodup_names
    have hother : ∀ g ∈ front ++ back, g.name ≠ h.name := by
      intro g hg heq
      have hmem : g.name ∈ (front ++ back).map Handle.name := List.mem_map_of_mem hg
      exact (List.nodup_cons.1 hnames).1 (heq ▸ hmem)
    have hpos : 0 < (front ++ back).countP (·.lease == .on e) := by
      rw [hsplit, List.countP_append, List.countP_cons_of_pos (by simp [hleases.lease])] at hmany
      rw [List.countP_append]
      omega
    rcases List.countP_pos_iff.1 hpos with ⟨g, hg, hlease⟩
    refine ⟨g, ?_, hother g hg, by simpa using hlease⟩
    rw [hsplit]
    simp only [List.mem_append, List.mem_cons] at hg ⊢
    tauto
  · intro hother
    rcases hother with ⟨g, hg, hne, hlease⟩
    have hgh : g ≠ h := fun heq => hne (congrArg Handle.name heq)
    have htwo := two_le_countP (P := fun h => h.lease == Lease.on e) hgh hg hh (by simp [hlease])
      (by simp [hleases.lease])
    omega

end Handles

theorem Leases.isShared_eq {owner : Handle} {s : Shared Nat} (h : w.Leases name owner e s) :
    isShared name w = .ok s.isShared w := by
  rw [isShared, Attempt.bind_of_ok h.leased_eq, Attempt.bind_of_ok (share_eq_ok h.share)]
  rfl

/-- A sole owner's write is an edit in place; a fault is counted. -/
theorem Leases.mutate_sole {owner : Handle} {s : Shared Nat} (h : w.Leases name owner e s)
    (hsole : s.isShared = false) (act : Rules σ → Attempt (Editor σ) α) :
    (mutate name act).EndsFrom w (fun a t => edit s.content act w = .ok a t)
      (fun fault t => ∃ u, edit s.content act w = .error fault u ∧
        t = u.counted name Tally.rollback) := by
  refine .bind_ok h.leased_eq (.bind_ok (share_eq_ok h.share) ?_)
  rw [if_neg (by simp [hsole])]
  have hrun : (edit s.content act).EndsFrom w (fun a t => edit s.content act w = .ok a t)
      (fun fault t => edit s.content act w = .error fault t) :=
    .of_runs (fun _ _ hrun => hrun) fun _ _ hrun => hrun
  refine .settle_bind hrun ?_ ?_
  · intro a t ht
    exact .pure ht
  · intro fault t ht
    exact ⟨t, ht, rfl⟩

/-- The same leases, entries and numbers of private copies, and no holding more. -/
structure Unmoved (w t : Workspace σ) : Prop where
  leases : t.leases = w.leases
  shares : t.shares = w.shares
  holdings : t.holdings.length = w.holdings.length
  clones : (t.handles.map (·.tally.clones)) = w.handles.map (·.tally.clones)

theorem Unmoved.of_alike {u : Workspace σ} (h : Unmoved w u) (halike : Alike u t) :
    Unmoved w t where
  leases := halike.leases.trans h.leases
  shares := halike.shares.trans h.shares
  holdings := (congrArg List.length halike.holdings).trans h.holdings
  clones := by
    rw [halike.handles]
    exact h.clones

theorem Unmoved.counted {u : Workspace σ} (h : Unmoved w u) (name : String) (f : Tally → Tally)
    (hf : ∀ t, (f t).clones = t.clones) : Unmoved w (u.counted name f) where
  leases := (leases_counted u name f).trans h.leases
  shares := h.shares
  holdings := h.holdings
  clones := by
    rw [← h.clones]
    simp only [Workspace.counted, List.map_map]
    refine List.map_congr_left fun g _ => ?_
    simp only [Function.comp]
    split
    · exact hf _
    · rfl

theorem Unmoved.refl (w : Workspace σ) : Unmoved w w :=
  ⟨rfl, rfl, rfl, rfl⟩

theorem Unmoved.stored (w : Workspace σ) (id : Nat) (h : Holding σ) (s : Store) :
    Unmoved w (w.stored id h s) :=
  ⟨rfl, rfl, List.length_set, rfl⟩

theorem clones_counts (s : Step σ) (t : Tally) : (s.counts t).clones = t.clones := by
  cases s with
  | _ => rfl

/-- A step that builds makes no edit through a handle. -/
theorem edit?_eq_none {s : Step σ} (hs : s.builds = true) : s.edit? = none := by
  revert hs
  cases s with
  | _ => simp [Step.builds, Step.edit?]

/-- A name has one handle, and that handle leases one entry. -/
theorem Leases.unique {owner owner' : Handle} {e' : Nat} {s s' : Shared Nat}
    (h : w.Leases name owner e s)
    (h' : w.Leases name owner' e' s') : s' = s := by
  have howner : owner' = owner := Option.some.inj (h'.handle.symm.trans h.handle)
  have he : e' = e := by
    have hlease := h'.lease
    rw [howner, h.lease] at hlease
    exact (Option.some.inj (congrArg Lease.claim hlease)).symm
  have hs := h'.share
  rw [he, h.share] at hs
  exact (Option.some.inj hs).symm

section Sole

variable {owner : Handle} {entry : Shared Nat} {s : Step σ} (h : w.Leases s.name owner e entry)
  (hsole : entry.isShared = false)
include h hsole

theorem Landed.unmoved {change : Holding σ → Store → Prop} {f : Tally → Tally}
    (hlanded : Landed s.name change f w t) (hf : ∀ t, (f t).clones = t.clones) : Unmoved w t := by
  cases hlanded with
  | moved _ _ hleases hshared _ =>
      -- only a handle that shares its entry moves
      rw [h.unique hleases, hsole] at hshared
      cases hshared
  | written _ _ _ _ ht =>
      exact ((Unmoved.stored w _ _ _).counted s.name f hf).of_alike ht

/-- A sole owner's edit moves nothing, however it ends. -/
theorem Leases.perform_sole (hs : s.edit?.isSome = true) :
    Unmoved w ((perform s).stateAfter w) := by
  refine Attempt.EndsFrom.stateAfter (P := fun t : Workspace σ => Unmoved w t) ?_
  refine (perform_endsFrom s).imp ?_ ?_
  · intro _ t hdone
    cases hdone with
    -- steps that bind a name or take it away make no edit
    | dropped hdrops _ =>
        rw [hdrops] at hs
        cases hs
    | copied hcopies _ _ _ =>
        rw [hcopies] at hs
        cases hs
    | installed _ _ hbuilds _ =>
        rw [edit?_eq_none hbuilds] at hs
        cases hs
    | kept _ ht =>
        exact ((Unmoved.refl w).counted s.name Tally.noop fun _ => rfl).of_alike ht
    | edited hlanded =>
        exact hlanded.unmoved h hsole (clones_counts s)
    | published hbatches hlanded =>
        exact hlanded.unmoved h hsole fun _ => rfl
  · intro fault t hmissed
    cases hmissed with
    | idle ht =>
        exact (Unmoved.refl w).of_alike ht
    | undone _ ht =>
        exact ((Unmoved.refl w).counted s.name Tally.rollback fun _ => rfl).of_alike ht
    | spoiled _ _ _ _ ht =>
        exact ((Unmoved.stored w _ _ _).counted s.name Tally.rollback fun _ => rfl).of_alike ht

end Sole

/-! ## Every program -/

/-- The books of a workspace are right. -/
structure Accounted (w : Workspace σ) : Prop where
  /-- An entry counts as its owners the handles that lease it. -/
  owners : ∀ e s, w.shares[e]? = some s → s.owners = Int.ofNat (w.handles.countP (·.lease == .on e))
  /-- The lease of a handle is not released: it claims an entry, and the entry has a holding. -/
  leased : ∀ h ∈ w.handles, ∃ e s, h.lease = .on e ∧ w.shares[e]? = some s ∧
    s.content < w.holdings.length
  /-- Handles on different entries have different holdings. -/
  apart : ∀ g ∈ w.handles, ∀ h ∈ w.handles, g.lease ≠ h.lease →
    holdingOf g.name w ≠ holdingOf h.name w
  /-- A handle is told that it shares its holding exactly if another handle has the same one. -/
  shared : ∀ h ∈ w.handles, ∃ b, isShared h.name w = .ok b w ∧
    (b = true ↔ ∃ g ∈ w.handles, g.name ≠ h.name ∧ holdingOf g.name w = holdingOf h.name w)
  /-- A write of a handle that shares with nobody is an edit in place. -/
  inPlace : ∀ h ∈ w.handles, isShared h.name w = .ok false w → ∃ id, holdingOf h.name w = .ok id w ∧
    ∀ act : Rules σ → Attempt (Editor σ) Bool,
      (mutate h.name act).EndsFrom w (fun a t => edit id act w = .ok a t)
        (fun fault t => ∃ u, edit id act w = .error fault u ∧ t = u.counted h.name Tally.rollback)
  /-- It sets and erases without a private copy, whether or not that succeeds. -/
  unmoved : ∀ h ∈ w.handles, isShared h.name w = .ok false w → ∀ s : Step σ, s.name = h.name →
    s.edit?.isSome = true → Unmoved w ((perform s).stateAfter w)

/-- Handles have the same holding exactly if they lease the same entry. -/
theorem Owned.holdingOf_eq_iff (hw : w.Owned []) {g h : Handle} (hg : g ∈ w.handles)
    (hh : h ∈ w.handles) :
    holdingOf g.name w = holdingOf h.name w ↔ g.lease = h.lease := by
  rcases hw.leases_of_mem hg with ⟨e, s, hleases, _⟩
  rcases hw.leases_of_mem hh with ⟨e', s', hleases', _⟩
  rw [hleases.holdingOf_eq, hleases'.holdingOf_eq]
  constructor
  · intro heq
    injection heq with hcontent
    by_contra hne
    -- different entries never have the same content
    have hentries : e' ≠ e := by
      intro he
      exact hne (hleases.lease.trans (he ▸ hleases'.lease.symm))
    exact hw.content_ne hleases.share hleases'.share hentries hcontent.symm
  · intro hlease
    have he : e' = e := by
      rw [hleases.lease, hleases'.lease] at hlease
      exact (Option.some.inj (congrArg Lease.claim hlease)).symm
    have hs := hleases'.share
    rw [he, hleases.share] at hs
    rw [Option.some.inj hs]

theorem Leases.isShared_eq_false {owner : Handle} {s : Shared Nat} (h : w.Leases name owner e s)
    (hshared : isShared name w = .ok false w) : s.isShared = false := by
  rw [h.isShared_eq] at hshared
  injection hshared

/-- After every program the owners are counted right: no orderings, no faults on the way and no
order of the steps can change that. -/
theorem play_accounted (host : σ) (mint : Mint) (events : List (Event σ)) :
    ((blank host mint).play events).Accounted := by
  have hw : ((blank host mint).play events).Owned [] := (Owned.blank host mint).play events
  refine ⟨fun e s hs => hw.owners_eq hs, fun h hh => ?_, fun g hg h hh hne heq => ?_,
    fun h hh => ?_,
    fun h hh hshared => ?_, fun h hh hshared s hname hs => ?_⟩
  · rcases hw.leases_of_mem hh with ⟨e, s, hleases, hlt⟩
    exact ⟨e, s, hleases.lease, hleases.share, hlt⟩
  · exact hne ((hw.holdingOf_eq_iff hg hh).1 heq)
  · rcases hw.leases_of_mem hh with ⟨e, s, hleases, _⟩
    refine ⟨s.isShared, hleases.isShared_eq, ?_⟩
    rw [hw.isShared_iff hh hleases]
    -- the other handles on the entry are the other handles with the holding
    refine exists_congr fun g => and_congr_right fun hg => and_congr_right fun _ => ?_
    rw [hw.holdingOf_eq_iff hg hh, hleases.lease]
  · rcases hw.leases_of_mem hh with ⟨e, s, hleases, _⟩
    have hsole := hleases.isShared_eq_false hshared
    exact ⟨s.content, hleases.holdingOf_eq, fun act => hleases.mutate_sole hsole act⟩
  · rcases hw.leases_of_mem hh with ⟨e, entry, hleases, _⟩
    have hsole := hleases.isShared_eq_false hshared
    rw [← hname] at hleases
    exact hleases.perform_sole hsole hs

end Workspace
end Peaks
