import Peaks.Proofs.Owners
import Peaks.Proofs.WeakNumbers

/-!
# Handles keep apart

In every program over handles, a step through one handle leaves alone what the others lease. If no
step failed over the telling of another fault, a step that fails leaves its own handle alone too,
and every handle shows at every moment what it would show if each copy had been a deep copy from the
start.

- `Workspace.Plays`  : events that fit when they come, and can tell why they fail
- `Event.deepen`     : the same event with a deep copy in place of a copy
- `Workspace.handles_isolated` : all these statements, for every program from an empty workspace
- `Workspace.handles_spoiled`  : a program with a failure that cannot be told
-/

namespace Peaks

variable {σ : Type} {rank : Rules σ → Rankings}

/-! ## Deep copies -/

/-- The same step with a deep copy in place of a copy. -/
def Step.deepen : Step σ → Step σ
  | .copy name source => .deepCopy name source
  | step => step

theorem Step.deepen_ne_copy (s : Step σ) (name source : String) : s.deepen ≠ .copy name source := by
  cases s with
  | _ => exact nofun

namespace Event

/-- The same event with a deep copy in place of a copy. -/
def deepen : Event σ → Event σ
  | .step s => .step s.deepen
  | .host change => .host change

/-- A step meets payloads that its rules take, and does not fail over the telling of another
fault. -/
def Fits (rank : Rules σ → Rankings) (w : Workspace σ) : Event σ → Prop
  | .step s => s.Fits rank w.shown? ∧ (Workspace.perform s).told w = true
  | .host _ => True

end Event

namespace Shelf

def react (s : Shelf σ) : Event σ → Shelf σ
  | .step step => (perform step).stateAfter s
  | .host change => { s with host := change s.host }

/-- On the shelf a copy is a deep copy. -/
theorem perform_deepen (s : Step σ) : perform s.deepen = perform s := by
  cases s with
  | _ => rfl

theorem react_deepen (s : Shelf σ) (event : Event σ) : s.react event.deepen = s.react event := by
  cases event with
  | step step =>
      rw [Event.deepen, react, react, perform_deepen]
  | host change =>
      rfl

end Shelf

namespace Workspace

variable {w v t : Workspace σ} {s : Step σ}

/-- Every event fits when it comes. -/
def Plays (rank : Rules σ → Rankings) (w : Workspace σ) : List (Event σ) → Prop
  | [] => True
  | event :: events => event.Fits rank w ∧ Plays rank (w.react event) events

/-- The count of owners is right, and all stores are valid. -/
structure Orderly (rank : Rules σ → Rankings) (w : Workspace σ) : Prop where
  owned : w.Owned []
  sound : w.Sound rank

/-! ## One event -/

theorem perform_shelf (hw : w.Orderly rank) (hs : s.Fits rank w.shown?)
    (htold : (perform s).told w = true) :
    ((perform s).stateAfter w).Orderly rank ∧
      ((perform s).stateAfter w).shelf = (Shelf.perform s).stateAfter w.shelf := by
  refine Attempt.EndsFrom.stateAfter_of_told (P := fun t : Workspace σ => t.Orderly rank ∧
    t.shelf = (Shelf.perform s).stateAfter w.shelf) ?_ htold
  refine (perform_tracks hw.owned hw.sound s hs).imp ?_ ?_
  · rintro _ t ⟨sh, hshelf, hadvanced⟩
    refine ⟨⟨hadvanced.owned, hadvanced.sound⟩, ?_⟩
    rw [hadvanced.shelf, Attempt.stateAfter, hshelf]
  · intro fault t hmisses hspoken
    obtain ⟨sh, hshelf, hadvanced⟩ := hmisses.told hspoken
    refine ⟨⟨hadvanced.owned, hadvanced.sound⟩, ?_⟩
    rw [hadvanced.shelf, Attempt.stateAfter, hshelf]

theorem react_shelf (hw : w.Orderly rank) {event : Event σ} (hfits : event.Fits rank w) :
    (w.react event).Orderly rank ∧ (w.react event).shelf = w.shelf.react event := by
  cases event with
  | step s =>
      exact perform_shelf hw hfits.1 hfits.2
  | host change =>
      refine ⟨⟨hw.owned.of_perm (.refl _) rfl (Nat.le_refl _), ?_⟩, rfl⟩
      exact hw.sound.of_holdings_eq rfl rfl rfl

theorem Orderly.blank (host : σ) (mint : Mint) : (blank host mint).Orderly rank := by
  refine ⟨.blank host mint, ⟨?_, ?_, ?_⟩⟩
  all_goals simp [Workspace.blank]

theorem Orderly.play (hw : w.Orderly rank) {events : List (Event σ)}
    (hplays : Plays rank w events) :
    (w.play events).Orderly rank := by
  induction events generalizing w with
  | nil =>
      exact hw
  | cons event events ih =>
      exact ih (react_shelf hw hplays.1).1 hplays.2

/-! ## Programs that share nothing -/

theorem Unshared.releaseClaim (hw : w.Unshared) (lease : Lease) :
    ∀ s ∈ lease.releaseClaim w.shares, s.isShared = false := by
  unfold Lease.releaseClaim
  cases lease.claim with
  | none =>
      exact hw
  | some e =>
      intro s hs
      rcases List.mem_iff_getElem?.1 hs with ⟨i, hi⟩
      simp only [List.getElem?_modify, Option.map_eq_map, Option.map_eq_some_iff] at hi
      rcases hi with ⟨s', hs', rfl⟩
      have hsole := hw s' (List.mem_of_getElem? hs')
      -- an owner less makes nobody share
      split
      · have hone : ¬ 1 < s'.owners := of_decide_eq_false hsole
        have hless : ¬ 1 < s'.owners - 1 := by omega
        exact decide_eq_false hless
      · exact hsole

theorem Unshared.of_shares_eq (hw : w.Unshared) (hshares : t.shares = w.shares) : t.Unshared := by
  rw [Unshared, hshares]
  exact hw

theorem Unshared.dropped (hw : w.Unshared) (name : String) : (w.dropped name).Unshared := by
  unfold Unshared Workspace.dropped
  split
  · exact hw.releaseClaim _
  · exact hw

theorem Unshared.installed (hw : w.Unshared) (h : Holding σ) : (w.installed h).Unshared := by
  intro s hs
  rcases List.mem_append.1 hs with hs | hs
  · exact hw s hs
  · rw [List.mem_singleton.1 hs]
    rfl

/-- A handle with an entry of its own stays there. -/
theorem Unshared.landed (hw : w.Unshared) {name : String} {change : Holding σ → Store → Prop}
    {f : Tally → Tally} (hlanded : Landed name change f w t) : t.Unshared := by
  cases hlanded with
  | moved _ _ hleases hshared _ =>
      rw [hw _ (List.mem_of_getElem? hleases.share)] at hshared
      cases hshared
  | written _ _ _ _ ht =>
      exact hw.of_shares_eq ht.shares

theorem Unshared.missed (hw : w.Unshared) {name : String} {change : Holding σ → Store → Prop}
    (hmissed : Missed name change w t) : t.Unshared := by
  cases hmissed with
  | idle ht =>
      exact hw.of_shares_eq ht.shares
  | undone _ ht =>
      exact hw.of_shares_eq ht.shares
  | spoiled _ _ _ _ ht =>
      exact hw.of_shares_eq ht.shares

theorem Unshared.done (hw : w.Unshared) (hs : ∀ name source, s ≠ .copy name source)
    (hdone : Done s w t) : t.Unshared := by
  cases hdone with
  | dropped _ ht =>
      exact (hw.dropped s.name).of_shares_eq ht.shares
  | copied hcopies _ _ _ =>
      exact absurd hcopies (hs _ _)
  | installed h _ _ ht =>
      exact ((hw.installed h).dropped s.name).of_shares_eq ht.shares
  | kept _ ht =>
      exact hw.of_shares_eq ht.shares
  | edited hlanded =>
      exact hw.landed hlanded
  | published _ hlanded =>
      exact hw.landed hlanded

theorem Unshared.react (hw : w.Unshared) (event : Event σ) : (w.react event.deepen).Unshared := by
  cases event with
  | step s =>
      refine Attempt.EndsFrom.stateAfter (P := fun t : Workspace σ => t.Unshared) ?_
      refine (perform_endsFrom s.deepen).imp ?_ ?_
      · exact fun _ _ hdone => hw.done s.deepen_ne_copy hdone
      · exact fun _ _ hmissed => hw.missed hmissed
  | host change =>
      exact hw.of_shares_eq rfl

/-! ## Two programs side by side -/

theorem Step.fits_deepen {shown : String → Option (Shown σ)} (hs : s.Fits rank shown) :
    s.deepen.Fits rank shown := by
  cases s with
  | copy name source =>
      trivial
  | _ =>
      exact hs

/-- Where nothing is shared, a step fails over the telling of a fault only if it does so
elsewhere. -/
theorem told_deepen (hw : w.Orderly rank) (hv : v.Orderly rank) (hsole : v.Unshared)
    (hshelf : v.shelf = w.shelf) (hs : s.Fits rank w.shown?) (htold : (perform s).told w = true) :
    (perform s.deepen).told v = true := by
  have hshown : v.shown? = w.shown? := congrArg Shelf.shown hshelf
  have hdeep := perform_tracks hv.owned hv.sound s.deepen (Step.fits_deepen (hshown ▸ hs))
  have hflat := perform_tracks hw.owned hw.sound s hs
  unfold Attempt.told
  cases hrun : perform s.deepen v with
  | ok a t =>
      rfl
  | error fault t =>
      -- the shelf is the same, so it fails with the same fault for both
      obtain ⟨sh, hfails⟩ := (hdeep.error hrun).alone hsole
      rw [Shelf.perform_deepen, hshelf] at hfails
      cases hrun' : perform s w with
      | ok a u =>
          obtain ⟨_, hreturns, _⟩ := hflat.ok hrun'
          cases hfails.symm.trans hreturns
      | error fault' u =>
          have hspoken := Attempt.isSpoken_of_told htold hrun'
          obtain ⟨_, hfails', _⟩ := (hflat.error hrun').told hspoken
          cases hfails.symm.trans hfails'
          exact hspoken

theorem fits_deepen (hw : w.Orderly rank) (hv : v.Orderly rank) (hsole : v.Unshared)
    (hshelf : v.shelf = w.shelf) {event : Event σ} (hfits : event.Fits rank w) :
    event.deepen.Fits rank v := by
  cases event with
  | host change =>
      trivial
  | step s =>
      have hshown : v.shown? = w.shown? := congrArg Shelf.shown hshelf
      exact ⟨Step.fits_deepen (hshown ▸ hfits.1), told_deepen hw hv hsole hshelf hfits.1 hfits.2⟩

/-- Two workspaces that show the same go on to show the same, if one of them makes deep copies. -/
theorem play_deepen (hw : w.Orderly rank) (hv : v.Orderly rank) (hsole : v.Unshared)
    (hshelf : v.shelf = w.shelf) {events : List (Event σ)} (hplays : Plays rank w events) :
    (v.play (events.map Event.deepen)).shelf = (w.play events).shelf := by
  induction events generalizing w v with
  | nil =>
      exact hshelf
  | cons event events ih =>
      have hw' := react_shelf hw hplays.1
      have hv' := react_shelf hv (fits_deepen hw hv hsole hshelf hplays.1)
      -- both events do the same on the shelf
      refine ih hw'.1 hv'.1 (hsole.react event) ?_ hplays.2
      rw [hv'.2, hw'.2, Shelf.react_deepen, hshelf]

/-- At every moment of every program, whatever its orderings do, a step through one handle leaves
what every other handle leases as it is. Under strict weak orderings, and as long as no step has
failed over the telling of another fault, a step that fails leaves what its own handle leases too,
unless it fails so itself, and every handle shows what it would show if deep copies had been made
instead of copies. -/
theorem handles_isolated {host : σ} {mint : Mint} {events : List (Event σ)}
    (hw : w = (blank host mint).play events) :
    (∀ (s : Step σ) g, g ≠ s.name → ((perform s).stateAfter w).leaseOf? g = w.leaseOf? g) ∧
    (∀ rank, Plays rank (blank host mint) events →
      (∀ (s : Step σ) fault t, s.Fits rank w.shown? → perform s w = .error fault t →
        fault.isSpoken = true → ∀ g, t.leaseOf? g = w.leaseOf? g) ∧
      ∀ g, w.shown? g = ((blank host mint).play (events.map Event.deepen)).shown? g) := by
  have howned : w.Owned [] := hw ▸ (Owned.blank host mint).play events
  refine ⟨fun s g hg => howned.leaseOf?_perform s hg, fun rank hplays => ?_⟩
  have hblank : (blank host mint).Orderly rank := .blank host mint
  have horderly : w.Orderly rank := hw ▸ hblank.play hplays
  refine ⟨fun s fault t hs hrun hspoken g => ?_, fun g => ?_⟩
  · have hmisses := (perform_tracks horderly.owned horderly.sound s hs).error hrun
    obtain ⟨sh, _, hadvanced⟩ := hmisses.told hspoken
    exact hadvanced.kept g trivial
  · have hsole : (blank host mint : Workspace σ).Unshared := fun _ hs => nomatch hs
    have hshelf := play_deepen hblank hblank hsole rfl hplays
    rw [← hw] at hshelf
    exact (congrFun (congrArg Shelf.shown hshelf) g).symm

/-- A copy that is written to, and then the fourth comparison of values from there on fails. -/
def weakEvents : List (Event Surroundings) :=
  [.step (.create "f" { rules := .metered }), .step (.set "f" (.weak 10) (.weak 50)),
   .step (.copy "g" "f"), .step (.set "g" (.weak 25) (.weak 52)), .host (·.arm 1 3)]

def weakBlank : Workspace Surroundings :=
  blank { meters := [{}, {}] } {}

def weakHandles : Workspace Surroundings :=
  weakBlank.play weakEvents

theorem handles_isolated_weak :
    (∃ fault t, perform (.set "g" (.weak 40) (.weak 53)) weakHandles = .error fault t ∧
      ∀ g, t.leaseOf? g = weakHandles.leaseOf? g) ∧
    ["f", "g"].map (fun g => (weakHandles.shown? g).map (·.points.length)) = [some 1, some 2] ∧
    ∀ g, weakHandles.shown? g = (weakBlank.play (weakEvents.map Event.deepen)).shown? g := by
  have hplays : Plays (fun _ => ⟨.tens, .tens⟩) weakBlank weakEvents :=
    ⟨⟨Rules.metered_follow, rfl⟩, ⟨fun _ _ => ⟨⟨_, rfl⟩, ⟨_, rfl⟩⟩, by decide +kernel⟩,
      ⟨trivial, by decide +kernel⟩,
      ⟨fun _ _ => ⟨⟨_, rfl⟩, ⟨_, rfl⟩⟩, by decide +kernel⟩, trivial, trivial⟩
  have htold : (perform (.set "g" (.weak 40) (.weak 53))).told weakHandles = true := by
    decide +kernel
  obtain ⟨fault, t, hrun⟩ := Attempt.exists_error_of_outcome
    (show (Attempt.outcome (perform (.set "g" (.weak 40) (.weak 53))) weakHandles).isOk = false by
      decide +kernel)
  have hisolated := (handles_isolated (w := weakHandles) rfl).2 _ hplays
  have hfits : Step.Fits (fun _ => ⟨.tens, .tens⟩) weakHandles.shown?
      (.set "g" (.weak 40) (.weak 53)) :=
    fun _ _ => ⟨⟨_, rfl⟩, ⟨_, rfl⟩⟩
  have hspoken := Attempt.isSpoken_of_told htold hrun
  exact ⟨⟨fault, t, hrun, hisolated.1 _ fault t hfits hrun hspoken⟩, by decide +kernel, hisolated.2⟩

/-- A copy of one point, and then the next comparison of values fails. -/
def longEvents : List (Event Surroundings) :=
  [.step (.create "f" { rules := .metered }), .step (.set "f" (.int 1) (.int 5)),
   .step (.copy "g" "f"), .host (·.arm 1 0)]

/-- A failed write that cannot be told: a handle with a copy keeps what it showed, and with a deep
copy it shows one point more. -/
theorem handles_spoiled :
    let step : Step Surroundings := .set "g" longNumber (.int 7)
    let shared := weakBlank.play longEvents
    let alone := weakBlank.play (longEvents.map Event.deepen)
    ((perform step).told shared, (perform step).told alone) = (false, false) ∧
      [shared, (perform step).stateAfter shared, alone, (perform step).stateAfter alone].map
        (fun w => (w.shown? "g").map (·.points.length)) = [some 1, some 1, some 1, some 2] := by
  decide +kernel

end Workspace

end Peaks
