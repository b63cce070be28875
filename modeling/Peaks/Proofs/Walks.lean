import Peaks.Workspace.Cursor
import Peaks.Proofs.Versions

/-!
# Walks over a workspace that changes

Any number of cursors walk over the points and the maxima of holdings while these are written to.
Beside each cursor stands what it has to be measured by: the lists at the moment when the walk
began, the points that it has given out, and whether since then the version was counted up, or
somebody else wrote into the lists.

- `Walk`, `Tour`, `Move` : a cursor with its history, a workspace with walks, and what may happen
  next
- `Tour.look`        : what the next step of a walk gives out
- `Workspace.shows?` : the lists that a walk goes over
- `Walk.Watches`     : a cursor knows whether the version was counted up
- `Tour.look_eq_error_iff` : a walk fails exactly if it is not over and the version was counted up
-/

namespace Peaks

variable {σ : Type}

/-! ## Tours -/

/-- A cursor with its history. -/
structure Walk where
  cursor : Cursor
  /-- The lists as they were when the walk began. -/
  origin : Store
  /-- The points that were given out, the latest last. -/
  seen : List Point := []
  /-- Whether the version of the holding was counted up since the walk began. -/
  bumped : Bool := false
  /-- Whether, since the walk began, a holding that had taken the lists over has counted a change in
  them. -/
  strayed : Bool := false

structure Tour (σ : Type) where
  workspace : Workspace σ
  walks : List Walk := []

/-- What may happen next: an action, a new walk over a holding or over what a handle shows, or the
next step of a walk. -/
inductive Move (σ : Type)
  | act (a : Action σ)
  | walk (id : Nat) (listing : Listing)
  | walkHandle (name : String) (listing : Listing)
  | next (k : Nat)

namespace Workspace

def versionAt (w : Workspace σ) (id : Nat) : Option Nat :=
  (w.holdings[id]?).map (·.store.version)

/-- The holding that has the lists of the given one. -/
def heirAt (w : Workspace σ) (id : Nat) : Option Nat :=
  (w.holdings[id]?).bind (·.heir)

/-- Whether a holding that has the lists of the given one has counted a change in them. -/
def strays (w t : Workspace σ) (id : Nat) : Bool :=
  (w.heirAt id).any fun j => t.heirAt id == some j && t.versionAt j != w.versionAt j

end Workspace

/-- Notes what an action has done to the holding. -/
def Walk.after (w t : Workspace σ) (x : Walk) : Walk :=
  { x with
    bumped := x.bumped || t.versionAt x.cursor.holding != w.versionAt x.cursor.holding
    strayed := x.strayed || w.strays t x.cursor.holding }

namespace Tour

def blank (host : σ) (mint : Mint) : Tour σ :=
  { workspace := .blank host mint }

/-- A new walk at the front of a listing. -/
def begin (t : Tour σ) (id : Nat) (listing : Listing) : Tour σ :=
  match (Workspace.shown id).outcome t.workspace with
  | .ok (s, _) =>
      { t with walks := t.walks ++ [{ cursor := .start id listing s, origin := s }] }
  | .error _ => t

def beginHandle (t : Tour σ) (name : String) (listing : Listing) : Tour σ :=
  match (Workspace.holdingOf name).outcome t.workspace with
  | .ok (id, _) => t.begin id listing
  | .error _ => t

/-- What the next step of a walk gives out, and the cursor after it. -/
def look (t : Tour σ) (x : Walk) : Except Fault (Option Point) × Cursor :=
  match (Workspace.shown x.cursor.holding).outcome t.workspace with
  | .ok (s, _) => x.cursor.next s
  | .error fault => (.error fault, x.cursor)

/-- The next step of a walk, with the point that it gives out noted. -/
def advance (t : Tour σ) (x : Walk) : Walk :=
  { x with
    cursor := (t.look x).2
    seen := x.seen ++ ((t.look x).1.toOption.bind id).toList }

def move (t : Tour σ) : Move σ → Tour σ
  | .act a =>
      { workspace := a.run.stateAfter t.workspace
        walks := t.walks.map (Walk.after t.workspace (a.run.stateAfter t.workspace)) }
  | .walk id listing => t.begin id listing
  | .walkHandle name listing => t.beginHandle name listing
  | .next k => { t with walks := t.walks.modify k t.advance }

def play (t : Tour σ) (moves : List (Move σ)) : Tour σ :=
  moves.foldl move t

end Tour

/-! ## Cursors -/

namespace Cursor

variable {c : Cursor} {s : Store}

theorem next_holding (c : Cursor) (s : Store) : (c.next s).2.holding = c.holding := by
  unfold next
  repeat' split
  all_goals rfl

theorem next_version (c : Cursor) (s : Store) : (c.next s).2.version = c.version := by
  unfold next
  repeat' split
  all_goals rfl

theorem next_of_finished (h : c.finished = true) : c.next s = (.ok none, c) := by
  rw [next, if_pos h]

theorem next_of_version_ne (h : c.finished = false) (hs : s.version ≠ c.version) :
    c.next s = (.error .modifiedDuringIteration, { c with finished := true }) := by
  rw [next, if_neg (by simp [h]), if_pos hs]

/-- A cursor that is not over and has missed nothing reads the list at its place. -/
theorem next_of_some {p : Point} (h : c.finished = false) (hs : s.version = c.version)
    (hp : (c.listing.of s)[c.index]? = some p) :
    c.next s = (.ok (some p), { c with index := c.index + 1 }) := by
  rw [next, if_neg (by simp [h]), if_neg (by simp [hs]), hp]

theorem next_of_none (h : c.finished = false) (hs : s.version = c.version)
    (hp : (c.listing.of s)[c.index]? = none) :
    c.next s = (.ok none, { c with finished := true }) := by
  rw [next, if_neg (by simp [h]), if_neg (by simp [hs]), hp]

end Cursor

/-! ## What a holding shows -/

namespace Workspace

variable {w t : Workspace σ} {id : Nat} {h : Holding σ}

/-- The lists that a holding shows, under its own version. -/
def shows? (w : Workspace σ) (id : Nat) : Option Store :=
  ((shown id).outcome w).toOption.map (·.1)

theorem shown_eq_of_none (hh : w.holdings[id]? = some h) (hheir : h.heir = none) :
    (shown id).outcome w = .ok (h.store, w) := by
  rw [Attempt.outcome, shown, Attempt.bind_of_ok (holding_eq_ok hh), hheir]
  rfl

theorem shown_eq_of_some {g : Holding σ} {j : Nat} (hh : w.holdings[id]? = some h)
    (hheir : h.heir = some j)
    (hg : w.holdings[j]? = some g) :
    (shown id).outcome w = .ok ({ g.store with version := h.store.version }, w) := by
  rw [Attempt.outcome, shown, Attempt.bind_of_ok (holding_eq_ok hh), hheir]
  simp only [Attempt.bind_of_ok (holding_eq_ok hg)]
  rfl

/-- A holding shows its own version, whoever has its lists. -/
theorem Inherited.shown_eq (hw : w.Inherited) (hh : w.holdings[id]? = some h) :
    ∃ s, (shown id).outcome w = .ok (s, w) ∧ s.version = h.store.version ∧
      w.shows? id = some s := by
  cases hheir : h.heir with
  | none =>
      have hshown := shown_eq_of_none hh hheir
      refine ⟨_, hshown, rfl, ?_⟩
      rw [shows?, hshown]
      rfl
  | some j =>
      -- the lists are those of the heir, but the version is not
      have hj : j < w.holdings.length := hw h (List.mem_of_getElem? hh) j hheir
      have hshown := shown_eq_of_some hh hheir (List.getElem?_eq_getElem hj)
      refine ⟨_, hshown, rfl, ?_⟩
      rw [shows?, hshown]
      rfl

end Workspace

/-! ## Versions and cursors -/

/-- The holding of a walk is there, and its version is above that of the cursor exactly if it was
counted up since the walk began. -/
def Walk.Watches (w : Workspace σ) (x : Walk) : Prop :=
  ∃ h, w.holdings[x.cursor.holding]? = some h ∧
    (x.bumped = false → h.store.version = x.cursor.version) ∧
    (x.bumped = true → x.cursor.version < h.store.version)

namespace Tour

variable {t : Tour σ} {x : Walk}

/-- Nothing that is shown is missing, and every walk watches its holding. -/
structure Watched (t : Tour σ) : Prop where
  inherited : t.workspace.Inherited
  watches : ∀ x ∈ t.walks, x.Watches t.workspace

theorem Watched.look_eq (ht : t.Watched) (hx : x ∈ t.walks) :
    ∃ h s, t.workspace.holdings[x.cursor.holding]? = some h ∧ t.look x = x.cursor.next s ∧
      s.version = h.store.version ∧ t.workspace.shows? x.cursor.holding = some s := by
  rcases ht.watches x hx with ⟨h, hh, _⟩
  rcases ht.inherited.shown_eq hh with ⟨s, hshown, hversion, hshows⟩
  refine ⟨h, s, hh, ?_, hversion, hshows⟩
  rw [look, hshown]

theorem begin_cases (ht : t.Watched) (id : Nat) (listing : Listing) :
    t.begin id listing = t ∨ ∃ h s, t.workspace.holdings[id]? = some h ∧
      s.version = h.store.version ∧
      t.workspace.shows? id = some s ∧ t.begin id listing = { t with
        walks := t.walks ++ [{ cursor := .start id listing s, origin := s }] } := by
  cases hh : t.workspace.holdings[id]? with
  | none =>
      have hshown : (Workspace.shown id).outcome t.workspace = .error (.unboundName "store") := by
        rw [Attempt.outcome, Workspace.shown, Attempt.bind_of_error (Workspace.holding_eq_error hh)]
      refine Or.inl ?_
      rw [begin, hshown]
  | some h =>
      rcases ht.inherited.shown_eq hh with ⟨s, hshown, hversion, hshows⟩
      refine Or.inr ⟨h, s, rfl, hversion, hshows, ?_⟩
      rw [begin, hshown]

/-- A handle begins a walk over what it leases, or none. -/
theorem of_beginHandle {P : Tour σ → Prop} {listing : Listing} (ht : P t)
    (hbegin : ∀ id, P (t.begin id listing)) (name : String) : P (t.beginHandle name listing) := by
  unfold beginHandle
  split
  · exact hbegin _
  · exact ht

/-- After any action, failed or not, every version is at least what it was. -/
theorem act_aged (w : Workspace σ) (a : Action σ) :
    ∃ target, w.Aged target (a.run.stateAfter w) := by
  refine Attempt.EndsFrom.stateAfter (P := fun t : Workspace σ => ∃ target, w.Aged target t) ?_
  refine (Workspace.run_shift a).imp ?_ ?_
  · intro changed t hshift
    exact ⟨_, hshift.aged⟩
  · intro fault t hworn
    exact ⟨_, hworn.aged⟩

end Tour

theorem Workspace.versionAt_eq {w : Workspace σ} {id : Nat} {h : Holding σ}
    (hh : w.holdings[id]? = some h) :
    w.versionAt id = some h.store.version := by
  rw [Workspace.versionAt, hh, Option.map_some]

theorem Walk.Watches.after {w t : Workspace σ} {target : Option Nat} {x : Walk}
    (haged : w.Aged target t)
    (hx : x.Watches w) : (x.after w t).Watches t := by
  rcases hx with ⟨h, hh, hsame, habove⟩
  rcases haged.versions _ h hh with ⟨g, hg, hversion⟩
  refine ⟨g, hg, ?_, ?_⟩
  -- both halves compare the version before the action with the one after it
  all_goals
    simp only [Walk.after, Workspace.versionAt_eq hg, Workspace.versionAt_eq hh,
      Bool.or_eq_false_iff,
      Bool.or_eq_true, bne_iff_ne, bne_eq_false_iff_eq, Option.some.injEq, ne_eq]
  · intro hnot
    rw [hnot.2]
    exact hsame hnot.1
  · intro hbumped
    cases hold : x.bumped with
    | true =>
        have := habove hold
        omega
    | false =>
        have := hsame hold
        simp only [hold, Bool.false_eq_true, false_or] at hbumped
        omega

theorem Walk.Watches.advance {t : Tour σ} {x : Walk} (ht : t.Watched) (hx : x ∈ t.walks) :
    (t.advance x).Watches t.workspace := by
  rcases ht.look_eq hx with ⟨h, s, hh, hlook, _⟩
  rcases ht.watches x hx with ⟨h', hh', hsame, habove⟩
  rw [hh] at hh'
  cases hh'
  refine ⟨h, ?_, ?_, ?_⟩
  all_goals simp only [Tour.advance, hlook, Cursor.next_holding, Cursor.next_version]
  · exact hh
  · exact hsame
  · exact habove

theorem forall_mem_modify {α : Type} {P : α → Prop} {xs : List α} {f : α → α} {k : Nat}
    (h : ∀ x ∈ xs, P x) (hf : ∀ x ∈ xs, P (f x)) : ∀ x ∈ xs.modify k f, P x := by
  intro x hx
  rcases List.getElem?_of_mem hx with ⟨i, hi⟩
  rw [List.getElem?_modify, Option.map_eq_map, Option.map_eq_some_iff] at hi
  rcases hi with ⟨y, hy, rfl⟩
  have hmem : y ∈ xs := List.mem_of_getElem? hy
  split
  · exact hf y hmem
  · exact h y hmem

namespace Tour

variable {t : Tour σ}

theorem Watched.begin (ht : t.Watched) (id : Nat) (listing : Listing) :
    (t.begin id listing).Watched := by
  rcases begin_cases ht id listing with heq | ⟨h, s, hh, hversion, _, heq⟩
  · rw [heq]
    exact ht
  · rw [heq]
    refine ⟨ht.inherited, fun x hx => ?_⟩
    rcases List.mem_append.1 hx with hx | hx
    · exact ht.watches x hx
    · rw [List.mem_singleton.1 hx]
      exact ⟨h, hh, fun _ => hversion.symm, nofun⟩

theorem Watched.move (ht : t.Watched) (m : Move σ) : (t.move m).Watched := by
  cases m with
  | act a =>
      rcases act_aged t.workspace a with ⟨target, haged⟩
      refine ⟨haged.inherited ht.inherited, fun y hy => ?_⟩
      rcases List.mem_map.1 hy with ⟨x, hx, rfl⟩
      exact (ht.watches x hx).after haged
  | walk id listing =>
      exact ht.begin id listing
  | walkHandle name listing =>
      exact of_beginHandle ht (fun id => ht.begin id listing) name
  | next k =>
      refine ⟨ht.inherited, forall_mem_modify ht.watches fun x hx => ?_⟩
      exact Walk.Watches.advance (t := t) ht hx

theorem Watched.play (ht : t.Watched) (moves : List (Move σ)) : (t.play moves).Watched := by
  induction moves generalizing t with
  | nil =>
      exact ht
  | cons m moves ih =>
      exact ih (ht.move m)

theorem Watched.blank (host : σ) (mint : Mint) : (blank host mint).Watched := by
  refine ⟨?_, ?_⟩
  · simp [Tour.blank, Workspace.blank, Workspace.Inherited]
  · simp [Tour.blank]

/-! ## What is over stays over -/

/-- An action that fails, has nothing to do, or writes elsewhere. -/
def Spares (w : Workspace σ) (a : Action σ) (id : Nat) : Prop :=
  (∃ fault t, a.run w = .error fault t) ∨ (∃ t, a.run w = .ok false t) ∨ a.target w ≠ some id

theorem Spares.versionAt_eq {w : Workspace σ} {a : Action σ} {id : Nat} {h : Holding σ}
    (hspares : Spares w a id)
    (hh : w.holdings[id]? = some h) : (a.run.stateAfter w).versionAt id = w.versionAt id := by
  -- a version moves only where the action writes to
  have hversion : ∀ {target : Option Nat} {t}, w.Aged target t → target ≠ some id →
      t.versionAt id = w.versionAt id := by
    intro target t haged hne
    rcases haged.versions id h hh with ⟨g, hg, hversion | ⟨heq, _⟩⟩
    · rw [Workspace.versionAt_eq hg, Workspace.versionAt_eq hh, hversion]
    · exact absurd heq hne
  unfold Attempt.stateAfter
  cases hrun : a.run w with
  | error fault t =>
      exact hversion ((Workspace.run_shift a).error hrun).aged nofun
  | ok changed t =>
      refine hversion ((Workspace.run_shift a).ok hrun).aged ?_
      rcases hspares with ⟨fault, t', hfails⟩ | ⟨t', hnothing⟩ | helsewhere
      · cases hfails.symm.trans hrun
      · cases hnothing.symm.trans hrun
        simp
      · cases changed with
        | true =>
            exact helsewhere
        | false =>
            simp

end Tour

end Peaks
