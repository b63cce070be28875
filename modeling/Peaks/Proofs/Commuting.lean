import Peaks.Proofs.BulkLoad
import Peaks.Proofs.Keys
import Peaks.Proofs.Locality
import Peaks.Proofs.NumberRanking
import Peaks.Proofs.Undisturbed

/-!
# Edits at different places

What an edit does is told by the one point that stands at its argument: every other point stays, the
version counts the changes, and the maxima are those of the points. So two edits whose arguments are
not tied do not see each other, although each of them judges the points next to it anew, and the
maxima between the two edits differ from one order to the other. By the same account, erasing what
was added leaves the very points that were there before.

- `Edit.Turns`   : what an edit makes of the point at its argument
- `Edit.Effect`  : what an edit makes of a store
- `Edit.Diamond` : two edits at different places, in either order
- `Store.SameContent` : two stores with the same objects in the same places, and one version
- `Workspace.Arises` : the workspaces that actions lead to
- `Workspace.Arises.edits_commute` : either order, and there and back again
-/

namespace Peaks

/-! ## Points of the same objects -/

/-- Two points made of the same argument and the same value. -/
def Point.Twins (p q : Point) : Prop :=
  p.argument.same q.argument ∧ p.value.same q.value

namespace Point.Twins

variable {p q : Point}

theorem refl (p : Point) : p.Twins p :=
  ⟨Payload.same_refl _, Payload.same_refl _⟩

theorem symm (h : p.Twins q) : q.Twins p :=
  ⟨Payload.same_symm h.1, Payload.same_symm h.2⟩

theorem matching (h : p.Twins q) (R : Rankings) : R.Matches p q :=
  ⟨R.argument.tied_of_same h.1, R.value.tied_of_same h.2⟩

end Point.Twins

/-- Two lists of points show the same objects at an argument, or both of them show none. -/
def Rankings.SameAt (R : Rankings) (points points' : List Point) (b : Payload) : Prop :=
  ∃ found found', R.Shows points b found ∧ R.Shows points' b found' ∧
    Option.Rel Point.Twins found found'

namespace Rankings.SameAt

variable {R : Rankings} {points points' : List Point} {b : Payload}

theorem symm (h : R.SameAt points points' b) : R.SameAt points' points b := by
  obtain ⟨found, found', hfound, hfound', htwins⟩ := h
  refine ⟨found', found, hfound', hfound, ?_⟩
  cases htwins with
  | some htwins =>
      exact .some htwins.symm
  | none =>
      exact .none

theorem exists_twin (h : R.SameAt points points' b)
    (hincreasing : points.Pairwise R.Precedes) {p : Point}
    (hp : p ∈ points) (htied : Tied R.argument.before p.argument b) : ∃ q ∈ points', p.Twins q := by
  obtain ⟨found, found', hfound, hfound', htwins⟩ := h
  have hshows : R.Shows points b (some p) := ⟨hp, htied⟩
  cases hfound.unique hincreasing hshows
  cases htwins with
  | some htwins =>
      exact ⟨_, hfound'.1, htwins⟩

end Rankings.SameAt

/-- The same objects in the same places of both lists, and the same version. -/
structure Store.SameContent (s s' : Store) : Prop where
  points : List.Forall₂ Point.Twins s.points s'.points
  maxima : List.Forall₂ Point.Twins s.maxima s'.maxima
  version : s.version = s'.version

namespace Store.Consistent

variable {R : Rankings} {s s' : Store}

/-- Points of the same objects have maxima of the same objects. -/
theorem maxima_twins (hs : s.Consistent R) (hs' : s'.Consistent R)
    (h : List.Forall₂ Point.Twins s.points s'.points) :
    List.Forall₂ Point.Twins s.maxima s'.maxima := by
  have hmatches : List.Forall₂ R.Matches s.points s'.points := h.imp fun _ _ hpq => hpq.matching R
  exact (hs.mirrors hs' hmatches).maxima.imp fun _ _ hplace => hplace.related h

/-- The points of a store decide about both of its lists. -/
theorem lists_eq (hs : s.Consistent R) (hs' : s'.Consistent R)
    (hmem : ∀ p, p ∈ s.points ↔ p ∈ s'.points) :
    s.points = s'.points ∧ s.maxima = s'.maxima := by
  have hperm : s.points.Perm s'.points :=
    (List.perm_ext_iff_of_nodup hs.increasing.nodup hs'.increasing.nodup).2 hmem
  have hpoints : s.points = s'.points := eq_of_perm_of_pairwise hperm hs.increasing hs'.increasing
  refine ⟨hpoints, eq_of_perm_of_pairwise ?_ hs.ranked hs'.ranked⟩
  have hpeaks := hs.sorts_peaks
  rw [hpoints] at hpeaks
  exact hpeaks.trans hs'.sorts_peaks.symm

end Store.Consistent

namespace Edit

/-! ## What an edit does -/

def argument : Edit → Payload
  | .set a _ => a
  | .erase a => a

/-- What becomes of the point at the argument of an edit, if there is one, and whether this counts
as a change. -/
inductive Turns (R : Rankings) : Edit → Option Point → Bool → Option Point → Prop
  | keep {a v : Payload} {p : Point} (tied : Tied R.value.before p.value v) :
      Turns R (.set a v) (some p) false (some p)
  | replace {a v : Payload} {p q : Point} (differs : ¬ Tied R.value.before p.value v)
      (argument : q.argumentCell = p.argumentCell) (value : q.value.same v) :
      Turns R (.set a v) (some p) true (some q)
  | add {a v : Payload} {q : Point} (argument : q.argument.same a) (value : q.value.same v) :
      Turns R (.set a v) none true (some q)
  | remove {a : Payload} {p : Point} : Turns R (.erase a) (some p) true none
  | miss {a : Payload} : Turns R (.erase a) none false none

variable {R : Rankings} {x y : Edit} {s u t : Store}

/-- The point that was there decides about the change, and about the objects that are there then. -/
theorem Turns.unique {old new new' : Option Point} {changed changed' : Bool}
    (h : x.Turns R old changed new)
    (h' : x.Turns R old changed' new') : changed = changed' ∧ Option.Rel Point.Twins new new' := by
  cases h with
  | keep tied =>
      cases h' with
      | keep _ =>
          exact ⟨rfl, .some (.refl _)⟩
      | replace differs _ _ =>
          exact absurd tied differs
  | replace differs argument value =>
      cases h' with
      | keep tied =>
          exact absurd tied differs
      | replace _ argument' value' =>
          refine ⟨rfl, .some ⟨?_, Payload.same_trans value (Payload.same_symm value')⟩⟩
          rw [Point.argument, Point.argument, argument, argument']
          exact Payload.same_refl _
  | add argument value =>
      cases h' with
      | add argument' value' =>
          exact ⟨rfl, .some ⟨Payload.same_trans argument (Payload.same_symm argument'),
            Payload.same_trans value (Payload.same_symm value')⟩⟩
  | remove =>
      cases h'
      exact ⟨rfl, .none⟩
  | miss =>
      cases h'
      exact ⟨rfl, .none⟩

/-- The point at the argument is turned, every other point stays, and a change is counted. -/
structure Effect (R : Rankings) (x : Edit) (changed : Bool) (s s' : Store) : Prop where
  turns : ∃ old new, R.Shows s.points x.argument old ∧ R.Shows s'.points x.argument new ∧
    x.Turns R old changed new
  others : ∀ p : Point, ¬ Tied R.argument.before p.argument x.argument →
    (p ∈ s.points ↔ p ∈ s'.points)
  version : s'.version = s.version + changed.toNat
  consistent : s'.Consistent R

namespace Effect

variable {changed : Bool}

theorem shows_other (h : x.Effect R changed s t) {b : Payload}
    (hb : ¬ Tied R.argument.before b x.argument)
    {found : Option Point} (hfound : R.Shows s.points b found) : R.Shows t.points b found := by
  refine hfound.congr fun p hp => h.others p fun htied => ?_
  exact hb (hp.symm.trans htied)

/-- Erasing takes out what setting has put where nothing was, and only the version shows it. -/
theorem set_erase {a v : Payload} {changes : Bool × Bool}
    (hset : (Edit.set a v).Effect R changes.1 s u)
    (herase : (Edit.erase a).Effect R changes.2 u t) (hs : s.Consistent R)
    (habsent : R.Shows s.points a none) :
    changes = (true, true) ∧ t = { s with version := s.version + 2 } := by
  obtain ⟨old, new, hold, hnew, hturns⟩ := hset.turns
  obtain ⟨old', new', hold', hnew', hturns'⟩ := herase.turns
  obtain ⟨changed, changed'⟩ := changes
  cases hold.unique hs.increasing habsent
  cases hturns with
  | @add _ _ q _ _ =>
      cases hold'.unique hset.consistent.increasing hnew
      cases hturns'
      have hmem : ∀ p, p ∈ t.points ↔ p ∈ s.points := by
        intro p
        by_cases htied : Tied R.argument.before p.argument a
        · exact iff_of_false (fun hp => hnew' p hp htied) fun hp => habsent p hp htied
        · exact ((hset.others p htied).trans (herase.others p htied)).symm
      obtain ⟨hpoints, hmaxima⟩ := herase.consistent.lists_eq hs hmem
      have hversion : t.version = s.version + 2 := by
        rw [herase.version, hset.version]
        rfl
      exact ⟨rfl, by rw [← hpoints, ← hmaxima, ← hversion]⟩

end Effect

/-! ## Either order -/

/-- Two edits at arguments that are not tied, from one store in either order. The changes are those
of `x` and of `y` when `x` comes first, and then those when `y` does. -/
structure Diamond (R : Rankings) (x y : Edit) (s t t' : Store)
    (changes changes' : Bool × Bool) : Prop where
  apart : ¬ Tied R.argument.before x.argument y.argument
  left : ∃ u, x.Effect R changes.1 s u ∧ y.Effect R changes.2 u t
  right : ∃ u, y.Effect R changes'.2 s u ∧ x.Effect R changes'.1 u t'

namespace Diamond

variable {t' : Store} {changes changes' : Bool × Bool}

theorem flip (d : Diamond R x y s t t' changes changes') :
    Diamond R y x s t' t changes'.swap changes.swap where
  apart h := d.apart h.symm
  left := d.right
  right := d.left

/-- Both orders make the same of what stands at the argument of the first edit. -/
theorem at_argument (d : Diamond R x y s t t' changes changes') :
    changes.1 = changes'.1 ∧ R.SameAt t.points t'.points x.argument := by
  obtain ⟨u, hx, hy⟩ := d.left
  obtain ⟨u', hy', hx'⟩ := d.right
  obtain ⟨old, new, hold, hnew, hturns⟩ := hx.turns
  obtain ⟨old', new', hold', hnew', hturns'⟩ := hx'.turns
  -- the other edit has not touched the point that the later one finds
  cases (hy'.shows_other d.apart hold).unique hy'.consistent.increasing hold'
  obtain ⟨hchanged, htwins⟩ := hturns.unique hturns'
  exact ⟨hchanged, new, new', hy.shows_other d.apart hnew, hnew', htwins⟩

theorem changes_eq (d : Diamond R x y s t t' changes changes') : changes = changes' :=
  Prod.ext d.at_argument.1 d.flip.at_argument.1.symm

theorem consistent (d : Diamond R x y s t t' changes changes') : t.Consistent R := by
  obtain ⟨u, _, hy⟩ := d.left
  exact hy.consistent

theorem exists_twin (d : Diamond R x y s t t' changes changes') {p : Point} (hp : p ∈ t.points) :
    ∃ q ∈ t'.points, p.Twins q := by
  by_cases hx : Tied R.argument.before p.argument x.argument
  · exact d.at_argument.2.exists_twin d.consistent.increasing hp hx
  by_cases hy : Tied R.argument.before p.argument y.argument
  · exact d.flip.at_argument.2.symm.exists_twin d.consistent.increasing hp hy
  -- a point at neither argument is there all the time
  obtain ⟨u, hleft, hleft'⟩ := d.left
  obtain ⟨u', hright, hright'⟩ := d.right
  have hstart : p ∈ s.points := (hleft.others p hx).2 ((hleft'.others p hy).2 hp)
  exact ⟨p, (hright'.others p hx).1 ((hright.others p hy).1 hstart), .refl p⟩

theorem version_eq (d : Diamond R x y s t t' changes changes') : t.version = t'.version := by
  obtain ⟨u, hx, hy⟩ := d.left
  obtain ⟨u', hy', hx'⟩ := d.right
  have hchanges := d.changes_eq
  calc
    t.version = s.version + changes.1.toNat + changes.2.toNat := by rw [hy.version, hx.version]
    _ = s.version + changes'.2.toNat + changes'.1.toNat := by rw [hchanges, Nat.add_right_comm]
    _ = t'.version := by rw [hx'.version, hy'.version]

/-- Both orders lead to the same content. -/
theorem sameContent (d : Diamond R x y s t t' changes changes') : t.SameContent t' := by
  have hpoints : List.Forall₂ Point.Twins t.points t'.points := by
    refine forall₂_of_partners (r := R.Precedes) d.consistent.increasing
      d.flip.consistent.increasing ?_ ?_ ?_
    · intro p q hpq
      exact (hpq.matching R).1
    · intro p hp
      exact d.exists_twin hp
    · intro q hq
      obtain ⟨p, hp, hqp⟩ := d.flip.exists_twin hq
      exact ⟨p, hp, hqp.symm⟩
  exact ⟨hpoints, d.consistent.maxima_twins d.flip.consistent hpoints, d.version_eq⟩

end Diamond

end Edit

/-! ## Finished edits -/

namespace Editor

variable {σ : Type} {R : Rankings} {e t : Editor σ} {a v : Payload} {changed : Bool}

theorem SetDone.effect (h : SetDone R a v e changed t) (hs : e.store.Consistent R) :
    (Edit.set a v).Effect R changed e.store t.store := by
  cases h with
  | @kept i p host located tied =>
      have hshows : R.Shows e.store.points a (some p) := .of_located located
      exact ⟨⟨some p, some p, hshows, hshows, .keep tied⟩, fun _ _ => Iff.rfl, rfl, hs⟩
  | @changed front back old point t change =>
      have hnew : R.Shows t.store.points a (some point) := change.shows (.refl a)
      refine ⟨?_, fun p hp => change.mem_iff hp (.refl _), change.version,
        change.valid.toConsistent⟩
      cases old with
      | none =>
          have hold : R.Shows e.store.points a none := by
            intro p hp htied
            cases change.mem_old hp htied
          exact ⟨none, some point, hold, hnew, .add (change.argument rfl) change.value⟩
      | some o =>
          have hold : R.Shows e.store.points a (some o) :=
            ⟨by simp [change.before], change.tied o rfl⟩
          exact ⟨some o, some point, hold, hnew,
            .replace (change.differs o rfl) (change.argumentCell o rfl) change.value⟩

theorem EraseDone.effect (h : EraseDone R a e changed t) (hs : e.store.Consistent R) :
    (Edit.erase a).Effect R changed e.store t.store := by
  cases h with
  | absent located =>
      have hshows : R.Shows e.store.points a none := .of_located located
      exact ⟨⟨none, none, hshows, hshows, .miss⟩, fun _ _ => Iff.rfl, rfl, hs⟩
  | @erased front back old t change =>
      have hold : R.Shows e.store.points a (some old) := ⟨by simp [change.before], change.tied⟩
      have hnew : R.Shows t.store.points a none :=
        .of_located (.absent change.after change.between)
      refine ⟨⟨some old, none, hold, hnew, .remove⟩, fun p hp => ?_, change.version,
        change.valid.toConsistent⟩
      have hne : p ≠ old := by
        rintro rfl
        exact hp change.tied
      simp [change.before, change.after, hne]

end Editor

/-! ## Edits in a workspace -/

namespace Rules

variable {σ : Type} {rules : Rules σ}

/-- The fault stems from one that the allocator failed with when it left this host behind. -/
def OutOfRoom (rules : Rules σ) (fault : Fault) (host : σ) : Prop :=
  ∃ cause, fault.StemsFrom cause ∧ ∃ s, rules.allocate s = .error cause host

theorem allocate_ensures (rules : Rules σ) : rules.allocate.Ensures (fun _ _ => True)
    fun fault host => ∃ s, rules.allocate s = .error fault host :=
  .of_runs (fun _ _ _ _ => trivial) fun s _ _ hrun => ⟨s, hrun⟩

theorem Obey.imp {R : Rankings} {failed failed' : Fault → σ → Prop} (hR : rules.Obey R failed)
    (h : ∀ fault host, failed fault host → failed' fault host) : rules.Obey R failed' where
  argument_ensures ha hb host := (hR.argument_ensures ha hb host).imp (fun _ _ hn => hn) h
  value_ensures ha hb host := (hR.value_ensures ha hb host).imp (fun _ _ hn => hn) h

end Rules

namespace Workspace

variable {σ : Type} {rank : Rules σ → Rankings} {w t : Workspace σ} {id : Nat}
  {h : Holding σ} {x y : Edit}

/-- Two edits of one holding, one after the other. -/
def editBoth (id : Nat) (x y : Edit) : Attempt (Workspace σ) (Bool × Bool) := do
  let first ← edit id (x.run ·)
  let second ← edit id (y.run ·)
  return (first, second)

/-- The holding has been given this store, and nothing else about any holding has changed. -/
def Restocked (w : Workspace σ) (id : Nat) (h : Holding σ) (s : Store) (t : Workspace σ) : Prop :=
  t.holdings = w.holdings.set id { h with store := s }

theorem Restocked.getElem? {s : Store} (ht : w.Restocked id h s t) (hh : w.holdings[id]? = some h) :
    t.holdings[id]? = some { h with store := s } := by
  rw [ht, List.getElem?_set_self (List.getElem?_eq_some_iff.1 hh).1]

theorem Restocked.trans {s s' : Store} {u : Workspace σ} (ht : w.Restocked id h s t)
    (hu : t.Restocked id { h with store := s } s' u) : w.Restocked id h s' u := by
  rw [Restocked, hu, ht, List.set_set]

section Obeying

variable (hw : w.Sound rank) (hh : w.holdings[id]? = some h)
  (hobey : h.rules.Obey (rank h.rules) fun _ _ => False)
include hw hh hobey

/-- An edit whose comparisons do not fail has its effect, unless there is no room. -/
theorem Sound.edit_effect (hx : x.Fits (rank h.rules)) :
    (edit id (x.run ·)).EndsFrom w
      (fun changed t => t.Sound rank ∧ ∃ s, w.Restocked id h s t ∧ x.Effect
        (rank h.rules) changed h.store s)
      (fun fault t => h.rules.OutOfRoom fault t.host) := by
  obtain ⟨pool, hpool⟩ := hw.exists_pool hh
  have hvalid := hw.valid_editor hh pool
  have hobeys : h.rules.Obey (rank h.rules) fun fault host =>
      ∃ s, h.rules.allocate s = .error fault host :=
    hobey.imp fun _ _ hfailed => hfailed.elim
  have hroom := h.rules.allocate_ensures
  have hdone : (x.run h.rules).EndsFrom (w.editor h pool)
      (fun changed e => e.store.Valid (rank h.rules) e.mint.nextPoint ∧
        w.mint.nextPoint ≤ e.mint.nextPoint ∧
        x.Effect (rank h.rules) changed h.store e.store)
      (fun fault e => h.rules.OutOfRoom fault e.host) := by
    cases x with
    | set a v =>
        refine (Editor.set_obeys hobeys hroom hvalid hx.1 hx.2).imp (fun changed e he => ?_)
          fun _ _ he => he
        exact ⟨he.valid hvalid, he.mint, he.effect hvalid.toConsistent⟩
    | erase a =>
        refine (Editor.erase_obeys hobeys hroom hvalid hx).imp (fun changed e he => ?_)
          fun _ _ he => he
        exact ⟨he.valid hvalid, he.mint, he.effect hvalid.toConsistent⟩
  refine (edit_endsFrom hh hpool hdone).imp ?_ ?_
  · rintro changed _ ⟨e, ⟨hstore, hmint, heffect⟩, rfl⟩
    exact ⟨hw.edited hh hstore hmint, e.store, modify_eq_set_of_getElem? _ hh, heffect⟩
  · rintro fault _ ⟨e, he, rfl⟩
    exact he

theorem Sound.editBoth_effects (hx : x.Fits (rank h.rules)) (hy : y.Fits (rank h.rules)) :
    (editBoth id x y).EndsFrom w
      (fun changes t => ∃ u s, w.Restocked id h s t ∧ x.Effect (rank h.rules) changes.1 h.store u ∧
        y.Effect (rank h.rules) changes.2 u s)
      (fun fault t => h.rules.OutOfRoom fault t.host) := by
  refine (hw.edit_effect hh hobey hx).bind fun first t ht => ?_
  obtain ⟨hsound, u, hrestocked, hfirst⟩ := ht
  refine (hsound.edit_effect (hrestocked.getElem? hh) hobey hy).bind fun second t' ht' => .pure ?_
  obtain ⟨_, s, hrestocked', hsecond⟩ := ht'
  exact ⟨u, s, hrestocked.trans hrestocked', hfirst, hsecond⟩

end Obeying

/-- What a sequence of actions leads to, if all of them fit when they come, and whether or not they
fail. -/
inductive Arises (rank : Rules σ → Rankings) : Workspace σ → Prop
  | blank (host : σ) (mint : Mint) : Arises rank (blank host mint)
  | act {w : Workspace σ} (a : Action σ) (arises : Arises rank w) (fits : a.Fits rank w)
      (told : a.run.told w = true) : Arises rank (a.run.stateAfter w)

theorem Arises.settled (hw : w.Arises rank) : w.Settled rank := by
  induction hw with
  | blank host mint =>
      exact ⟨.blank host mint, by simp [Kindred, Workspace.blank]⟩
  | act a _ fits told ih =>
      exact (ih.run fits told).1

/-- From every workspace that actions lead to, if no comparison of a holding fails:
- two edits at arguments that are not tied lead to the same content in either order, with the same
  changes;
- a value that is set where none was, and erased again, leaves the very points and maxima that were
  there before.
Otherwise the allocator has failed. -/
theorem Arises.edits_commute (hw : w.Arises rank) (hh : w.holdings[id]? = some h)
    (hobey : h.rules.Obey (rank h.rules) fun _ _ => False) :
    (∀ x y : Edit, x.Fits (rank h.rules) → y.Fits (rank h.rules) →
      ¬ Tied (rank h.rules).argument.before x.argument y.argument →
      (editBoth id x y).EndsFrom w
        (fun changes t => ∃ s, w.Restocked id h s t ∧
          (editBoth id y x).EndsFrom w
            (fun changes' t' => changes' = changes.swap ∧ ∃ s', w.Restocked id h s' t' ∧
              s.SameContent s')
            (fun fault t' => h.rules.OutOfRoom fault t'.host))
        (fun fault t => h.rules.OutOfRoom fault t.host)) ∧
    (∀ a v : Payload, (Edit.set a v).Fits (rank h.rules) →
      (∀ p ∈ h.store.points, ¬ Tied (rank h.rules).argument.before p.argument a) →
      (editBoth id (.set a v) (.erase a)).EndsFrom w
        (fun changes t => changes = (true, true) ∧
          w.Restocked id h { h.store with version := h.store.version + 2 } t)
        (fun fault t => h.rules.OutOfRoom fault t.host)) := by
  have hsound := hw.settled.sound
  refine ⟨fun x y hx hy hapart => ?_, fun a v hfits habsent => ?_⟩
  · refine (hsound.editBoth_effects hh hobey hx hy).imp (fun changes t ht => ?_) fun _ _ ht => ht
    obtain ⟨u, s, hrestocked, hfirst, hsecond⟩ := ht
    refine ⟨s, hrestocked, ?_⟩
    refine (hsound.editBoth_effects hh hobey hy hx).imp (fun changes' t' ht' => ?_) fun _ _ ht => ht
    obtain ⟨u', s', hrestocked', hfirst', hsecond'⟩ := ht'
    have hdiamond : Edit.Diamond (rank h.rules) x y h.store s s' changes changes'.swap :=
      ⟨hapart, ⟨u, hfirst, hsecond⟩, ⟨u', hfirst', hsecond'⟩⟩
    refine ⟨?_, s', hrestocked', hdiamond.sameContent⟩
    rw [hdiamond.changes_eq, Prod.swap_swap]
  · have herases : (Edit.erase a).Fits (rank h.rules) := hfits.1
    refine (hsound.editBoth_effects hh hobey hfits herases).imp (fun changes t ht => ?_)
      fun _ _ ht => ht
    obtain ⟨u, s, hrestocked, hset, herase⟩ := ht
    have hconsistent := (hsound.valid h (List.mem_of_getElem? hh)).toConsistent
    obtain ⟨hchanges, rfl⟩ := hset.set_erase herase hconsistent habsent
    exact ⟨hchanges, hrestocked⟩

/-- Edits of one holding, one after another. -/
def afterEdits (w : Workspace σ) (id : Nat) (edits : List Edit) : Workspace σ :=
  edits.foldl (fun w x => (edit id (x.run ·)).stateAfter w) w

theorem edit_rules (x : Edit) (id : Nat) (w : Workspace σ) :
    ((edit id (x.run ·)).stateAfter w).holdings.map (·.rules) = w.holdings.map (·.rules) := by
  have hstored : ∀ {t : Workspace σ} {h : Holding σ} {s : Store}, w.holdings[id]? = some h →
      Alike (w.stored id h s) t → t.holdings.map (·.rules) = w.holdings.map (·.rules) := by
    intro t h s hh halike
    rw [halike.holdings, stored, List.map_set]
    exact set_eq_of_getElem? (by rw [List.getElem?_map, hh]; rfl)
  refine Attempt.EndsFrom.stateAfter
    (P := fun t : Workspace σ => t.holdings.map (·.rules) = w.holdings.map (·.rules)) ?_
  refine (edit_alike (x.run ·) id).imp ?_ ?_
  · rintro _ t ⟨h, s, hh, _, halike⟩
    exact hstored hh halike
  · rintro _ t (rfl | ⟨h, s, hh, _, halike⟩)
    · rfl
    · exact hstored hh halike

theorem afterEdits_rules (edits : List Edit) (id : Nat) (w : Workspace σ) :
    (w.afterEdits id edits).holdings.map (·.rules) = w.holdings.map (·.rules) := by
  induction edits generalizing w with
  | nil =>
      rfl
  | cons x edits ih =>
      exact (ih _).trans (edit_rules x id w)

/-- A function from numbers to numbers. -/
def plain : Workspace Surroundings :=
  (Action.arrive { rules := .ofOrders .natural .natural } {}).run.stateAfter
    (blank ({} : Surroundings) {})

/-- Two numbers with room for a third one between them. -/
def gapped : Workspace Surroundings :=
  plain.afterEdits 0 [.set (.int 1) (.int 5), .set (.int 3) (.int 7)]

theorem gapped_rules {h : Holding Surroundings} (hh : h ∈ gapped.holdings) :
    h.rules = .ofOrders .natural .natural := by
  have hrules : plain.holdings.map (·.rules) = [.ofOrders .natural .natural] := rfl
  rw [← afterEdits_rules] at hrules
  have hmem : h.rules ∈ gapped.holdings.map (·.rules) := List.mem_map_of_mem hh
  rw [gapped, hrules] at hmem
  exact List.mem_singleton.1 hmem

theorem gapped_arises : gapped.Arises fun _ => .numbers := by
  have hset : ∀ a v : Int, (Edit.set (.int a) (.int v)).Fits .numbers :=
    fun a v => ⟨⟨_, rfl⟩, ⟨_, rfl⟩⟩
  have hplain : plain.Arises fun _ => .numbers :=
    .act (.arrive { rules := .ofOrders .natural .natural } {})
      (.blank ({} : Surroundings) ({} : Mint))
      ⟨Rules.natural_obey.follow, Store.valid_empty _ _⟩ (by decide +kernel)
  have hfirst := Arises.act (.edit 0 (.set (.int 1) (.int 5))) hplain
    (fun h hh => ⟨Tour.heir_eq_none (by decide +kernel) hh, hset 1 5⟩) (by decide +kernel)
  exact .act (.edit 0 (.set (.int 3) (.int 7))) hfirst
    (fun h hh => ⟨Tour.heir_eq_none (by decide +kernel) hh, hset 3 7⟩) (by decide +kernel)

theorem gapped_absent {h : Holding Surroundings} (hh : h ∈ gapped.holdings) :
    ∀ p ∈ h.store.points, ¬ Tied Rankings.numbers.argument.before p.argument (.int 2) := by
  have hordered : (gapped.holdings.all fun h => h.store.points.all fun p =>
      let place := p.argument.place?.getD .bottom
      let gap := (Payload.int 2).place?.getD .bottom
      place.lt gap || gap.lt place) = true := by decide +kernel
  intro p hp htied
  rcases Bool.or_eq_true_iff.1
    (List.all_eq_true.1 (List.all_eq_true.1 hordered h hh) p hp) with hlt | hlt
  · exact htied.1 hlt
  · exact htied.2 hlt

theorem Arises.edits_commute_gapped :
    ∃ h changes t t' u s s', gapped.holdings[0]? = some h ∧
      editBoth 0 (.set (.int 2) (.int 9)) (.erase (.int 3)) gapped = .ok changes t ∧
      editBoth 0 (.erase (.int 3)) (.set (.int 2) (.int 9)) gapped = .ok changes.swap t' ∧
      gapped.Restocked 0 h s t ∧ gapped.Restocked 0 h s' t' ∧ s.SameContent s' ∧
      editBoth 0 (.set (.int 2) (.int 9)) (.erase (.int 2)) gapped = .ok (true, true) u ∧
      gapped.Restocked 0 h { h.store with version := h.store.version + 2 } u := by
  obtain ⟨changes, t, hrun⟩ := Attempt.exists_ok_of_outcome
    (show ((editBoth 0 (.set (.int 2) (.int 9)) (.erase (.int 3))).outcome gapped).isOk =
      true by decide +kernel)
  obtain ⟨changes', t', hrun'⟩ := Attempt.exists_ok_of_outcome
    (show ((editBoth 0 (.erase (.int 3)) (.set (.int 2) (.int 9))).outcome gapped).isOk =
      true by decide +kernel)
  obtain ⟨undone, u, hundo⟩ := Attempt.exists_ok_of_outcome
    (show ((editBoth 0 (.set (.int 2) (.int 9)) (.erase (.int 2))).outcome gapped).isOk =
      true by decide +kernel)
  have hid : 0 < gapped.holdings.length := by decide +kernel
  have hh : gapped.holdings[0]? = some gapped.holdings[0] := List.getElem?_eq_getElem hid
  have hmem : gapped.holdings[0] ∈ gapped.holdings := List.getElem_mem hid
  have hobey : gapped.holdings[0].rules.Obey .numbers fun _ _ => False := by
    rw [gapped_rules hmem]
    exact Rules.natural_obey
  have hset : (Edit.set (.int 2) (.int 9)).Fits .numbers := ⟨⟨_, rfl⟩, ⟨_, rfl⟩⟩
  have herase : (Edit.erase (.int 3)).Fits .numbers := ⟨_, rfl⟩
  have hboth := Arises.edits_commute gapped_arises hh hobey
  have hlt : ((Payload.int 2).place?.getD .bottom).lt
      ((Payload.int 3).place?.getD .bottom) = true := by
    decide +kernel
  obtain ⟨s, hrestocked, hother⟩ := (hboth.1 _ _ hset herase fun htied => htied.1 hlt).ok hrun
  obtain ⟨rfl, s', hrestocked', hsame⟩ := hother.ok hrun'
  obtain ⟨rfl, hrestored⟩ := (hboth.2 _ _ hset (gapped_absent hmem)).ok hundo
  exact ⟨_, changes, t, t', u, s, s', hh, hrun, hrun', hrestocked, hrestocked', hsame,
    hundo, hrestored⟩

end Workspace

end Peaks
