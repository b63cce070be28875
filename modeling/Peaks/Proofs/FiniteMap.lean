import Peaks.Proofs.Calls

/-!
# A store as a finite map

A store is a finite map whose keys are arguments up to ties: setting a value changes what is found
at the tied arguments and at no other, and so does erasing.

- `Rankings.Shows`   : the point that a list of points has at an argument, or none
- `Rules.Answers`    : the one answer of a question that may fail
- `Store.Updates`    : how the map changes when a value is set
- `Store.Removes`    : how the map changes when an argument is erased
- `Workspace.Reached.refines_map` : the two edits, from every workspace that calls lead to
- `Workspace.refines_map_doubled` : two points at one argument, after a failure that was not told
-/

namespace Peaks

/-! ## What a list of points shows -/

/-- The point tied with an argument, or none if there is no such point. -/
def Rankings.Shows (R : Rankings) (points : List Point) (b : Payload) : Option Point → Prop
  | none => ∀ p ∈ points, ¬ Tied R.argument.before p.argument b
  | some p => p ∈ points ∧ Tied R.argument.before p.argument b

/-- Whenever the question is answered, this is the answer; otherwise a comparison failed. -/
def Rules.Answers {σ α : Type} (rules : Rules σ) (question : Attempt σ α) (answer : α) : Prop :=
  question.Ensures (fun a _ => a = answer) rules.Raised

namespace Rankings.Shows

variable {R : Rankings} {points points' : List Point} {a b : Payload}

theorem exists_shows (R : Rankings) (points : List Point) (b : Payload) :
    ∃ found, R.Shows points b found := by
  by_cases h : ∃ p ∈ points, Tied R.argument.before p.argument b
  · obtain ⟨p, hp, htied⟩ := h
    exact ⟨some p, hp, htied⟩
  · exact ⟨none, fun p hp htied => h ⟨p, hp, htied⟩⟩

theorem of_located {found : Option (Nat × Point)} (h : Located R points b found) :
    R.Shows points b (found.map (·.2)) := by
  cases found with
  | none =>
      exact fun p hp => h.not_tied_of_none hp
  | some entry =>
      exact ⟨h.mem, h.tied⟩

/-- Arguments that increase strictly have one point at most at each argument. -/
theorem unique (hincreasing : points.Pairwise R.Precedes) {found found' : Option Point}
    (h : R.Shows points b found) (h' : R.Shows points b found') : found = found' := by
  cases found with
  | none =>
      cases found' with
      | none =>
          rfl
      | some q =>
          exact absurd h'.2 (h q h'.1)
  | some p =>
      cases found' with
      | none =>
          exact absurd h.2 (h' p h.1)
      | some q =>
          -- both are tied with the argument, and so with each other
          have htied : Tied R.argument.before p.argument q.argument := h.2.trans h'.2.symm
          rcases eq_or_of_pairwise hincreasing h.1 h'.1 with heq | hpq | hqp
          · rw [heq]
          · exact absurd hpq htied.1
          · exact absurd hqp htied.2

/-- Only the points tied with the argument matter. -/
theorem congr {found : Option Point} (h : R.Shows points b found)
    (hmem : ∀ p, Tied R.argument.before p.argument b → (p ∈ points ↔ p ∈ points')) :
    R.Shows points' b found := by
  cases found with
  | none =>
      exact fun p hp htied => h p ((hmem p htied).2 hp) htied
  | some p =>
      exact ⟨(hmem p h.2).1 h.1, h.2⟩

theorem of_tied {found : Option Point} (h : R.Shows points a found)
    (hab : Tied R.argument.before a b) : R.Shows points b found := by
  cases found with
  | none =>
      exact fun p hp htied => h p hp (htied.trans hab.symm)
  | some p =>
      exact ⟨h.1, h.2.trans hab⟩

end Rankings.Shows

/-! ## Questions to a store -/

namespace Store

variable {σ : Type} {rules : Rules σ} {R : Rankings} {next : Nat} {s : Store} {b : Payload}

theorem find?_answers (hR : rules.Follow R) (hs : s.Valid R next) (hb : R.argument.domain b)
    {found : Option Point} (hfound : R.Shows s.points b found) :
    rules.Answers (find? rules s b) found := by
  refine (PointIndex.locate_ensures hR hb hs.covers hs.increasing).map fun located _ h => ?_
  exact (Rankings.Shows.of_located h).unique hs.increasing hfound

theorem valueAt_answers (hR : rules.Follow R) (hs : s.Valid R next) (hb : R.argument.domain b)
    {p : Point} (hp : R.Shows s.points b (some p)) : rules.Answers (valueAt rules s b) p.value := by
  refine (find?_answers hR hs hb hp).bind fun found hfound => ?_
  subst hfound
  exact .pure fun _ => rfl

/-- Asking for a value that is not there fails, if nothing else fails before. -/
theorem valueAt_of_none (hR : rules.Follow R) (hs : s.Valid R next) (hb : R.argument.domain b)
    (hnone : R.Shows s.points b none) :
    (valueAt rules s b).Ensures (fun _ _ => False)
      (fun fault host => fault = .invalidArgument b ∨ rules.Raised fault host) := by
  intro host
  refine ((find?_answers hR hs hb hnone host).imp (fun _ _ h => h) fun _ _ h => Or.inr h).bind ?_
  rintro _ host' rfl
  exact Or.inl rfl

/-- Before and after, the same point or none is found at an argument. -/
def Agrees (rules : Rules σ) (s s' : Store) (b : Payload) : Prop :=
  ∃ found, rules.Answers (find? rules s b) found ∧ rules.Answers (find? rules s' b) found

theorem agrees_of_mem_iff (hR : rules.Follow R) (hs : s.Valid R next) {s' : Store} {next' : Nat}
    (hs' : s'.Valid R next') (hb : R.argument.domain b)
    (hmem : ∀ p, Tied R.argument.before p.argument b → (p ∈ s.points ↔ p ∈ s'.points)) :
    Agrees rules s s' b := by
  obtain ⟨found, hfound⟩ := Rankings.Shows.exists_shows R s.points b
  exact ⟨found, find?_answers hR hs hb hfound, find?_answers hR hs' hb (hfound.congr hmem)⟩

/-! ## Setting -/

/-- What setting a value does to the map. -/
structure Updates (rules : Rules σ) (R : Rankings) (a v : Payload) (changed : Bool) (s s' : Store) :
    Prop where
  /-- Other arguments show the same point, or still none. -/
  others : ∀ b, R.argument.domain b → ¬ Tied R.argument.before b a → Agrees rules s s' b
  /-- Tied arguments have a tied value, and the very object if something changed. -/
  value : ∀ b, R.argument.domain b → Tied R.argument.before b a →
    (valueAt rules s' b).Ensures
      (fun x _ => Tied R.value.before x v ∧ (changed = true → x.same v)) rules.Raised
  /-- A point that was there passes its argument cell on. -/
  cell : ∀ p ∈ s.points, Tied R.argument.before p.argument a →
    (find? rules s' a).Ensures
      (fun found _ => ∃ q, found = some q ∧ q.argumentCell = p.argumentCell) rules.Raised
  /-- Nothing changes exactly if a tied value was already there. -/
  kept_iff : changed = false ↔
    ∃ p ∈ s.points, Tied R.argument.before p.argument a ∧ Tied R.value.before p.value v

/-- What erasing an argument does to the map. -/
structure Removes (rules : Rules σ) (R : Rankings) (a : Payload) (changed : Bool) (s s' : Store) :
    Prop where
  /-- Other arguments show the same point, or still none. -/
  others : ∀ b, R.argument.domain b → ¬ Tied R.argument.before b a → Agrees rules s s' b
  /-- Tied arguments have no value any more. -/
  absent : ∀ b, R.argument.domain b → Tied R.argument.before b a →
    (valueAt rules s' b).Ensures (fun _ _ => False)
      (fun fault host => fault = .invalidArgument b ∨ rules.Raised fault host)
  size : s'.points.length + changed.toNat = s.points.length

end Store

namespace Editor

variable {σ : Type} {rules : Rules σ} {R : Rankings} {e t : Editor σ} {a v : Payload}
  {front back : List Point}

namespace Changed

variable {old : Option Point} {point : Point} (h : Changed R a v e front old point back t)
include h

theorem point_tied : Tied R.argument.before point.argument a := by
  cases old with
  | none =>
      exact R.argument.tied_of_same (h.argument rfl)
  | some o =>
      rw [Point.argument, h.argumentCell o rfl]
      exact h.tied o rfl

/-- The point that gave way is the only one that was tied with the argument. -/
theorem mem_old {p : Point} (hp : p ∈ e.store.points)
    (htied : Tied R.argument.before p.argument a) :
    p ∈ old := by
  rw [h.before] at hp
  rcases List.mem_append.1 hp with hp | hp
  · exact absurd (h.between.front p hp) htied.1
  · rcases List.mem_append.1 hp with hp | hp
    · exact Option.mem_toList.1 hp
    · exact absurd (h.between.back p hp) htied.2

theorem mem_iff {b : Payload} (hb : ¬ Tied R.argument.before b a) {p : Point}
    (hp : Tied R.argument.before p.argument b) : p ∈ e.store.points ↔ p ∈ t.store.points := by
  have hne : p ≠ point := by
    rintro rfl
    exact hb (hp.symm.trans h.point_tied)
  -- neither the new nor the old point is tied with `b`
  have hold : old ≠ some p := fun hmem => hb (hp.symm.trans (h.tied p hmem))
  simp [h.before, h.after, hne, hold]

theorem shows {b : Payload} (hb : Tied R.argument.before b a) :
    R.Shows t.store.points b (some point) :=
  ⟨by simp [h.after], h.point_tied.trans hb.symm⟩

end Changed

theorem SetDone.updates (hR : rules.Follow R) (hs : e.store.Valid R e.mint.nextPoint)
    (ha : R.argument.domain a) {changed : Bool} (h : SetDone R a v e changed t) :
    Store.Updates rules R a v changed e.store t.store := by
  cases h with
  | @kept i p host located tied =>
      have hshows : R.Shows e.store.points a (some p) := .of_located located
      refine ⟨fun b hb _ => ?_, fun b hb htied => ?_, fun q hq htied => ?_, ?_⟩
      · exact Store.agrees_of_mem_iff hR hs hs hb fun _ _ => Iff.rfl
      · refine (Store.valueAt_answers hR hs hb (hshows.of_tied htied.symm)).mono ?_
        rintro _ _ rfl
        exact ⟨tied, by simp⟩
      · refine (Store.find?_answers hR hs ha hshows).mono ?_
        rintro _ _ rfl
        exact ⟨p, rfl, by rw [located.eq_of_tied hq htied]⟩
      · simp only [true_iff]
        exact ⟨p, located.mem, located.tied, tied⟩
  | @changed front back old point t change =>
      have hvalid := change.valid
      refine ⟨fun b hb hnot => ?_, fun b hb htied => ?_, fun q hq htied => ?_, ?_⟩
      · exact Store.agrees_of_mem_iff hR hs hvalid hb fun p hp => change.mem_iff hnot hp
      · refine (Store.valueAt_answers hR hvalid hb (change.shows htied)).mono ?_
        rintro _ _ rfl
        exact ⟨R.value.tied_of_same change.value, fun _ => change.value⟩
      · refine (Store.find?_answers hR hvalid ha (change.shows (.refl a))).mono ?_
        rintro _ _ rfl
        exact ⟨point, rfl, change.argumentCell q (change.mem_old hq htied)⟩
      · simp only [Bool.true_eq_false, false_iff]
        rintro ⟨p, hp, htied, hvalue⟩
        exact change.differs p (change.mem_old hp htied) hvalue

/-- However it ended, a tied value is there now. -/
theorem SetDone.exists_tied {changed : Bool} (h : SetDone R a v e changed t) :
    ∃ p ∈ t.store.points, Tied R.argument.before p.argument a ∧ Tied R.value.before p.value v := by
  cases h with
  | @kept i p host located tied =>
      exact ⟨p, located.mem, located.tied, tied⟩
  | @changed front back old point t change =>
      exact ⟨point, by simp [change.after], change.point_tied, R.value.tied_of_same change.value⟩

/-! ## Erasing -/

theorem EraseDone.removes (hR : rules.Follow R) (hs : e.store.Valid R e.mint.nextPoint)
    {changed : Bool} (h : EraseDone R a e changed t) :
    Store.Removes rules R a changed e.store t.store := by
  cases h with
  | absent located =>
      have hshows : R.Shows e.store.points a none := .of_located located
      refine ⟨fun b hb _ => ?_, fun b hb htied => ?_, by simp⟩
      · exact Store.agrees_of_mem_iff hR hs hs hb fun _ _ => Iff.rfl
      · exact Store.valueAt_of_none hR hs hb (hshows.of_tied htied.symm)
  | @erased front back old t change =>
      have hvalid := change.valid
      refine ⟨fun b hb hnot => ?_, fun b hb htied => ?_, ?_⟩
      · refine Store.agrees_of_mem_iff hR hs hvalid hb fun p hp => ?_
        -- the erased point is tied with `a` and not with `b`
        have hne : p ≠ old := by
          rintro rfl
          exact hnot (hp.symm.trans change.tied)
        simp [change.before, change.after, hne]
      · have hlocated : Located R t.store.points a none := .absent change.after change.between
        have hshows : R.Shows t.store.points a none := .of_located hlocated
        exact Store.valueAt_of_none hR hvalid hb (hshows.of_tied htied.symm)
      · simp [change.before, change.after]
        omega

/-- A set that finds a tied value fails before it has done anything. -/
theorem set_kept_endsFrom (hR : rules.Follow R) (hs : e.store.Valid R e.mint.nextPoint)
    {a v : Payload} (ha : R.argument.domain a) (hv : R.value.domain v)
    (hkept : ∃ p ∈ e.store.points, Tied R.argument.before p.argument a ∧
      Tied R.value.before p.value v) :
    (set rules a v).EndsFrom e (fun changed t => changed = false ∧ t = { e with host := t.host })
      (Refused rules e) := by
  obtain ⟨p, hp, htied, hvalue⟩ := hkept
  have hshows : R.Shows e.store.points a (some p) := ⟨hp, htied⟩
  have hraised : ∀ fault host, rules.Raised fault host →
      Refused rules e fault { e with host := host } :=
    fun _ _ h => ⟨h, rfl, .refl _, le_refl _⟩
  refine .get_bind (onHost_bind (PointIndex.locate_ensures hR ha hs.covers hs.increasing) hraised
    fun found host hfound => ?_)
  have hunique := (Rankings.Shows.of_located hfound).unique hs.increasing hshows
  cases found with
  | none =>
      cases hunique
  | some entry =>
      cases hunique
      refine onHost_bind
        (Comparator.equivalent_ensures (hR.value_ensures (hs.covers _ hp).2 hv)) hraised
        fun tie host' htie => ?_
      rw [if_pos (htie.2 hvalue)]
      exact .pure ⟨rfl, rfl⟩

end Editor

namespace Workspace

variable {σ : Type} {rules : Rules σ} {R : Rankings} {w : Workspace σ} {id : Nat} {h : Holding σ}

/-! ## Both edits in a workspace -/

theorem edited_of_host {pool : Pool} (hh : w.holdings[id]? = some h)
    (hpool : w.pools[h.pool]? = some pool) (host : σ) :
    w.edited id h.pool { w.editor h pool with host := host } = { w with host := host } := by
  simp only [edited, absorb, editor, modify_eq_set_of_getElem? _ hh, set_eq_of_getElem? hpool]
  rw [set_eq_of_getElem? hh]

/-- Where a tied value is already there, setting the value changes nothing. -/
theorem edit_set_kept (hw : w.Uniform rules R) (hh : w.holdings[id]? = some h) {a v : Payload}
    (ha : R.argument.domain a) (hv : R.value.domain v)
    (hkept : ∃ p ∈ h.store.points, Tied R.argument.before p.argument a ∧
      Tied R.value.before p.value v) :
    (edit id (Editor.set · a v)).EndsFrom w
      (fun changed t => changed = false ∧ t = { w with host := t.host }) (Refused rules w) := by
  obtain ⟨pool, hpool⟩ := hw.toSound.exists_pool hh
  have hvalid := hw.toSound.valid_editor hh pool
  have hset := Editor.set_kept_endsFrom (hw.follow h (List.mem_of_getElem? hh)) hvalid ha hv hkept
  refine (edit_endsFrom hh hpool hset).imp ?_ ?_
  · rintro changed _ ⟨e, ⟨hchanged, he⟩, rfl⟩
    refine ⟨hchanged, ?_⟩
    rw [he, edited_of_host hh hpool]
  · rintro fault _ ⟨e, he, rfl⟩
    rw [← hw.rules h (List.mem_of_getElem? hh)]
    exact refused_of_edited hh hpool he

/-- Setting a value that does not fail updates the map and leaves all other holdings alone. If it
changed nothing, then the whole workspace is as it was, and the same call once more changes nothing.
Erasing that does not fail removes the argument from the map. -/
theorem Reached.refines_map (hR : rules.Follow R) (hw : Reached rules R w)
    (hh : w.holdings[id]? = some h) {a : Payload} (ha : R.argument.domain a) :
    (∀ v changed t, R.value.domain v → edit id (Editor.set · a v) w = .ok changed t →
      ∃ s, t.holdings = w.holdings.set id { h with store := s } ∧
        Store.Updates rules R a v changed h.store s ∧
        (changed = false → t = { w with host := t.host }) ∧
        ∀ host, (edit id (Editor.set · a v)).EndsFrom { t with host := host }
          (fun again u => again = false ∧ u = { t with host := u.host }) (Refused rules t)) ∧
    (∀ changed t, edit id (Editor.erase · a) w = .ok changed t →
      ∃ s, t.holdings = w.holdings.set id { h with store := s } ∧
        Store.Removes rules R a changed h.store s) := by
  have huniform := hw.uniform hR
  have hsound := huniform.toSound
  refine ⟨fun v changed t hv hrun => ?_, fun changed t hrun => ?_⟩
  · obtain ⟨pool, e, hdone, hpool, rfl, ht⟩ := (edit_set_endsFrom hsound hh ha hv).ok hrun
    have hset : (w.edited id h.pool e).holdings = w.holdings.set id { h with store := e.store } :=
      modify_eq_set_of_getElem? _ hh
    refine ⟨e.store, hset, hdone.updates hR (hsound.valid_editor hh pool) ha, ?_, fun host => ?_⟩
    · rintro rfl
      cases hdone with
      | kept _ _ =>
          rw [edited_of_host hh hpool]
    · have hafter : (w.edited id h.pool e).holdings[id]? = some { h with store := e.store } := by
        rw [hset, List.getElem?_set_self (List.getElem?_eq_some_iff.1 hh).1]
      -- the second call finds the tied value that the first one left
      have hagain :=
        edit_set_kept ((huniform.edited hh ht).elsewhere host) hafter ha hv hdone.exists_tied
      exact hagain.imp (fun _ _ h => h) fun _ _ h => ⟨h.raised, h.holdings, h.pools⟩
  · obtain ⟨pool, e, hdone, hpool, rfl, ht⟩ := (edit_erase_endsFrom hsound hh ha).ok hrun
    exact ⟨e.store, modify_eq_set_of_getElem? _ hh, hdone.removes hR (hsound.valid_editor hh pool)⟩

theorem Reached.refines_map_weak :
    ∃ h changed t s, weakWorkspace.holdings[1]? = some h ∧
      edit 1 (Editor.set · (.weak 21) (.weak 70)) weakWorkspace = .ok changed t ∧
      t.holdings = weakWorkspace.holdings.set 1 { h with store := s } ∧
      Store.Updates .metered ⟨.tens, .tens⟩ (.weak 21) (.weak 70) changed h.store s := by
  obtain ⟨changed, t, hrun⟩ := Attempt.exists_ok_of_outcome
    (show (Attempt.outcome (edit 1 (Editor.set · (.weak 21) (.weak 70)))
      weakWorkspace).isOk = true by
      decide +kernel)
  have hid : 1 < weakWorkspace.holdings.length := by decide +kernel
  have hh : weakWorkspace.holdings[1]? = some weakWorkspace.holdings[1] :=
    List.getElem?_eq_getElem hid
  have hmap := Reached.refines_map Rules.metered_follow weakWorkspace_reached hh
    (show Ranking.tens.domain (.weak 21) from ⟨_, rfl⟩)
  obtain ⟨s, hset, hupdates, _⟩ := hmap.1 (.weak 70) changed t ⟨_, rfl⟩ hrun
  exact ⟨_, changed, t, s, hh, hrun, hset, hupdates⟩

/-- The second value of an argument is set, which fails and cannot be told, then a third one. -/
def doubledArgument : Workspace Surroundings :=
  let w := weakStart.afterCalls [.set 0 longNumber (.int 1)]
  { w with host := w.host.arm 1 1 }.afterCalls [.set 0 longNumber (.int 2)]

/-- The third value goes in place of the first, and the second is what is found from then on. -/
theorem refines_map_doubled :
    (((edit 0 (Editor.set · longNumber (.int 5))).outcome doubledArgument).toOption.map
        fun r => r.1) = some true ∧
      let t := (edit 0 (Editor.set · longNumber (.int 5))).stateAfter doubledArgument
      t.holdings.map
        (fun h => ((Store.valueAt h.rules h.store longNumber).outcome t.host).toOption.map
        fun r => r.1.whole?) = [some (some 2)] := by
  decide +kernel

end Workspace

end Peaks
