import Peaks.Proofs.Walks

/-!
# Lists that are handed on

A holding may take over the lists of another one, which goes on showing them. Whoever has the lists
writes into them and counts that for itself; before it gets other lists, those that share the old
ones keep them as they are.

- `Workspace.Kindred` : lists that were handed on are ordered alike by the holding that has them
- `Workspace.renewed` : new lists in a holding, with the old ones kept by those that share them
- `Workspace.Steady`  : the lists that a holding shows change only together with a version
- `Workspace.Shift.kindred`, `Workspace.Shift.steady` : an action that returned keeps the one and is
  the other
-/

namespace Peaks

variable {σ : Type} {rank : Rules σ → Rankings}

/-! ## One holding -/

namespace Holding

variable {id other i : Nat} {lists : Store} {h : Holding σ}

theorem released_of_ne (hne : h.heir ≠ some id) : h.released id lists = h := by
  rw [released, if_neg hne]

theorem released_of_eq (heq : h.heir = some id) :
    h.released id lists =
      { h with store := { lists with version := h.store.version }, heir := none } := by
  rw [released, if_pos heq]

theorem released_rules : (h.released id lists).rules = h.rules := by
  unfold released
  split
  · rfl
  · rfl

theorem released_pool : (h.released id lists).pool = h.pool := by
  unfold released
  split
  · rfl
  · rfl

theorem bequeathed_of_not (hnot : ¬ (i = other ∨ h.heir = some other)) :
    h.bequeathed other id i = h := by
  rw [bequeathed, if_neg hnot]

theorem bequeathed_of (hgone : i = other ∨ h.heir = some other) :
    h.bequeathed other id i = { h with heir := some id } := by
  rw [bequeathed, if_pos hgone]

/-- Only the heir changes. -/
theorem bequeathed_eq (h : Holding σ) (other id i : Nat) :
    ∃ heir, h.bequeathed other id i = { h with heir := heir } := by
  by_cases hgone : i = other ∨ h.heir = some other
  · exact ⟨some id, bequeathed_of hgone⟩
  · exact ⟨h.heir, bequeathed_of_not hgone⟩

end Holding

/-! ## Handing on and keeping -/

namespace Workspace

variable {w t : Workspace σ} {id other i : Nat} {g h o : Holding σ} {s lists : Store}

/-- The workspace in which those that share the lists of a holding keep them. -/
def released (w : Workspace σ) (id : Nat) (lists : Store) : Workspace σ :=
  { w with holdings := w.holdings.map (Holding.released id lists) }

/-- The workspace in which the lists of one holding have gone to another. -/
def bequeathed (w : Workspace σ) (other id : Nat) : Workspace σ :=
  { w with holdings := w.holdings.mapIdx (Holding.bequeathed other id) }

theorem getElem?_released (hi : w.holdings[i]? = some g) :
    (w.released id lists).holdings[i]? = some (g.released id lists) := by
  rw [released, List.getElem?_map, hi, Option.map_some]

theorem getElem?_released_of_free (hi : w.holdings[i]? = some g) (hfree : g.heir = none) :
    (w.released id lists).holdings[i]? = some g := by
  rw [getElem?_released hi, Holding.released_of_ne (by simp [hfree])]

theorem getElem?_bequeathed (hi : w.holdings[i]? = some g) :
    (w.bequeathed other id).holdings[i]? = some (g.bequeathed other id i) := by
  rw [bequeathed, List.getElem?_mapIdx, hi, Option.map_some]

/-- The workspace with new lists in a holding, while those that share its old ones keep them. -/
def renewed (w : Workspace σ) (id : Nat) (h : Holding σ) (s : Store) : Workspace σ :=
  (w.released id h.store).stored id h s

theorem getElem?_renewed (hh : w.holdings[id]? = some h) :
    (w.renewed id h s).holdings[id]? = some { h with store := s } := by
  refine List.getElem?_set_self ?_
  simpa [released] using (List.getElem?_eq_some_iff.1 hh).1

theorem getElem?_renewed_ne (hi : w.holdings[i]? = some g) (hne : i ≠ id) :
    (w.renewed id h s).holdings[i]? = some (g.released id h.store) := by
  rw [renewed, stored, List.getElem?_set_ne (Ne.symm hne)]
  exact getElem?_released hi

theorem getElem?_renewed_of_free (hi : w.holdings[i]? = some g) (hfree : g.heir = none)
    (hne : i ≠ id) :
    (w.renewed id h s).holdings[i]? = some g := by
  rw [getElem?_renewed_ne hi hne, Holding.released_of_ne (by simp [hfree])]

theorem loaded_holdings (hfree : h.heir = none) :
    (w.holdings.set id { h with store := s }).map (Holding.released id h.store) =
      (w.renewed id h s).holdings := by
  have hne : { h with store := s }.heir ≠ some id := by
    rw [hfree]
    simp
  rw [List.map_set, Holding.released_of_ne hne]
  rfl

/-- To take lists over is to get them as new ones, and then to be known as the holding that has
them. -/
theorem assigned_holdings (hh : w.holdings[id]? = some h) (hfree : h.heir = none)
    (hne : id ≠ other) :
    ((w.holdings.map (Holding.released id h.store)).mapIdx (Holding.bequeathed other id)).modify id
        (fun g => { g with store := s }) =
      ((w.renewed id h s).bequeathed other id).holdings := by
  have hself : h.released id h.store = h := Holding.released_of_ne (by simp [hfree])
  have hkept : ∀ store, { h with store := store }.bequeathed other id id =
      { h with store := store } := by
    intro store
    refine Holding.bequeathed_of_not ?_
    simp [hne, hfree]
  have hreleased : (w.holdings.map (Holding.released id h.store))[id]? = some h := by
    rw [List.getElem?_map, hh, Option.map_some, hself]
  -- compared place by place, since one side writes the store last and the other one in between
  refine List.ext_getElem? fun i => ?_
  simp only [bequeathed, renewed, stored, released, List.getElem?_modify, List.getElem?_mapIdx,
    List.getElem?_set,
    List.length_map]
  by_cases hi : id = i
  · have hlt : i < w.holdings.length := hi ▸ (List.getElem?_eq_some_iff.1 hh).1
    rw [← hi] at hlt ⊢
    rw [hreleased, if_pos rfl, if_pos hlt]
    simp only [Option.map_some, hkept, Option.map_eq_map, if_true]
  · rw [if_neg hi]
    simp [hi]

/-! ## Lists that are ordered alike -/

/-- Both holdings have their lists to themselves and order them alike. -/
def Meets (rank : Rules σ → Rankings) (w : Workspace σ) (id other : Nat) : Prop :=
  ∀ h, w.holdings[id]? = some h → h.heir = none ∧
    ∀ o, w.holdings[other]? = some o → o.heir = none ∧ rank o.rules = rank h.rules

/-- Whoever took over the lists of a holding has them still, and orders them alike. -/
def Kindred (rank : Rules σ → Rankings) (w : Workspace σ) : Prop :=
  ∀ h ∈ w.holdings, ∀ j, h.heir = some j →
    ∃ g, w.holdings[j]? = some g ∧ g.heir = none ∧ rank g.rules = rank h.rules

namespace Kindred

variable (hw : w.Kindred rank)
include hw

theorem of_holdings_eq (heq : t.holdings = w.holdings) : t.Kindred rank := by
  unfold Kindred
  rw [heq]
  exact hw

theorem appended (hfresh : g.heir = none) (heq : t.holdings = w.holdings ++ [g]) :
    t.Kindred rank := by
  intro h hh j hj
  rw [heq, List.mem_append, List.mem_singleton] at hh
  rcases hh with hh | rfl
  · rcases hw h hh j hj with ⟨f, hf, hfree, hrank⟩
    refine ⟨f, ?_, hfree, hrank⟩
    rw [heq, List.getElem?_append_left (List.getElem?_eq_some_iff.1 hf).1, hf]
  · rw [hfresh] at hj
    cases hj

/-- Another store in a holding changes neither its heir nor its rules. -/
theorem stored (hh : w.holdings[id]? = some h) : (w.stored id h s).Kindred rank := by
  have hget : ∀ (j : Nat) (f : Holding σ), w.holdings[j]? = some f →
      ∃ f', (w.stored id h s).holdings[j]? = some f' ∧ f'.heir = f.heir ∧ f'.rules = f.rules := by
    intro j f hf
    by_cases hj : id = j
    · subst hj
      rw [hh] at hf
      cases hf
      exact ⟨_, List.getElem?_set_self (List.getElem?_eq_some_iff.1 hh).1, rfl, rfl⟩
    · exact ⟨f, (List.getElem?_set_ne hj).trans hf, rfl, rfl⟩
  have hold : ∀ g ∈ (w.stored id h s).holdings, ∃ g' ∈ w.holdings, g.heir = g'.heir ∧
      g.rules = g'.rules := by
    intro g hg
    rcases List.mem_or_eq_of_mem_set hg with hg | rfl
    · exact ⟨g, hg, rfl, rfl⟩
    · exact ⟨h, List.mem_of_getElem? hh, rfl, rfl⟩
  intro g hg j hj
  rcases hold g hg with ⟨g', hg', hheir, hrules⟩
  rcases hw g' hg' j (hheir ▸ hj) with ⟨f, hf, hfree, hrank⟩
  rcases hget j f hf with ⟨f', hf', hheir', hrules'⟩
  exact ⟨f', hf', hheir'.trans hfree, by rw [hrules', hrules, hrank]⟩

/-- Those that keep their lists have no heir any more, and nobody gets one. -/
theorem released : (w.released id lists).Kindred rank := by
  intro g hg j hj
  rcases List.mem_map.1 hg with ⟨g', hg', rfl⟩
  by_cases hheir : g'.heir = some id
  · rw [Holding.released_of_eq hheir] at hj
    cases hj
  · rw [Holding.released_of_ne hheir] at hj ⊢
    rcases hw g' hg' j hj with ⟨f, hf, hfree, hrank⟩
    exact ⟨f, getElem?_released_of_free hf hfree, hfree, hrank⟩

theorem renewed (hh : w.holdings[id]? = some h) (hfree : h.heir = none) :
    (w.renewed id h s).Kindred rank :=
  hw.released.stored (getElem?_released_of_free hh hfree)

theorem bequeathed (hh : w.holdings[id]? = some h) (ho : w.holdings[other]? = some o)
    (hfree : h.heir = none)
    (hrank : rank o.rules = rank h.rules) (hne : id ≠ other) :
    (w.bequeathed other id).Kindred rank := by
  have hkept : ∀ (j : Nat) (f : Holding σ), w.holdings[j]? = some f → f.heir = none → j ≠ other →
      (w.bequeathed other id).holdings[j]? = some f := by
    intro j f hf hfree hj
    rw [getElem?_bequeathed hf, Holding.bequeathed_of_not (by simp [hj, hfree])]
  intro g hg j hj
  rcases List.mem_mapIdx.1 hg with ⟨i, hi, rfl⟩
  have hget : w.holdings[i]? = some w.holdings[i] := List.getElem?_eq_getElem hi
  generalize w.holdings[i] = g at hj hget
  by_cases hgone : i = other ∨ g.heir = some other
  · -- the lists that went to the holding were those of `other` in any case
    rw [Holding.bequeathed_of hgone] at hj ⊢
    cases hj
    refine ⟨h, hkept id h hh hfree hne, hfree, ?_⟩
    rcases hgone with rfl | hheir
    · rw [hget] at ho
      cases ho
      exact hrank.symm
    · rcases hw g (List.mem_of_getElem? hget) other hheir with ⟨f, hf, _, hrank'⟩
      rw [ho] at hf
      cases hf
      exact hrank.symm.trans hrank'
  · rw [Holding.bequeathed_of_not hgone] at hj ⊢
    rcases hw g (List.mem_of_getElem? hget) j hj with ⟨f, hf, hfree', hrank'⟩
    refine ⟨f, hkept j f hf hfree' ?_, hfree', hrank'⟩
    rintro rfl
    exact hgone (Or.inr hj)

end Kindred

/-! ## Lists that are shown -/

theorem shows?_eq (w : Workspace σ) (i : Nat) :
    w.shows? i = (w.holdings[i]?).bind fun g =>
      match g.heir with
      | none => some g.store
      | some j => (w.holdings[j]?).map fun h => { h.store with version := g.store.version } := by
  cases hi : w.holdings[i]? with
  | none =>
      rw [shows?, Attempt.outcome, shown, Attempt.bind_of_error (holding_eq_error hi)]
      rfl
  | some g =>
      cases hheir : g.heir with
      | none =>
          rw [shows?, shown_eq_of_none hi hheir]
          simp [hheir, Except.toOption]
      | some j =>
          cases hj : w.holdings[j]? with
          | none =>
              rw [shows?, Attempt.outcome, shown, Attempt.bind_of_ok (holding_eq_ok hi), hheir]
              simp only [Attempt.bind_of_error (holding_eq_error hj)]
              simp [hheir, hj, Except.toOption]
          | some h =>
              rw [shows?, shown_eq_of_some hi hheir hj]
              simp [hheir, hj, Except.toOption]

theorem shows?_of_none (hi : w.holdings[i]? = some g) (hheir : g.heir = none) :
    w.shows? i = some g.store := by
  simp [shows?_eq, hi, hheir]

theorem shows?_of_some {j : Nat} (hi : w.holdings[i]? = some g) (hheir : g.heir = some j)
    (hj : w.holdings[j]? = some h) :
    w.shows? i = some { h.store with version := g.store.version } := by
  simp [shows?_eq, hi, hheir, hj]

section Shows

variable (hw : w.Kindred rank) (hi : w.holdings[i]? = some g)
include hw hi

/-- Two workspaces show the same lists at a place if they agree there and at its heir. -/
theorem Kindred.shows?_congr (hi' : t.holdings[i]? = some g)
    (hheir : ∀ j f, g.heir = some j → w.holdings[j]? = some f → f.heir = none →
      t.holdings[j]? = some f) :
    t.shows? i = w.shows? i := by
  cases hj : g.heir with
  | none =>
      rw [shows?_of_none hi hj, shows?_of_none hi' hj]
  | some j =>
      rcases hw g (List.mem_of_getElem? hi) j hj with ⟨f, hf, hfree, _⟩
      rw [shows?_of_some hi hj hf, shows?_of_some hi' hj (hheir j f hj hf hfree)]

theorem Kindred.shows?_stored (hne : i ≠ id) (hheir : g.heir ≠ some id) :
    (w.stored id h s).shows? i = w.shows? i := by
  have hget : ∀ j, j ≠ id → (w.stored id h s).holdings[j]? = w.holdings[j]? := by
    intro j hj
    exact List.getElem?_set_ne (Ne.symm hj)
  refine hw.shows?_congr hi ((hget i hne).trans hi) ?_
  intro j f hj hf _
  have hjd : j ≠ id := by
    intro heq
    exact hheir (heq ▸ hj)
  exact (hget j hjd).trans hf

/-- Those that keep their lists show what they have shown. -/
theorem Kindred.shows?_released (hh : w.holdings[id]? = some h) :
    (w.released id h.store).shows? i = w.shows? i := by
  by_cases hheir : g.heir = some id
  · -- it has shown the lists of the holding, and now they are its own
    rcases hw g (List.mem_of_getElem? hi) id hheir with ⟨f, hf, _, _⟩
    rw [hh] at hf
    cases hf
    have hget : (w.released id h.store).holdings[i]? = some (g.released id h.store) :=
      getElem?_released hi
    rw [Holding.released_of_eq hheir] at hget
    rw [shows?_of_some hi hheir hh, shows?_of_none hget rfl]
  · have hget : (w.released id h.store).holdings[i]? = some g := by
      rw [getElem?_released hi, Holding.released_of_ne hheir]
    refine hw.shows?_congr hi hget ?_
    intro j f _ hf hfree
    exact getElem?_released_of_free hf hfree

/-- Once those that share the old lists keep them, new ones are seen by nobody else. -/
theorem Kindred.shows?_renewed (hh : w.holdings[id]? = some h) (hne : i ≠ id) :
    (w.renewed id h s).shows? i = w.shows? i := by
  have hget : (w.released id h.store).holdings[i]? = some (g.released id h.store) :=
    getElem?_released hi
  have hheir : (g.released id h.store).heir ≠ some id := by
    by_cases hheir : g.heir = some id
    · rw [Holding.released_of_eq hheir]
      simp
    · rw [Holding.released_of_ne hheir]
      exact hheir
  calc
    (w.renewed id h s).shows? i = (w.released id h.store).shows? i :=
      hw.released.shows?_stored hget hne hheir
    _ = w.shows? i := hw.shows?_released hi hh

/-- Lists that go to a holding with the same lists are shown as before. -/
theorem Kindred.shows?_bequeathed (hh : w.holdings[id]? = some h) (ho : w.holdings[other]? = some o)
    (hfree : h.heir = none) (hfree' : o.heir = none) (hne : id ≠ other)
    (hlists : ∀ n, { h.store with version := n } = { o.store with version := n }) :
    (w.bequeathed other id).shows? i = w.shows? i := by
  have hkept : ∀ (j : Nat) (f : Holding σ), w.holdings[j]? = some f →
      ¬ (j = other ∨ f.heir = some other) →
      (w.bequeathed other id).holdings[j]? = some f := by
    intro j f hf hnot
    rw [getElem?_bequeathed hf, Holding.bequeathed_of_not hnot]
  by_cases hgone : i = other ∨ g.heir = some other
  · -- what showed the lists of `other` shows those of its heir, and they are the same
    have hid : (w.bequeathed other id).holdings[id]? = some h :=
      hkept id h hh (by simp [hne, hfree])
    have hget : (w.bequeathed other id).holdings[i]? = some (g.bequeathed other id i) :=
      getElem?_bequeathed hi
    rw [Holding.bequeathed_of hgone] at hget
    rw [shows?_of_some hget rfl hid, hlists]
    rcases hgone with rfl | hheir
    · rw [ho] at hi
      cases hi
      rw [shows?_of_none ho hfree']
    · rw [shows?_of_some hi hheir ho]
  · refine hw.shows?_congr hi (hkept i g hi hgone) ?_
    intro j f hj hf hfree
    refine hkept j f hf ?_
    rintro (rfl | hheir)
    · exact hgone (Or.inr hj)
    · rw [hfree] at hheir
      cases hheir

end Shows

/-! ## What actions do to the lists that are shown -/

/-- A holding with the version that it had shows what it has shown, unless whoever has its lists has
counted a change in them. -/
def Steady (w t : Workspace σ) : Prop :=
  ∀ i g, w.holdings[i]? = some g → t.versionAt i = w.versionAt i → w.strays t i = false →
    t.shows? i = w.shows? i

theorem shows?_of_holdings_eq (heq : t.holdings = w.holdings) (i : Nat) :
    t.shows? i = w.shows? i := by
  rw [shows?_eq, shows?_eq, heq]

theorem Steady.of_holdings_eq (heq : t.holdings = w.holdings) : Steady w t := by
  intro i g _ _ _
  exact shows?_of_holdings_eq heq i

theorem versionAt_stored_ne (hh : w.holdings[id]? = some h) (hs : s.version = h.store.version + 1)
    (hset : t.holdings[id]? = some { h with store := s }) : t.versionAt id ≠ w.versionAt id := by
  rw [versionAt_eq hset, versionAt_eq hh]
  simp [hs]

section Shifts

variable {target donor : Option Nat} (hw : w.Kindred rank) (hshift : Shift target donor w t)
  (hfree : ∀ id h, target = some id → w.holdings[id]? = some h → h.heir = none)
  (hmeets : ∀ id other, target = some id → donor = some other → w.Meets rank id other)
include hw

theorem Kindred.steady_stored (hh : w.holdings[id]? = some h) (hs : s.version = h.store.version + 1)
    (hholdings : t.holdings = w.holdings.set id { h with store := s }) : Steady w t := by
  have hself : t.holdings[id]? = some { h with store := s } := by
    rw [hholdings, List.getElem?_set_self (List.getElem?_eq_some_iff.1 hh).1]
  have hbumped := versionAt_stored_ne hh hs hself
  intro i g hi hversion hstrays
  have hne : i ≠ id := by
    rintro rfl
    exact hbumped hversion
  have hother : t.holdings[i]? = some g := by
    rw [hholdings, List.getElem?_set_ne (Ne.symm hne), hi]
  have hheir : g.heir ≠ some id := by
    -- the holding would have written into lists that are shown here
    intro hheir
    have hstrayed : w.strays t i = true := by
      simp [strays, heirAt, hi, hother, hheir, hbumped]
    rw [hstrayed] at hstrays
    cases hstrays
  calc
    t.shows? i = (w.stored id h s).shows? i := shows?_of_holdings_eq hholdings i
    _ = w.shows? i := hw.shows?_stored hi hne hheir

theorem Kindred.steady_renewed (hh : w.holdings[id]? = some h)
    (hs : s.version = h.store.version + 1)
    (hholdings : t.holdings = (w.renewed id h s).holdings) : Steady w t := by
  have hself : t.holdings[id]? = some { h with store := s } := by
    rw [hholdings, getElem?_renewed hh]
  intro i g hi hversion _
  have hne : i ≠ id := by
    rintro rfl
    exact versionAt_stored_ne hh hs hself hversion
  calc
    t.shows? i = (w.renewed id h s).shows? i := shows?_of_holdings_eq hholdings i
    _ = w.shows? i := hw.shows?_renewed hi hh hne

theorem Kindred.steady_assigned (hh : w.holdings[id]? = some h) (ho : w.holdings[other]? = some o)
    (hfree : h.heir = none) (hfree' : o.heir = none) (hne : id ≠ other)
    (hholdings : t.holdings =
      ((w.renewed id h (h.store.assign o.store)).bequeathed other id).holdings) :
    Steady w t := by
  have hself : (w.renewed id h (h.store.assign o.store)).holdings[id]? =
      some { h with store := h.store.assign o.store } := getElem?_renewed hh
  have hnew : t.holdings[id]? = some { h with store := h.store.assign o.store } := by
    rw [hholdings, getElem?_bequeathed hself, Holding.bequeathed_of_not (by simp [hne, hfree])]
  have hkindred : (w.renewed id h (h.store.assign o.store)).Kindred rank := hw.renewed hh hfree
  intro i g hi hversion _
  have hni : i ≠ id := by
    rintro rfl
    exact versionAt_stored_ne hh rfl hnew hversion
  -- first the lists come in, which nobody else sees, and then their old place shows them from here
  calc
    t.shows? i = ((w.renewed id h (h.store.assign o.store)).bequeathed other id).shows? i :=
      shows?_of_holdings_eq hholdings i
    _ = (w.renewed id h (h.store.assign o.store)).shows? i :=
      hkindred.shows?_bequeathed (getElem?_renewed_ne hi hni) hself
        (getElem?_renewed_of_free ho hfree' (Ne.symm hne)) hfree hfree' hne fun _ => rfl
    _ = w.shows? i := hw.shows?_renewed hi hh hni

include hshift hfree hmeets

/-- Lists change their heir only when a holding that meets them takes them over. -/
theorem Shift.kindred : t.Kindred rank := by
  cases hshift with
  | same hholdings =>
      exact hw.of_holdings_eq hholdings
  | added hfresh hholdings =>
      exact hw.appended hfresh hholdings
  | stored hh _ hholdings =>
      exact (hw.stored hh).of_holdings_eq hholdings
  | @loaded id h s hh htarget _ hholdings =>
      have hfree := hfree id h htarget hh
      rw [loaded_holdings hfree] at hholdings
      exact (hw.renewed hh hfree).of_holdings_eq hholdings
  | @assigned id other h o hh ho hne htarget hdonor hholdings =>
      rcases hmeets id other htarget hdonor h hh with ⟨hfree, hgiver⟩
      rcases hgiver o ho with ⟨hfree', hrank⟩
      rw [assigned_holdings hh hfree hne] at hholdings
      have hgiver :=
        getElem?_renewed_of_free (h := h) (s := h.store.assign o.store) ho hfree' (Ne.symm hne)
      have hbequeathed :=
        (hw.renewed hh hfree).bequeathed (getElem?_renewed hh) hgiver hfree hrank hne
      exact hbequeathed.of_holdings_eq hholdings

theorem Shift.steady : Steady w t := by
  cases hshift with
  | same hholdings =>
      exact .of_holdings_eq hholdings
  | @added f hfresh hholdings =>
      -- a place that was there before is not the new one, and neither is that of its heir
      intro i g hi _ _
      have hget : ∀ (j : Nat) (f : Holding σ), w.holdings[j]? = some f →
          t.holdings[j]? = some f := by
        intro j f hf
        rw [hholdings, List.getElem?_append_left (List.getElem?_eq_some_iff.1 hf).1, hf]
      exact hw.shows?_congr hi (hget i g hi) fun j f _ hf _ => hget j f hf
  | stored hh hcounts hholdings =>
      rcases hcounts with hsame | ⟨_, hup⟩
      · rw [hsame, set_eq_of_getElem? hh] at hholdings
        exact .of_holdings_eq hholdings
      · exact hw.steady_stored hh hup hholdings
  | @loaded id h s hh htarget hcounts hholdings =>
      rw [loaded_holdings (hfree id h htarget hh)] at hholdings
      exact hw.steady_renewed hh hcounts hholdings
  | @assigned id other h o hh ho hne htarget hdonor hholdings =>
      rcases hmeets id other htarget hdonor h hh with ⟨hfree, hgiver⟩
      rw [assigned_holdings hh hfree hne] at hholdings
      exact hw.steady_assigned hh ho hfree (hgiver o ho).1 hne hholdings

end Shifts

end Workspace

end Peaks
