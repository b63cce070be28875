import Peaks.Workspace.Build
import Peaks.Proofs.BulkLoad
import Peaks.Proofs.Checking
import Peaks.Proofs.Columns
import Peaks.Proofs.Settled

/-!
# Functions from arrays

Two arrays are loaded by sorting and thinning their columns, with the maxima read off a mask. Pairs
of the same numbers are loaded by comparing objects, with the maxima found by a rescan. As long as
no number is NaN, nothing fails on either way, and both functions show the same numbers.

- `NumericArray.ShowsLast`         : points that show the last pairs, and `Store.Tabulates` with
  their maxima
- `Editor.loadArrays_tabulates`, `Editor.load_tabulates` : the two ways to load
- `Workspace.arrays_match_items`   : both functions, and a check of the first one
-/

namespace Peaks

/-! ## What is shown -/

/-- The contents of two objects. -/
def Payload.contents (pair : Payload × Payload) : Payload × Payload :=
  (pair.1.content, pair.2.content)

def Point.contents (p : Point) : Payload × Payload :=
  Payload.contents p.pair

def Scalar.payloads (pair : Scalar × Scalar) : Payload × Payload :=
  (pair.1.payload, pair.2.payload)

/-- What is in order stays so with partners that are. -/
theorem pairwise_of_forall₂ {α β : Type} {K : α → β → Prop} {r : α → α → Prop}
    {r' : β → β → Prop} {xs : List α}
    {ys : List β} (h : List.Forall₂ K xs ys)
    (hr : ∀ {x y x' y'}, K x y → K x' y' → r x x' → r' y y')
    (hxs : xs.Pairwise r) : ys.Pairwise r' := by
  induction h with
  | nil =>
      exact .nil
  | @cons x y xs ys hxy hrest ih =>
      rcases List.pairwise_cons.1 hxs with ⟨hx, hxs⟩
      refine List.pairwise_cons.2 ⟨fun y' hy' => ?_, ih hxs⟩
      rcases forall₂_partner hrest.flip hy' with ⟨x', hx', hK⟩
      exact hr hxy hK (hx x' hx')

/-- What is last on one side has a partner that is last on the other, if partners are tied on both
sides or on none. -/
theorem exists_last_of_forall₂ {α β : Type} {K : α → β → Prop} {r : α → α → Prop}
    {r' : β → β → Prop}
    {xs : List α} {ys : List β} (h : List.Forall₂ K xs ys)
    (hr : ∀ {x y x' y'}, K x y → K x' y' → r x' x → r' y' y) {x : α}
    (hx : ∃ front back, xs = front ++ x :: back ∧ ∀ other ∈ back, r other x) :
    ∃ y, K x y ∧ ∃ front back, ys = front ++ y :: back ∧ ∀ other ∈ back, r' other y := by
  rcases hx with ⟨front, back, rfl, hback⟩
  rcases forall₂_split h with ⟨front', y, back', rfl, _, hxy, hpartners⟩
  refine ⟨y, hxy, front', back', rfl, fun other hother => ?_⟩
  rcases forall₂_partner hpartners.flip hother with ⟨x', hx', hK⟩
  exact hr hxy hK (hback x' hx')

namespace NumericArray

variable {pairs : List (Scalar × Scalar)} {pair : Scalar × Scalar} {p : Point}
  {points points' : List Point}
  {items : List (Payload × Payload)}

theorem shows_iff : Shows pair p ↔ p.contents = Scalar.payloads pair := by
  constructor
  · rintro ⟨hargument, hvalue⟩
    exact Prod.ext hargument hvalue
  · intro h
    exact ⟨congrArg Prod.fst h, congrArg Prod.snd h⟩

/-- The points show the last pairs, one point for each of them. -/
structure ShowsLast (pairs : List (Scalar × Scalar)) (points : List Point) : Prop where
  increasing : points.Pairwise Rankings.numbers.Precedes
  shows : ∀ p ∈ points, ∃ pair, IsLast pairs pair ∧ Shows pair p
  complete : ∀ pair, IsLast pairs pair → ∃ p ∈ points, Shows pair p

namespace ShowsLast

theorem mem_contents_iff (h : ShowsLast pairs points) (c : Payload × Payload) :
    c ∈ points.map Point.contents ↔ ∃ pair, IsLast pairs pair ∧ c = Scalar.payloads pair := by
  rw [List.mem_map]
  constructor
  · rintro ⟨p, hp, rfl⟩
    rcases h.shows p hp with ⟨pair, hlast, hshows⟩
    exact ⟨pair, hlast, shows_iff.1 hshows⟩
  · rintro ⟨pair, hlast, rfl⟩
    rcases h.complete pair hlast with ⟨p, hp, hshows⟩
    exact ⟨p, hp, shows_iff.1 hshows⟩

theorem covers (h : ShowsLast pairs points) (hplain : Plain pairs) :
    ∀ p ∈ points, Rankings.numbers.Covers p := by
  intro p hp
  rcases h.shows p hp with ⟨pair, hlast, hshows⟩
  have hpair := hplain pair hlast.mem
  exact ⟨Scalar.domain_of_content hpair.1 hshows.argument,
    Scalar.domain_of_content hpair.2 hshows.value⟩

theorem exists_contents (h : ShowsLast pairs points) (h' : ShowsLast pairs points')
    (hp : p ∈ points) :
    ∃ q ∈ points', p.contents = q.contents := by
  rcases h.shows p hp with ⟨pair, hlast, hshows⟩
  rcases h'.complete pair hlast with ⟨q, hq, hshows'⟩
  exact ⟨q, hq, (shows_iff.1 hshows).trans (shows_iff.1 hshows').symm⟩

/-- Their order leaves no choice. -/
theorem forall₂ (h : ShowsLast pairs points) (h' : ShowsLast pairs points') :
    List.Forall₂ (fun p q => p.contents = q.contents) points points' := by
  refine forall₂_of_partners (r := Rankings.numbers.Precedes) h.increasing h'.increasing ?_ ?_ ?_
  · intro p q hpq
    exact Ranking.numbers_tied_of_content (congrArg Prod.fst hpq)
  · intro p hp
    exact h.exists_contents h' hp
  · intro q hq
    rcases h'.exists_contents h hq with ⟨p, hp, hqp⟩
    exact ⟨p, hp, hqp.symm⟩

end ShowsLast

/-- A pair of objects with the numbers of a pair of entries, none of which is NaN. -/
structure Lists (pair : Scalar × Scalar) (item : Payload × Payload) : Prop where
  plain : pair.1.isNaN = false ∧ pair.2.isNaN = false
  contents : Payload.contents item = Scalar.payloads pair

namespace Lists

variable {item item' : Payload × Payload} {pair' : Scalar × Scalar}

theorem domains (h : Lists pair item) : Ranking.numbers.domain item.1 ∧
    Ranking.numbers.domain item.2 :=
  ⟨Scalar.domain_of_content h.plain.1 (congrArg Prod.fst h.contents),
    Scalar.domain_of_content h.plain.2 (congrArg Prod.snd h.contents)⟩

/-- Equal entries are tied objects. -/
theorem eq_iff_tied (h : Lists pair item) (h' : Lists pair' item') :
    pair'.1.eq pair.1 = true ↔ Tied Ranking.numbers.before item'.1 item.1 := by
  rw [Scalar.eq_iff_rank h'.plain.1 h.plain.1]
  exact (Scalar.tied_iff_rank (congrArg Prod.fst h'.contents) (congrArg Prod.fst h.contents)).symm

theorem shows (h : Lists pair item) (hp : p.Carries item) : Shows pair p where
  argument := (Payload.content_of_same hp.1).trans (congrArg Prod.fst h.contents)
  value := (Payload.content_of_same hp.2).trans (congrArg Prod.snd h.contents)

end Lists

theorem forall₂_lists (hplain : Plain pairs)
    (hitems : items.map Payload.contents = pairs.map Scalar.payloads) :
    List.Forall₂ Lists pairs items := by
  rw [← List.forall₂_eq_eq_eq, List.forall₂_map_left_iff, List.forall₂_map_right_iff] at hitems
  exact ((List.forall₂_and_left _ _).2 ⟨hplain, hitems.flip⟩).imp fun pair item h => ⟨h.1, h.2⟩

theorem showsLast_of_carriesLast (hlists : List.Forall₂ Lists pairs items)
    (h : Rankings.numbers.CarriesLast items points) : ShowsLast pairs points where
  increasing := h.increasing
  shows := by
    intro p hp
    rcases h.carries p hp with ⟨item, hlast, hcarries⟩
    have hdiffer : ∀ {item pair item' pair'}, Lists pair item → Lists pair' item' →
        ¬ Tied Ranking.numbers.before item'.1 item.1 → pair'.1.eq pair.1 = false :=
      fun h h' hnot => Bool.eq_false_iff.2 fun heq => hnot ((h.eq_iff_tied h').1 heq)
    rcases exists_last_of_forall₂ hlists.flip hdiffer hlast with ⟨pair, hpair, hlast'⟩
    exact ⟨pair, hlast', hpair.shows hcarries⟩
  complete := by
    intro pair hlast
    have hdiffer : ∀ {pair item pair' item'}, Lists pair item → Lists pair' item' →
        pair'.1.eq pair.1 = false → ¬ Tied Ranking.numbers.before item'.1 item.1 :=
      fun h h' hne htied => Bool.eq_false_iff.1 hne ((h.eq_iff_tied h').2 htied)
    rcases exists_last_of_forall₂ hlists hdiffer hlast with ⟨item, hitem, hlast'⟩
    rcases h.complete item hlast' with ⟨p, hp, hcarries⟩
    exact ⟨p, hp, hitem.shows hcarries⟩

/-- Thinned columns in order, with a point for each pair of them. -/
theorem showsLast_of_columns (hplain : Plain pairs)
    (h : List.Forall₂ Shows (lastOfEach (sortColumns pairs)) points) : ShowsLast pairs points := by
  have hordered := sortColumns_ordered hplain
  have hmem : ∀ {pair}, pair ∈ lastOfEach (sortColumns pairs) ↔ IsLast (sortColumns pairs) pair :=
    mem_lastOfEach_iff hplain.sortColumns hordered
  refine ⟨?_, ?_, ?_⟩
  · refine pairwise_of_forall₂ h ?_ (lastOfEach_increasing hplain.sortColumns hordered)
    intro pair p pair' p' hp hp' hlt
    exact (Scalar.before_iff_rank hp.argument hp'.argument).2 hlt
  · intro p hp
    rcases forall₂_partner h.flip hp with ⟨pair, hpair, hshows⟩
    have hlast := hmem.1 hpair
    exact ⟨pair, (isLast_sortColumns hplain (hplain.sortColumns pair hlast.mem).1).1 hlast, hshows⟩
  · intro pair hlast
    exact forall₂_partner h (hmem.2 ((isLast_sortColumns hplain (hplain pair hlast.mem).1).2 hlast))

end NumericArray

/-- The store holds the last pairs, with their maxima. -/
structure Store.Tabulates (pairs : List (Scalar × Scalar)) (s : Store) : Prop where
  consistent : s.Consistent .numbers
  shows : NumericArray.ShowsLast pairs s.points

/-! ## Loading -/

theorem Mint.object_content (m : Mint) (p : Payload) : (m.object p).1.content = p.content := by
  unfold object
  split
  · rfl
  · rfl

namespace Editor

variable {σ : Type} {rules : Rules σ} {arguments values : NumericArray} {n : Nat}
  {items : List (Payload × Payload)}
  {pairs : List (Scalar × Scalar)}

open NumericArray

theorem makeObject_ensures (s : Scalar) :
    (makeObject s : Attempt (Editor σ) Payload).Ensures (fun p _ => p.content = s.payload)
      (fun _ _ => False) :=
  fun e => (e.mint.object_content _).trans s.content_payload

theorem takeCell_ensures (p : Payload) :
    (takeCell p : Attempt (Editor σ) Cell).Ensures (fun cell _ => cell.payload.content = p.content)
      (fun _ _ => False) :=
  fun e => Payload.content_of_same (Pool.obtain_spec e.pool e.mint p).payload

theorem takePoint_ensures (pair : Scalar × Scalar) :
    (takePoint pair : Attempt (Editor σ) Point).Ensures (fun p _ => Shows pair p)
      (fun _ _ => False) := by
  refine (makeObject_ensures pair.1).bind fun a ha =>
    (takeCell_ensures a).bind fun argument hargument => ?_
  refine (makeObject_ensures pair.2).bind fun v hv =>
    (takeCell_ensures v).bind fun value hvalue => ?_
  exact fun e => ⟨hargument.trans ha, hvalue.trans hv⟩

theorem takePoints_ensures (pairs : List (Scalar × Scalar)) :
    (pairs.mapM takePoint : Attempt (Editor σ) (List Point)).Ensures
      (fun points _ => List.Forall₂ Shows pairs points)
      (fun _ _ => False) := by
  induction pairs with
  | nil =>
      exact .pure fun _ => .nil
  | cons pair pairs ih =>
      rw [List.mapM_cons]
      refine (takePoint_ensures pair).bind fun p hp => ih.map fun points _ hpoints => ?_
      exact .cons hp hpoints

theorem columns?_eq (harguments : arguments.shape = [n]) (hvalues : values.shape = [n]) :
    columns? arguments values = .ok (arguments.scalars.zip values.scalars) := by
  simp [columns?, harguments, hvalues]

theorem loadArrays_tabulates (hR : rules.Obey .numbers (fun _ _ => False))
    (harguments : arguments.shape = [n])
    (hvalues : values.shape = [n]) (hplain : Plain (arguments.scalars.zip values.scalars)) :
    (loadArrays rules arguments values).Ensures
      (fun _ t => t.store.Tabulates (arguments.scalars.zip values.scalars)) (fun _ _ => False) := by
  have hunique : Plain (lastOfEach (sortColumns (arguments.scalars.zip values.scalars))) :=
    hplain.sortColumns.of_mem fun pair hpair => (lastOfEach_sublist _).subset hpair
  rw [loadArrays, columns?_eq harguments hvalues]
  refine Attempt.Ensures.bind (Attempt.Ensures.pure fun _ => Eq.refl _) ?_
  rintro _ rfl
  refine (takePoints_ensures _).bind fun points hpoints => ?_
  have hshown := showsLast_of_columns hplain hpoints
  dsimp only
  rw [peakMask_selects hunique hpoints]
  refine fun e => (adopt_endsFrom hR (hshown.covers hplain) hshown.increasing fun _ _ h => h).imp ?_
    fun _ _ h => h
  rintro _ t ⟨hconsistent, hpoints', -, -⟩
  rw [← hpoints'] at hshown
  exact ⟨hconsistent, hshown⟩

theorem load_tabulates (hR : rules.Obey .numbers (fun _ _ => False)) (hplain : Plain pairs)
    (hitems : items.map Payload.contents = pairs.map Scalar.payloads) :
    (load rules (.ofPairs items)).Ensures (fun _ t => t.store.Tabulates pairs)
      (fun _ _ => False) := by
  have hlists := forall₂_lists hplain hitems
  have hcovers : Rankings.numbers.CoversPairs items := by
    intro item hitem
    rcases forall₂_partner hlists.flip hitem with ⟨pair, _, hpair⟩
    exact hpair.domains
  intro e
  refine (load_pairs_obeys hR hcovers).imp ?_ fun _ _ h => h
  rintro _ t ⟨hvalid, hcarries, -⟩
  exact ⟨hvalid.toConsistent, showsLast_of_carriesLast hlists hcarries⟩

end Editor

/-! ## Both functions -/

namespace Store.Tabulates

variable {pairs : List (Scalar × Scalar)} {s s' : Store} (h : s.Tabulates pairs)
  (h' : s'.Tabulates pairs)
include h h'

theorem points_eq : s.points.map Point.contents = s'.points.map Point.contents := by
  rw [← List.forall₂_eq_eq_eq, List.forall₂_map_left_iff, List.forall₂_map_right_iff]
  exact h.shows.forall₂ h'.shows

/-- Which points are maxima and how these are ranked is a matter of contents. -/
theorem maxima_eq : s.maxima.map Point.contents = s'.maxima.map Point.contents := by
  have hmatches : List.Forall₂ Rankings.numbers.Matches s.points s'.points := by
    refine (h.shows.forall₂ h'.shows).imp fun p q hpq => ?_
    exact ⟨Ranking.numbers_tied_of_content (congrArg Prod.fst hpq),
      Ranking.numbers_tied_of_content (congrArg Prod.snd hpq)⟩
  rw [← List.forall₂_eq_eq_eq, List.forall₂_map_left_iff, List.forall₂_map_right_iff]
  refine (h.consistent.mirrors h'.consistent hmatches).maxima.imp fun p q hplace => ?_
  rcases hplace with ⟨i, hp, hq⟩
  have hcontents := congrArg (·[i]?) (h.points_eq h')
  simpa [hp, hq] using hcontents

end Store.Tabulates

namespace Workspace

variable {σ : Type} {w : Workspace σ} {name : String} {id : Nat} {h : Holding σ}

open NumericArray

section Leased

variable (hlease : w.leaseOf? name = some (id, h))
include hlease

theorem holdingOf_of_leaseOf? : holdingOf name w = .ok id w := by
  simp only [leaseOf?, heldAt?, lookup_leases, Option.bind_eq_bind, Option.bind_eq_some_iff,
    Option.map_eq_some_iff] at hlease
  rcases hlease with ⟨_, ⟨owner, howner, rfl⟩, e, he, entry, hentry, f, hf, heq⟩
  cases heq
  have hon : owner.lease = .on e := congrArg Lease.mk he
  exact Leases.holdingOf_eq ⟨howner, hon, hentry⟩

theorem store_of_leaseOf? : store name w = .ok h.store w := by
  rw [store, Attempt.bind_of_ok (holdingOf_of_leaseOf? hlease),
    Attempt.bind_of_ok (holding_eq_ok (getElem?_of_leaseOf? hlease))]
  rfl

/-- A store without problems passes, and nothing is reported. -/
theorem verify_of_check
    (hcheck : (Store.check h.rules h.store).Ensures (fun problems _ => problems = [])
    (fun _ _ => False)) : ∃ host, verify name w = .ok true { w with host := host } := by
  rcases (hcheck w.host).run.exists_ok (by simp) with ⟨problems, host, hrun⟩
  have hempty := hcheck.ok hrun
  subst hempty
  refine ⟨host, ?_⟩
  have hquery : query name Store.check w = .ok [] { w with host := host } := by
    rw [query, Attempt.bind_of_ok (holdingOf_of_leaseOf? hlease), ask,
      Attempt.bind_of_ok (holding_eq_ok (getElem?_of_leaseOf? hlease)), onHost,
      Attempt.within, hrun]
  rw [verify, Attempt.bind_of_ok hquery]
  rfl

end Leased

/-- A content that cannot fail to be made is bound to its name. -/
theorem exists_build {config : Config σ} (act : Rules σ → Attempt (Editor σ) Unit)
    {done : Store → Prop}
    (hact : (act config.rules).Ensures (fun _ e => done e.store) (fun _ _ => False)) (name : String)
    (w : Workspace σ) :
    ∃ t id h, build name config act w = .ok () t ∧ t.leaseOf? name = some (id, h) ∧
      h.rules = config.rules ∧
      done h.store := by
  let opened : Workspace σ := { w with pools := w.pools ++ [config.pool] }
  let empty : Holding σ := { rules := config.rules, pool := w.pools.length }
  have hpool : opened.pools[empty.pool]? = some config.pool := by simp [opened, empty]
  have hedit := editDetached_endsFrom (h := empty) hpool (hact (opened.editor empty config.pool))
  rcases hedit.exists_ok (by simp) with ⟨⟨_, s⟩, u, hu⟩
  rcases hedit.ok hu with ⟨e, hdone, rfl, rfl⟩
  let made : Holding σ := { empty with store := e.store }
  let edited : Workspace σ := opened.absorb empty.pool e
  refine ⟨(edited.installed made).bound name edited.shares.length, edited.holdings.length, made, ?_,
    ?_, rfl, hdone⟩
  · rw [build, Attempt.bind_of_ok (show addEmpty config w = .ok empty opened from rfl),
      Attempt.bind_of_ok hu]
    rfl
  · rw [leaseOf?_bound_self, heldAt?_installed_new]

/-- Two arrays without NaN and pairs of the same numbers, under natural orderings: both functions
are made, show the same pairs and the same maxima in the same order, and have the last one of equal
arguments. The function from the arrays passes its check. -/
theorem arrays_match_items (config config' : Config Surroundings)
    (hconfig : config.rules = .ofOrders .natural .natural)
    (hconfig' : config'.rules = .ofOrders .natural .natural)
    {arguments values : NumericArray} {n : Nat} (harguments : arguments.shape = [n])
    (hvalues : values.shape = [n])
    (hnumbers : ∀ s ∈ arguments.scalars ++ values.scalars, s.isNaN = false)
    {items : List (Payload × Payload)}
    (hitems : items.map Payload.contents =
      (arguments.scalars.zip values.scalars).map Scalar.payloads)
    (name name' : String) (w w' : Workspace Surroundings) :
    ∃ t u s s', fromArrays name arguments values config w = .ok () t ∧
      fromItems name' (.ofPairs items) config' w' = .ok () u ∧
      store name t = .ok s t ∧ store name' u = .ok s' u ∧
      s.points.map Point.contents = s'.points.map Point.contents ∧
      s.maxima.map Point.contents = s'.maxima.map Point.contents ∧
      (∀ c, c ∈ s.points.map Point.contents ↔
        ∃ pair, IsLast (arguments.scalars.zip values.scalars) pair ∧ c = Scalar.payloads pair) ∧
      ∃ host, verify name t = .ok true { t with host := host } := by
  have hplain : Plain (arguments.scalars.zip values.scalars) := fun pair hpair =>
    ⟨hnumbers pair.1 (by simp [(List.of_mem_zip hpair).1]),
      hnumbers pair.2 (by simp [(List.of_mem_zip hpair).2])⟩
  have hload := Editor.loadArrays_tabulates Rules.natural_obey harguments hvalues hplain
  have hload' := Editor.load_tabulates Rules.natural_obey hplain hitems
  rw [← hconfig] at hload
  rw [← hconfig'] at hload'
  rcases exists_build (Editor.loadArrays · arguments values) hload name
    w with ⟨t, id, h, ht, hlease, hrules, hs⟩
  rcases exists_build (Editor.load · (.ofPairs items)) hload' name'
    w' with ⟨u, id', h', hu, hlease', -, hs'⟩
  refine ⟨t, u, h.store, h'.store, ht, hu, store_of_leaseOf? hlease, store_of_leaseOf? hlease',
    hs.points_eq hs',
    hs.maxima_eq hs', hs.shows.mem_contents_iff, verify_of_check hlease ?_⟩
  rw [hrules, hconfig]
  exact hs.consistent.check_obeys Rules.natural_obey (hs.shows.covers hplain)

/-- Rows of numbers whose arguments become doubles: two zeros of either sign, and a two as a whole
number and as a double. -/
def zeroArguments : NumericArray :=
  .ofNested (.rows [.scalar (.whole 2), .scalar (.double (.zero false)), .scalar (.whole 1),
    .scalar (.double (.zero true)), .scalar (.double (.ofInt 2))])

def zeroValues : NumericArray :=
  .ofNested (.rows [.scalar (.whole 5), .scalar (.whole 1), .scalar (.whole 3), .scalar (.whole 3),
    .scalar (.bool true)])

def zeroItems : List (Payload × Payload) :=
  (zeroArguments.scalars.zip zeroValues.scalars).map Scalar.payloads

/-- The zero that came last is the one that is kept. -/
theorem arrays_match_items_zeros :
    ∃ t u s s', fromArrays "f" zeroArguments zeroValues { rules := .ofOrders .natural .natural }
        { host := {} } =
        .ok () t ∧
      fromItems "g" (.ofPairs zeroItems)
        { rules := .ofOrders .natural .natural, internPayloads := false }
        { host := {} } = .ok () u ∧
      store "f" t = .ok s t ∧ store "g" u = .ok s' u ∧
      s.points.map Point.contents = s'.points.map Point.contents ∧
      s.maxima.map Point.contents = s'.maxima.map Point.contents ∧
      (.float (.zero true), .int 3) ∈ s.points.map Point.contents ∧
      ∃ host, verify "f" t = .ok true { t with host := host } := by
  have hnumbers : ∀ s ∈ zeroArguments.scalars ++ zeroValues.scalars, s.isNaN = false := by
    decide +kernel
  have hitems : zeroItems.map Payload.contents =
      (zeroArguments.scalars.zip zeroValues.scalars).map Scalar.payloads := by
    simp [zeroItems, Payload.contents, Scalar.payloads, Scalar.content_payload]
  have hlast : IsLast (zeroArguments.scalars.zip zeroValues.scalars)
      (.double (.zero true), .whole 3) :=
    ⟨(zeroArguments.scalars.zip zeroValues.scalars).take 3,
      (zeroArguments.scalars.zip zeroValues.scalars).drop 4,
      by decide +kernel, by decide +kernel⟩
  rcases arrays_match_items { rules := .ofOrders .natural .natural }
    { rules := .ofOrders .natural .natural, internPayloads := false } rfl rfl (n := 5) rfl rfl
    hnumbers hitems "f" "g"
    { host := {} } { host := {} } with ⟨t, u, s, s', ht, hu, hs, hs', hpoints, hmaxima,
      hmem, hverify⟩
  exact ⟨t, u, s, s', ht, hu, hs, hs', hpoints, hmaxima, (hmem _).2 ⟨_, hlast, rfl⟩, hverify⟩

end Workspace

end Peaks
