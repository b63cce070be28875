import Mathlib.Data.List.Nodup
import Peaks.Workspace.Handle
import Peaks.Proofs.Attempt

/-!
# Who owns what

Handles lease shared entries, and every entry has a holding of its own. The number of owners that an
entry counts is the number of handles that lease it, so an entry with one owner can be written in
place.

- `Workspace.leases`   : the names in use with their leases
- `Workspace.leaseOf?` : the holding that a handle leases, with its number
- `Workspace.Owned`    : the count of owners is right, except for claims that are still to be taken
  up
- `Workspace.Owned.sole` : a sole owner shares its holding with nobody
-/

namespace Peaks

/-! ## Tables by name -/

section Tables

variable {β : Type} {xs : List (String × β)} {name g : String} {b c : β}

theorem exists_split_of_lookup (hnames : (xs.map (·.1)).Nodup) (h : xs.lookup name = some b) :
    ∃ front back, xs = front ++ (name, b) :: back ∧ xs.filter (·.1 != name) = front ++ back ∧
      ∀ c, (xs.map fun x => if x.1 == name then (x.1, c) else x) = front ++ (name, c) :: back := by
  obtain ⟨front, back, rfl, hfront⟩ := List.lookup_eq_some_iff.1 h
  simp only [List.map_append, List.map_cons] at hnames
  have hback : ∀ x ∈ back, x.1 ≠ name := fun x hx heq =>
    (List.nodup_cons.1 (List.nodup_append.1 hnames).2.1).1 (heq ▸ List.mem_map_of_mem hx)
  have hfront' : ∀ x ∈ front, x.1 ≠ name := fun x hx heq => by
    simpa [heq] using hfront x hx
  refine ⟨front, back, rfl, ?_, fun c => ?_⟩
  · rw [List.filter_append, List.filter_cons_of_neg (by simp)]
    rw [List.filter_eq_self.2 fun x hx => by simpa using hfront' x hx,
      List.filter_eq_self.2 fun x hx => by simpa using hback x hx]
  · rw [List.map_append, List.map_cons, if_pos (by simp)]
    congr 1
    · refine (List.map_congr_left fun x hx => ?_).trans (List.map_id _)
      simp [hfront' x hx]
    · congr 1
      refine (List.map_congr_left fun x hx => ?_).trans (List.map_id _)
      simp [hback x hx]

theorem filter_eq_self_of_lookup (h : xs.lookup name = none) : xs.filter (·.1 != name) = xs := by
  refine List.filter_eq_self.2 fun x hx => ?_
  have hne := List.lookup_eq_none_iff.1 h x hx
  simpa [bne_comm] using hne

theorem lookup_filter_ne (hg : g ≠ name) : (xs.filter (·.1 != name)).lookup g = xs.lookup g := by
  induction xs with
  | nil =>
      rfl
  | cons x xs ih =>
      by_cases hx : x.1 = name
      · have hgx : (g == x.1) = false := by simpa [hx] using hg
        rw [List.filter_cons_of_neg (by simp [hx]), ih, List.lookup_cons, hgx]
      · rw [List.filter_cons_of_pos (by simp [hx]), List.lookup_cons, List.lookup_cons, ih]

theorem lookup_map_ne (hg : g ≠ name) :
    (xs.map fun x => if x.1 == name then (x.1, c) else x).lookup g = xs.lookup g := by
  induction xs with
  | nil =>
      rfl
  | cons x xs ih =>
      rw [List.map_cons, List.lookup_cons, List.lookup_cons, ih]
      by_cases hx : x.1 = name
      · have hgn : (g == name) = false := by simpa using hg
        simp [hx, hgn]
      · simp [hx]

theorem mem_of_lookup (h : xs.lookup name = some b) : (name, b) ∈ xs := by
  obtain ⟨front, back, rfl, _⟩ := List.lookup_eq_some_iff.1 h
  simp

theorem two_le_countP {α : Type} {P : α → Bool} {ys : List α} {x y : α} (hne : x ≠ y) (hx : x ∈ ys)
    (hy : y ∈ ys) (hpx : P x) (hpy : P y) : 2 ≤ ys.countP P := by
  obtain ⟨front, back, rfl⟩ := List.append_of_mem hx
  have hmem : y ∈ front ++ back := by
    simp only [List.mem_append, List.mem_cons] at hy ⊢
    rcases hy with hy | rfl | hy
    · exact Or.inl hy
    · exact absurd rfl hne
    · exact Or.inr hy
  have hpos := List.countP_pos_iff.2 ⟨y, hmem, hpy⟩
  rw [List.countP_append] at hpos ⊢
  rw [List.countP_cons_of_pos hpx]
  omega

end Tables

theorem Lease.on_beq {e e' : Nat} (h : e ≠ e') : (Lease.on e == Lease.on e') = false := by
  simpa [Lease.on] using h

namespace Workspace

variable {σ : Type} {w t : Workspace σ} {name g : String} {e : Nat} {pending : List Nat}

/-! ## What a handle leases -/

/-- The names in use with their leases. -/
def leases (w : Workspace σ) : List (String × Lease) :=
  w.handles.map fun h => (h.name, h.lease)

/-- The holding behind a shared entry, with its number. -/
def heldAt? (w : Workspace σ) (e : Nat) : Option (Nat × Holding σ) := do
  let s ← w.shares[e]?
  let h ← w.holdings[s.content]?
  return (s.content, h)

/-- The holding that a handle leases, with its number. -/
def leaseOf? (w : Workspace σ) (name : String) : Option (Nat × Holding σ) := do
  let lease ← w.leases.lookup name
  let e ← lease.claim
  w.heldAt? e

theorem lookup_leases (w : Workspace σ) (name : String) :
    w.leases.lookup name = (w.handle? name).map Handle.lease := by
  unfold leases handle?
  induction w.handles with
  | nil =>
      rfl
  | cons h handles ih =>
      rw [List.map_cons, List.lookup_cons, List.find?_cons, ih]
      by_cases hname : h.name = name
      · simp [hname]
      · have hne : (name == h.name) = false := by simpa using Ne.symm hname
        have hne' : (h.name == name) = false := by simpa using hname
        simp [hne, hne']

theorem leaseOf?_eq_none (h : w.leases.lookup name = none) : w.leaseOf? name = none := by
  simp [leaseOf?, h]

theorem leaseOf?_eq_heldAt? (h : w.leases.lookup name = some (.on e)) :
    w.leaseOf? name = w.heldAt? e := by
  simp [leaseOf?, h, Lease.on]

/-- A handle that keeps its lease on an entry that stays as it is leases what it leased. -/
theorem leaseOf?_congr (hlease : t.leases.lookup g = w.leases.lookup g)
    (hentry : ∀ e, w.leases.lookup g = some (.on e) → t.heldAt? e = w.heldAt? e) :
    t.leaseOf? g = w.leaseOf? g := by
  unfold leaseOf?
  rw [hlease]
  cases hlookup : w.leases.lookup g with
  | none =>
      rfl
  | some lease =>
      obtain ⟨claim⟩ := lease
      cases claim with
      | none =>
          rfl
      | some e =>
          exact hentry e hlookup

theorem heldAt?_congr (hcontent : t.shares.map Shared.content = w.shares.map Shared.content)
    (hholdings : t.holdings = w.holdings) (e : Nat) : t.heldAt? e = w.heldAt? e := by
  have hsame : t.shares[e]?.map Shared.content = w.shares[e]?.map Shared.content := by
    rw [← List.getElem?_map, hcontent, List.getElem?_map]
  have hheld : ∀ v : Workspace σ, v.heldAt? e =
      (v.shares[e]?.map Shared.content).bind fun id => v.holdings[id]?.map fun h => (id, h) := by
    intro v
    unfold heldAt?
    cases v.shares[e]? with
    | none =>
        rfl
    | some s =>
        cases hh : v.holdings[s.content]? with
        | none =>
            simp [hh]
        | some h =>
            simp [hh]
  rw [hheld, hheld, hsame, hholdings]

/-- Owners come and go without a change to what the entries hold. -/
theorem map_content_modify (f : Shared Nat → Shared Nat) (hf : ∀ s, (f s).content = s.content)
    (shares : List (Shared Nat)) (e : Nat) :
    (shares.modify e f).map Shared.content = shares.map Shared.content := by
  refine List.ext_getElem? fun i => ?_
  rw [List.getElem?_map, List.getElem?_map, List.getElem?_modify, Option.map_eq_map,
    Option.map_map]
  congr 1
  funext s
  by_cases h : e = i
  · simp [h, hf]
  · simp [h]

theorem map_content_releaseClaim (lease : Lease) (shares : List (Shared Nat)) :
    (lease.releaseClaim shares).map Shared.content = shares.map Shared.content := by
  obtain ⟨claim⟩ := lease
  cases claim with
  | none =>
      rfl
  | some e =>
      exact map_content_modify Shared.release (fun _ => rfl) shares e

/-! ## Counting owners -/

/-- Each name has one handle, each handle leases an entry, and each entry has a holding that no
other entry has. The owners that an entry counts are the handles that lease it and the claims on it
that are pending. -/
structure Owned (pending : List Nat) (w : Workspace σ) : Prop where
  names : (w.leases.map (·.1)).Nodup
  claimed : ∀ l ∈ w.leases, ∃ e, l.2 = .on e ∧ e < w.shares.length
  counted : ∀ e s, w.shares[e]? = some s →
    s.owners = Int.ofNat (w.leases.countP (·.2 == .on e) + pending.count e)
  content : ∀ id ∈ w.shares.map Shared.content, id < w.holdings.length
  apart : (w.shares.map Shared.content).Nodup

/-- Whoever leases an entry with one owner leases it alone. -/
theorem Owned.sole (hw : w.Owned []) {s : Shared Nat} (hname : w.leases.lookup name = some (.on e))
    (hs : w.shares[e]? = some s) (hsole : s.isShared = false) (hg : g ≠ name) :
    w.leases.lookup g ≠ some (.on e) := by
  intro hlookup
  have hne : (g, Lease.on e) ≠ (name, Lease.on e) := fun h => hg (Prod.mk.inj h).1
  -- two handles on the entry make its count at least two
  have htwo := two_le_countP (P := fun l => l.2 == Lease.on e) hne (mem_of_lookup hlookup)
    (mem_of_lookup hname) (by simp) (by simp)
  have hcounted := hw.counted e s hs
  simp only [Shared.isShared, decide_eq_false_iff_not] at hsole
  simp only [List.count_nil, Int.ofNat_eq_natCast] at hcounted
  omega

/-- Different entries have different holdings. -/
theorem Owned.content_ne (hw : w.Owned pending) {e e' : Nat} {s s' : Shared Nat}
    (hs : w.shares[e]? = some s) (hs' : w.shares[e']? = some s') (hne : e' ≠ e) :
    s'.content ≠ s.content := by
  intro heq
  have hlt : e' < (w.shares.map Shared.content).length := by
    simpa using (List.getElem?_eq_some_iff.1 hs').1
  refine hne ((List.getElem?_inj hlt hw.apart).1 ?_)
  simp [hs, hs', heq]

/-- What is leased is there. -/
theorem Owned.heldAt?_eq_some (hw : w.Owned pending) (hname : w.leases.lookup name = some (.on e)) :
    ∃ s h, w.shares[e]? = some s ∧ w.holdings[s.content]? = some h ∧ w.heldAt? e = some
      (s.content, h) := by
  obtain ⟨e', he', hlt⟩ := hw.claimed _ (mem_of_lookup hname)
  cases he'
  have hs : w.shares[e]? = some w.shares[e] := List.getElem?_eq_getElem hlt
  have hh := List.getElem?_eq_getElem (hw.content _ (List.mem_map_of_mem (List.getElem_mem hlt)))
  exact ⟨_, _, hs, hh, by simp [heldAt?, hs, hh]⟩

/-- Nothing else matters than the leases, the entries and how many holdings there are. -/
theorem Owned.of_perm (hw : w.Owned pending) (hleases : t.leases.Perm w.leases)
    (hshares : t.shares = w.shares) (hholdings : w.holdings.length ≤ t.holdings.length) :
    t.Owned pending where
  names := ((hleases.map _).nodup_iff).2 hw.names
  claimed l hl := by
    rw [hshares]
    exact hw.claimed l (hleases.mem_iff.1 hl)
  counted e s hs := by
    rw [hleases.countP_eq]
    exact hw.counted e s (hshares ▸ hs)
  content id hid := Nat.lt_of_lt_of_le (hw.content id (hshares ▸ hid)) hholdings
  apart := hshares ▸ hw.apart

/-- Owners may come and go at one entry, if the count is right in the end. -/
theorem Owned.of_modify (hw : w.Owned pending) (f : Shared Nat → Shared Nat)
    (hf : ∀ s, (f s).content = s.content) {pending' : List Nat}
    (hshares : t.shares = w.shares.modify e f) (hholdings : t.holdings = w.holdings)
    (hleases : t.leases.Sublist w.leases)
    (hcounted : ∀ e' s, w.shares[e']? = some s → (if e = e' then f s else s).owners =
      Int.ofNat (t.leases.countP (·.2 == .on e') + pending'.count e')) :
    t.Owned pending' where
  names := hw.names.sublist (hleases.map _)
  claimed l hl := by
    rw [hshares, List.length_modify]
    exact hw.claimed l (hleases.subset hl)
  counted e' s hs := by
    rw [hshares, List.getElem?_modify] at hs
    obtain ⟨s', hs', rfl⟩ := Option.map_eq_some_iff.1 hs
    exact hcounted e' s' hs'
  content := by
    rw [hshares, map_content_modify f hf, hholdings]
    exact hw.content
  apart := by
    rw [hshares, map_content_modify f hf]
    exact hw.apart

/-! ## Dropping a handle -/

/-- The workspace without the handle of a name. -/
def dropped (w : Workspace σ) (name : String) : Workspace σ :=
  match w.handle? name with
  | some h =>
      { w with
        shares := h.lease.releaseClaim w.shares
        handles := w.handles.filter (·.name != name) }
  | none => w

theorem leases_dropped (w : Workspace σ) (name : String) :
    (w.dropped name).leases = w.leases.filter (·.1 != name) := by
  have hlookup := lookup_leases w name
  unfold dropped
  split
  · rw [leases, leases, List.filter_map]
    rfl
  · next hnone =>
    rw [hnone] at hlookup
    exact (filter_eq_self_of_lookup hlookup).symm

theorem map_content_dropped (w : Workspace σ) (name : String) :
    (w.dropped name).shares.map Shared.content = w.shares.map Shared.content := by
  unfold dropped
  split
  · exact map_content_releaseClaim _ _
  · rfl

theorem heldAt?_dropped (w : Workspace σ) (name : String) (e : Nat) :
    (w.dropped name).heldAt? e = w.heldAt? e := by
  refine heldAt?_congr (map_content_dropped w name) ?_ e
  unfold dropped
  split
  · rfl
  · rfl

theorem length_shares_dropped (w : Workspace σ) (name : String) :
    (w.dropped name).shares.length = w.shares.length := by
  simpa using congrArg List.length (map_content_dropped w name)

theorem leaseOf?_dropped (hg : g ≠ name) : (w.dropped name).leaseOf? g = w.leaseOf? g := by
  refine leaseOf?_congr ?_ fun e _ => heldAt?_dropped w name e
  rw [leases_dropped, lookup_filter_ne hg]

theorem lookup_dropped (w : Workspace σ) (name : String) :
    (w.dropped name).leases.lookup name = none := by
  rw [leases_dropped, List.lookup_eq_none_iff]
  intro l hl
  simpa [bne_comm] using (List.mem_filter.1 hl).2

theorem Owned.dropped (hw : w.Owned pending) (name : String) : (w.dropped name).Owned pending := by
  have hlookup := lookup_leases w name
  have hleases := leases_dropped w name
  cases hhandle : w.handle? name with
  | none =>
      have heq : w.dropped name = w := by rw [Workspace.dropped, hhandle]
      rw [heq]
      exact hw
  | some h =>
      rw [hhandle, Option.map_some] at hlookup
      obtain ⟨e, he, hlt⟩ := hw.claimed _ (mem_of_lookup hlookup)
      replace he : h.lease = .on e := he
      rw [he] at hlookup
      obtain ⟨front, back, hsplit, hfilter, _⟩ := exists_split_of_lookup hw.names hlookup
      rw [hfilter] at hleases
      have hshares : (w.dropped name).shares = w.shares.modify e Shared.release := by
        rw [Workspace.dropped, hhandle]
        simp only [he]
        rfl
      have hsub : (front ++ back).Sublist w.leases := by
        rw [hsplit]
        exact (List.sublist_cons_self _ back).append_left front
      refine hw.of_modify Shared.release (fun _ => rfl) hshares (by rw [Workspace.dropped, hhandle])
        (hleases ▸ hsub) ?_
      -- the dropped handle was one of those that its entry counted, and none of the others did
      intro e' s hs
      have hcounted := hw.counted e' s hs
      rw [hsplit, List.countP_append, List.countP_cons] at hcounted
      rw [hleases, List.countP_append]
      by_cases heq : e = e'
      · subst heq
        simp only [if_true, beq_self_eq_true, Int.ofNat_eq_natCast, Shared.release] at hcounted ⊢
        omega
      · simpa [heq, Lease.on_beq heq] using hcounted

/-! ## Taking up a claim -/

/-- The workspace with a new handle on an entry, in place of the one that had the name. -/
def bound (w : Workspace σ) (name : String) (e : Nat) : Workspace σ :=
  { w.dropped name with
    handles := (w.dropped name).handles ++ [{ name := name, lease := .on e }] }

theorem leases_bound (w : Workspace σ) (name : String) (e : Nat) :
    (w.bound name e).leases = (w.dropped name).leases ++ [(name, .on e)] := by
  simp [leases, bound]

theorem leaseOf?_bound (hg : g ≠ name) (e : Nat) : (w.bound name e).leaseOf? g = w.leaseOf? g := by
  have hgn : (g == name) = false := by simpa using hg
  have hlookup : (w.bound name e).leases.lookup g = (w.dropped name).leases.lookup g := by
    rw [leases_bound, List.lookup_append, List.lookup_cons, hgn]
    simp
  exact (leaseOf?_congr hlookup fun _ _ => rfl).trans (leaseOf?_dropped hg)

theorem leaseOf?_bound_self (w : Workspace σ) (name : String) (e : Nat) :
    (w.bound name e).leaseOf? name = w.heldAt? e := by
  have hlookup : (w.bound name e).leases.lookup name = some (.on e) := by
    rw [leases_bound, List.lookup_append, lookup_dropped]
    simp
  rw [leaseOf?_eq_heldAt? hlookup]
  exact heldAt?_dropped w name e

/-- A pending claim becomes the claim of a handle. -/
theorem Owned.bound (hw : w.Owned [e]) (he : e < w.shares.length) (name : String) :
    (w.bound name e).Owned [] := by
  have hdropped := hw.dropped name
  refine ⟨?_, fun l hl => ?_, fun e' s hs => ?_, hdropped.content, hdropped.apart⟩
  · rw [leases_bound, List.map_append, List.nodup_append]
    refine ⟨hdropped.names, by simp, ?_⟩
    rintro x hx y hy rfl
    obtain ⟨l, hl, rfl⟩ := List.mem_map.1 hx
    have hne := List.lookup_eq_none_iff.1 (lookup_dropped w name) l hl
    simp only [List.map_cons, List.map_nil, List.mem_singleton] at hy
    simp [hy] at hne
  · rw [leases_bound] at hl
    rcases List.mem_append.1 hl with hl | hl
    · exact hdropped.claimed l hl
    · rw [List.mem_singleton.1 hl]
      exact ⟨e, rfl, (length_shares_dropped w name).symm ▸ he⟩
  · -- the owner that was pending is now the last handle
    have hcounted := hdropped.counted e' s hs
    rw [leases_bound, List.countP_append, hcounted]
    by_cases heq : e = e'
    · simp [heq]
    · simp [heq, Lease.on_beq heq]

/-- The workspace with the lease of a handle moved to another entry. -/
def rebound (w : Workspace σ) (name : String) (old : Lease) (e : Nat) : Workspace σ :=
  { w with
    shares := old.releaseClaim w.shares
    handles := w.handles.map fun h => if h.name == name then { h with lease := .on e } else h }

theorem handle_eq_ok {h : Handle} (hh : w.handle? name = some h) : handle name w = .ok h w := by
  rw [handle, Attempt.get_bind_run, hh]
  rfl

theorem rebind_eq {h : Handle} (hh : w.handle? name = some h) (e : Nat) :
    rebind name e w = .ok ⟨⟩ (w.rebound name h.lease e) := by
  rw [rebind, Attempt.bind_of_ok (handle_eq_ok hh)]
  rfl

theorem leases_rebound (w : Workspace σ) (name : String) (old : Lease) (e : Nat) :
    (w.rebound name old e).leases =
      w.leases.map fun l => if l.1 == name then (l.1, .on e) else l := by
  simp only [leases, rebound, List.map_map]
  refine List.map_congr_left fun h _ => ?_
  simp only [Function.comp]
  split
  · rfl
  · rfl

theorem heldAt?_rebound (w : Workspace σ) (name : String) (old : Lease) (e e' : Nat) :
    (w.rebound name old e).heldAt? e' = w.heldAt? e' :=
  heldAt?_congr (t := w.rebound name old e) (map_content_releaseClaim old w.shares) rfl e'

theorem leaseOf?_rebound (hg : g ≠ name) (old : Lease) (e : Nat) :
    (w.rebound name old e).leaseOf? g = w.leaseOf? g := by
  refine leaseOf?_congr ?_ fun e' _ => heldAt?_rebound w name old e e'
  rw [leases_rebound, lookup_map_ne hg]

section Rebound

variable {h : Handle} (hh : w.handle? name = some h)
include hh

/-- A lease that moves leaves the same leases behind as a handle that is dropped and bound again. -/
theorem leases_rebound_perm (hnames : (w.leases.map (·.1)).Nodup) (e : Nat) :
    (w.rebound name h.lease e).leases.Perm (w.bound name e).leases := by
  have hlookup : w.leases.lookup name = some h.lease := by rw [lookup_leases, hh, Option.map_some]
  obtain ⟨front, back, _, hfilter, hmap⟩ := exists_split_of_lookup hnames hlookup
  rw [leases_bound, leases_dropped, leases_rebound, hfilter, hmap]
  exact List.perm_middle.trans (List.perm_append_singleton _ _).symm

theorem leaseOf?_rebound_self (hnames : (w.leases.map (·.1)).Nodup) (e : Nat) :
    (w.rebound name h.lease e).leaseOf? name = w.heldAt? e := by
  have hlookup : w.leases.lookup name = some h.lease := by rw [lookup_leases, hh, Option.map_some]
  obtain ⟨front, back, hsplit, _, hmap⟩ := exists_split_of_lookup hnames hlookup
  have hfront : ∀ l ∈ front, ¬ (name == l.1) = true := by
    intro l hl heq
    rw [hsplit, List.map_append, List.map_cons] at hnames
    refine (List.nodup_append.1 hnames).2.2 l.1 (List.mem_map_of_mem hl) name (by simp) ?_
    exact (beq_iff_eq.1 heq).symm
  have hnew : (w.rebound name h.lease e).leases.lookup name = some (.on e) := by
    rw [leases_rebound, hmap, List.lookup_eq_some_iff]
    exact ⟨front, back, rfl, fun l hl => by simpa using hfront l hl⟩
  rw [leaseOf?_eq_heldAt? hnew]
  exact heldAt?_rebound w name h.lease e e

theorem Owned.rebound (hw : w.Owned [e]) (he : e < w.shares.length) :
    (w.rebound name h.lease e).Owned [] := by
  refine (hw.bound he name).of_perm (leases_rebound_perm hh hw.names e) ?_ ?_
  · simp only [Workspace.rebound, Workspace.bound, Workspace.dropped, hh]
  · simp only [Workspace.rebound, Workspace.bound, Workspace.dropped, hh, Nat.le_refl]

end Rebound

/-! ## New claims -/

/-- The workspace with one more claim on an entry. -/
def acquired (w : Workspace σ) (e : Nat) : Workspace σ :=
  { w with shares := w.shares.modify e Shared.acquire }

theorem heldAt?_acquired (w : Workspace σ) (e e' : Nat) :
    (w.acquired e).heldAt? e' = w.heldAt? e' :=
  heldAt?_congr (t := w.acquired e)
    (map_content_modify Shared.acquire (fun _ => rfl) w.shares e) rfl e'

theorem leaseOf?_acquired (w : Workspace σ) (e : Nat) (g : String) :
    (w.acquired e).leaseOf? g = w.leaseOf? g :=
  leaseOf?_congr rfl fun e' _ => heldAt?_acquired w e e'

theorem Owned.acquired (hw : w.Owned []) (e : Nat) : (w.acquired e).Owned [e] := by
  have hsame : (w.acquired e).leases = w.leases := rfl
  refine hw.of_modify Shared.acquire (fun _ => rfl) rfl rfl (List.Sublist.refl _) ?_
  intro e' s hs
  have hcounted := hw.counted e' s hs
  rw [hsame]
  by_cases heq : e = e'
  · simp only [heq, if_true, List.count_nil, List.count_singleton_self, Int.ofNat_eq_natCast,
      Shared.acquire] at hcounted ⊢
    omega
  · simpa [heq, List.count_cons] using hcounted

/-- The workspace with a new holding and a shared entry for it. -/
def installed (w : Workspace σ) (h : Holding σ) : Workspace σ :=
  { w with
    holdings := w.holdings ++ [h]
    shares := w.shares ++ [{ content := w.holdings.length }] }

theorem heldAt?_installed_new (w : Workspace σ) (h : Holding σ) :
    (w.installed h).heldAt? w.shares.length = some (w.holdings.length, h) := by
  simp [heldAt?, installed]

theorem Owned.heldAt?_installed (hw : w.Owned pending) (h : Holding σ) (he : e < w.shares.length) :
    (w.installed h).heldAt? e = w.heldAt? e := by
  have hs : w.shares[e]? = some w.shares[e] := List.getElem?_eq_getElem he
  have hlt := hw.content _ (List.mem_map_of_mem (List.getElem_mem he))
  simp [heldAt?, installed, List.getElem?_append_left he, hs, List.getElem?_append_left hlt]

theorem Owned.leaseOf?_installed (hw : w.Owned pending) (h : Holding σ) (g : String) :
    (w.installed h).leaseOf? g = w.leaseOf? g := by
  refine leaseOf?_congr rfl fun e he => ?_
  obtain ⟨e', he', hlt⟩ := hw.claimed _ (mem_of_lookup he)
  cases he'
  exact hw.heldAt?_installed h hlt

theorem Owned.installed (hw : w.Owned []) (h : Holding σ) :
    (w.installed h).Owned [w.shares.length] := by
  have hsame : (w.installed h).leases = w.leases := rfl
  refine ⟨hw.names, fun l hl => ?_, fun e s hs => ?_, fun id hid => ?_, ?_⟩
  · obtain ⟨e, he, hlt⟩ := hw.claimed l hl
    exact ⟨e, he, by simpa [Workspace.installed] using Nat.lt_succ_of_lt hlt⟩
  · rw [hsame]
    by_cases hlt : e < w.shares.length
    · rw [Workspace.installed, List.getElem?_append_left hlt] at hs
      simpa [List.count_cons, Nat.ne_of_gt hlt] using hw.counted e s hs
    · have heq : e = w.shares.length := by
        have := (List.getElem?_eq_some_iff.1 hs).1
        simp only [Workspace.installed, List.length_append, List.length_singleton] at this
        omega
      -- nobody leases an entry that was not there; the new entry counts the pending claim alone
      have hnone : w.leases.countP (·.2 == .on w.shares.length) = 0 := by
        refine List.countP_eq_zero.2 fun l hl hon => ?_
        obtain ⟨e', he', hlt'⟩ := hw.claimed l hl
        rw [he', beq_iff_eq] at hon
        cases hon
        exact Nat.lt_irrefl _ hlt'
      subst heq
      obtain rfl : { content := w.holdings.length } = s := by
        simpa [Workspace.installed] using hs
      rw [hnone, List.count_singleton_self]
      rfl
  · simp only [Workspace.installed, List.map_append, List.mem_append, List.length_append] at hid ⊢
    rcases hid with hid | hid
    · exact Nat.lt_succ_of_lt (hw.content id hid)
    · simp only [List.map_cons, List.map_nil, List.mem_singleton] at hid
      simp [hid]
  · -- the new entry is the only one for the new holding
    rw [Workspace.installed, List.map_append, List.nodup_append]
    refine ⟨hw.apart, by simp, ?_⟩
    rintro x hx y hy rfl
    simp only [List.map_cons, List.map_nil, List.mem_singleton] at hy
    exact Nat.lt_irrefl _ (hy ▸ hw.content x hx)

/-! ## Writing in place -/

section InPlace

variable {s : Shared Nat} {h : Holding σ} (hleases : t.leases = w.leases)
  (hshares : t.shares = w.shares)
  (hholdings : t.holdings = w.holdings.set s.content h)
include hleases hshares hholdings

/-- What a sole owner writes in place, nobody else gets to see. -/
theorem Owned.leaseOf?_set (hw : w.Owned []) (hname : w.leases.lookup name = some (.on e))
    (hs : w.shares[e]? = some s) (hsole : s.isShared = false) (hg : g ≠ name) :
    t.leaseOf? g = w.leaseOf? g := by
  refine leaseOf?_congr (by rw [hleases]) fun e' he' => ?_
  have hne : e' ≠ e := by
    rintro rfl
    exact hw.sole hname hs hsole hg he'
  obtain ⟨s', h', hs', hh', _⟩ := hw.heldAt?_eq_some he'
  have hcontent := hw.content_ne hs hs' hne
  simp [heldAt?, hshares, hholdings, hs', List.getElem?_set_ne (Ne.symm hcontent)]

theorem Owned.leaseOf?_set_self (hw : w.Owned pending) (hname : w.leases.lookup name = some (.on e))
    (hs : w.shares[e]? = some s) : t.leaseOf? name = some (s.content, h) := by
  have hlt := hw.content _ (List.mem_map_of_mem (List.mem_of_getElem? hs))
  rw [leaseOf?_eq_heldAt? (hleases ▸ hname)]
  simp [heldAt?, hshares, hholdings, hs, hlt]

end InPlace

/-- Counting what was done moves no lease. -/
theorem leases_count (w : Workspace σ) (name : String) (f : Tally → Tally) :
    ∃ t, count name f w = .ok ⟨⟩ t ∧ t.leases = w.leases ∧
      t = { w with handles := t.handles } := by
  refine ⟨_, rfl, ?_, rfl⟩
  simp only [leases, List.map_map]
  refine List.map_congr_left fun h _ => ?_
  simp only [Function.comp]
  split
  · rfl
  · rfl

end Workspace

end Peaks
