import Peaks.Proofs.LoadedCells

/-!
# A pool with room for all keys

A pool that never has to forget a key remembers one cell for each object that was recorded, as long
as no two of the recorded objects are equal without being the same. A cell that was handed out may
be recorded later, after a cell for the same object: then it takes the place of that one, which
nobody holds as a value yet.

- `Pool.cellOf?`   : the cell under a key
- `Pool.Ample`     : room for all keys, each of them one object
- `Pool.Interned`  : a pool that remembers cells of these keys only
- `Pool.Keeps`     : every remembered cell is still remembered
- `Pool.Recorded`, `Pool.Interned.record` : one cell
- `Pool.Interned.serve_one`, `Pool.Interned.serve_two` : looking for a value, or for an argument and
  a value, and recording what was found
-/

namespace Peaks

/-! ## Counting classes -/

section Classes

variable {α : Type} {r : α → α → Bool} (hr : Equivalence fun x y => r x y = true)
include hr

theorem exists_mem_eraseDupsBy {x : α} {xs : List α} (h : x ∈ xs) :
    ∃ y ∈ xs.eraseDupsBy r, r x y = true := by
  induction xs with
  | nil =>
      cases h
  | cons z xs ih =>
      rw [eraseDupsBy_cons_filter hr]
      cases hxz : r x z with
      | true =>
          exact ⟨z, by simp, hxz⟩
      | false =>
          rcases List.mem_cons.1 h with rfl | h
          · exact absurd (hr.refl x) (by simp [hxz])
          · rcases ih h with ⟨y, hy, hxy⟩
            have hyz : r y z = false := Bool.eq_false_iff.2 fun hyz =>
              Bool.eq_false_iff.1 hxz (hr.trans hxy hyz)
            exact ⟨y, List.mem_cons_of_mem z (List.mem_filter.2 ⟨hy, by simp [hyz]⟩), hxy⟩

/-- Elements of different classes, each in the class of one of the others, are not more than
these. -/
theorem length_le_of_classes {xs ys : List α} (hxs : xs.Pairwise fun x y => r x y = false)
    (hmem : ∀ x ∈ xs, ∃ y ∈ ys, r x y = true) : xs.length ≤ ys.length := by
  induction xs generalizing ys with
  | nil =>
      exact Nat.zero_le _
  | cons x xs ih =>
      rcases List.pairwise_cons.1 hxs with ⟨hx, hxs⟩
      rcases hmem x (by simp) with ⟨y, hy, hxy⟩
      rcases List.append_of_mem hy with ⟨front, back, rfl⟩
      -- no other element is in the class of `y`
      have hrest : xs.length ≤ (front ++ back).length := by
        refine ih hxs fun z hz => ?_
        rcases hmem z (by simp [hz]) with ⟨u, hu, hzu⟩
        have hne : u ≠ y := by
          rintro rfl
          exact Bool.eq_false_iff.1 (hx z hz) (hr.trans hxy (hr.symm hzu))
        refine ⟨u, ?_, hzu⟩
        simp only [List.mem_append, List.mem_cons] at hu ⊢
        tauto
      calc (x :: xs).length = xs.length + 1 := List.length_cons
        _ ≤ (front ++ back).length + 1 := Nat.add_le_add_right hrest 1
        _ = (front ++ y :: back).length := by simp [Nat.add_assoc]

end Classes

namespace Pool

variable {keys : List Payload} {capacity : Int} {next : Nat} {pool pool' : Pool} {mint mint' : Mint}
  {x y : Payload} {cell other : Cell}

/-! ## The cell under a key -/

def cellOf? (pool : Pool) (x : Payload) : Option Cell :=
  (pool.find? x).map PoolEntry.cell

theorem cellOf?_eq_some (h : pool.cellOf? x = some cell) :
    ∃ entry ∈ pool.entries, keysMatch entry.key x = true ∧ entry.cell = cell := by
  rcases Option.map_eq_some_iff.1 h with ⟨entry, hfind, hcell⟩
  exact ⟨entry, List.mem_of_find?_eq_some hfind, find?_matches hfind, hcell⟩

theorem cellOf?_of_match (pool : Pool) (h : keysMatch x y = true) :
    pool.cellOf? x = pool.cellOf? y :=
  congrArg (Option.map PoolEntry.cell) (pool.find?_of_match h)

theorem cellOf?_of_sameContent (hpool : Apart pool.entries) (hsame : pool'.SameContent pool)
    (x : Payload) :
    pool'.cellOf? x = pool.cellOf? x :=
  congrArg (Option.map PoolEntry.cell) (find?_eq_of_sameContent hsame hpool x)

/-- Where entries are apart, a key finds its own entry. -/
theorem cellOf?_of_mem {entry : PoolEntry} (hpool : Apart pool.entries)
    (hentry : entry ∈ pool.entries)
    (hmatch : keysMatch entry.key x = true) : pool.cellOf? x = some entry.cell := by
  rw [cellOf?, Option.map_eq_some_iff]
  cases hfind : pool.find? x with
  | none =>
      have hmissed := find?_eq_none_iff.1 hfind entry hentry
      rw [hmatch] at hmissed
      cases hmissed
  | some found =>
      have hfound := keysMatch_trans (find?_matches hfind) (keysMatch_symm hmatch)
      exact ⟨found, rfl, by rw [hpool.eq_of_match (List.mem_of_find?_eq_some hfind) hentry hfound]⟩

/-- Every cell that one pool remembers is remembered by the other. -/
def Keeps (pool pool' : Pool) : Prop :=
  ∀ x cell, pool.cellOf? x = some cell → pool'.cellOf? x = some cell

theorem Keeps.trans {pool'' : Pool} (h : Keeps pool pool') (h' : Keeps pool' pool'') :
    Keeps pool pool'' :=
  fun x cell hcell => h' x cell (h x cell hcell)

theorem Keeps.of_sameContent (hpool : Apart pool.entries) (hsame : pool'.SameContent pool) :
    Keeps pool pool' :=
  fun y _ hcell => (cellOf?_of_sameContent hpool hsame y).trans hcell

/-- What is handed out is what stands under the key. -/
theorem cellOf?_of_lookup (h : (pool.lookup x).1 = some cell) : pool.cellOf? x = some cell := by
  unfold lookup get at h
  unfold cellOf?
  split at h
  · cases hfind : pool.find? x with
    | none =>
        simp [hfind] at h
    | some entry =>
        simp only [hfind] at h
        split at h
        · exact h
        · cases h
  · cases h

/-- The cell stands under a matching key, and all entries of other keys are as before. -/
structure Recorded (pool : Pool) (cell : Cell) (pool' : Pool) : Prop where
  capacity : pool'.capacity = pool.capacity
  apart : Apart pool'.entries
  mem : ∃ key, keysMatch key cell.payload = true ∧ ∀ entry, entry ∈ pool'.entries ↔
    entry = { key := key, cell := cell } ∨ entry ∈ pool.entries ∧
    keysMatch entry.key cell.payload = false

theorem Recorded.cellOf? (h : Recorded pool cell pool') (hpool : Apart pool.entries) (y : Payload) :
    pool'.cellOf? y = if keysMatch cell.payload y = true then some cell else pool.cellOf? y := by
  rcases h.mem with ⟨key, hkey, hmem⟩
  split
  · next hy =>
    exact cellOf?_of_mem h.apart ((hmem _).2 (Or.inl rfl)) (keysMatch_trans hkey hy)
  · next hy =>
    -- a key of another object is looked for among the entries that stayed
    have hother : ∀ entry : PoolEntry, keysMatch entry.key y = true →
        keysMatch entry.key cell.payload = false :=
      fun entry hentry => Bool.eq_false_iff.2 fun hentry' =>
        hy ((keysMatch_congr hentry' y).symm.trans hentry)
    cases hold : pool.cellOf? y with
    | some old =>
        rcases cellOf?_eq_some hold with ⟨entry, hentry, hentryy, rfl⟩
        exact cellOf?_of_mem h.apart
          ((hmem entry).2 (Or.inr ⟨hentry, hother entry hentryy⟩)) hentryy
    | none =>
        cases hnew : pool'.cellOf? y with
        | none =>
            rfl
        | some new =>
            rcases cellOf?_eq_some hnew with ⟨entry, hentry, hentryy, rfl⟩
            rcases (hmem entry).1 hentry with rfl | hentry
            · exact absurd hkey (by simp [hother _ hentryy])
            · rw [cellOf?_of_mem hpool hentry.1 hentryy] at hold
              cases hold

/-! ## Room for all keys -/

/-- The keys fit in, and those that match are one object. -/
structure Ample (keys : List Payload) (capacity : Int) : Prop where
  room : ((distinct keys).length : Int) ≤ capacity
  same : ∀ x ∈ keys, ∀ y ∈ keys, keysMatch x y = true → x.same y = true

/-- A pool that remembers nothing but cells of the keys, and no cell from `next` on. -/
structure Interned (keys : List Payload) (capacity : Int) (next : Nat) (pool : Pool) : Prop where
  capacity : pool.capacity = capacity
  apart : Apart pool.entries
  known : ∀ entry ∈ pool.entries, ∃ x ∈ keys, keysMatch entry.key x = true ∧
    entry.cell.payload.same x = true
  numbered : ∀ entry ∈ pool.entries, entry.cell.id < next

namespace Interned

theorem of_empty (pool : Pool) (h : pool.entries = []) (next : Nat) :
    Interned keys pool.capacity next pool where
  capacity := rfl
  apart := by
    rw [h]
    exact List.Pairwise.nil
  known := by simp [h]
  numbered := by simp [h]

theorem mono {next' : Nat} (h : Interned keys capacity next pool) (hle : next ≤ next') :
    Interned keys capacity next' pool :=
  { h with numbered := fun entry hentry => Nat.lt_of_lt_of_le (h.numbered entry hentry) hle }

theorem of_sameContent (h : Interned keys capacity next pool) (hsame : pool'.SameContent pool) :
    Interned keys capacity next pool' where
  capacity := hsame.capacity.trans h.capacity
  apart := h.apart.perm hsame.entries.symm
  known entry hentry := h.known entry (hsame.entries.mem_iff.1 hentry)
  numbered entry hentry := h.numbered entry (hsame.entries.mem_iff.1 hentry)

theorem touch (h : Interned keys capacity next pool) (x : Payload) :
    Interned keys capacity next (pool.touch x) :=
  h.of_sameContent (touch_sameContent pool x)

theorem id_lt (h : Interned keys capacity next pool) (hcell : pool.cellOf? x = some cell) :
    cell.id < next := by
  rcases cellOf?_eq_some hcell with ⟨entry, hentry, -, rfl⟩
  exact h.numbered entry hentry

section Ample

variable (hample : Ample keys capacity) (h : Interned keys capacity next pool)
include hample h

theorem remembers (hx : x ∈ keys) : pool.remembers x = x.isHashable := by
  rcases exists_mem_eraseDupsBy keysMatch_equivalence hx with ⟨y, hy, -⟩
  have hpos : 0 < (distinct keys).length := List.length_pos_of_mem hy
  have hroom := hample.room
  have hcapacity : 0 < pool.capacity := by
    rw [h.capacity]
    omega
  simp [Pool.remembers, hcapacity]

/-- A key that is still missing fits in. -/
theorem length_lt (hx : x ∈ keys) (hfind : pool.find? x = none) :
    (pool.entries.length : Int) < capacity := by
  have hmissed := find?_eq_none_iff.1 hfind
  have happart : (x :: pool.entries.map PoolEntry.key).Pairwise fun x y =>
      keysMatch x y = false := by
    refine List.pairwise_cons.2 ⟨fun y hy => ?_, List.pairwise_map.2 h.apart⟩
    rcases List.mem_map.1 hy with ⟨entry, hentry, rfl⟩
    exact keysMatch_eq_false_symm (hmissed entry hentry)
  have hclasses : ∀ y ∈ x :: pool.entries.map PoolEntry.key,
      ∃ z ∈ distinct keys, keysMatch y z = true := by
    refine List.forall_mem_cons.2 ⟨exists_mem_eraseDupsBy keysMatch_equivalence hx, fun y hy => ?_⟩
    rcases List.mem_map.1 hy with ⟨entry, hentry, rfl⟩
    rcases h.known entry hentry with ⟨u, hu, hmatch, -⟩
    rcases exists_mem_eraseDupsBy keysMatch_equivalence hu with ⟨z, hz, huz⟩
    exact ⟨z, hz, keysMatch_trans hmatch huz⟩
  have hlength := length_le_of_classes keysMatch_equivalence happart hclasses
  have hroom := hample.room
  simp only [List.length_cons, List.length_map] at hlength
  omega

/-- What is remembered under a key is the very object. -/
theorem cell_same (hx : x ∈ keys) (hcell : pool.cellOf? x = some cell) :
    cell.payload.same x = true := by
  rcases cellOf?_eq_some hcell with ⟨entry, hentry, hmatch, rfl⟩
  rcases h.known entry hentry with ⟨y, hy, hmatch', hsame⟩
  have hyx : keysMatch y x = true := keysMatch_trans (keysMatch_symm hmatch') hmatch
  exact Payload.same_trans hsame (hample.same y hy x hx hyx)

/-- So the pool hands out what it remembers. -/
theorem lookup_eq (hx : x ∈ keys) (hhash : x.isHashable = true) :
    (pool.lookup x).1 = pool.cellOf? x := by
  have hremembers : pool.remembers x = true := (h.remembers hample hx).trans hhash
  rw [lookup, if_pos hremembers, get]
  cases hfind : pool.find? x with
  | none =>
      rw [cellOf?, hfind, Option.map_none]
  | some entry =>
      have hcell : pool.cellOf? x = some entry.cell := by rw [cellOf?, hfind, Option.map_some]
      rw [hcell]
      exact if_pos (h.cell_same hample hx hcell)

/-! ## Recording -/

theorem record_recorded (hx : x ∈ keys) (hsame : cell.payload.same x = true)
    (hhash : x.isHashable = true)
    (hagree : ∀ other, pool.cellOf? cell.payload = some other → other.id = cell.id → other = cell) :
    Recorded pool cell (pool.record cell) := by
  have hmatch : keysMatch cell.payload x = true := keysMatch_of_same hsame
  have hused : pool.remembers cell.payload = true := by
    calc pool.remembers cell.payload = pool.remembers x := by
          rw [Pool.remembers, Pool.remembers, Payload.isHashable_of_same hsame]
      _ = x.isHashable := h.remembers hample hx
      _ = true := hhash
  have hcapacity := record_capacity pool cell
  cases hfind : pool.find? cell.payload with
  | none =>
      have hmissed := find?_eq_none_iff.1 hfind
      have hroom := h.length_lt hample hx ((pool.find?_of_match hmatch).symm.trans hfind)
      have hentries : (pool.record cell).entries = { key := cell.payload, cell := cell } ::
          pool.entries := by
        rw [record_of_missing hused hfind]
        exact push_of_room (by rw [h.capacity]; omega) cell.payload cell
      refine ⟨hcapacity, ?_, cell.payload, keysMatch_refl _, fun entry => ?_⟩
      · rw [hentries]
        exact List.pairwise_cons.2
          ⟨fun entry hentry => keysMatch_eq_false_symm (hmissed entry hentry), h.apart⟩
      · rw [hentries, List.mem_cons, and_iff_left_of_imp (hmissed entry)]
  | some found =>
      have happart : Apart (found :: pool.others cell.payload) :=
        h.apart.perm (cons_eraseP_perm hfind).symm
      have hentries : (pool.record cell).entries = { found with cell := cell } ::
          pool.others cell.payload := by
        rw [record_of_known hused hfind]
        split
        · next heq =>
          have hcell : found.cell = cell := hagree _ (by rw [cellOf?, hfind, Option.map_some]) heq
          rw [← hcell]
        · rfl
      refine ⟨hcapacity, ?_, found.key, find?_matches hfind, fun entry => ?_⟩
      · rw [hentries]
        exact List.pairwise_cons.2 (List.pairwise_cons.1 happart)
      · rw [hentries, List.mem_cons, others_eq_filter h.apart, List.mem_filter]
        simp

/-- One cell is recorded. Nothing is forgotten for it, and it is remembered under its key
afterwards. -/
theorem record (hkey : cell.payload.isHashable = true → ∃ x ∈ keys, cell.payload.same x = true)
    (hid : cell.id < next)
    (hagree : ∀ other, pool.cellOf? cell.payload = some other → other.id = cell.id → other = cell) :
    Interned keys capacity next (pool.record cell) ∧
      ∀ y, (pool.record cell).cellOf? y =
        if (cell.payload.isHashable && keysMatch cell.payload y) = true then some cell
          else pool.cellOf? y := by
  cases hhash : cell.payload.isHashable with
  | false =>
      have hunused : pool.remembers cell.payload = false := by simp [Pool.remembers, hhash]
      rw [record_of_unused hunused]
      exact ⟨⟨h.capacity, h.apart, h.known, h.numbered⟩, fun y => by simp [cellOf?, find?]⟩
  | true =>
      rcases hkey hhash with ⟨x, hx, hsame⟩
      have hhash' : x.isHashable = true := (Payload.isHashable_of_same hsame).symm.trans hhash
      have hrecorded := h.record_recorded hample hx hsame hhash' hagree
      refine ⟨?_, fun y => by rw [Bool.true_and, hrecorded.cellOf? h.apart y]⟩
      rcases hrecorded.mem with ⟨key, hkey', hmem⟩
      refine ⟨hrecorded.capacity.trans h.capacity, hrecorded.apart, fun entry hentry => ?_,
        fun entry hentry => ?_⟩
      · rcases (hmem entry).1 hentry with rfl | hentry
        · exact ⟨x, hx, keysMatch_trans hkey' (keysMatch_of_same hsame), hsame⟩
        · exact h.known entry hentry.1
      · rcases (hmem entry).1 hentry with rfl | hentry
        · exact hid
        · exact h.numbered entry hentry.1

/-! ## Cells that were handed out -/

/-- A cell for a payload is recorded, perhaps after others. It takes the place of no cell that was
remembered when the payload was looked for. -/
theorem serve {before : Pool} (hbefore : Interned keys capacity mint.nextCell before)
    (hkeeps : Keeps before pool)
    (hhanded : Handed before mint x cell mint') (hx : x.isHashable = true → x ∈ keys)
    (hle : next ≤ mint.nextCell) :
    Interned keys capacity mint'.nextCell (pool.record cell) ∧ Keeps before (pool.record cell) ∧
      (x.isHashable = true → (pool.record cell).cellOf? cell.payload = some cell) := by
  have hsame := hhanded.same
  have hmatch : keysMatch cell.payload x = true := keysMatch_of_same hsame
  have hhash : cell.payload.isHashable = x.isHashable := Payload.isHashable_of_same hsame
  have hnext := h.mono (hle.trans hhanded.nextCell_le)
  have hid : cell.id < mint'.nextCell := by
    cases hhanded with
    | known found =>
        exact hbefore.id_lt (cellOf?_of_lookup found)
    | fresh missed =>
        exact Nat.lt_succ_self _
  have hagree : ∀ other, pool.cellOf? cell.payload = some other → other.id = cell.id →
      other = cell := by
    intro other hother heq
    rw [cellOf?_of_match pool hmatch] at hother
    cases hhanded with
    | known found =>
        have hkept := hkeeps x cell (cellOf?_of_lookup found)
        exact Option.some.inj (hother.symm.trans hkept)
    | fresh missed =>
        -- a new cell has a number of its own
        exact absurd heq (Nat.ne_of_lt (Nat.lt_of_lt_of_le (h.id_lt hother) hle))
  have hkey : cell.payload.isHashable = true → ∃ x ∈ keys, cell.payload.same x = true :=
    fun hcell => ⟨x, hx (hhash ▸ hcell), hsame⟩
  rcases hnext.record hample hkey hid hagree with ⟨hinterned, hcellOf⟩
  refine ⟨hinterned, fun y old hold => ?_, fun hcell => ?_⟩
  · rw [hcellOf]
    split
    · next hy =>
      rw [Bool.and_eq_true] at hy
      have hcell : x.isHashable = true := hhash ▸ hy.1
      have hxy : keysMatch x y = true := keysMatch_trans (keysMatch_symm hmatch) hy.2
      have hlookup : (before.lookup x).1 = some old := by
        calc (before.lookup x).1 = before.cellOf? x := hbefore.lookup_eq hample (hx hcell) hcell
          _ = before.cellOf? y := cellOf?_of_match before hxy
          _ = some old := hold
      cases hhanded with
      | known found =>
          exact found.symm.trans hlookup
      | fresh missed =>
          rw [missed] at hlookup
          cases hlookup
    · exact hkeeps y old hold
  · rw [hcellOf, hhash, hcell, keysMatch_refl]
    rfl

end Ample

/-- Looking for one payload, and recording the cell that was handed out. -/
theorem serve_one (hample : Ample keys capacity) (h : Interned keys capacity mint.nextCell pool)
    (hhanded : Handed pool mint x cell mint') (hx : x.isHashable = true → x ∈ keys) :
    Interned keys capacity mint'.nextCell ((pool.touch x).recordAll [cell]) ∧
      Keeps pool ((pool.touch x).recordAll [cell]) ∧
      (x.isHashable = true → ((pool.touch x).recordAll [cell]).cellOf? cell.payload = some cell) :=
  (h.touch x).serve hample h (.of_sameContent h.apart (touch_sameContent pool x)) hhanded hx
    (Nat.le_refl _)

/-- Looking for two payloads, which may be one object, and recording both cells. -/
theorem serve_two {mint'' : Mint} (hample : Ample keys capacity)
    (h : Interned keys capacity mint.nextCell pool)
    (hhanded : Handed pool mint x cell mint')
    (hhanded' : Handed (pool.touch x) mint' y other mint'')
    (hx : x.isHashable = true → x ∈ keys) (hy : y.isHashable = true → y ∈ keys) :
    Interned keys capacity mint''.nextCell (((pool.touch x).touch y).recordAll [cell, other]) ∧
      Keeps pool (((pool.touch x).touch y).recordAll [cell, other]) ∧
      (y.isHashable = true →
        (((pool.touch x).touch y).recordAll [cell, other]).cellOf? other.payload = some other) := by
  have htouched := h.touch x
  have hkeeps : Keeps pool (pool.touch x) := .of_sameContent h.apart (touch_sameContent pool x)
  have hkeeps' : Keeps (pool.touch x) ((pool.touch x).touch y) :=
    .of_sameContent htouched.apart (touch_sameContent _ y)
  rcases (htouched.touch y).serve hample h (hkeeps.trans hkeeps') hhanded hx
    (Nat.le_refl _) with ⟨hfirst, hkept, -⟩
  have hkept' : Keeps (pool.touch x) (((pool.touch x).touch y).record cell) := by
    intro z old hold
    rw [cellOf?_of_sameContent h.apart (touch_sameContent pool x)] at hold
    exact hkept z old hold
  have hsecond := hfirst.serve hample (htouched.mono hhanded.nextCell_le) hkept' hhanded' hy
    (Nat.le_refl _)
  exact ⟨hsecond.1, hkeeps.trans hsecond.2.1, hsecond.2.2⟩

end Interned

end Pool

end Peaks
