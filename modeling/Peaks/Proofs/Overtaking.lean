import Mathlib.Data.List.Pairwise
import Mathlib.Logic.Relation
import Peaks.Proofs.Recency

/-!
# Pools that differ in recency

Looking for a payload makes its key the most recent one. If only one of two equal pools was looked
into, some keys stand further ahead in it, and nothing else tells the two apart. The same requests
to both keep it so, with the same cells handed out, until the pool that is behind forgets one of
these keys.

- `Pool.touchAll`   : a pool after payloads were looked for
- `Pool.Overtaken`  : a list in which some entries have moved forward
- `Pool.Ahead`      : a pool in which some keys are more recent than in another one
- `Pool.Ahead.serve` : the same requests to both
-/

namespace Peaks
namespace Pool

variable {S T : Payload → Prop} {p q : Pool} {x y : Payload} {cell : Cell} {entry : PoolEntry}
  {xs ys : List PoolEntry}

/-! ## Entries that moved forward -/

/-- An entry with one of the keys goes past the one before it. -/
inductive Overtakes (S : Payload → Prop) : List PoolEntry → List PoolEntry → Prop
  | pass {front back : List PoolEntry} {slow fast : PoolEntry} (key : S fast.key) :
      Overtakes S (front ++ slow :: fast :: back) (front ++ fast :: slow :: back)

/-- Entries with some of the keys have moved forward. -/
def Overtaken (S : Payload → Prop) : List PoolEntry → List PoolEntry → Prop :=
  Relation.ReflTransGen (Overtakes S)

namespace Overtaken

theorem perm (h : Overtaken S xs ys) : xs.Perm ys := by
  induction h with
  | refl =>
      exact List.Perm.refl xs
  | tail _ hpass ih =>
      cases hpass with
      | @pass front back slow fast hkey =>
          exact ih.trans ((List.Perm.swap fast slow back).append_left front)

theorem cons (h : Overtaken S xs ys) (entry : PoolEntry) :
    Overtaken S (entry :: xs) (entry :: ys) := by
  refine Relation.ReflTransGen.lift (entry :: ·) (fun us vs hpass => ?_) xs ys h
  cases hpass with
  | @pass front back slow fast hkey =>
      have hpassed : Overtakes S ((entry :: front) ++ slow :: fast :: back)
          ((entry :: front) ++ fast :: slow :: back) := .pass hkey
      exact hpassed

theorem filter (h : Overtaken S xs ys) (P : PoolEntry → Bool) :
    Overtaken S (xs.filter P) (ys.filter P) := by
  refine Relation.ReflTransGen.lift' (List.filter P) (fun us vs hpass => ?_) xs ys h
  cases hpass with
  | @pass front back slow fast hkey =>
      simp only [Function.onFun, List.filter_append, List.filter_cons]
      -- the two still change places only if both are kept
      cases P slow with
      | false =>
          exact .refl
      | true =>
          cases P fast with
          | false =>
              exact .refl
          | true =>
              exact .single (.pass hkey)

theorem mono (h : Overtaken S xs ys) (hkeys : ∀ entry ∈ xs, S entry.key → T entry.key) :
    Overtaken T xs ys := by
  induction h with
  | refl =>
      exact .refl
  | @tail us vs hpassed hpass ih =>
      have hperm : xs.Perm us := perm hpassed
      cases hpass with
      | @pass front back slow fast hkey =>
          have hmem : fast ∈ xs := hperm.mem_iff.2 (by simp)
          exact ih.tail (.pass (hkeys fast hmem hkey))

theorem take_pass (n : Nat) (h : Overtakes S xs ys) :
    Overtaken S (xs.take n) (ys.take n) ∨ ∃ entry ∈ xs.drop n, S entry.key := by
  cases h with
  | @pass front back slow fast hkey =>
      -- what was overtaken in the part that is cut off does not show
      rcases Nat.lt_or_ge (front.length + 1) n with hlt | hge
      · obtain ⟨m, rfl⟩ : ∃ m, n = front.length + (m + 2) := ⟨n - front.length - 2, by omega⟩
        left
        rw [List.take_length_add_append, List.take_length_add_append]
        exact .single (.pass hkey)
      · refine Or.inr ⟨fast, ?_, hkey⟩
        have hsplit : front ++ slow :: fast :: back = (front ++ [slow]) ++ fast :: back := by simp
        rw [hsplit, List.drop_append_of_le_length (by simpa using hge)]
        simp

/-- Cutting both lists off at one length, unless an entry with one of the keys is lost by it. -/
theorem take (h : Overtaken S xs ys) (n : Nat) :
    Overtaken S (xs.take n) (ys.take n) ∨ ∃ entry ∈ xs.drop n, S entry.key := by
  induction h with
  | refl =>
      exact Or.inl .refl
  | @tail us vs hpassed hpass ih =>
      rcases ih with hfront | hlost
      · rcases take_pass n hpass with hnext | ⟨entry, hentry, hkey⟩
        · exact Or.inl (Relation.ReflTransGen.trans hfront hnext)
        · -- the parts cut off so far hold the same entries
          have hwhole := perm hpassed
          rw [← List.take_append_drop n xs, ← List.take_append_drop n us] at hwhole
          have hback : (xs.drop n).Perm (us.drop n) :=
            (List.perm_append_left_iff _).1 (hwhole.trans ((perm hfront).symm.append_right _))
          exact Or.inr ⟨entry, hback.mem_iff.2 hentry, hkey⟩
      · exact Or.inr hlost

theorem to_front (front : List PoolEntry) {back : List PoolEntry} (h : S entry.key) :
    Overtaken S (front ++ entry :: back) (entry :: (front ++ back)) := by
  induction front with
  | nil =>
      exact .refl
  | cons first front ih =>
      have hpass : Overtakes S ([] ++ first :: entry :: (front ++ back))
          ([] ++ entry :: first :: (front ++ back)) :=
        .pass h
      exact (ih.cons first).tail hpass

end Overtaken

/-! ## Keys -/

/-- No two of the entries have matching keys. -/
def Apart (entries : List PoolEntry) : Prop :=
  entries.Pairwise fun x y => keysMatch x.key y.key = false

theorem keysMatch_eq_false_symm (h : keysMatch x y = false) : keysMatch y x = false :=
  Bool.eq_false_iff.2 fun hyx => Bool.eq_false_iff.1 h (keysMatch_symm hyx)

theorem Apart.perm (h : Apart xs) (hperm : xs.Perm ys) : Apart ys :=
  hperm.pairwise h fun hxy => keysMatch_eq_false_symm hxy

theorem Apart.eq_of_match (h : Apart xs) {u v : PoolEntry} (hu : u ∈ xs) (hv : v ∈ xs)
    (hmatch : keysMatch u.key v.key = true) : u = v := by
  have : Std.Symm fun u v : PoolEntry => keysMatch u.key v.key = false :=
    ⟨fun _ _ => keysMatch_eq_false_symm⟩
  by_contra hne
  have hother : keysMatch u.key v.key = false := List.Pairwise.forall h hu hv hne
  rw [hmatch] at hother
  cases hother

theorem find?_eq_none_iff : p.find? x = none ↔
    ∀ entry ∈ p.entries, keysMatch entry.key x = false := by
  simp [find?]

/-- Taking out the entry of a key takes out all that match it. -/
theorem others_eq_filter (h : Apart p.entries) (x : Payload) :
    p.others x = p.entries.filter fun entry => !keysMatch entry.key x := by
  refine (filter_not_eq_eraseP (h.imp fun {u v} huv hu => ?_)).symm
  exact Bool.eq_false_iff.2 fun hv =>
    Bool.eq_false_iff.1 huv (keysMatch_trans hu (keysMatch_symm hv))

theorem find?_eq_of_sameContent (h : q.SameContent p) (hp : Apart p.entries) (x : Payload) :
    q.find? x = p.find? x := by
  cases hfind : p.find? x with
  | none =>
      rw [find?_eq_none_iff] at hfind ⊢
      intro entry hentry
      exact hfind entry (h.entries.mem_iff.1 hentry)
  | some entry =>
      have hentry : entry ∈ p.entries := List.mem_of_find?_eq_some hfind
      have hkey := find?_matches hfind
      cases hfind' : q.find? x with
      | none =>
          have hmissed := find?_eq_none_iff.1 hfind' entry (h.entries.mem_iff.2 hentry)
          rw [hkey] at hmissed
          cases hmissed
      | some entry' =>
          have hentry' : entry' ∈ p.entries :=
            h.entries.mem_iff.1 (List.mem_of_find?_eq_some hfind')
          have hmatch := keysMatch_trans (find?_matches hfind') (keysMatch_symm hkey)
          rw [hp.eq_of_match hentry' hentry hmatch]

/-! ## Looking -/

/-- A pool that was looked into for a payload. -/
def touch (pool : Pool) (x : Payload) : Pool :=
  if pool.remembers x then (pool.get x).2 else pool

def touchAll (pool : Pool) (asked : List Payload) : Pool :=
  asked.foldl touch pool

theorem touch_of_known (hx : p.remembers x = true) (hfind : p.find? x = some entry) :
    p.touch x = { p with entries := entry :: p.others x } := by
  rw [touch, if_pos hx, get_of_some hfind]

theorem touch_of_missing (hfind : p.find? x = none) : p.touch x = p := by
  rw [touch, get_of_none hfind, ite_self]

theorem touch_sameContent (p : Pool) (x : Payload) : (p.touch x).SameContent p := by
  unfold touch
  split
  · exact get_sameContent p x
  · exact SameContent.refl p

theorem touchAll_sameContent (p : Pool) (asked : List Payload) :
    (p.touchAll asked).SameContent p := by
  induction asked generalizing p with
  | nil =>
      exact SameContent.refl p
  | cons x asked ih =>
      exact (ih (p.touch x)).trans (touch_sameContent p x)

theorem remembers_eq_of_capacity (h : q.capacity = p.capacity) (x : Payload) :
    q.remembers x = p.remembers x := by
  rw [remembers, remembers, h]

theorem lookup_snd (p : Pool) (x : Payload) : (p.lookup x).2 = p.touch x := by
  unfold lookup touch
  split
  · split
    · next heq =>
      rw [heq]
    · next heq =>
      rw [heq]
  · rfl

/-- Which cell is handed out depends on the content only. -/
theorem lookup_fst_eq (h : q.SameContent p) (hp : Apart p.entries) (x : Payload) :
    (q.lookup x).1 = (p.lookup x).1 := by
  have hfind := find?_eq_of_sameContent h hp x
  simp only [lookup, get, remembers_eq_of_capacity h.capacity, hfind]
  split
  · cases p.find? x with
    | none =>
        rfl
    | some entry =>
        rfl
  · rfl

/-- So do the cell and the numbers that are used up for it. -/
theorem obtain_eq (h : q.SameContent p) (hp : Apart p.entries) (mint : Mint) (x : Payload) :
    q.obtain mint x = ((p.obtain mint x).1, q.touch x, (p.obtain mint x).2.2) := by
  have hcell := lookup_fst_eq h hp x
  have hpool := lookup_snd q x
  unfold Pool.obtain
  generalize q.lookup x = looked at hcell hpool
  generalize p.lookup x = looked' at hcell
  rcases looked with ⟨found, pool⟩
  rcases looked' with ⟨found', pool'⟩
  obtain rfl : found = found' := hcell
  obtain rfl : pool = q.touch x := hpool
  cases found with
  | none =>
      rfl
  | some cell =>
      rfl

theorem obtain_pool (p : Pool) (mint : Mint) (x : Payload) : (p.obtain mint x).2.1 = p.touch x := by
  rw [← lookup_snd]
  unfold Pool.obtain
  split <;> next heq => rw [heq]

/-! ## Recording -/

theorem record_of_unused (h : p.remembers cell.payload = false) :
    p.record cell = { p with requests := p.requests + 1 } := by
  have h' : remembers { p with requests := p.requests + 1 } cell.payload = false := h
  simp only [record, h', Bool.false_eq_true, if_false]

theorem record_of_missing (h : p.remembers cell.payload = true)
    (hfind : p.find? cell.payload = none) :
    p.record cell =
      { p with
        entries := { key := cell.payload, cell := cell } :: p.entries.take (p.capacity - 1).toNat
        requests := p.requests + 1 } := by
  have h' : remembers { p with requests := p.requests + 1 } cell.payload = true := h
  have hfind' : find? { p with requests := p.requests + 1 } cell.payload = none := hfind
  simp only [record, h', if_true, get_of_none hfind', push]

/-- A known key becomes the most recent one; its cell is counted as shared, or gives way. -/
theorem record_of_known (h : p.remembers cell.payload = true)
    (hfind : p.find? cell.payload = some entry) :
    p.record cell =
      if entry.cell.id = cell.id then
        { p with
          entries := entry :: p.others cell.payload
          requests := p.requests + 1
          shared := p.shared + 1 }
      else
        { p with
          entries := { entry with cell := cell } :: p.others cell.payload
          requests := p.requests + 1 } := by
  have h' : remembers { p with requests := p.requests + 1 } cell.payload = true := h
  have hfind' : find? { p with requests := p.requests + 1 } cell.payload = some entry := hfind
  simp only [record, h', if_true, get_of_some hfind', replaceFirst, beq_iff_eq]
  rfl

theorem mem_record {e : PoolEntry} (he : e ∈ (p.record cell).entries) :
    (∃ old ∈ p.entries, old.key = e.key) ∨
    (p.remembers cell.payload = true ∧ e.key = cell.payload) := by
  cases h : p.remembers cell.payload with
  | false =>
      rw [record_of_unused h] at he
      exact Or.inl ⟨e, he, rfl⟩
  | true =>
      cases hfind : p.find? cell.payload with
      | none =>
          rw [record_of_missing h hfind] at he
          rcases List.mem_cons.1 he with rfl | he
          · exact Or.inr ⟨rfl, rfl⟩
          · exact Or.inl ⟨e, List.mem_of_mem_take he, rfl⟩
      | some entry =>
          have hentry : entry ∈ p.entries := List.mem_of_find?_eq_some hfind
          have hothers : ∀ e ∈ p.others cell.payload, ∃ old ∈ p.entries, old.key = e.key :=
            fun e he => ⟨e, List.mem_of_mem_eraseP he, rfl⟩
          rw [record_of_known h hfind] at he
          split at he
          · rcases List.mem_cons.1 he with rfl | he
            · exact Or.inl ⟨e, hentry, rfl⟩
            · exact Or.inl (hothers e he)
          · rcases List.mem_cons.1 he with rfl | he
            · exact Or.inl ⟨entry, hentry, rfl⟩
            · exact Or.inl (hothers e he)

/-! ## A pool ahead of another one -/

/-- The pools have the same content, but some of the keys may be more recent in the second one. -/
structure Ahead (S : Payload → Prop) (p q : Pool) : Prop where
  capacity : q.capacity = p.capacity
  requests : q.requests = p.requests
  shared : q.shared = p.shared
  entries : Overtaken S p.entries q.entries
  apart : Apart p.entries

/-- One of the keys is missing. -/
def Forgotten (S : Payload → Prop) (p : Pool) : Prop :=
  ∃ key, S key ∧ p.find? key = none

/-- The keys that match none of the payloads that were looked for. -/
def Unasked (S : Payload → Prop) (p : Pool) (asked : List Payload) (key : Payload) : Prop :=
  S key ∧ ∀ x ∈ asked, p.remembers x = true → keysMatch key x = false

namespace Ahead

theorem sameContent (h : Ahead S p q) : q.SameContent p :=
  ⟨h.capacity, h.requests, h.shared, h.entries.perm.symm⟩

theorem mono (h : Ahead S p q) (hkeys : ∀ key, S key → T key) : Ahead T p q :=
  { h with entries := h.entries.mono fun entry _ => hkeys entry.key }

theorem find?_eq (h : Ahead S p q) (x : Payload) : q.find? x = p.find? x :=
  find?_eq_of_sameContent h.sameContent h.apart x

theorem apart_right (h : Ahead S p q) : Apart q.entries :=
  h.apart.perm h.entries.perm

/-- Once a key was looked for in both, it is as recent in one as in the other. -/
theorem touch (h : Ahead S p q) (x : Payload) :
    Ahead (Unasked S p [x]) (p.touch x) (q.touch x) := by
  have hunasked : ∀ key, (p.remembers x = true → keysMatch key x = false) → S key →
      Unasked S p [x] key :=
    fun key hkey hS => ⟨hS, by simpa using hkey⟩
  have hremembers := remembers_eq_of_capacity h.capacity x
  cases hx : p.remembers x with
  | false =>
      rw [Pool.touch, Pool.touch, hremembers, hx, if_neg Bool.false_ne_true,
        if_neg Bool.false_ne_true]
      exact h.mono fun key => hunasked key fun hused => by rw [hx] at hused; cases hused
  | true =>
      cases hfind : p.find? x with
      | none =>
          rw [touch_of_missing hfind, touch_of_missing ((h.find?_eq x).trans hfind)]
          have hmissed := find?_eq_none_iff.1 hfind
          exact { h with
            entries := h.entries.mono fun entry hentry => hunasked entry.key
              fun _ => hmissed entry hentry }
      | some entry =>
          rw [touch_of_known hx hfind,
            touch_of_known (hremembers.trans hx) ((h.find?_eq x).trans hfind)]
          have hrest :=
            (h.entries.filter fun entry => !keysMatch entry.key x).mono (T := Unasked S p [x])
            fun entry hentry => hunasked entry.key
            fun _ => by simpa using (List.mem_filter.1 hentry).2
          rw [← others_eq_filter h.apart, ← others_eq_filter h.apart_right] at hrest
          exact ⟨h.capacity, h.requests, h.shared, hrest.cons entry,
            h.apart.perm (cons_eraseP_perm hfind).symm⟩

theorem touchAll (h : Ahead S p q) (asked : List Payload) :
    Ahead (Unasked S p asked) (p.touchAll asked) (q.touchAll asked) := by
  induction asked generalizing p q S with
  | nil =>
      exact h.mono fun key hkey => ⟨hkey, by simp⟩
  | cons x asked ih =>
      refine (ih (h.touch x)).mono fun key hkey => ⟨hkey.1.1, List.forall_mem_cons.2 ⟨?_, ?_⟩⟩
      · exact hkey.1.2 x (by simp)
      · intro y hy hused
        refine hkey.2 y hy ?_
        rw [remembers_eq_of_capacity (touch_sameContent p x).capacity]
        exact hused

end Ahead

/-- The cell is recorded under none of the keys. -/
def Avoids (S : Payload → Prop) (p : Pool) (cell : Cell) : Prop :=
  p.remembers cell.payload = true → ∀ key, S key → keysMatch key cell.payload = false

/-- What was forgotten does not come back by the recording of other keys. -/
theorem Forgotten.record (h : Forgotten S p) (hcell : Avoids S p cell) :
    Forgotten S (p.record cell) := by
  rcases h with ⟨key, hkey, hfind⟩
  refine ⟨key, hkey, find?_eq_none_iff.2 fun entry hentry => ?_⟩
  rcases mem_record hentry with ⟨old, hold, heq⟩ | ⟨hused, heq⟩
  · rw [← heq]
    exact find?_eq_none_iff.1 hfind old hold
  · rw [heq]
    exact keysMatch_eq_false_symm (hcell hused key hkey)

/-- An entry that is cut off for a new key is forgotten. -/
theorem forgotten_of_drop (hp : Apart p.entries) (hused : p.remembers cell.payload = true)
    (hfind : p.find? cell.payload = none) (hentry : entry ∈ p.entries.drop (p.capacity - 1).toNat)
    (hkey : S entry.key) : Forgotten S (p.record cell) := by
  refine ⟨entry.key, hkey, ?_⟩
  rw [record_of_missing hused hfind, find?_eq_none_iff]
  refine List.forall_mem_cons.2 ⟨?_, fun other hother => ?_⟩
  · exact keysMatch_eq_false_symm (find?_eq_none_iff.1 hfind entry (List.mem_of_mem_drop hentry))
  · rw [Apart, ← List.take_append_drop (p.capacity - 1).toNat p.entries, List.pairwise_append] at hp
    exact hp.2.2 other hother entry hentry

namespace Ahead

theorem record (h : Ahead S p q) (cell : Cell) :
    Ahead S (p.record cell) (q.record cell) ∨ Forgotten S (p.record cell) := by
  have hremembers := remembers_eq_of_capacity h.capacity cell.payload
  have hfind' := h.find?_eq cell.payload
  have hrequests : q.requests + 1 = p.requests + 1 := congrArg (· + 1) h.requests
  cases hused : p.remembers cell.payload with
  | false =>
      rw [record_of_unused hused, record_of_unused (hremembers.trans hused)]
      exact Or.inl ⟨h.capacity, hrequests, h.shared, h.entries, h.apart⟩
  | true =>
      rw [hused] at hremembers
      cases hfind : p.find? cell.payload with
      | none =>
          rw [hfind] at hfind'
          rcases h.entries.take (p.capacity - 1).toNat with htake | ⟨entry, hentry, hkey⟩
          · left
            rw [record_of_missing hused hfind, record_of_missing hremembers hfind', h.capacity]
            refine ⟨rfl, hrequests, h.shared, htake.cons _,
              List.pairwise_cons.2 ⟨fun entry hentry => ?_, ?_⟩⟩
            · exact keysMatch_eq_false_symm
                (find?_eq_none_iff.1 hfind entry (List.mem_of_mem_take hentry))
            · exact h.apart.sublist (List.take_sublist _ _)
          · exact Or.inr (forgotten_of_drop h.apart hused hfind hentry hkey)
      | some entry =>
          rw [hfind] at hfind'
          left
          have hrest := h.entries.filter fun entry => !keysMatch entry.key cell.payload
          rw [← others_eq_filter h.apart, ← others_eq_filter h.apart_right] at hrest
          have hapart : Apart (entry :: p.others cell.payload) :=
            h.apart.perm (cons_eraseP_perm hfind).symm
          rw [record_of_known hused hfind, record_of_known hremembers hfind']
          split
          · exact ⟨h.capacity, hrequests, congrArg (· + 1) h.shared, hrest.cons _, hapart⟩
          · -- the other cell stands under the same key
            exact ⟨h.capacity, hrequests, h.shared, hrest.cons _,
              List.pairwise_cons.2 (List.pairwise_cons.1 hapart)⟩

end Ahead

theorem record_capacity (p : Pool) (cell : Cell) : (p.record cell).capacity = p.capacity := by
  cases hused : p.remembers cell.payload with
  | false =>
      rw [record_of_unused hused]
  | true =>
      cases hfind : p.find? cell.payload with
      | none =>
          rw [record_of_missing hused hfind]
      | some entry =>
          rw [record_of_known hused hfind]
          split <;> rfl

theorem Avoids.record {other : Cell} (h : Avoids S p other) (cell : Cell) :
    Avoids S (p.record cell) other := by
  intro hused
  rw [remembers_eq_of_capacity (record_capacity p cell)] at hused
  exact h hused

section Cells

variable {cells : List Cell} {asked : List Payload}

theorem Forgotten.recordAll (h : Forgotten S p) (hcells : ∀ cell ∈ cells, Avoids S p cell) :
    Forgotten S (p.recordAll cells) := by
  induction cells generalizing p with
  | nil =>
      exact h
  | cons cell cells ih =>
      refine ih (h.record (hcells cell (by simp))) fun other hother => ?_
      exact (hcells other (by simp [hother])).record cell

theorem Ahead.recordAll (h : Ahead S p q) (hcells : ∀ cell ∈ cells, Avoids S p cell) :
    Ahead S (p.recordAll cells) (q.recordAll cells) ∨ Forgotten S (p.recordAll cells) := by
  induction cells generalizing p q with
  | nil =>
      exact Or.inl h
  | cons cell cells ih =>
      have hrest : ∀ other ∈ cells, Avoids S (p.record cell) other := fun other hother =>
        (hcells other (by simp [hother])).record cell
      rcases h.record cell with hnext | hforgotten
      · exact ih hnext hrest
      · exact Or.inr (hforgotten.recordAll hrest)

/-- Payloads are looked for, and then cells of some of them are recorded. All cells are recorded
under keys that are as recent in one pool as in the other by then, so if one of the keys is pushed
out meanwhile it stays out. -/
theorem Ahead.serve (h : Ahead S p q)
    (hcells : ∀ cell ∈ cells, ∃ x ∈ asked, cell.payload.same x = true) :
    Ahead S ((p.touchAll asked).recordAll cells) ((q.touchAll asked).recordAll cells) ∨
      Forgotten S ((p.touchAll asked).recordAll cells) := by
  have havoids : ∀ cell ∈ cells, Avoids (Unasked S p asked) (p.touchAll asked) cell := by
    intro cell hcell hused key hkey
    rcases hcells cell hcell with ⟨x, hx, hsame⟩
    rw [remembers_eq_of_capacity (touchAll_sameContent p asked).capacity, remembers,
      Payload.isHashable_of_same hsame] at hused
    refine Bool.eq_false_iff.2 fun hmatch => Bool.eq_false_iff.1 (hkey.2 x hx hused) ?_
    exact keysMatch_trans hmatch (keysMatch_of_same hsame)
  rcases (h.touchAll asked).recordAll havoids with hahead | ⟨key, hkey, hfind⟩
  · exact Or.inl (hahead.mono fun key hkey => hkey.1)
  · exact Or.inr ⟨key, hkey.1, hfind⟩

/-! ## A pool that was looked into -/

/-- The keys of a pool that match one of the payloads. -/
def Among (p : Pool) (asked : List Payload) (key : Payload) : Prop :=
  ∃ x ∈ asked, p.find? x ≠ none ∧ keysMatch key x = true

theorem forgotten_among {r : Pool} (h : Forgotten (Among p asked) r) :
    ∃ x ∈ asked, p.find? x ≠ none ∧ r.find? x = none := by
  rcases h with ⟨key, ⟨x, hx, hknown, hmatch⟩, hfind⟩
  refine ⟨x, hx, hknown, find?_eq_none_iff.2 fun entry hentry => ?_⟩
  refine Bool.eq_false_iff.2 fun hentry' => ?_
  have hmissed := find?_eq_none_iff.1 hfind entry hentry
  rw [keysMatch_trans hentry' (keysMatch_symm hmatch)] at hmissed
  cases hmissed

theorem Ahead.refl (S : Payload → Prop) (hp : Apart p.entries) : Ahead S p p :=
  ⟨rfl, rfl, rfl, .refl, hp⟩

theorem Ahead.trans {r : Pool} (h : Ahead S p q) (h' : Ahead S q r) : Ahead S p r where
  capacity := h'.capacity.trans h.capacity
  requests := h'.requests.trans h.requests
  shared := h'.shared.trans h.shared
  entries := Relation.ReflTransGen.trans h.entries h'.entries
  apart := h.apart

theorem touch_ahead (hp : Apart p.entries) (x : Payload) : Ahead (Among p [x]) p (p.touch x) := by
  cases hx : p.remembers x with
  | false =>
      rw [touch, hx, if_neg Bool.false_ne_true]
      exact .refl _ hp
  | true =>
      cases hfind : p.find? x with
      | none =>
          rw [touch_of_missing hfind]
          exact .refl _ hp
      | some entry =>
          have hkey : Among p [x] entry.key := ⟨x, by simp, by simp [hfind], find?_matches hfind⟩
          rw [touch_of_known hx hfind]
          refine ⟨rfl, rfl, rfl, ?_, hp⟩
          obtain ⟨hmatch, front, back, hsplit, hfront⟩ := List.find?_eq_some_iff_append.1 hfind
          rw [others, hsplit, List.eraseP_append_right _ (by simpa using hfront),
            List.eraseP_cons_of_pos (p := fun entry : PoolEntry => keysMatch entry.key x) hmatch]
          exact Overtaken.to_front front hkey

theorem touchAll_ahead (hp : Apart p.entries) (asked : List Payload) :
    Ahead (Among p asked) p (p.touchAll asked) := by
  induction asked generalizing p with
  | nil =>
      exact .refl _ hp
  | cons x asked ih =>
      have hfirst := touch_ahead hp x
      have hrest := ih hfirst.apart_right
      refine (hfirst.mono fun key hkey => ?_).trans (hrest.mono fun key hkey => ?_)
      · rcases hkey with ⟨y, hy, hknown, hmatch⟩
        exact ⟨y, by simp_all, hknown, hmatch⟩
      · rcases hkey with ⟨y, hy, hknown, hmatch⟩
        rw [hfirst.find?_eq] at hknown
        exact ⟨y, by simp [hy], hknown, hmatch⟩

end Cells

end Pool
end Peaks
