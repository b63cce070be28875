import Mathlib.Data.List.Forall2
import Mathlib.Data.List.Infix
import Peaks.Proofs.Keys

/-!
# What a pool remembers

A pool that served a sequence of requests remembers the keys that were asked for most recently, as
many as it has room for. So a request gets the cell of the latest earlier one with a matching key
exactly if that one was made with the very same object and fewer other keys were asked for in
between than the pool has room for; else it gets a new cell.

- `Pool.Served`, `Pool.serve` : requests one after another, with the cells that were handed out
- `Pool.recalled?`            : the cell that a request finds, told from the earlier calls alone
- `Pool.Exact`                : the invariant of every call
- `Pool.served_recent`        : the keys, the cells and the counters after any requests
-/

namespace Peaks

/-! ## The first of each class -/

section Classes

variable {α : Type} {r : α → α → Bool} {P : α → Bool}

/-- A property of whole classes may be asked before or after the repetitions are left out. -/
theorem filter_eraseDupsBy (hP : ∀ x y, r x y = true → P x = P y) (xs : List α) :
    (xs.eraseDupsBy r).filter P = (xs.filter P).eraseDupsBy r := by
  -- leaving out the repetitions of the first element shortens the rest
  induction hn : xs.length using Nat.strong_induction_on generalizing xs with
  | _ n ih =>
    cases xs with
    | nil =>
        simp
    | cons x xs =>
        have hlength : (xs.filter fun y => decide (r y x = false)).length < n := by
          have hle := List.length_filter_le (fun y => decide (r y x = false)) xs
          simp only [List.length_cons] at hn
          omega
        rw [List.eraseDupsBy_cons]
        by_cases hx : P x = true
        · rw [List.filter_cons_of_pos hx, List.filter_cons_of_pos hx, List.eraseDupsBy_cons,
            ih _ hlength _ rfl, List.filter_comm]
        · rw [List.filter_cons_of_neg hx, List.filter_cons_of_neg hx, ih _ hlength _ rfl,
            List.filter_filter]
          refine congrArg _ (List.filter_congr fun y _ => ?_)
          -- what has the property is not in the class of the first element
          cases hy : P y with
          | false =>
              simp
          | true =>
              have hne : r y x = false := Bool.eq_false_iff.2 fun hyx =>
                hx ((hP y x hyx).symm.trans hy)
              simp [hne]

variable (hr : Equivalence fun x y => r x y = true)
include hr

theorem eraseDupsBy_cons_filter (x : α) (xs : List α) :
    (x :: xs).eraseDupsBy r = x :: (xs.eraseDupsBy r).filter fun y => !r y x := by
  rw [List.eraseDupsBy_cons, filter_eraseDupsBy]
  · simp
  · intro y z hyz
    rw [Bool.not_inj_iff, Bool.eq_iff_iff]
    exact ⟨hr.trans (hr.symm hyz), hr.trans hyz⟩

theorem eraseDupsBy_pairwise (xs : List α) :
    (xs.eraseDupsBy r).Pairwise fun x y => r y x = false := by
  induction xs with
  | nil =>
      simp
  | cons x xs ih =>
      rw [eraseDupsBy_cons_filter hr]
      refine List.pairwise_cons.2 ⟨fun y hy => ?_, ih.filter _⟩
      simpa using (List.mem_filter.1 hy).2

theorem mem_of_mem_eraseDupsBy {x : α} {xs : List α} (h : x ∈ xs.eraseDupsBy r) : x ∈ xs := by
  induction xs with
  | nil =>
      simp at h
  | cons y xs ih =>
      rw [eraseDupsBy_cons_filter hr] at h
      rcases List.mem_cons.1 h with rfl | h
      · simp
      · exact List.mem_cons_of_mem y (ih (List.mem_filter.1 h).1)

/-- The first of its class stands behind one element of each class that came before it. -/
theorem eraseDupsBy_append_cons {front : List α} {x : α} (hfront : ∀ y ∈ front, r y x = false)
    (back : List α) :
    ∃ rest, (front ++ x :: back).eraseDupsBy r = front.eraseDupsBy r ++ x :: rest := by
  induction front with
  | nil =>
      exact ⟨_, eraseDupsBy_cons_filter hr x back⟩
  | cons y front ih =>
      rcases ih fun z hz => hfront z (by simp [hz]) with ⟨rest, hrest⟩
      have hxy : r x y = false := Bool.eq_false_iff.2 fun h =>
        Bool.eq_false_iff.1 (hfront y (by simp)) (hr.symm h)
      refine ⟨rest.filter fun z => !r z y, ?_⟩
      rw [List.cons_append, eraseDupsBy_cons_filter hr, eraseDupsBy_cons_filter hr, hrest,
        List.filter_append,
        List.filter_cons_of_pos (by simpa using hxy), List.cons_append]

end Classes

section Erasing

variable {α β : Type} {P : α → Bool} {Q : β → Bool} {K : α → β → Prop}

/-- In a list with one element of each class, leaving a class out is taking one element out. -/
theorem filter_not_eq_eraseP {xs : List α} (h : xs.Pairwise fun x y => P x = true → P y = false) :
    (xs.filter fun x => !P x) = xs.eraseP P := by
  induction xs with
  | nil =>
      rfl
  | cons x xs ih =>
      have hcons := List.pairwise_cons.1 h
      by_cases hx : P x = true
      · rw [List.filter_cons_of_neg (by simpa using hx), List.eraseP_cons_of_pos hx]
        exact List.filter_eq_self.2 fun y hy => by simp [hcons.1 y hy hx]
      · rw [List.filter_cons_of_pos (by simpa using hx), List.eraseP_cons_of_neg hx, ih hcons.2]

theorem take_eraseP_of_any (n : Nat) {xs : List α} (h : (xs.take (n + 1)).any P = true) :
    (xs.eraseP P).take n = (xs.take (n + 1)).eraseP P := by
  induction xs generalizing n with
  | nil =>
      simp at h
  | cons x xs ih =>
      by_cases hx : P x = true
      · rw [List.take_succ_cons, List.eraseP_cons_of_pos hx, List.eraseP_cons_of_pos hx]
      · rw [List.take_succ_cons, List.any_cons, Bool.eq_false_iff.2 hx, Bool.false_or] at h
        rw [List.take_succ_cons, List.eraseP_cons_of_neg hx, List.eraseP_cons_of_neg hx]
        cases n with
        | zero =>
            simp at h
        | succ n =>
            rw [List.take_succ_cons, ih n h]

theorem take_eraseP_of_not_any (n : Nat) {xs : List α} (h : (xs.take (n + 1)).any P = false) :
    (xs.eraseP P).take n = xs.take n := by
  induction xs generalizing n with
  | nil =>
      rfl
  | cons x xs ih =>
      rw [List.take_succ_cons, List.any_cons, Bool.or_eq_false_iff] at h
      rw [List.eraseP_cons_of_neg (by simp [h.1])]
      cases n with
      | zero =>
          rfl
      | succ n =>
          rw [List.take_succ_cons, List.take_succ_cons, ih n h.2]

/-- What is taken out of one list has its partner taken out of the other. -/
theorem forall₂_eraseP {xs : List α} {ys : List β} (h : List.Forall₂ K xs ys)
    (hPQ : ∀ x y, K x y → P x = Q y) : List.Forall₂ K (xs.eraseP P) (ys.eraseP Q) := by
  induction h with
  | nil =>
      exact .nil
  | @cons x y xs ys hxy hrest ih =>
      by_cases hx : P x = true
      · rw [List.eraseP_cons_of_pos hx, List.eraseP_cons_of_pos (hPQ x y hxy ▸ hx)]
        exact hrest
      · rw [List.eraseP_cons_of_neg hx, List.eraseP_cons_of_neg (hPQ x y hxy ▸ hx)]
        exact .cons hxy ih

/-- What is found first in one list has its partner found first in the other. -/
theorem forall₂_find? {xs : List α} {ys : List β} (h : List.Forall₂ K xs ys)
    (hPQ : ∀ x y, K x y → P x = Q y) :
    (xs.find? P = none ∧ ys.find? Q = none) ∨
      ∃ x y, xs.find? P = some x ∧ ys.find? Q = some y ∧ K x y := by
  induction h with
  | nil =>
      exact Or.inl ⟨rfl, rfl⟩
  | @cons x y xs ys hxy hrest ih =>
      by_cases hx : P x = true
      · have hy : Q y = true := hPQ x y hxy ▸ hx
        exact Or.inr ⟨x, y, List.find?_cons_of_pos hx, List.find?_cons_of_pos hy, hxy⟩
      · have hy : ¬ Q y = true := hPQ x y hxy ▸ hx
        rw [List.find?_cons_of_neg hx, List.find?_cons_of_neg hy]
        exact ih

end Erasing

/-! ## One call -/

namespace Pool

variable {pool : Pool} {mint : Mint} {p q : Payload} {entry : PoolEntry}

theorem keysMatch_equivalence : Equivalence fun p q => keysMatch p q = true :=
  ⟨keysMatch_refl, keysMatch_symm, keysMatch_trans⟩

theorem find?_matches (h : pool.find? p = some entry) : keysMatch entry.key p = true := by
  simpa using List.find?_some h

/-- A cell that is recorded under the most recent key leaves the order of the entries as it is. -/
theorem record_of_first {cell : Cell} {rest : List PoolEntry} (hpool : pool.entries = entry :: rest)
    (hp : pool.remembers cell.payload = true) (hkey : keysMatch entry.key cell.payload = true) :
    pool.record cell =
      if entry.cell.id = cell.id then
        { pool with requests := pool.requests + 1, shared := pool.shared + 1 }
      else
        { pool with
          entries := { entry with cell := cell } :: rest
          requests := pool.requests + 1 } := by
  have hfind : find? { pool with requests := pool.requests + 1 } cell.payload = some entry := by
    rw [find?, hpool]
    exact List.find?_cons_of_pos hkey
  have hothers : others { pool with requests := pool.requests + 1 } cell.payload = rest := by
    rw [others, hpool]
    exact List.eraseP_cons_of_pos hkey
  rw [remembers] at hp
  simp only [record, remembers, hp, if_true, get_of_some hfind, hothers, replaceFirst, beq_iff_eq]
  rw [hpool]

/-- The very object is remembered. -/
theorem cell_of_same (hp : pool.remembers p = true) (hfind : pool.find? p = some entry)
    (hsame : entry.cell.payload.same p = true) :
    pool.cell mint p =
      (entry.cell,
       { pool with
         entries := entry :: pool.others p
         requests := pool.requests + 1
         shared := pool.shared + 1 },
       mint) := by
  have hobtain : pool.obtain mint p =
      (entry.cell, { pool with entries := entry :: pool.others p }, mint) := by
    simp only [Pool.obtain, lookup, hp, if_true, get_of_some hfind, hsame]
  -- recording asks for the same key again, in the form that the remembered cell holds
  have hkey : keysMatch entry.key entry.cell.payload = true :=
    keysMatch_trans (find?_matches hfind) (keysMatch_of_same (Payload.same_symm hsame))
  have hremembers : remembers { pool with entries := entry :: pool.others p }
      entry.cell.payload = true := by
    rw [remembers, Payload.isHashable_of_same hsame]
    exact hp
  simp only [cell, hobtain, record_of_first rfl hremembers hkey, if_true]

/-- Another object is remembered under the key; its cell gives way to a new one. -/
theorem cell_of_other (hp : pool.remembers p = true) (hfind : pool.find? p = some entry)
    (hsame : entry.cell.payload.same p = false) (hid : entry.cell.id ≠ mint.nextCell) :
    pool.cell mint p =
      ((mint.cell p).1,
       { pool with
         entries := { entry with cell := (mint.cell p).1 } :: pool.others p
         requests := pool.requests + 1 },
       (mint.cell p).2) := by
  have hobtain : pool.obtain mint p =
      ((mint.cell p).1, { pool with entries := entry :: pool.others p }, (mint.cell p).2) := by
    simp only [Pool.obtain, lookup, hp, if_true, get_of_some hfind, hsame,
      Bool.false_eq_true, if_false]
  have hremembers : remembers { pool with entries := entry :: pool.others p }
      (mint.cell p).1.payload = true := hp
  have hid' : ¬ entry.cell.id = (mint.cell p).1.id := hid
  simp only [cell, hobtain, record_of_first rfl hremembers (find?_matches hfind), if_neg hid']

theorem cell_of_missing (hp : pool.remembers p = true) (hfind : pool.find? p = none) :
    pool.cell mint p =
      ((mint.cell p).1,
       { pool with
         entries := { key := p, cell := (mint.cell p).1 } ::
           pool.entries.take (pool.capacity - 1).toNat
         requests := pool.requests + 1 },
       (mint.cell p).2) := by
  have hobtain : pool.obtain mint p = ((mint.cell p).1, pool, (mint.cell p).2) := by
    simp only [Pool.obtain, lookup, hp, if_true, get_of_none hfind]
  have hfind' : find? { pool with requests := pool.requests + 1 } p = none := hfind
  rw [remembers] at hp
  rw [cell, hobtain]
  simp only [record, remembers, Mint.cell, hp, if_true, get_of_none hfind', push]

/-! ## Many calls -/

/-- A pool after a number of requests, and what each of them was given, the latest first. -/
structure Served where
  pool : Pool
  mint : Mint
  calls : List (Payload × Cell) := []

/-- One more request. -/
def Served.call (s : Served) (p : Payload) : Served :=
  let (cell, pool, mint) := s.pool.cell s.mint p
  { pool := pool, mint := mint, calls := (p, cell) :: s.calls }

/-- Requests one after another on a pool that has served none. -/
def serve (pool : Pool) (mint : Mint) (ps : List Payload) : Served :=
  ps.foldl Served.call { pool := pool, mint := mint }

/-- The distinct keys among payloads, each where it stands first. -/
def distinct (ps : List Payload) : List Payload :=
  ps.eraseDupsBy keysMatch

/-- The latest of the earlier calls with a matching key. -/
def latest? (earlier : List (Payload × Cell)) (p : Payload) : Option (Payload × Cell) :=
  earlier.find? fun call => keysMatch call.1 p

/-- What was asked for since then. -/
def since (earlier : List (Payload × Cell)) (p : Payload) : List Payload :=
  (earlier.map Prod.fst).takeWhile fun q => !keysMatch q p

/-- The cell of the latest earlier call with a matching key, if that call was made with the same
object and fewer than `m` other keys were asked for since. -/
def recalled? (m : Nat) (earlier : List (Payload × Cell)) (p : Payload) : Option Cell :=
  match latest? earlier p with
  | some (q, cell) => if q.same p && (distinct (since earlier p)).length <
    m then some cell else none
  | none => none

/-- The number of calls that were given the cell of an earlier one. -/
def recalls (m : Nat) (calls : List (Payload × Cell)) : Nat :=
  calls.tails.countP fun
    | [] => false
    | (p, _) :: earlier => (recalled? m earlier p).isSome

/-! ## What is remembered of the earlier calls -/

section Remembered

variable {m : Nat} {calls earlier : List (Payload × Cell)}

def byKey (x y : Payload × Cell) : Bool :=
  keysMatch x.1 y.1

/-- The latest call of each key. -/
def latestOfEach (calls : List (Payload × Cell)) : List (Payload × Cell) :=
  calls.eraseDupsBy byKey

theorem byKey_equivalence : Equivalence fun x y => byKey x y = true :=
  ⟨fun x => keysMatch_refl x.1, keysMatch_symm, keysMatch_trans⟩

theorem map_fst_latestOfEach (calls : List (Payload × Cell)) :
    (latestOfEach calls).map Prod.fst = distinct (calls.map Prod.fst) := by
  induction calls with
  | nil =>
      rfl
  | cons call calls ih =>
      rw [List.map_cons, distinct, latestOfEach, eraseDupsBy_cons_filter byKey_equivalence,
        eraseDupsBy_cons_filter keysMatch_equivalence, List.map_cons]
      rw [distinct, latestOfEach] at ih
      rw [← ih, List.filter_map]
      rfl

/-- A further call comes first, and the earlier one with a matching key is left out. -/
theorem latestOfEach_cons (call : Payload × Cell) (calls : List (Payload × Cell)) :
    latestOfEach (call :: calls) = call :: (latestOfEach calls).eraseP fun x =>
      keysMatch x.1 call.1 := by
  have hpairwise := (eraseDupsBy_pairwise byKey_equivalence calls).imp
    (S := fun (x y : Payload × Cell) => keysMatch x.1 call.1 = true → keysMatch y.1 call.1 = false)
    fun {x y} hxy hx => Bool.eq_false_iff.2 fun hy =>
      Bool.eq_false_iff.1 hxy (keysMatch_trans hy (keysMatch_symm hx))
  rw [latestOfEach, eraseDupsBy_cons_filter byKey_equivalence]
  exact congrArg _ (filter_not_eq_eraseP hpairwise)

/-- Among the latest calls of `m` keys stands the one with a matching key if fewer than `m` keys
came after it. -/
theorem find?_latestOfEach (m : Nat) (earlier : List (Payload × Cell)) (p : Payload) :
    ((latestOfEach earlier).take m).find? (fun x => keysMatch x.1 p) =
      if (distinct (since earlier p)).length < m then latest? earlier p else none := by
  cases hlatest : latest? earlier p with
  | none =>
      rw [ite_self, List.find?_eq_none]
      intro x hx
      exact List.find?_eq_none.1 hlatest x
        (mem_of_mem_eraseDupsBy byKey_equivalence (List.mem_of_mem_take hx))
  | some call =>
      rw [latest?] at hlatest
      obtain ⟨hcall, front, back, rfl, hfront⟩ := List.find?_eq_some_iff_append.1 hlatest
      have hmissed : ∀ x ∈ front, keysMatch x.1 p = false := fun x hx => by simpa using hfront x hx
      have hsince : since (front ++ call :: back) p = front.map Prod.fst := by
        rw [since, List.map_append, List.map_cons, List.takeWhile_append_of_pos,
          List.takeWhile_cons_of_neg,
          List.append_nil]
        · simpa using hcall
        · simpa using fun q c hqc => hmissed (q, c) hqc
      have hapart : ∀ x ∈ front, byKey x call = false := fun x hx => Bool.eq_false_iff.2 fun h =>
        Bool.eq_false_iff.1 (hmissed x hx) (keysMatch_trans h hcall)
      obtain ⟨rest, hrest⟩ := eraseDupsBy_append_cons byKey_equivalence hapart back
      rw [hsince, ← map_fst_latestOfEach, List.length_map]
      rw [← latestOfEach, ← latestOfEach] at hrest
      have hnone : ((latestOfEach front).take m).find? (fun x => keysMatch x.1 p) = none :=
        List.find?_eq_none.2 fun x hx => by
          simpa using hmissed x (mem_of_mem_eraseDupsBy byKey_equivalence (List.mem_of_mem_take hx))
      rw [hrest, List.take_append, List.find?_append, hnone, Option.none_or]
      split
      · next hlt =>
        obtain ⟨n, hn⟩ : ∃ n, m - (latestOfEach front).length = n + 1 :=
          ⟨_, (Nat.succ_pred (by omega)).symm⟩
        rw [hn, List.take_succ_cons]
        exact List.find?_cons_of_pos hcall
      · next hge =>
        rw [Nat.sub_eq_zero_of_le (by omega)]
        rfl

theorem recalled?_eq (m : Nat) (earlier : List (Payload × Cell)) (p : Payload) :
    recalled? m earlier p =
      (((latestOfEach earlier).take m).find? fun x => keysMatch x.1 p).bind fun call =>
        if call.1.same p then some call.2 else none := by
  rw [find?_latestOfEach, recalled?]
  cases latest? earlier p with
  | none =>
      simp
  | some call =>
      by_cases hfew : (distinct (since earlier p)).length < m <;> simp [hfew]

theorem recalls_cons (m : Nat) (p : Payload) (cell : Cell) (earlier : List (Payload × Cell)) :
    recalls m ((p, cell) :: earlier) = recalls m earlier + if (recalled? m earlier p).isSome then 1
      else 0 := by
  rw [recalls, List.tails_cons, List.countP_cons]
  rfl

end Remembered

/-! ## The invariant -/

section Invariant

variable {m : Nat} {s : Served} {p : Payload} {cell : Cell}

/-- An entry remembers what a call was given. -/
structure Holds (entry : PoolEntry) (call : Payload × Cell) : Prop where
  key : keysMatch entry.key call.1 = true
  cell : entry.cell = call.2

/-- What a request was given, told by the calls before it. -/
structure Given (m : Nat) (earlier : List (Payload × Cell)) (p : Payload) (cell : Cell) : Prop where
  recalled : ∀ {old : Cell}, recalled? m earlier p = some old → cell = old
  fresh : recalled? m earlier p = none → ∀ call ∈ earlier, call.2.id ≠ cell.id

/-- The pool remembers the latest calls of `m` keys, and every call was given what the calls before
it tell. -/
structure Exact (m : Nat) (s : Served) : Prop where
  capacity : s.pool.capacity = m
  entries : List.Forall₂ Holds s.pool.entries ((latestOfEach s.calls).take m)
  minted : ∀ call ∈ s.calls, call.2.id < s.mint.nextCell
  held : ∀ call ∈ s.calls, call.2.payload.same call.1 = true
  given :
    ∀ {later : List (Payload × Cell)} {p : Payload} {cell : Cell} {earlier : List (Payload × Cell)},
    s.calls = later ++ (p, cell) :: earlier → Given m earlier p cell
  requests : s.pool.requests = s.calls.length
  shared : s.pool.shared = recalls m s.calls

theorem exact_start (m : Nat) (mint : Mint) :
    Exact m { pool := { capacity := m }, mint := mint } where
  capacity := rfl
  entries := by
    rw [latestOfEach, List.eraseDupsBy_nil, List.take_nil]
    exact .nil
  minted := by simp
  held := by simp
  given := by simp
  requests := rfl
  shared := rfl

theorem Holds.matches {entry : PoolEntry} {call : Payload × Cell} (h : Holds entry call)
    (p : Payload) :
    keysMatch entry.key p = keysMatch call.1 p :=
  keysMatch_congr h.key p

/-- A further call that was given what the earlier ones tell. -/
theorem Exact.extend (h : Exact m s) {pool : Pool} {mint : Mint}
    (hcapacity : pool.capacity = s.pool.capacity)
    (hentries : List.Forall₂ Holds pool.entries ((latestOfEach ((p, cell) :: s.calls)).take m))
    (hmint : s.mint.nextCell ≤ mint.nextCell) (hminted : cell.id < mint.nextCell)
    (hheld : cell.payload.same p = true) (hgiven : Given m s.calls p cell)
    (hrequests : pool.requests = s.pool.requests + 1)
    (hshared : pool.shared = s.pool.shared + if (recalled? m s.calls p).isSome then 1 else 0) :
    Exact m { pool := pool, mint := mint, calls := (p, cell) :: s.calls } where
  capacity := hcapacity.trans h.capacity
  entries := hentries
  minted := List.forall_mem_cons.2
    ⟨hminted, fun call hcall => Nat.lt_of_lt_of_le (h.minted call hcall) hmint⟩
  held := List.forall_mem_cons.2 ⟨hheld, h.held⟩
  given := by
    intro later q other earlier hsplit
    cases later with
    | nil =>
        obtain ⟨hpair, rfl⟩ := List.cons.inj hsplit
        obtain ⟨rfl, rfl⟩ := Prod.mk.inj hpair
        exact hgiven
    | cons call later =>
        exact h.given (List.cons.inj hsplit).2
  requests := by rw [hrequests, List.length_cons, h.requests]
  shared := by rw [hshared, recalls_cons, h.shared]

theorem Exact.given_fresh (h : Exact m s) (hnone : recalled? m s.calls p = none) :
    Given m s.calls p (s.mint.cell p).1 where
  recalled := by
    intro old hold
    rw [hnone] at hold
    cases hold
  fresh := fun _ call hcall => Nat.ne_of_lt (h.minted call hcall)

theorem given_recalled (hsome : recalled? m s.calls p = some cell) : Given m s.calls p cell where
  recalled := by
    intro old hold
    exact Option.some.inj (hsome.symm.trans hold)
  fresh := by
    intro hnone
    rw [hsome] at hnone
    cases hnone

/-- The pool forgets the least recent key, if any, for a new one. -/
theorem Exact.entries_push {n : Nat} (h : Exact (n + 1) s)
    (hlatest : ((latestOfEach s.calls).take (n + 1)).find? (fun x => keysMatch x.1 p) = none) :
    List.Forall₂ Holds
      ({ key := p, cell := cell } :: s.pool.entries.take (s.pool.capacity - 1).toNat)
      ((latestOfEach ((p, cell) :: s.calls)).take (n + 1)) := by
  have hany : ((latestOfEach s.calls).take (n + 1)).any (fun x => keysMatch x.1 p) = false := by
    simpa using hlatest
  have hroom : (s.pool.capacity - 1).toNat = n := by
    rw [h.capacity]
    omega
  have hrest := List.forall₂_take n h.entries
  rw [List.take_take, Nat.min_eq_left (Nat.le_succ n)] at hrest
  rw [latestOfEach_cons, List.take_succ_cons, take_eraseP_of_not_any n hany, hroom]
  exact .cons ⟨keysMatch_refl p, rfl⟩ hrest

/-- The entry of a key that was remembered becomes the most recent one. -/
theorem Exact.entries_renew {n : Nat} (h : Exact (n + 1) s) {entry : PoolEntry}
    {call : Payload × Cell}
    (hfind : s.pool.find? p = some entry)
    (hlatest : ((latestOfEach s.calls).take (n + 1)).find? (fun x => keysMatch x.1 p) = some call) :
    List.Forall₂ Holds ({ entry with cell := cell } :: s.pool.others p)
      ((latestOfEach ((p, cell) :: s.calls)).take (n + 1)) := by
  have hany : ((latestOfEach s.calls).take (n + 1)).any (fun x => keysMatch x.1 p) = true :=
    List.any_eq_true.2
      ⟨call, List.mem_of_find?_eq_some hlatest, by simpa using List.find?_some hlatest⟩
  rw [latestOfEach_cons, List.take_succ_cons, take_eraseP_of_any n hany]
  have hkey := find?_matches hfind
  exact .cons ⟨hkey, rfl⟩ (forall₂_eraseP h.entries fun entry call hholds => hholds.matches p)

/-- The step: one more request keeps the invariant. -/
theorem Exact.call (h : Exact m s) (hm : 1 ≤ m) (hp : p.isHashable = true) :
    Exact m (s.call p) := by
  obtain ⟨n, rfl⟩ : ∃ n, m = n + 1 := ⟨m - 1, by omega⟩
  have hremembers : s.pool.remembers p = true := by
    rw [remembers, hp, h.capacity]
    simp
  have hrecalled := recalled?_eq (n + 1) s.calls p
  rcases forall₂_find? h.entries fun entry call hholds => hholds.matches p with
    ⟨hfind, hlatest⟩ | ⟨entry, ⟨q, old⟩, hfind, hlatest, hholds⟩
  · rw [hlatest, Option.bind_none] at hrecalled
    simp only [Served.call, cell_of_missing hremembers hfind]
    exact h.extend rfl (h.entries_push hlatest) (Nat.le_succ _) (Nat.lt_succ_self _)
      (Payload.same_refl p)
      (h.given_fresh hrecalled) rfl (by simp [hrecalled])
  · rw [hlatest, Option.bind_some] at hrecalled
    have hcell : entry.cell = old := hholds.cell
    have hold := List.mem_of_mem_take (List.mem_of_find?_eq_some hlatest)
    have hcall := mem_of_mem_eraseDupsBy byKey_equivalence hold
    have hheld := h.held _ hcall
    have hminted : entry.cell.id < s.mint.nextCell := hcell ▸ h.minted _ hcall
    -- the cell is handed out again if the latest call was made with this very object
    by_cases hsame : entry.cell.payload.same p = true
    · have hsame' : q.same p = true := Payload.same_trans (Payload.same_symm hheld) (hcell ▸ hsame)
      rw [if_pos hsame', ← hcell] at hrecalled
      simp only [Served.call, cell_of_same hremembers hfind hsame]
      exact h.extend rfl (h.entries_renew hfind hlatest) (Nat.le_refl _) hminted hsame
        (given_recalled hrecalled) rfl
        (by simp [hrecalled])
    · have hsame' : ¬ q.same p = true := fun hq => hsame (hcell ▸ Payload.same_trans hheld hq)
      rw [if_neg hsame'] at hrecalled
      simp only [Served.call,
        cell_of_other hremembers hfind (Bool.eq_false_iff.2 hsame) (Nat.ne_of_lt hminted)]
      exact h.extend rfl (h.entries_renew hfind hlatest) (Nat.le_succ _) (Nat.lt_succ_self _)
        (Payload.same_refl p)
        (h.given_fresh hrecalled) rfl (by simp [hrecalled])

/-- The run: so do any number of requests. -/
theorem Exact.calls (h : Exact m s) (hm : 1 ≤ m) {ps : List Payload}
    (hps : ∀ p ∈ ps, p.isHashable = true) :
    Exact m (ps.foldl Served.call s) := by
  induction ps generalizing s with
  | nil =>
      exact h
  | cons p ps ih =>
      exact ih (h.call hm (hps p (by simp))) fun q hq => hps q (by simp [hq])

theorem calls_map_fst (s : Served) (ps : List Payload) :
    (ps.foldl Served.call s).calls.map Prod.fst = ps.reverse ++ s.calls.map Prod.fst := by
  induction ps generalizing s with
  | nil =>
      rfl
  | cons p ps ih =>
      rw [List.foldl_cons, ih, List.reverse_cons, List.append_assoc]
      rfl

end Invariant

/-- After any hashable requests to a pool with room for `m` keys, the keys it remembers are the
first `m` distinct ones of the requests read backwards. Each request was given the cell of the
latest earlier one with a matching key exactly if that one was made with the same object and fewer
than `m` other keys were asked for in between, else a cell that was never given before; the counters
tell how many requests there were, and how many of the first kind. -/
theorem served_recent (m : Nat) (hm : 1 ≤ m) (mint : Mint) (ps : List Payload)
    (hps : ∀ p ∈ ps, p.isHashable = true) :
    let s := serve { capacity := m } mint ps
    s.calls.map Prod.fst = ps.reverse ∧
    List.Forall₂ (fun entry p => keysMatch entry.key p = true) s.pool.entries
      ((distinct ps.reverse).take m) ∧
    (∀ later p cell earlier, s.calls = later ++ (p, cell) :: earlier →
      (∀ q old, latest? earlier p = some (q, old) →
        (cell = old ↔ q.same p = true ∧ (distinct (since earlier p)).length < m)) ∧
      (recalled? m earlier p = none → ∀ call ∈ earlier, call.2.id ≠ cell.id)) ∧
    s.pool.requests = ps.length ∧ s.pool.shared = recalls m s.calls := by
  intro s
  have hexact : Exact m s := (exact_start m mint).calls hm hps
  have hcalls : s.calls.map Prod.fst = ps.reverse := by
    rw [show s.calls.map Prod.fst = ps.reverse ++ [] from calls_map_fst _ ps, List.append_nil]
  refine ⟨hcalls, ?_, fun later p cell earlier hsplit => ⟨fun q old hlatest => ?_, ?_⟩, ?_,
    hexact.shared⟩
  · rw [← hcalls, ← map_fst_latestOfEach, ← List.map_take, List.forall₂_map_right_iff]
    exact hexact.entries.imp fun entry call hholds => hholds.key
  · have hgiven := hexact.given hsplit
    have hmem := List.mem_of_find?_eq_some hlatest
    have hrecalled : recalled? m earlier p =
        if q.same p = true ∧ (distinct (since earlier p)).length < m then some old else none := by
      simp only [recalled?, hlatest, Bool.and_eq_true, decide_eq_true_eq]
    constructor
    · intro hcell
      by_contra hkept
      rw [if_neg hkept] at hrecalled
      exact hgiven.fresh hrecalled (q, old) hmem (congrArg Cell.id hcell.symm)
    · intro hkept
      rw [if_pos hkept] at hrecalled
      exact hgiven.recalled hrecalled
  · exact (hexact.given hsplit).fresh
  · rw [hexact.requests, ← List.length_map (f := Prod.fst), hcalls, List.length_reverse]

/-- Two objects of one content, asked for in turn with two other keys. -/
def twinRequests : List Payload :=
  [.tagged (.fresh 0) (.int 1000), .int 2, .tagged (.fresh 0) (.int 1000),
   .tagged (.fresh 1) (.int 1000), .int 2,
   .null, .tagged (.fresh 1) (.int 1000)]

theorem served_recent_twins :
    let s := serve { capacity := (2 : Nat) } {} twinRequests
    List.Forall₂ (fun entry p => keysMatch entry.key p = true) s.pool.entries
      [.tagged (.fresh 1) (.int 1000), .null] ∧
    s.pool.requests = 7 ∧ s.pool.shared = 2 := by
  have hhashable : ∀ p ∈ twinRequests, p.isHashable = true := by decide
  obtain ⟨-, hkeys, -, hrequests, hshared⟩ := served_recent 2 (by decide) {} twinRequests hhashable
  have hrecalls : recalls 2 (serve { capacity := (2 : Nat) } {} twinRequests).calls = 2 := by
    decide +kernel
  exact ⟨hkeys, hrequests, hshared.trans hrecalls⟩

end Pool

end Peaks
