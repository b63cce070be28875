import Peaks.Proofs.Overtaking

/-!
# Pools under any calls

A pool may be asked for cells, told of cells that came from anywhere, as often as one likes, and
cleared, in any order. A key may outlive the cell that it came with, since another object with a
matching key takes over its place. All the same the pool never remembers more than it has room for,
its keys stay apart and match what stands under them, and it counted a request for each cell that it
remembers and for each one that it found shared.

- `Pool.Call`, `Pool.attend` : calls one after another, with what they return
- `Pool.Tidy`                : the invariant of every call
- `Pool.Tidy.record`, `Pool.Tidy.call`, `Pool.Tidy.attend` : one cell, one call, any number of calls
- `Pool.calls_within_bounds` : what holds after all of them
-/

namespace Peaks
namespace Pool

/-! ## Calls -/

inductive Call
  | lookup (p : Payload)
  | record (cells : List Cell)
  | cell (p : Payload)
  | clear
  deriving Repr

namespace Call

/-- The payload that a call asks a cell for. -/
def asked? : Call → Option Payload
  | lookup p => some p
  | record _ => none
  | cell p => some p
  | clear => none

/-- What a call returns, with the pool and the mint after it. -/
def run (pool : Pool) (mint : Mint) : Call → Option Cell × Pool × Mint
  | lookup p =>
      let (answer, pool, mint) := pool.obtain mint p
      (some answer, pool, mint)
  | record cells => (none, pool.recordAll cells, mint)
  | cell p =>
      let (answer, pool, mint) := pool.cell mint p
      (some answer, pool, mint)
  | clear => (none, pool.clear, mint)

/-- A call for a payload returns a cell that holds the very object, and the others return
nothing. -/
def Answered (call : Call) (answer : Option Cell) : Prop :=
  Option.Rel (fun cell p => cell.payload.same p) answer call.asked?

theorem run_answered (pool : Pool) (mint : Mint) (call : Call) :
    call.Answered (call.run pool mint).1 := by
  cases call with
  | lookup p =>
      have hsame := (obtain_spec pool mint p).payload
      exact .some hsame
  | record cells =>
      exact .none
  | cell p =>
      have hsame := (obtain_spec pool mint p).payload
      exact .some hsame
  | clear =>
      exact .none

end Call

/-- What calls return one after another, with the pool and the mint after all of them. -/
def attend (pool : Pool) (mint : Mint) : List Call → List (Option Cell) × Pool × Mint
  | [] => ([], pool, mint)
  | call :: calls =>
      let (answer, pool, mint) := call.run pool mint
      let (answers, pool, mint) := attend pool mint calls
      (answer :: answers, pool, mint)

theorem attend_answered (pool : Pool) (mint : Mint) (calls : List Call) :
    List.Forall₂ Call.Answered calls (attend pool mint calls).1 := by
  induction calls generalizing pool mint with
  | nil =>
      exact .nil
  | cons call calls ih =>
      exact .cons (call.run_answered pool mint) (ih _ _)

/-! ## What every call keeps -/

/-- What every call leaves of a pool with the given capacity. -/
structure Tidy (limit : Int) (pool : Pool) : Prop where
  capacity : pool.capacity = limit
  room : (pool.size : Int) ≤ max limit 0
  apart : Apart pool.entries
  keyed : ∀ entry ∈ pool.entries, keysMatch entry.key entry.cell.payload = true
  counted : pool.shared + pool.size ≤ pool.requests

namespace Tidy

variable {limit : Int} {pool pool' : Pool} {entry : PoolEntry} {cell : Cell} {p : Payload}

theorem of_empty (hcapacity : pool.capacity = limit) (hentries : pool.entries = [])
    (hshared : pool.shared ≤ pool.requests) : pool.Tidy limit := by
  have hsize : pool.size = 0 := congrArg List.length hentries
  refine ⟨hcapacity, ?_, ?_, ?_, ?_⟩
  · rw [hsize]
    exact Int.le_max_right limit 0
  · rw [hentries]
    exact List.Pairwise.nil
  · simp [hentries]
  · rw [hsize]
    exact hshared

theorem of_sameContent (h : pool.Tidy limit) (hsame : pool'.SameContent pool) :
    pool'.Tidy limit := by
  have hsize : pool'.size = pool.size := hsame.entries.length_eq
  refine ⟨hsame.capacity.trans h.capacity, ?_, h.apart.perm hsame.entries.symm,
    fun entry hentry => ?_, ?_⟩
  · rw [hsize]
    exact h.room
  · exact h.keyed entry (hsame.entries.mem_iff.1 hentry)
  · rw [hsize, hsame.shared, hsame.requests]
    exact h.counted

/-- A known key stays, whichever cell stands under it from now on. -/
theorem renew (h : pool.Tidy limit) (hfind : pool.find? p = some entry)
    (hkey : keysMatch entry.key cell.payload = true) {shared : Nat}
    (hshared : shared ≤ pool.shared + 1) :
    Tidy limit
      { pool with
        entries := { entry with cell := cell } :: pool.others p
        requests := pool.requests + 1
        shared := shared } := by
  have hperm : (entry :: pool.others p).Perm pool.entries := cons_eraseP_perm hfind
  have hsize : (pool.others p).length + 1 = pool.size := hperm.length_eq
  have hroom := h.room
  have hcounted := h.counted
  refine ⟨h.capacity, ?_, ?_, ?_, ?_⟩
  · simp only [size, List.length_cons]
    omega
  · have happart : Apart (entry :: pool.others p) := h.apart.perm hperm.symm
    rcases List.pairwise_cons.1 happart with ⟨hfirst, hothers⟩
    exact List.pairwise_cons.2 ⟨hfirst, hothers⟩
  · refine List.forall_mem_cons.2 ⟨hkey, fun other hother => ?_⟩
    exact h.keyed other (hperm.mem_iff.1 (List.mem_cons_of_mem entry hother))
  · simp only [size, List.length_cons]
    omega

/-- A new key comes first, and if there is no room, the last of the old ones gives way. -/
theorem push (h : pool.Tidy limit) (hlimit : 0 < limit) (hfind : pool.find? cell.payload = none) :
    Tidy limit
      { pool with
        entries := { key := cell.payload, cell := cell } ::
          pool.entries.take (pool.capacity - 1).toNat
        requests := pool.requests + 1 } := by
  have hbounded := length_push_le (h.capacity.symm ▸ hlimit) cell.payload cell
  have hcounted := h.counted
  refine ⟨h.capacity, ?_, ?_, ?_, ?_⟩
  · rw [h.capacity] at hbounded
    exact Int.le_trans hbounded (Int.le_max_left limit 0)
  · refine List.pairwise_cons.2 ⟨fun other hother => ?_, h.apart.take⟩
    exact keysMatch_eq_false_symm (find?_eq_none_iff.1 hfind other (List.mem_of_mem_take hother))
  · refine List.forall_mem_cons.2 ⟨keysMatch_refl _, fun other hother => ?_⟩
    exact h.keyed other (List.mem_of_mem_take hother)
  · have hkept := List.length_take_le' (pool.capacity - 1).toNat pool.entries
    simp only [size, List.length_cons] at hcounted ⊢
    omega

theorem record (h : pool.Tidy limit) (cell : Cell) : (pool.record cell).Tidy limit := by
  cases hremembers : pool.remembers cell.payload with
  | false =>
      rw [record_of_unused hremembers]
      exact ⟨h.capacity, h.room, h.apart, h.keyed, Nat.le_succ_of_le h.counted⟩
  | true =>
      cases hfind : pool.find? cell.payload with
      | none =>
          have hlimit : 0 < limit := by
            rw [remembers, Bool.and_eq_true, decide_eq_true_eq, h.capacity] at hremembers
            exact hremembers.1
          rw [record_of_missing hremembers hfind]
          exact h.push hlimit hfind
      | some entry =>
          rw [record_of_known hremembers hfind]
          split
          · -- the very cell, found again: one request more and one share more
            exact h.renew hfind (h.keyed entry (List.mem_of_find?_eq_some hfind)) (Nat.le_refl _)
          · -- the old key stays and matches the new cell, which was found by it
            exact h.renew hfind (find?_matches hfind) (Nat.le_succ _)

theorem recordAll (h : pool.Tidy limit) (cells : List Cell) :
    (pool.recordAll cells).Tidy limit := by
  induction cells generalizing pool with
  | nil =>
      exact h
  | cons cell cells ih =>
      exact ih (h.record cell)

/-- The step: one more call. -/
theorem call (h : pool.Tidy limit) (mint : Mint) (call : Call) :
    (call.run pool mint).2.1.Tidy limit := by
  cases call with
  | lookup p =>
      have hlooked := h.of_sameContent (obtain_spec pool mint p).pool
      exact hlooked
  | record cells =>
      exact h.recordAll cells
  | cell p =>
      have hlooked := h.of_sameContent (obtain_spec pool mint p).pool
      exact hlooked.record (pool.obtain mint p).1
  | clear =>
      exact of_empty h.capacity rfl ((Nat.le_add_right _ _).trans h.counted)

/-- The run: any number of calls. -/
theorem attend (h : pool.Tidy limit) (mint : Mint) (calls : List Call) :
    (pool.attend mint calls).2.1.Tidy limit := by
  induction calls generalizing pool mint with
  | nil =>
      exact h
  | cons call calls ih =>
      exact ih (h.call mint call) _

end Tidy

/-- After any calls on an empty pool: it remembers no more cells than it has room for, and none if
it has no room; no two of its keys match, and each matches the payload of the cell under it; the
calls for a payload have returned cells that hold the very object; and the requests that it counted
are at least as many as the cells that it found shared and those that it remembers together. -/
theorem calls_within_bounds (capacity : Int) (mint : Mint) (calls : List Call) :
    let result := attend { capacity := capacity } mint calls
    let answers := result.1
    let pool := result.2.1
    (pool.stats.interned : Int) ≤ max capacity 0 ∧
    (pool.entries.Pairwise fun x y => keysMatch x.key y.key = false) ∧
    (∀ entry ∈ pool.entries, keysMatch entry.key entry.cell.payload = true) ∧
    List.Forall₂ Call.Answered calls answers ∧
    pool.stats.shared + pool.stats.interned ≤ pool.stats.requests := by
  intro result answers pool
  have hstart : Tidy capacity { capacity := capacity } := .of_empty rfl rfl (Nat.le_refl 0)
  have htidy := hstart.attend mint calls
  exact ⟨htidy.room, htidy.apart, htidy.keyed, attend_answered _ mint calls, htidy.counted⟩

-- a second object of one content takes over the key of the first one, whose cell is then no longer
-- found
example :
    let first : Payload := .tagged (.fresh 0) (.int 1000)
    let second : Payload := .tagged (.fresh 1) (.int 1000)
    let (answers, pool, _) := attend { capacity := 1 } {}
      [.cell first, .cell second, .cell second, .lookup first]
    answers.map (·.map Cell.id) = [some 0, some 1, some 1, some 2] ∧
    pool.entries.map (fun entry => (entry.key.same first, entry.cell.id)) = [(true, 1)] ∧
    (pool.stats.requests, pool.stats.shared, pool.stats.interned) = (3, 1, 1) := by
  decide +kernel

end Pool
end Peaks
