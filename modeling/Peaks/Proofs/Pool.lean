import Peaks.Pool
import Mathlib.Data.List.Perm.Basic

/-!
# Looking into a pool

Looking for a cell moves its entry to the front of the pool and changes nothing else; the cell that
comes back holds the very object that was asked for.

- `Payload.same_refl`    : an object is the same as itself
- `Pool.SameContent`     : equal counters, and the same cells under the same keys
- `Pool.get_of_some`, `Pool.push_of_room`, `Pool.push_of_full` : the cache behind a pool
- `Pool.obtain_spec`     : a cell for a payload
-/

namespace Peaks

namespace Payload

mutual

theorem alike_refl : ∀ p : Payload, alike p p = true
  | .null => rfl
  | .bool _ => by simp [alike]
  | .int _ => by simp [alike]
  | .float _ => by simp [alike]
  | .text _ => by simp [alike]
  | .tuple ps => by simpa [alike] using allAlike_refl ps
  | .list ps => by simpa [alike] using allAlike_refl ps
  | .weak _ => by simp [alike]
  | .tagged _ p => by simpa [alike] using alike_refl p

theorem allAlike_refl : ∀ ps : List Payload, allAlike ps ps = true
  | [] => rfl
  | p :: ps => by simp [allAlike, alike_refl p, allAlike_refl ps]

end

theorem same_refl (p : Payload) : p.same p :=
  alike_refl p.canonical

end Payload

namespace Pool

/-- Two pools that count the same and remember the same cells under the same keys; which of them
were used more recently may differ. -/
structure SameContent (p q : Pool) : Prop where
  capacity : p.capacity = q.capacity
  requests : p.requests = q.requests
  shared : p.shared = q.shared
  entries : p.entries.Perm q.entries

theorem SameContent.refl (p : Pool) : p.SameContent p :=
  ⟨rfl, rfl, rfl, List.Perm.refl _⟩

theorem SameContent.trans {p q r : Pool} (hpq : p.SameContent q) (hqr : q.SameContent r) :
    p.SameContent r where
  capacity := hpq.capacity.trans hqr.capacity
  requests := hpq.requests.trans hqr.requests
  shared := hpq.shared.trans hqr.shared
  entries := hpq.entries.trans hqr.entries

theorem cons_eraseP_perm {α : Type} {test : α → Bool} {xs : List α} {x : α}
    (h : xs.find? test = some x) : (x :: xs.eraseP test).Perm xs := by
  obtain ⟨hx, front, back, rfl, hfront⟩ := List.find?_eq_some_iff_append.1 h
  have hfront' : ∀ y ∈ front, ¬ test y := fun y hy => by simpa using hfront y hy
  -- the entry found is the one taken out
  rw [List.eraseP_append_right _ hfront', List.eraseP_cons_of_pos hx]
  exact List.perm_middle.symm

theorem get_sameContent (pool : Pool) (p : Payload) : (pool.get p).2.SameContent pool := by
  unfold get
  split
  · next entry hfind =>
    exact ⟨rfl, rfl, rfl, cons_eraseP_perm hfind⟩
  · exact SameContent.refl pool

/-! ## A cache of bounded size

What is taken for granted of the cache behind a pool: it never holds more than it has room for,
reading and writing a key make it the most recent one, and the least recent one gives way to a new
key. -/

section Cache

variable {pool : Pool} {p : Payload} {entry : PoolEntry}

theorem get_of_some (h : pool.find? p = some entry) :
    pool.get p = (some entry, { pool with entries := entry :: pool.others p }) := by
  simp only [get, h]

theorem get_of_none (h : pool.find? p = none) : pool.get p = (none, pool) := by
  simp only [get, h]

/-- A key that is read comes first, and the others keep their order. -/
theorem entries_get (h : pool.find? p = some entry) :
    ∃ rest, (pool.get p).2.entries = entry :: rest ∧ rest.Sublist pool.entries := by
  rw [get_of_some h]
  exact ⟨pool.others p, rfl, List.eraseP_sublist⟩

/-- A new key comes first. One that was written before has been read, so it is the first already. -/
theorem head?_push (pool : Pool) (p : Payload) (cell : Cell) :
    (pool.push p cell).entries.head? = some { key := p, cell := cell } :=
  rfl

/-- A key that was read before it is written again stays where reading has put it. -/
theorem map_key_replaceFirst (pool : Pool) (cell : Cell) :
    (pool.replaceFirst cell).entries.map PoolEntry.key = pool.entries.map PoolEntry.key := by
  unfold replaceFirst
  split
  · rfl
  · next hentries =>
    rw [hentries]
    rfl

theorem length_push_le (hroom : 0 < pool.capacity) (p : Payload) (cell : Cell) :
    ((pool.push p cell).entries.length : Int) ≤ pool.capacity := by
  have htake := List.length_take_le (pool.capacity - 1).toNat pool.entries
  simp only [push, List.length_cons]
  omega

/-- While there is room, nothing is forgotten. -/
theorem push_of_room (hroom : (pool.entries.length : Int) < pool.capacity) (p : Payload)
    (cell : Cell) :
    (pool.push p cell).entries = { key := p, cell := cell } :: pool.entries := by
  rw [push, List.take_of_length_le (by omega)]

/-- If there is none left, the least recent entry goes, and no other. -/
theorem push_of_full (hfull : (pool.entries.length : Int) = pool.capacity) (p : Payload)
    (cell : Cell) :
    (pool.push p cell).entries = { key := p, cell := cell } :: pool.entries.dropLast := by
  rw [push, List.dropLast_eq_take, show (pool.capacity - 1).toNat =
    pool.entries.length - 1 by omega]

end Cache

/-! ## Looking for cells -/

theorem lookup_sameContent (pool : Pool) (p : Payload) : (pool.lookup p).2.SameContent pool := by
  have hget := get_sameContent pool p
  unfold lookup
  split
  · split
    · next heq =>
      rw [heq] at hget
      exact hget
    · next heq =>
      rw [heq] at hget
      exact hget
  · exact SameContent.refl pool

/-- A remembered cell is handed out for the very object it holds only. -/
theorem lookup_same {pool : Pool} {p : Payload} {cell : Cell} (h : (pool.lookup p).1 = some cell) :
    cell.payload.same p := by
  unfold lookup at h
  split at h
  · split at h
    · split at h
      · next hsame =>
        rw [← Option.some.inj h]
        exact hsame
      · exact absurd h (by simp)
    · exact absurd h (by simp)
  · exact absurd h (by simp)

/-- What came of asking for a cell: it holds the object, and only the order of the pool and the
number of the next cell have changed. -/
structure Obtained (pool : Pool) (mint : Mint) (p : Payload) (cell : Cell) (pool' : Pool)
    (mint' : Mint) : Prop where
  payload : cell.payload.same p
  pool : pool'.SameContent pool
  mint : mint'.nextPoint = mint.nextPoint

theorem obtain_spec (pool : Pool) (mint : Mint) (p : Payload) :
    Obtained pool mint p (pool.obtain mint p).1 (pool.obtain mint p).2.1
      (pool.obtain mint p).2.2 := by
  have hcontent := lookup_sameContent pool p
  unfold Pool.obtain
  split
  · next cell pool' heq =>
    rw [heq] at hcontent
    exact ⟨lookup_same (by rw [heq]), hcontent, rfl⟩
  · next pool' heq =>
    rw [heq] at hcontent
    exact ⟨Payload.same_refl p, hcontent, rfl⟩

end Pool

end Peaks
