import Mathlib.Order.Bounds.Defs
import Peaks.Position
import Peaks.Proofs.NumberRanking
import Peaks.Proofs.PointIndex

/-!
# Points in the order in which they came

A list of points by argument may hold several points that are tied. Whatever is put in and taken
out, the points stand in order of their arguments and tied ones in the order in which they were put
in. A new point goes behind all that do not come after it, and a search finds the first of those
that are tied with an argument.

- `Comparator.Decides`           : comparisons that always return and answer by an ordering
- `PointIndex.Call`, `PointIndex.Ledger` : calls one after another, and when each point was put in
- `PointIndex.Ledger.InOrder`    : the invariant of every call
- `PointIndex.Ledger.InOrder.call_ensures`, `PointIndex.Ledger.InOrder.run_ensures` : one call, and
  any number of calls
- `PointIndex.calls_keep_order`  : the list after any calls, and what it answers
-/

namespace Peaks

variable {σ : Type}

/-- Every comparison of two payloads in the domain returns and answers by the ordering. -/
def Comparator.Decides (compare : Comparator σ) (domain : Payload → Prop)
    (before : Payload → Payload → Prop) : Prop :=
  ∀ a b, domain a → domain b →
    (compare a b).Ensures (fun n _ => Signals before a b n) (fun _ _ => False)

theorem zip_eraseIdx {α β : Type} (xs : List α) (ys : List β) (i : Nat) :
    (xs.eraseIdx i).zip (ys.eraseIdx i) = (xs.zip ys).eraseIdx i := by
  induction xs generalizing ys i with
  | nil =>
      simp
  | cons x xs ih =>
      cases ys with
      | nil =>
          simp
      | cons y ys =>
          cases i with
          | zero =>
              simp
          | succ i =>
              simp [ih]

theorem Position.lt_of_resolve? {length i : Nat} {index : Int}
    (h : resolve? length index = some i) : i < length := by
  unfold resolve? at h
  extract_lets fromFront at h
  split at h
  · next hbounds =>
    rw [← Option.some.inj h]
    omega
  · cases h

namespace PointIndex

/-! ## Places among tied points -/

/-- The position one past the last point that does not come after the argument. -/
def OnePast (before : Payload → Payload → Prop) (points : List Point) (a : Payload)
    (k : Nat) : Prop :=
  k ≤ points.length ∧ ∀ i p, points[i]? = some p → (i < k ↔ ¬ before a p.argument)

/-- The least position of a point that is tied with the argument, if there is one. -/
def FirstTied (before : Payload → Payload → Prop) (points : List Point) (a : Payload) :
    Option Nat → Prop
  | some i => IsLeast { i | ∃ p, points[i]? = some p ∧ Tied before p.argument a } i
  | none => ∀ p ∈ points, ¬ Tied before p.argument a

section Places

variable {before : Payload → Payload → Prop} {points front back : List Point} {a : Payload}

theorem onePast_append (hfront : ∀ x ∈ front, ¬ before a x.argument)
    (hback : ∀ x ∈ back, before a x.argument) :
    OnePast before (front ++ back) a front.length := by
  refine ⟨by simp, fun i p hp => ?_⟩
  rcases Nat.lt_or_ge i front.length with hlt | hge
  · rw [List.getElem?_append_left hlt] at hp
    exact iff_of_true hlt (hfront p (List.mem_of_getElem? hp))
  · rw [List.getElem?_append_right hge] at hp
    exact iff_of_false (Nat.not_lt.2 hge) (not_not.2 (hback p (List.mem_of_getElem? hp)))

theorem FoundFirst.firstTied {found : Option (Nat × Point)} (h : FoundFirst before points a found) :
    FirstTied before points a (found.map (·.1)) := by
  cases h with
  | absent eq front_before back_after =>
      subst eq
      intro p hp htied
      rcases List.mem_append.1 hp with hp | hp
      · exact htied.1 (front_before p hp)
      · exact htied.2 (back_after p hp)
  | @present front back p eq tied front_before =>
      subst eq
      refine ⟨⟨p, by simp, tied⟩, ?_⟩
      rintro i ⟨q, hq, hqtied⟩
      by_contra hlt
      rw [List.getElem?_append_left (Nat.lt_of_not_le hlt)] at hq
      exact hqtied.1 (front_before q (List.mem_of_getElem? hq))

end Places

section Searching

variable {compare : Comparator σ} {domain : Payload → Prop} {before : Payload → Payload → Prop}
  [IsStrictWeakOrder Payload before] {points : List Point}
  (hcompare : compare.Decides domain before) (hdomain : ∀ p ∈ points, domain p.argument)
  (hsorted : points.Pairwise fun p q => ¬ before q.argument p.argument)
include hcompare hdomain hsorted

theorem find?_first {a : Payload} (ha : domain a) :
    (find? compare points a).Ensures (fun found _ => FirstTied before points a found)
      (fun _ _ => False) :=
  (locate_first (fun p hp => hcompare _ _ (hdomain p hp) ha) hsorted).map fun _ _ h => h.firstTied

/-- A new point parts the points that it goes behind from those that it comes before. -/
theorem insert_parts {point : Point} (hpoint : domain point.argument) :
    (insert compare points point).Ensures
      (fun placed _ => ∃ front back, points = front ++ back ∧
        (∀ x ∈ front, ¬ before point.argument x.argument) ∧
        (∀ x ∈ back, before point.argument x.argument) ∧
        placed = (front.length, front ++ point :: back))
      (fun _ _ => False) := by
  obtain ⟨front, back, rfl, hfront, hback⟩ :=
    exists_split (P := fun x => ¬ before point.argument x.argument) hsorted fun _ _ hxy hy hx =>
      hy (before_of_before_of_not hx hxy)
  have hafter : ∀ x ∈ back, before point.argument x.argument := fun x hx => not_not.1 (hback x hx)
  refine (insert_ensures (fun p hp => hcompare _ _ hpoint (hdomain p hp)) hfront hafter).mono
    fun placed _ h => ?_
  exact ⟨front, back, rfl, hfront, hafter, h⟩

theorem insert_onePast {point : Point} (hpoint : domain point.argument) :
    (insert compare points point).Ensures
      (fun placed _ => OnePast before points point.argument placed.1 ∧
        placed.2 = points.insertIdx placed.1 point)
      (fun _ _ => False) := by
  refine (insert_parts hcompare hdomain hsorted hpoint).mono ?_
  rintro _ _ ⟨front, back, rfl, hfront, hback, rfl⟩
  exact ⟨onePast_append hfront hback, (insertIdx_append front back point).symm⟩

end Searching

/-! ## Calls -/

/-- A point is put in, or the one at a position is taken out. -/
inductive Call
  | insert (point : Point)
  | pop (index : Int)
  deriving Repr

/-- What is left without the element at a position; a position outside leaves the list as it is. -/
def without {α : Type} (xs : List α) (index : Int) : List α :=
  match Position.pop xs index with
  | .ok (_, rest) => rest
  | .error _ => xs

theorem without_eq {α : Type} (xs : List α) (index : Int) :
    without xs index = ((Position.resolve? xs.length index).map xs.eraseIdx).getD xs := by
  unfold without Position.pop
  cases hresolve : Position.resolve? xs.length index with
  | none =>
      rfl
  | some i =>
      simp [List.getElem?_eq_getElem (Position.lt_of_resolve? hresolve)]

/-- A list of points and, in step with it, the numbers of the calls that put them in. -/
structure Ledger where
  points : List Point := []
  turns : List Nat := []
  count : Nat := 0
  deriving Repr

namespace Ledger

def entries (l : Ledger) : List (Point × Nat) :=
  l.points.zip l.turns

/-- One call. A new point takes its turn along to the place where it goes, and a point that is taken
out leaves with its turn. -/
def call (compare : Comparator σ) (l : Ledger) : Call → Attempt σ Ledger
  | .insert point => do
      let (index, points) ← PointIndex.insert compare l.points point
      return { points := points, turns := l.turns.insertIdx index l.count, count := l.count + 1 }
  | .pop index =>
      pure
        { points := without l.points index
          turns := without l.turns index
          count := l.count + 1 }

def run (compare : Comparator σ) : List Call → Ledger → Attempt σ Ledger
  | [], l => pure l
  | call :: calls, l => do run compare calls (← l.call compare call)

/-- After these calls each point stands with the turn of the call that put it in, behind those that
come before it and those that are tied with it and came first. -/
structure InOrder (before : Payload → Payload → Prop) (calls : List Call) (l : Ledger) : Prop where
  count : l.count = calls.length
  length : l.points.length = l.turns.length
  put : ∀ x ∈ l.entries, calls[x.2]? = some (.insert x.1)
  ordered : l.entries.Pairwise (InTurn (fun x y => before x.1.argument y.1.argument)
    fun x y => x.2 < y.2)

namespace InOrder

variable {compare : Comparator σ} {domain : Payload → Prop} {before : Payload → Payload → Prop}
  {calls : List Call}
  {l : Ledger}

theorem start (before : Payload → Payload → Prop) : InOrder before [] {} where
  count := rfl
  length := rfl
  put := by simp [entries]
  ordered := List.Pairwise.nil

theorem map_fst_entries (h : l.InOrder before calls) : l.entries.map Prod.fst = l.points :=
  List.map_fst_zip (Nat.le_of_eq h.length)

theorem mem_calls (h : l.InOrder before calls) {p : Point} (hp : p ∈ l.points) :
    Call.insert p ∈ calls := by
  rw [← h.map_fst_entries] at hp
  rcases List.mem_map.1 hp with ⟨x, hx, rfl⟩
  exact List.mem_of_getElem? (h.put x hx)

theorem sorted [IsStrictWeakOrder Payload before] (h : l.InOrder before calls) :
    l.points.Pairwise fun p q => ¬ before q.argument p.argument := by
  have : IsStrictOrder (Point × Nat) fun x y => before x.1.argument y.1.argument :=
    inferInstanceAs (IsStrictOrder _ (Order.Preimage (fun x : Point × Nat => x.1.argument) before))
  rw [← h.map_fst_entries, List.pairwise_map]
  exact h.ordered.imp fun hxy => hxy.not_before

/-- What was put in by one of the calls was put in by it when further calls have followed. -/
theorem put_concat (h : l.InOrder before calls) (call : Call) :
    ∀ x ∈ l.entries, (calls ++ [call])[x.2]? = some (.insert x.1) := by
  intro x hx
  have hput := h.put x hx
  have hlt : x.2 < calls.length := (List.getElem?_eq_some_iff.1 hput).1
  rw [List.getElem?_append_left hlt]
  exact hput

theorem pop (h : l.InOrder before calls) (index : Int) :
    InOrder before (calls ++ [.pop index])
      { points := without l.points index, turns := without l.turns index,
        count := l.count + 1 } := by
  rw [without_eq, without_eq, ← h.length]
  cases hresolve : Position.resolve? l.points.length index with
  | none =>
      exact ⟨by simp [h.count], h.length, h.put_concat _, h.ordered⟩
  | some i =>
      have hlt := Position.lt_of_resolve? hresolve
      have hentries : (l.points.eraseIdx i).zip (l.turns.eraseIdx i) = l.entries.eraseIdx i :=
        zip_eraseIdx l.points l.turns i
      refine ⟨by simp [h.count], ?_, ?_, ?_⟩
      · simp only [Option.map_some, Option.getD_some, List.length_eraseIdx, ← h.length]
      · simp only [entries, Option.map_some, Option.getD_some, hentries]
        exact fun x hx => h.put_concat _ x (List.mem_of_mem_eraseIdx hx)
      · simp only [entries, Option.map_some, Option.getD_some, hentries]
        exact h.ordered.sublist (List.eraseIdx_sublist _ _)

/-- The entries in front of a new one came earlier, and those behind it come later in the order. -/
theorem insert (h : l.InOrder before calls) {point : Point} {front back : List Point}
    (hpoints : l.points = front ++ back) (hfront : ∀ x ∈ front, ¬ before point.argument x.argument)
    (hback : ∀ x ∈ back, before point.argument x.argument) :
    InOrder before (calls ++ [.insert point])
      { points := front ++ point :: back
        turns := l.turns.insertIdx front.length l.count
        count := l.count + 1 } := by
  -- the turns part where the points do
  obtain ⟨early, late, hturns, hearly⟩ : ∃ early late, l.turns = early ++ late ∧
      front.length = early.length := by
    refine ⟨l.turns.take front.length, l.turns.drop front.length,
      (List.take_append_drop _ _).symm, ?_⟩
    have hlength := h.length
    rw [hpoints, List.length_append] at hlength
    rw [List.length_take]
    omega
  have hentries : l.entries = front.zip early ++ back.zip late := by
    rw [entries, hpoints, hturns, List.zip_append hearly]
  have hinserted : (front ++ point :: back).zip (early ++ l.count :: late) =
      front.zip early ++ (point, l.count) :: back.zip late := by
    rw [List.zip_append hearly, List.zip_cons_cons]
  have hordered := h.ordered
  rw [hentries] at hordered
  rw [hturns, hearly, insertIdx_append]
  refine ⟨by simp [h.count], ?_, ?_, ?_⟩
  · have hlength := h.length
    rw [hpoints, hturns] at hlength
    simp only [List.length_append, List.length_cons] at hlength ⊢
    omega
  · intro x hx
    rw [entries, hinserted] at hx
    rcases List.mem_cons.1 (List.perm_middle.mem_iff.1 hx) with rfl | hx
    · simp [h.count]
    · exact h.put_concat _ x (hentries ▸ hx)
  · rw [entries, hinserted]
    -- a point in front may be tied with the new one, but its turn was earlier; one behind comes
    -- strictly later
    refine pairwise_insert hordered (fun x hx => Or.inr ⟨?_, ?_⟩) fun x hx => Or.inl ?_
    · exact hfront x.1 (List.of_mem_zip hx).1
    · have hput := h.put x (hentries ▸ List.mem_append_left _ hx)
      rw [h.count]
      exact (List.getElem?_eq_some_iff.1 hput).1
    · exact hback x.1 (List.of_mem_zip hx).1

section Running

variable [IsStrictWeakOrder Payload before] (hcompare : compare.Decides domain before)
include hcompare

/-- The step: one more call. -/
theorem call_ensures (h : l.InOrder before calls)
    (hdomain : ∀ p, Call.insert p ∈ calls → domain p.argument)
    (call : Call) (hcall : ∀ p, call = .insert p → domain p.argument) :
    (l.call compare call).Ensures (fun l' _ => l'.InOrder before (calls ++ [call]))
      (fun _ _ => False) := by
  cases call with
  | insert point =>
      have hparts :=
        insert_parts hcompare (fun p hp => hdomain p (h.mem_calls hp)) h.sorted (hcall point rfl)
      refine hparts.map ?_
      rintro _ _ ⟨front, back, hpoints, hfront, hback, rfl⟩
      exact h.insert hpoints hfront hback
  | pop index =>
      exact .pure fun _ => h.pop index

/-- The run: any number of calls. -/
theorem run_ensures (h : l.InOrder before calls) (more : List Call)
    (hdomain : ∀ p, Call.insert p ∈ calls ++ more → domain p.argument) :
    (run compare more l).Ensures (fun l' _ => l'.InOrder before (calls ++ more))
      (fun _ _ => False) := by
  induction more generalizing calls l with
  | nil =>
      rw [List.append_nil]
      exact .pure fun _ => h
  | cons call more ih =>
      have hstep := h.call_ensures hcompare (fun p hp => hdomain p (by simp [hp])) call
        fun p hp => hdomain p (by simp [hp])
      refine hstep.bind fun l' h' => ?_
      have hsplit : calls ++ call :: more = (calls ++ [call]) ++ more := by simp
      rw [hsplit] at hdomain ⊢
      exact ih h' hdomain

end Running

end InOrder

end Ledger

/-- Under an ordering that always answers, after any points have been put in and taken out: the
points stand in order of their arguments, tied ones in the order in which they were put in; a
further point gets the position one past the last point that does not come after it; and the search
for an argument finds the least position of a point that is tied with it, or nothing if there is
none. -/
theorem calls_keep_order {compare : Comparator σ} {domain : Payload → Prop}
    {before : Payload → Payload → Prop}
    [IsStrictWeakOrder Payload before] (hcompare : compare.Decides domain before)
    (calls : List Call)
    (hcalls : ∀ p, Call.insert p ∈ calls → domain p.argument) (host : σ) :
    ∃ l host', Ledger.run compare calls {} host = .ok l host' ∧ l.InOrder before calls ∧
      (∀ point : Point, domain point.argument →
        (insert compare l.points point).Ensures
          (fun placed _ => OnePast before l.points point.argument placed.1 ∧
            placed.2 = l.points.insertIdx placed.1 point)
          (fun _ _ => False)) ∧
      ∀ a, domain a →
        (find? compare l.points a).Ensures (fun found _ => FirstTied before l.points a found)
          (fun _ _ => False) := by
  have hrun := (Ledger.InOrder.start before).run_ensures hcompare calls hcalls
  rcases (hrun host).exists_ok fun _ _ h => h with ⟨l, host', hl⟩
  have horder : l.InOrder before calls := hrun.ok hl
  have hdomain : ∀ p ∈ l.points, domain p.argument := fun p hp => hcalls p (horder.mem_calls hp)
  refine ⟨l, host', hl, horder, fun point hpoint => ?_, fun a ha => ?_⟩
  · exact insert_onePast hcompare hdomain horder.sorted hpoint
  · exact find?_first hcompare hdomain horder.sorted ha

/-- Numbers of two kinds, some of them equal; a position that is not there, and a point that is put
in once more. -/
def mixedCalls : List Call :=
  let point (id : Nat) (argument : Payload) : Point :=
    { id := id
      argumentCell := { id := 2 * id, payload := argument }
      valueCell := { id := 2 * id + 1, payload := .null } }
  [.insert (point 0 (.int 1)), .insert (point 1 (.int 0)), .insert (point 2 (.bool true)),
    .pop 7, .pop 1,
   .insert (point 0 (.int 1)), .insert (point 3 (.bool false))]

theorem calls_keep_order_mixed :
    ∃ l host', Ledger.run (Order.compare .natural) mixedCalls {} {} = .ok l host' ∧
      l.points.map (·.argument.kind) = [.int, .bool, .bool, .int] ∧ l.turns = [1, 6, 2, 5] ∧
      l.InOrder Ranking.numbers.before mixedCalls ∧
      (find? (Order.compare .natural) l.points (.int 1)).Ensures
        (fun found _ => FirstTied Ranking.numbers.before l.points (.int 1) found)
        (fun _ _ => False) := by
  have hdecides : Comparator.Decides (Order.compare .natural) Ranking.numbers.domain
      Ranking.numbers.before :=
    fun _ _ => Order.natural_ensures
  have hnumbers : ∀ p, Call.insert p ∈ mixedCalls → Ranking.numbers.domain p.argument := by
    simp only [mixedCalls, List.mem_cons, Call.insert.injEq, reduceCtorEq, List.not_mem_nil,
      or_false, false_or]
    rintro p (rfl | rfl | rfl | rfl | rfl)
    all_goals exact ⟨_, rfl⟩
  have hrun : (match Ledger.run (Order.compare .natural) mixedCalls {} {} with
      | .ok l _ => (l.points.map (·.argument.kind), l.turns)
      | .error _ _ => ([], [])) = ([.int, .bool, .bool, .int], [1, 6, 2, 5]) := by
    decide +kernel
  rcases calls_keep_order hdecides mixedCalls hnumbers {} with ⟨l, host', hl, horder, -, hfind⟩
  rw [hl] at hrun
  refine ⟨l, host', hl, congrArg Prod.fst hrun, congrArg Prod.snd hrun, horder,
    hfind (.int 1) ⟨_, rfl⟩⟩

end PointIndex
end Peaks
