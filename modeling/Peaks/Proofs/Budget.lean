import Mathlib.Data.Nat.Size
import Peaks.Proofs.Effects
import Peaks.Proofs.SideBySide
import Peaks.Proofs.WeakNumbers

/-!
# How much a call may ask

An audit keeps a ledger beside the host: every comparison is entered there before it is made, so
that one that fails is entered too, and so is every point that is judged. Apart from its ledger an
audited call ends exactly as the call itself does. However the orderings answer, a binary search
asks no more often than its list has binary digits in its length, and an edit judges three points at
most. That bounds the whole ledger.

- `Ledger`, `Rules.audited` : what is entered, and rules that enter it
- `Edit.runBy`              : an edit with another test for local maxima, and `Edit.audited`, one
  that enters each test
- `Attempt.Costs`           : an audited attempt beside the plain one, with a bound on its entries
- `Search.boundary_costs`   : binary search
- `Store.stageBy_costs`, `Editor.audited_costs` : judging one point, and a whole edit
- `Editor.calls_within_budget` : edits and questions
-/

namespace Peaks

variable {σ τ α β : Type}

/-! ## Keeping a ledger -/

/-- How often arguments and values were compared, and how often a point was judged. -/
structure Ledger where
  arguments : Nat := 0
  values : Nat := 0
  judged : Nat := 0
  deriving DecidableEq, Repr

/-- A host and the ledger of what it was asked for. -/
structure Audited (σ : Type) where
  host : σ
  ledger : Ledger

namespace Audited

/-- A host with a ledger beside it. -/
def enter (ledger : Ledger) (host : σ) : Audited σ :=
  ⟨host, ledger⟩

def note (entry : Ledger → Ledger) : Attempt (Audited σ) Unit :=
  modify fun s => { s with ledger := entry s.ledger }

/-- Asks the host for something that has no entry. -/
def ask (x : Attempt σ α) : Attempt (Audited σ) α :=
  x.within host fun h s => { s with host := h }

end Audited

/-- Every comparison is entered before it is made. -/
def Rules.audited (rules : Rules σ) : Rules (Audited σ) where
  argument a b := do
    Audited.note fun l => { l with arguments := l.arguments + 1 }
    Audited.ask (rules.argument a b)
  value a b := do
    Audited.note fun l => { l with values := l.values + 1 }
    Audited.ask (rules.value a b)
  allocate := Audited.ask rules.allocate

/-! ## Edits that are audited -/

namespace Store

/-- The judge of all edits, who enters every point that is put before him. -/
def auditedJudge (rules : Rules σ) : Judge (Audited σ) := fun points index point ignored => do
  Audited.note fun l => { l with judged := l.judged + 1 }
  isLocalMaximum rules.audited points index point ignored

end Store

namespace Edit

/-- An edit that leaves it to a judge which points are local maxima. -/
def runBy (judge : Store.Judge σ) (rules : Rules σ) : Edit → Attempt (Editor σ) Bool
  | .set a v => Editor.setBy judge rules a v
  | .erase a => Editor.eraseBy judge rules a

/-- An edit that enters its comparisons and the points that it judges. -/
def audited (edit : Edit) (rules : Rules σ) : Attempt (Editor (Audited σ)) Bool :=
  edit.runBy (Store.auditedJudge rules) rules.audited

/-- By the test that every edit uses, it is the edit itself. -/
theorem runBy_isLocalMaximum (edit : Edit) (rules : Rules σ) :
    edit.runBy (Store.isLocalMaximum rules) rules = edit.run rules := by
  cases edit with
  | set a v =>
      rfl
  | erase a =>
      rfl

end Edit

/-! ## The cost of an attempt -/

/-- The entries added from one ledger to another are within these numbers. -/
structure Ledger.Within (before after : Ledger) (arguments values judged : Nat) : Prop where
  arguments : after.arguments ≤ before.arguments + arguments
  values : after.values ≤ before.values + values
  judged : after.judged ≤ before.judged + judged

namespace Ledger.Within

variable {l m n : Ledger} {a v j b w k : Nat}

theorem refl (l : Ledger) : l.Within l a v j :=
  ⟨Nat.le_add_right _ _, Nat.le_add_right _ _, Nat.le_add_right _ _⟩

theorem trans (h : l.Within m a v j) (h' : m.Within n b w k) :
    l.Within n (a + b) (v + w) (j + k) where
  arguments := by
    have := h.arguments
    have := h'.arguments
    omega
  values := by
    have := h.values
    have := h'.values
    omega
  judged := by
    have := h.judged
    have := h'.judged
    omega

theorem mono (h : l.Within m a v j) (ha : a ≤ b) (hv : v ≤ w) (hj : j ≤ k) : l.Within m b w k where
  arguments := h.arguments.trans (Nat.add_le_add_left ha _)
  values := h.values.trans (Nat.add_le_add_left hv _)
  judged := h.judged.trans (Nat.add_le_add_left hj _)

end Ledger.Within

namespace Attempt

/-- The same end with its state put into another one. -/
def endIn (f : σ → τ) : EStateM.Result Fault σ α → EStateM.Result Fault τ α
  | .ok a t => .ok a (f t)
  | .error fault t => .error fault (f t)

/-- With whatever ledger it starts beside `s`, `x` ends as `y` does from `s` alone and adds these
numbers of entries at most. A result satisfies `done`, together with the state that `y` leaves. -/
def Costs (enter : Ledger → σ → τ) (x : Attempt τ α) (y : Attempt σ α) (s : σ)
    (arguments values judged : Nat)
    (done : α → σ → Prop) : Prop :=
  ∀ before : Ledger, ∃ after, x (enter before s) = endIn (enter after) (y s) ∧
    before.Within after arguments values judged ∧ ∀ r t, y s = .ok r t → done r t

namespace Costs

variable {enter : Ledger → σ → τ} {x : Attempt τ α} {y : Attempt σ α} {s : σ} {a v j b w k : Nat}
  {done : α → σ → Prop}

/-- An attempt without entries is within any numbers. -/
theorem free (h : ∀ ledger, x (enter ledger s) = endIn (enter ledger) (y s)) :
    Costs enter x y s a v j fun _ _ => True :=
  fun before => ⟨before, h before, .refl before, fun _ _ _ => trivial⟩

theorem pure {r : α} (h : done r s) :
    Costs enter (Pure.pure r : Attempt τ α) (Pure.pure r) s a v j done := by
  intro before
  refine ⟨before, rfl, .refl before, fun r' t hr => ?_⟩
  cases hr
  exact h

theorem throw (fault : Fault) :
    Costs enter (throw fault : Attempt τ α) (throw fault) s a v j done :=
  fun before => ⟨before, rfl, .refl before, fun _ _ hr => by cases hr⟩

theorem mono (h : Costs enter x y s a v j done) (ha : a ≤ b) (hv : v ≤ w) (hj : j ≤ k) :
    Costs enter x y s b w k done := by
  intro before
  obtain ⟨after, hrun, hwithin, hdone⟩ := h before
  exact ⟨after, hrun, hwithin.mono ha hv hj, hdone⟩

theorem imp {done' : α → σ → Prop} (h : Costs enter x y s a v j done)
    (himp : ∀ r t, done r t → done' r t) :
    Costs enter x y s a v j done' := by
  intro before
  obtain ⟨after, hrun, hwithin, hdone⟩ := h before
  exact ⟨after, hrun, hwithin, fun r t hr => himp r t (hdone r t hr)⟩

theorem bind {f : α → Attempt τ β} {g : α → Attempt σ β} {done' : β → σ → Prop}
    (hx : Costs enter x y s a v j done)
    (hf : ∀ r t, done r t → Costs enter (f r) (g r) t b w k done') :
    Costs enter (x >>= f) (y >>= g) s (a + b) (v + w) (j + k) done' := by
  intro before
  obtain ⟨between, hrun, hwithin, hdone⟩ := hx before
  cases hy : y s with
  | ok r t =>
      rw [hy] at hrun
      obtain ⟨after, hrun', hwithin', hdone'⟩ := hf r t (hdone r t hy) between
      rw [bind_of_ok hrun, bind_of_ok hy]
      exact ⟨after, hrun', hwithin.trans hwithin', hdone'⟩
  | error fault t =>
      -- what comes after a fault is never asked for
      rw [hy] at hrun
      rw [bind_of_error hrun, bind_of_error hy]
      refine ⟨between, rfl, hwithin.mono ?_ ?_ ?_, fun _ _ hr => by cases hr⟩
      all_goals exact Nat.le_add_right _ _

/-- A pure function of a result. -/
theorem map {f : α → β} {done' : β → σ → Prop} (hx : Costs enter x y s a v j done)
    (hf : ∀ r t, done r t → done' (f r) t) :
    Costs enter (x >>= fun r => (Pure.pure (f r) : Attempt τ β))
      (y >>= fun r => Pure.pure (f r)) s a v j done' :=
  hx.bind (b := 0) (w := 0) (k := 0) fun r t hr => .pure (hf r t hr)

theorem get_bind {f : τ → Attempt τ β} {g : σ → Attempt σ β} {done : β → σ → Prop}
    (h : ∀ ledger, Costs enter (f (enter ledger s)) (g s) s a v j done) :
    Costs enter (get >>= f) (get >>= g) s a v j done :=
  fun before => h before before

/-- An attempt run to its end, and what follows either way. -/
theorem settle_bind {f : Except Fault α → Attempt τ β} {g : Except Fault α → Attempt σ β}
    {done' : β → σ → Prop}
    (hx : Costs enter x y s a v j done)
    (hok : ∀ r t, done r t → Costs enter (f (.ok r)) (g (.ok r)) t b w k done')
    (herror : ∀ fault t, Costs enter (f (.error fault)) (g (.error fault)) t b w k done') :
    Costs enter (x.settle >>= f) (y.settle >>= g) s (a + b) (v + w) (j + k) done' := by
  have hsettle : Costs enter x.settle y.settle s a v j fun r t => ∀ b, r = .ok b → done b t := by
    intro before
    obtain ⟨after, hrun, hwithin, hdone⟩ := hx before
    unfold settle
    rw [hrun]
    refine ⟨after, ?_, hwithin, ?_⟩
    · cases y s with
      | ok b t =>
          rfl
      | error fault t =>
          rfl
    · rintro _ t hr b rfl
      cases hy : y s with
      | ok b' t' =>
          rw [hy] at hr
          cases hr
          exact hdone _ _ hy
      | error fault t' =>
          rw [hy] at hr
          cases hr
  refine hsettle.bind fun r t hr => ?_
  cases r with
  | ok b =>
      exact hok b t (hr b rfl)
  | error fault =>
      exact herror fault t

end Costs

end Attempt

open Attempt (Costs endIn)

/-! ## Comparisons -/

namespace Audited

theorem ask_costs {a v j : Nat} (x : Attempt σ α) (s : σ) :
    Costs enter (ask x) x s a v j fun _ _ => True := by
  refine .free fun ledger => ?_
  unfold ask Attempt.within
  change (match x s with | .ok a t => _ | .error fault t => _) = _
  cases x s with
  | ok a t =>
      rfl
  | error fault t =>
      rfl

/-- An entry comes first. -/
theorem note_bind_costs {entry : Ledger → Ledger} {x : Attempt (Audited σ) α}
    {y : Attempt σ α} {s : σ}
    {a v j b w k : Nat} {done : α → σ → Prop} (hentry : ∀ l : Ledger, l.Within (entry l) a v j)
    (h : Costs enter x y s b w k done) :
    Costs enter (note entry >>= fun _ => x) y s (a + b) (v + w) (j + k) done := by
  intro before
  obtain ⟨after, hrun, hwithin, hdone⟩ := h (entry before)
  exact ⟨after, hrun, (hentry before).trans hwithin, hdone⟩

end Audited

section Rules

variable (rules : Rules σ) (s : σ)

namespace Rules

theorem audited_argument_costs (a b : Payload) :
    Costs Audited.enter (rules.audited.argument a b) (rules.argument a b) s 1 0 0 fun _ _ => True :=
  Audited.note_bind_costs (b := 0) (w := 0) (k := 0)
    (fun _ => ⟨Nat.le_refl _, Nat.le_refl _, Nat.le_refl _⟩)
    (Audited.ask_costs _ s)

theorem audited_value_costs (a b : Payload) :
    Costs Audited.enter (rules.audited.value a b) (rules.value a b) s 0 1 0 fun _ _ => True :=
  Audited.note_bind_costs (b := 0) (w := 0) (k := 0)
    (fun _ => ⟨Nat.le_refl _, Nat.le_refl _, Nat.le_refl _⟩)
    (Audited.ask_costs _ s)

end Rules

/-! ## Searching -/

/-- The part of a window on either side of its middle has one binary digit less in its length. -/
theorem Search.size_half (n : Nat) : ((n + 1) / 2).size + 1 ≤ (n + 1).size := by
  have hbit : Nat.bit (n + 1).bodd (n + 1).div2 = n + 1 := Nat.bit_bodd_div2 (n + 1)
  rw [← Nat.div2_val]
  conv_rhs => rw [← hbit]
  rw [Nat.size_bit (by rw [hbit]; exact Nat.succ_ne_zero n)]

theorem Search.boundaryFrom_costs {probe : α → Attempt (Audited σ) Bool}
    {probe' : α → Attempt σ Bool} {a v : Nat}
    (hprobe : ∀ x s, Costs Audited.enter (probe x) (probe' x) s a v 0 fun _ _ => True)
    (offset count : Nat)
    (window : List α) :
    Costs Audited.enter (boundaryFrom probe offset count window)
      (boundaryFrom probe' offset count window) s
      (count.size * a) (count.size * v) 0 fun _ _ => True := by
  induction count using Nat.strong_induction_on generalizing offset window s with
  | _ count ih =>
    cases count with
    | zero =>
        rw [boundaryFrom, boundaryFrom]
        exact .pure trivial
    | succ count =>
        rw [boundaryFrom, boundaryFrom]
        have hhalf := size_half count
        have hfar : (count - (count + 1) / 2).size ≤ ((count + 1) / 2).size :=
          Nat.size_le_size (by omega)
        -- one probe, and what the nearer half may cost
        have hsum : ∀ c, c + ((count + 1) / 2).size * c ≤ (count + 1).size * c := by
          intro c
          calc
            c + ((count + 1) / 2).size * c = (((count + 1) / 2).size + 1) * c := by
              rw [Nat.succ_mul, Nat.add_comm]
            _ ≤ (count + 1).size * c := Nat.mul_le_mul_right c hhalf
        split
        · exact .pure trivial
        · next x rest hdrop =>
          refine .mono ((hprobe x s).bind (k := 0) fun yes t _ => ?_) (hsum a) (hsum v)
            (Nat.le_refl _)
          split
          · exact .mono (ih _ (by omega) t _ rest) (Nat.mul_le_mul_right a hfar)
              (Nat.mul_le_mul_right v hfar)
              (Nat.le_refl _)
          · exact ih _ (by omega) t offset window

/-- A binary search asks no more often than the length of its list has binary digits. -/
theorem Search.boundary_costs {probe : α → Attempt (Audited σ) Bool}
    {probe' : α → Attempt σ Bool} {a v : Nat}
    (hprobe : ∀ x s, Costs Audited.enter (probe x) (probe' x) s a v 0 fun _ _ => True)
    (xs : List α) :
    Costs Audited.enter (boundary probe xs) (boundary probe' xs) s (xs.length.size * a)
      (xs.length.size * v) 0
      fun _ _ => True :=
  boundaryFrom_costs s hprobe 0 xs.length xs

namespace PointIndex

theorem locate_costs (points : List Point) (argument : Payload) :
    Costs Audited.enter (locate rules.audited.argument points argument)
      (locate rules.argument points argument) s
      (points.length.size + 1) 0 0 fun _ _ => True := by
  have hsearch := Search.boundary_costs s
    (fun (p : Point) t => (rules.audited_argument_costs t p.argument argument).map
      (f := fun n => decide (n < 0))
      fun _ _ h => h) points
  refine .mono (hsearch.bind (b := 1) (w := 0) (k := 0) fun index t _ => ?_) (by omega)
    (by omega) (by omega)
  cases points[index]? with
  | none =>
      exact .pure trivial
  | some point =>
      refine (rules.audited_argument_costs t _ _).bind (b := 0) (w := 0) (k := 0) fun sign u _ => ?_
      split
      · exact .pure trivial
      · exact .pure trivial

theorem find?_costs (points : List Point) (argument : Payload) :
    Costs Audited.enter (find? rules.audited.argument points argument)
      (find? rules.argument points argument) s
      (points.length.size + 1) 0 0 fun _ _ => True :=
  (locate_costs rules s points argument).map fun _ _ h => h

theorem insert_costs (points : List Point) (point : Point) :
    Costs Audited.enter (insert rules.audited.argument points point)
      (insert rules.argument points point) s
      points.length.size 0 0 fun _ _ => True := by
  have hsearch := Search.boundary_costs s
    (fun (p : Point) t => (rules.audited_argument_costs t point.argument p.argument).map
      (f := fun n => !decide (n < 0)) fun _ _ h => h) points
  exact .mono (hsearch.map fun _ _ h => h) (by omega) (by omega) (by omega)

end PointIndex

namespace MaximaIndex

theorem compare_costs (p q : Point) :
    Costs Audited.enter (compare rules.audited p q)
      (compare rules p q) s 1 1 0 fun _ _ => True := by
  refine .mono ((rules.audited_value_costs s q.value p.value).bind (b := 1) (w := 0) (k := 0)
    fun sign t _ => ?_)
    (by omega) (by omega) (by omega)
  -- the arguments are compared only if the values are tied
  split
  · exact .pure trivial
  · exact rules.audited_argument_costs t _ _

theorem position_costs (entries : List Point) (point : Point) :
    Costs Audited.enter (position rules.audited entries point)
      (position rules entries point) s entries.length.size
      entries.length.size 0 fun _ _ => True := by
  have hsearch := Search.boundary_costs s
    (fun (p : Point) t => (compare_costs rules t p point).map (f := fun n => decide (n < 0))
      fun _ _ h => h) entries
  exact .mono hsearch (by omega) (by omega) (by omega)

theorem find?_costs (entries : List Point) (point : Point) :
    Costs Audited.enter (find? rules.audited entries point) (find? rules entries point) s
      (entries.length.size + 1)
      (entries.length.size + 1) 0 fun _ _ => True := by
  refine .mono ((position_costs rules s entries point).bind (b := 1) (w := 1) (k := 0)
    fun index t _ => ?_)
    (by omega) (by omega) (by omega)
  cases entries[index]? with
  | none =>
      exact .pure trivial
  | some entry =>
      refine (compare_costs rules t _ _).bind (b := 0) (w := 0) (k := 0) fun sign u _ => ?_
      split
      · exact .pure trivial
      · exact .pure trivial

end MaximaIndex

/-! ## Staging -/

theorem Scan.isPeak_costs (left : Option Payload) (value : Payload) (right : Option Payload) :
    Costs Audited.enter (isPeak rules.audited.value left value right)
      (isPeak rules.value left value right) s 0 2 0
      fun _ _ => True := by
  have hbounded : ∀ t neighbour,
      Costs Audited.enter (isBoundedBy rules.audited.value value neighbour)
      (isBoundedBy rules.value value neighbour) t 0 1 0 fun _ _ => True := by
    intro t neighbour
    cases neighbour with
    | none =>
        exact .pure trivial
    | some neighbour =>
        exact (rules.audited_value_costs t neighbour value).map fun _ _ h => h
  refine (hbounded s left).bind (b := 0) (w := 1) (k := 0) fun bounded t _ => ?_
  split
  · exact hbounded t right
  · exact .pure trivial

theorem Store.auditedJudge_costs (points : List Point) (index : Nat) (point : Point)
    (ignored : Option Nat) :
    Costs Audited.enter (auditedJudge rules points index point ignored)
      (isLocalMaximum rules points index point ignored) s 0 2 1 fun _ _ => True :=
  Audited.note_bind_costs (fun _ => ⟨Nat.le_refl _, Nat.le_refl _, Nat.le_refl _⟩)
    (Scan.isPeak_costs rules s _ _ _)

/-- A staging with at most so many entries and marks. -/
structure Staging.Holds (entries marks : Nat) (staging : Staging) : Prop where
  entries : staging.maxima.length ≤ entries
  marks : staging.doomed.length ≤ marks

namespace Staging

variable {n d : Nat} {staging : Staging}

theorem insert_costs (hs : staging.Holds n d) (point : Point) :
    Costs Audited.enter (staging.insert rules.audited point)
      (staging.insert rules point) s n.size n.size 0
      fun s' _ => s'.Holds (n + 1) d := by
  have hsize := Nat.size_le_size hs.entries
  refine .mono ((MaximaIndex.position_costs rules s staging.maxima point).bind (b := 0)
    (w := 0) (k := 0)
    fun index t _ => ?_) (by omega) (by omega) (by omega)
  have hinsert : Costs Audited.enter (MaximaIndex.insertAt rules.audited staging.maxima index point)
      (MaximaIndex.insertAt rules staging.maxima index point) t 0 0 0 fun maxima _ =>
        maxima.length ≤ n + 1 := by
    refine (Audited.ask_costs rules.allocate t).map fun _ _ _ => ?_
    have := hs.entries
    rw [List.length_insertIdx]
    split <;> omega
  exact hinsert.map fun maxima _ hmaxima => ⟨hmaxima, hs.marks⟩

theorem resolve_costs (maxima doomed : List Point) :
    Costs Audited.enter (resolve rules.audited maxima doomed) (resolve rules maxima doomed) s
      (doomed.length * (maxima.length.size + 1))
      (doomed.length * (maxima.length.size + 1)) 0 fun _ _ => True := by
  induction doomed generalizing s with
  | nil =>
      exact .pure trivial
  | cons p doomed ih =>
      have hsum : maxima.length.size + 1 + doomed.length * (maxima.length.size + 1) =
          (p :: doomed).length * (maxima.length.size + 1) := by
        rw [List.length_cons, Nat.succ_mul, Nat.add_comm]
      refine .mono ((MaximaIndex.find?_costs rules s maxima p).bind (k := 0) fun found t _ => ?_)
        hsum.le hsum.le
        (Nat.le_refl _)
      exact (ih t).map fun _ _ h => h

theorem prepare_costs (hs : staging.Holds n d) :
    Costs Audited.enter (staging.prepare rules.audited) (staging.prepare rules) s (d * (n.size + 1))
      (d * (n.size + 1))
      0 fun _ _ => True := by
  have hcost : staging.doomed.length * (staging.maxima.length.size + 1) ≤ d * (n.size + 1) :=
    Nat.mul_le_mul hs.marks (Nat.add_le_add_right (Nat.size_le_size hs.entries) 1)
  exact .mono ((resolve_costs rules s staging.maxima staging.doomed).map fun _ _ h => h) hcost hcost
    (Nat.le_refl _)

end Staging

namespace Store

variable {n d : Nat} {staging : Staging}

/-- What becomes of one point: it is looked for among the maxima and judged, and may have to go
in. -/
theorem stageBy_costs (hs : staging.Holds n d) (points : List Point) (index ignored : Option Nat) :
    Costs Audited.enter (stageBy (auditedJudge rules) rules.audited points index ignored staging)
      (stageBy (isLocalMaximum rules) rules points index ignored staging) s (2 * n.size + 1)
      (2 * n.size + 3) 1
      fun s' _ => s'.Holds (n + 1) (d + 1) := by
  have hkept : staging.Holds (n + 1) (d + 1) :=
    ⟨Nat.le_succ_of_le hs.entries, Nat.le_succ_of_le hs.marks⟩
  unfold stageBy
  cases index with
  | none =>
      exact .pure hkept
  | some i =>
      dsimp only
      split
      · exact .pure hkept
      cases points[i]? with
      | none =>
          exact .throw _
      | some point =>
          have hfind := MaximaIndex.find?_costs rules s staging.maxima point
          have hsize := Nat.size_le_size hs.entries
          refine .mono (hfind.bind (b := n.size) (w := 2 + n.size) (k := 1) fun found t _ => ?_)
            (by omega) (by omega)
            (by omega)
          refine .mono ((auditedJudge_costs rules t points i point ignored).bind (b := n.size)
            (w := n.size) (k := 0)
            fun peak u _ => ?_) (by omega) (by omega) (by omega)
          split
          · split
            · exact .pure hkept
            · refine (Staging.insert_costs rules u hs point).imp fun s' _ hs' => ⟨hs'.entries, ?_⟩
              exact Nat.le_succ_of_le hs'.marks
          · refine .pure ?_
            split
            · refine ⟨hkept.entries, ?_⟩
              have := hs.marks
              simp only [Staging.defer, List.length_append, List.length_singleton]
              omega
            · exact hkept

omit rules in
theorem deferAt_costs (hs : staging.Holds n d) (points : List Point) (index : Nat) :
    Costs Audited.enter (deferAt points index staging) (deferAt points index staging) s 0 0 0
      fun s' _ => s'.Holds n (d + 1) := by
  unfold deferAt
  cases points[index]? with
  | none =>
      exact .throw _
  | some point =>
      refine .pure ⟨hs.entries, ?_⟩
      have := hs.marks
      simp only [Staging.defer, List.length_append, List.length_singleton]
      omega

end Store

namespace Staging

variable {n d a v j b w k : Nat} {staging : Staging}

/-- A step that fails ends the attempt, so the steps after it cost nothing. -/
theorem attemptAll_costs {step : Staging → Attempt (Audited σ) Staging}
    {step' : Staging → Attempt σ Staging}
    {steps : List (Staging → Attempt (Audited σ) Staging)}
    {steps' : List (Staging → Attempt σ Staging)}
    {next : Staging → Prop}
    (hstep : Costs Audited.enter (step staging) (step' staging) s a v j fun s' _ => next s')
    (hsteps : ∀ staging' t, next staging' →
      Costs Audited.enter (attemptAll steps staging')
        (attemptAll steps' staging') t b w k fun _ _ => True) :
    Costs Audited.enter (attemptAll (step :: steps) staging)
      (attemptAll (step' :: steps') staging) s (a + b) (v + w)
      (j + k) fun _ _ => True := by
  rw [attemptAll, attemptAll]
  exact hstep.settle_bind (fun staging' t hnext => hsteps staging' t hnext) fun _ _ => .pure trivial

/-- The last step resolves all marks. -/
theorem attemptAll_prepare_costs (hs : staging.Holds n d) :
    Costs Audited.enter (attemptAll [prepare rules.audited] staging)
      (attemptAll [prepare rules] staging) s
      (d * (n.size + 1)) (d * (n.size + 1)) 0 fun _ _ => True :=
  attemptAll_costs s (b := 0) (w := 0) (k := 0) (prepare_costs rules s hs)
    fun _ _ _ => .pure trivial

theorem setSteps_costs (points : List Point) (index : Nat) (old : Option Nat)
    (maxima : List Point) :
    Costs Audited.enter
      (attemptAll (Store.setStepsBy (Store.auditedJudge rules) rules.audited points index old)
        (start maxima))
      (attemptAll (Store.setStepsBy (Store.isLocalMaximum rules) rules points index old)
        (start maxima)) s
      (10 * (maxima.length + 3).size + 7)
      (10 * (maxima.length + 3).size + 13) 3 fun _ _ => True := by
  have hstart : (start maxima).Holds maxima.length 0 := ⟨Nat.le_refl _, Nat.le_refl _⟩
  have hsize : ∀ i, i ≤ maxima.length + 3 → i.size ≤ (maxima.length + 3).size :=
    fun i hi => Nat.size_le_size hi
  have h₀ := hsize maxima.length (by omega)
  have h₁ := hsize (maxima.length + 1) (by omega)
  have h₂ := hsize (maxima.length + 1 + 1) (by omega)
  -- the old point, if there is one, is marked before the marks are resolved
  have hlast : ∀ t staging, staging.Holds (maxima.length + 3) 3 → Costs Audited.enter
      (attemptAll (old.toList.map (Store.deferAt points) ++ [prepare rules.audited]) staging)
      (attemptAll (old.toList.map (Store.deferAt points) ++ [prepare rules]) staging) t
      (4 * ((maxima.length + 3).size + 1)) (4 * ((maxima.length + 3).size + 1)) 0
      fun _ _ => True := by
    intro t staging hs
    cases old with
    | none =>
        exact .mono (attemptAll_prepare_costs rules t hs) (by omega) (by omega) (by omega)
    | some i =>
        refine .mono (attemptAll_costs t (Store.deferAt_costs t hs points i) fun _ u hs' =>
          attemptAll_prepare_costs rules u hs') (by omega) (by omega) (by omega)
  exact .mono (attemptAll_costs s (Store.stageBy_costs rules s hstart points _ old) fun _ t₁ hs₁ =>
    attemptAll_costs t₁ (Store.stageBy_costs rules t₁ hs₁ points (some index) old) fun _ t₂ hs₂ =>
    attemptAll_costs t₂ (Store.stageBy_costs rules t₂ hs₂ points _ old)
      fun s₃ t₃ hs₃ => hlast t₃ s₃ hs₃)
    (by omega) (by omega) (by omega)

theorem eraseSteps_costs (points : List Point) (index : Nat) (maxima : List Point) :
    Costs Audited.enter
      (attemptAll (Store.eraseStepsBy (Store.auditedJudge rules) rules.audited points index)
        (start maxima))
      (attemptAll (Store.eraseStepsBy (Store.isLocalMaximum rules) rules points index)
        (start maxima)) s
      (7 * (maxima.length + 3).size + 5) (7 * (maxima.length + 3).size + 9) 2 fun _ _ => True := by
  have hstart : (start maxima).Holds maxima.length 0 := ⟨Nat.le_refl _, Nat.le_refl _⟩
  have hsize : ∀ i, i ≤ maxima.length + 3 → i.size ≤ (maxima.length + 3).size :=
    fun i hi => Nat.size_le_size hi
  have h₀ := hsize maxima.length (by omega)
  have h₁ := hsize (maxima.length + 1) (by omega)
  have h₂ := hsize (maxima.length + 1 + 1) (by omega)
  exact .mono (attemptAll_costs s (Store.stageBy_costs rules s hstart points _ (some index))
    fun _ t₁ hs₁ =>
    attemptAll_costs t₁ (Store.stageBy_costs rules t₁ hs₁ points _ (some index)) fun _ t₂ hs₂ =>
    attemptAll_costs t₂ (Store.deferAt_costs t₂ hs₂ points index) fun _ t₃ hs₃ =>
    attemptAll_prepare_costs rules t₃ hs₃) (by omega) (by omega) (by omega)

end Staging

/-! ## Questions -/

namespace Store

theorem find?_costs (store : Store) (argument : Payload) :
    Costs Audited.enter (store.find? rules.audited argument) (store.find? rules argument) s
      (store.points.length.size + 1) 0 0 fun _ _ => True :=
  (PointIndex.locate_costs rules s store.points argument).map fun _ _ h => h

theorem valueAt_costs (store : Store) (argument : Payload) :
    Costs Audited.enter (store.valueAt rules.audited argument) (store.valueAt rules argument) s
      (store.points.length.size + 1) 0 0 fun _ _ => True := by
  refine (find?_costs rules s store argument).bind (b := 0) (w := 0) (k := 0) fun found t _ => ?_
  cases found with
  | none =>
      exact .throw _
  | some point =>
      exact .pure trivial

end Store

end Rules

/-! ## Edits -/

namespace Editor

/-- The same editor with a ledger beside its host. -/
def enter (ledger : Ledger) (e : Editor σ) : Editor (Audited σ) where
  host := .enter ledger e.host
  mint := e.mint
  journal := e.journal
  pool := e.pool
  store := e.store

variable {e : Editor σ} {a v j : Nat}

/-- Asking the host leaves the store as it is. -/
theorem onHost_costs {x : Attempt (Audited σ) α} {y : Attempt σ α} {done : α → σ → Prop}
    (h : Costs Audited.enter x y e.host a v j done) :
    Costs enter (onHost x) (onHost y) e a v j fun _ t => t.store = e.store := by
  intro before
  obtain ⟨after, hrun, hwithin, -⟩ := h before
  refine ⟨after, ?_, hwithin, ?_⟩
  · cases hy : y e.host with
    | ok r host =>
        rw [hy] at hrun
        rw [onHost_eq_ok hy]
        exact onHost_eq_ok hrun
    | error fault host =>
        rw [hy] at hrun
        rw [onHost_eq_error hy]
        exact onHost_eq_error hrun
  · intro r t hr
    cases hy : y e.host with
    | ok r' host =>
        cases (onHost_eq_ok hy).symm.trans hr
        rfl
    | error fault host =>
        cases (onHost_eq_error hy).symm.trans hr

theorem obtainCell_costs (p : Payload) :
    Costs enter (obtainCell p) (obtainCell p) e a v j fun _ t => t.store = e.store := by
  intro before
  refine ⟨before, rfl, .refl before, fun r t hr => ?_⟩
  cases hr
  rfl

theorem makePoint_costs (argument value : Cell) :
    Costs enter (makePoint argument value)
      (makePoint argument value) e a v j fun _ t => t.store = e.store := by
  intro before
  refine ⟨before, rfl, .refl before, fun r t hr => ?_⟩
  cases hr
  rfl

theorem putPoints_costs (points : List Point) :
    Costs enter (putPoints points) (putPoints points) e a v j
      fun _ t => t.store = { e.store with points := points } := by
  intro before
  refine ⟨before, rfl, .refl before, fun r t hr => ?_⟩
  cases hr
  rfl

/-- Steps cost what they ask of the host. -/
theorem stageAll_costs {steps : List (Staging → Attempt (Audited σ) Staging)}
    {steps' : List (Staging → Attempt σ Staging)}
    (h : Costs Audited.enter (Staging.attemptAll steps (.start e.store.maxima))
      (Staging.attemptAll steps' (.start e.store.maxima)) e.host a v j fun _ _ => True) :
    Costs enter (stageAll steps) (stageAll steps') e a v j fun _ _ => True := by
  refine .get_bind fun ledger => (onHost_costs h).bind (b := 0) (w := 0) (k := 0)
    fun attempted t _ => ?_
  exact .free fun _ => rfl

/-- The two ends of an edit compare nothing. -/
theorem abandon_costs (edit : String) (argument : Payload) (staging : Staging) (added : Option Nat)
    (fault : Fault) :
    Costs enter (abandon (α := α) edit argument staging added fault)
      (abandon edit argument staging added fault) e
      a v j fun _ _ => True := by
  refine .free fun ledger => ?_
  unfold abandon
  cases rollbackText? edit argument fault with
  | none =>
      rfl
  | some text =>
      rfl

theorem conclude_costs (staging : Staging) (gone : Option Nat) :
    Costs enter (conclude staging gone) (conclude staging gone) e a v j fun _ _ => True := by
  refine .free fun ledger => ?_
  unfold conclude
  cases staging.commit with
  | mk maxima failure =>
      cases failure with
      | none =>
          rfl
      | some fault =>
          rfl

variable (rules : Rules σ)

theorem placeBy_costs (point : Point) (old : Option Nat) (cells : List Cell) (argument : Payload) :
    Costs enter (placeBy (Store.auditedJudge rules) rules.audited point old cells argument)
      (placeBy (Store.isLocalMaximum rules) rules point old cells argument) e
      (e.store.points.length.size + (10 * (e.store.maxima.length + 3).size + 7))
      (10 * (e.store.maxima.length + 3).size + 13) 3 fun _ _ => True := by
  refine .get_bind fun ledger => ?_
  refine .mono ((onHost_costs (PointIndex.insert_costs rules e.host e.store.points point)).bind
    (w := 10 * (e.store.maxima.length + 3).size + 13) (k := 3) ?_) (Nat.le_refl _)
    (by omega) (by omega)
  rintro ⟨index, points⟩ t ht
  refine .mono ((putPoints_costs (a := 0) (v := 0) (j := 0) points).bind fun _ t' ht' => ?_)
    (Nat.zero_add _).le
    (Nat.zero_add _).le (Nat.zero_add _).le
  -- the new point is in, and the maxima are those from before
  have hmaxima : t'.store.maxima = e.store.maxima := by rw [ht', ht]
  rw [← hmaxima]
  refine (stageAll_costs
    (Staging.setSteps_costs rules t'.host points index old t'.store.maxima)).bind
    (b := 0) (w := 0) (k := 0) ?_
  rintro ⟨staging, failure⟩ u _
  cases failure with
  | some fault =>
      exact abandon_costs _ _ _ _ _
  | none =>
      have hrecord : Costs enter (recordCells cells) (recordCells (σ := σ) cells) u 0 0 0
          fun _ _ => True :=
        .free fun _ => rfl
      exact hrecord.bind (b := 0) (w := 0) (k := 0) fun _ _ _ => conclude_costs _ _

theorem setBy_costs (argument value : Payload) :
    Costs enter (setBy (Store.auditedJudge rules) rules.audited argument value)
      (setBy (Store.isLocalMaximum rules) rules argument value) e
      (2 * e.store.points.length.size + 10 * (e.store.maxima.length + 3).size + 8)
      (10 * (e.store.maxima.length + 3).size + 14) 3 fun _ _ => True := by
  have hplace : ∀ (t : Editor σ) point old cells, t.store = e.store →
      Costs enter (do
          placeBy (Store.auditedJudge rules) rules.audited point old cells argument
          return true)
        (do
          placeBy (Store.isLocalMaximum rules) rules point old cells argument
          return true) t
        (e.store.points.length.size + (10 * (e.store.maxima.length + 3).size + 7))
        (10 * (e.store.maxima.length + 3).size + 13) 3 fun _ _ => True := by
    intro t point old cells hstore
    rw [← hstore]
    exact (placeBy_costs rules point old cells argument).map fun _ _ h => h
  refine .get_bind fun ledger => ?_
  refine .mono ((onHost_costs (PointIndex.locate_costs rules e.host e.store.points argument)).bind
    (b := e.store.points.length.size + (10 * (e.store.maxima.length + 3).size + 7))
    (w := 10 * (e.store.maxima.length + 3).size + 14) (k := 3) fun found t ht => ?_) (by omega)
    (by omega) (by omega)
  cases found with
  | none =>
      refine .mono ((obtainCell_costs (a := 0) (v := 0) (j := 0) argument).bind
        fun argumentCell t₁ ht₁ =>
        (obtainCell_costs (a := 0) (v := 0) (j := 0) value).bind fun valueCell t₂ ht₂ =>
        (makePoint_costs (a := 0) (v := 0) (j := 0) argumentCell valueCell).bind fun point t₃ ht₃ =>
        hplace t₃ point none _ (ht₃.trans (ht₂.trans (ht₁.trans ht)))) ?_ ?_ ?_
      all_goals omega
  | some entry =>
      obtain ⟨old, previous⟩ := entry
      have htie :
          Costs Audited.enter (Comparator.equivalent rules.audited.value previous.value value)
          (Comparator.equivalent rules.value previous.value value) t.host 0 1 0 fun _ _ => True :=
        (rules.audited_value_costs t.host previous.value value).map fun _ _ h => h
      refine .mono ((onHost_costs htie).bind (b := e.store.points.length.size +
        (10 * (e.store.maxima.length + 3).size + 7))
        (w := 10 * (e.store.maxima.length + 3).size + 13) (k := 3)
        fun tied t₁ ht₁ => ?_) (by omega) (by omega) (by omega)
      split
      · exact .pure trivial
      · refine .mono ((obtainCell_costs (a := 0) (v := 0) (j := 0) value).bind fun cell t₂ ht₂ =>
          (makePoint_costs (a := 0) (v := 0) (j := 0) previous.argumentCell cell).bind
            fun point t₃ ht₃ =>
          hplace t₃ point (some old) _ (ht₃.trans (ht₂.trans (ht₁.trans ht)))) ?_ ?_ ?_
        all_goals omega

theorem eraseBy_costs (argument : Payload) :
    Costs enter (eraseBy (Store.auditedJudge rules) rules.audited argument)
      (eraseBy (Store.isLocalMaximum rules) rules argument) e
      (e.store.points.length.size + 7 * (e.store.maxima.length + 3).size + 6)
      (7 * (e.store.maxima.length + 3).size + 9) 2 fun _ _ => True := by
  refine .get_bind fun ledger => ?_
  refine .mono ((onHost_costs (PointIndex.find?_costs rules e.host e.store.points argument)).bind
    (b := 7 * (e.store.maxima.length + 3).size + 5)
    (w := 7 * (e.store.maxima.length + 3).size + 9) (k := 2)
    fun found t ht => ?_) (by omega) (by omega) (by omega)
  cases found with
  | none =>
      exact .pure trivial
  | some index =>
      have hmaxima : t.store.maxima = e.store.maxima := by rw [ht]
      rw [← hmaxima]
      refine (stageAll_costs
        (Staging.eraseSteps_costs rules t.host e.store.points index t.store.maxima)).bind
        (b := 0) (w := 0) (k := 0) ?_
      rintro ⟨staging, failure⟩ u _
      cases failure with
      | some fault =>
          exact abandon_costs _ _ _ _ _
      | none =>
          exact (conclude_costs staging _).map fun _ _ h => h

/-- A whole edit, with all its questions to the host. -/
theorem audited_costs (edit : Edit) :
    Costs enter (edit.audited rules) (edit.run rules) e
      (2 * e.store.points.length.size + 10 * (e.store.maxima.length + 3).size + 8)
      (10 * (e.store.maxima.length + 3).size + 14) 3 fun _ _ => True := by
  cases edit with
  | set argument value =>
      exact setBy_costs rules argument value
  | erase argument =>
      exact .mono (eraseBy_costs rules argument) (by omega) (by omega) (by omega)

/-- An audited call ends as the call itself does, in the same state and with a ledger beside it. An
edit judges three points at most, and its comparisons, those of arguments and those of values
together, are bounded by the binary digits of the numbers of points and of maxima; a question
compares arguments only. This holds however the orderings answer and whether or not they fail. -/
theorem calls_within_budget (rules : Rules σ) (e : Editor σ) :
    (∀ edit : Edit, edit.runBy (Store.isLocalMaximum rules) rules = edit.run rules ∧
      ∃ ledger : Ledger, edit.audited rules (e.enter {}) = endIn (enter ledger) (edit.run rules e) ∧
        ledger.judged ≤ 3 ∧
        ledger.arguments + ledger.values ≤
          2 * e.store.points.length.size + 20 * (e.store.maxima.length + 3).size + 22) ∧
    ∀ argument : Payload,
      (∃ ledger : Ledger, e.store.find? rules.audited argument (.enter {} e.host) =
          endIn (Audited.enter ledger) (e.store.find? rules argument e.host) ∧
        ledger.arguments ≤ e.store.points.length.size + 1 ∧ ledger.values = 0) ∧
      ∃ ledger : Ledger, e.store.valueAt rules.audited argument (.enter {} e.host) =
          endIn (Audited.enter ledger) (e.store.valueAt rules argument e.host) ∧
        ledger.arguments ≤ e.store.points.length.size + 1 ∧ ledger.values = 0 := by
  refine ⟨fun edit => ⟨edit.runBy_isLocalMaximum rules, ?_⟩, fun argument => ⟨?_, ?_⟩⟩
  · obtain ⟨ledger, hrun, hwithin, -⟩ := audited_costs (e := e) rules edit {}
    have harguments := hwithin.arguments
    have hvalues := hwithin.values
    have hjudged := hwithin.judged
    dsimp only at harguments hvalues hjudged
    exact ⟨ledger, hrun, by omega, by omega⟩
  · obtain ⟨ledger, hrun, hwithin, -⟩ := Store.find?_costs rules e.host e.store argument {}
    have harguments := hwithin.arguments
    have hvalues := hwithin.values
    dsimp only at harguments hvalues
    exact ⟨ledger, hrun, by omega, by omega⟩
  · obtain ⟨ledger, hrun, hwithin, -⟩ := Store.valueAt_costs rules e.host e.store argument {}
    have harguments := hwithin.arguments
    have hvalues := hwithin.values
    dsimp only at harguments hvalues
    exact ⟨ledger, hrun, by omega, by omega⟩

/-- Orderings that count for themselves count what the ledger does. -/
example :
    let e : Editor Surroundings :=
      [Edit.set (.weak 10) (.weak 50), Edit.set (.weak 40) (.weak 60)].foldl
      (fun e edit => (edit.run .metered).stateAfter e) { host := { meters := [{}, {}] } }
    let t := ((Edit.set (.weak 20) (.weak 70)).audited .metered).stateAfter (e.enter {})
    t.host.ledger = { arguments := 9, values := 13, judged := 3 } ∧
      e.host.meters.map Meter.comparisons = [6, 11] ∧
      t.host.host.meters.map Meter.comparisons = [6 + 9, 11 + 13] := by
  decide +kernel

end Editor

end Peaks
