import Peaks.Proofs.EditEnds

/-!
# Two runs side by side

`x.Beside y s s' both` says of two attempts that start in the states `s` and `s'`: if both return,
their results are related together with the states they leave. Nothing is said if one of them fails.

A comparison is steady if the same operands always get the same sign, whenever they get an answer.
It need not be an ordering, and it may count, or fail, as it likes. Edits under steady rules do the
same to stores with the same content, whatever happened in the host before.

- `Attempt.Beside`, `Attempt.Agree` : two runs, and two attempts in all their runs
- `Rules.Steady`     : both comparisons of a function are steady
- `Order.compare_steady` : every ordering is
- `Editor.Matches`   : editors that differ in their hosts, journals and versions only
- `Editor.set_beside` : one edit on matching editors
-/

namespace Peaks

variable {σ τ α β γ δ : Type}

/-! ## Results of two attempts -/

namespace Attempt

/-- If both attempts return, their results are related together with the states they leave. -/
def Beside (x : Attempt σ α) (y : Attempt τ β) (s : σ) (s' : τ)
    (both : α → σ → β → τ → Prop) : Prop :=
  ∀ a t b t', x s = .ok a t → y s' = .ok b t' → both a t b t'

/-- From whatever states they start: if both attempts return, their results are related. -/
def Agree (related : α → β → Prop) (x : Attempt σ α) (y : Attempt τ β) : Prop :=
  ∀ s s', x.Beside y s s' fun a _ b _ => related a b

/-- The attempt returns the same from all states from which it returns at all. -/
def Steady (x : Attempt σ α) : Prop :=
  x.Agree (· = ·) x

/-- What returns has returned from each of its parts. -/
theorem exists_of_bind_ok {x : Attempt σ α} {f : α → Attempt σ β} {s t : σ} {b : β}
    (h : (x >>= f) s = .ok b t) : ∃ a u, x s = .ok a u ∧ f a u = .ok b t := by
  cases hx : x s with
  | ok a u =>
      rw [bind_of_ok hx] at h
      exact ⟨a, u, rfl, h⟩
  | error fault u =>
      rw [bind_of_error hx] at h
      cases h

namespace Beside

variable {x : Attempt σ α} {y : Attempt τ β} {f : α → Attempt σ γ} {g : β → Attempt τ δ}
  {s : σ} {s' : τ}

theorem bind {between : α → σ → β → τ → Prop} {both : γ → σ → δ → τ → Prop}
    (hx : x.Beside y s s' between)
    (hf : ∀ a t b t', between a t b t' → (f a).Beside (g b) t t' both) :
    (x >>= f).Beside (y >>= g) s s' both := by
  intro c t d t' hc hd
  rcases exists_of_bind_ok hc with ⟨a, u, ha, hc⟩
  rcases exists_of_bind_ok hd with ⟨b, u', hb, hd⟩
  exact hf a u b u' (hx a u b u' ha hb) c t d t' hc hd

theorem pure {both : α → σ → β → τ → Prop} {a : α} {b : β} (h : both a s b s') :
    Beside (Pure.pure a : Attempt σ α) (Pure.pure b : Attempt τ β) s s' both := by
  intro _ _ _ _ ha hb
  cases ha
  cases hb
  exact h

theorem get_bind {f : σ → Attempt σ γ} {g : τ → Attempt τ δ} {both : γ → σ → δ → τ → Prop}
    (h : (f s).Beside (g s') s s' both) : (get >>= f : Attempt σ γ).Beside (get >>= g) s s' both :=
  h

theorem modifyGet {f : σ → α × σ} {g : τ → β × τ} {both : α → σ → β → τ → Prop}
    (h : both (f s).1 (f s).2 (g s').1 (g s').2) :
    Beside (modifyGet f : Attempt σ α) (modifyGet g : Attempt τ β) s s' both := by
  intro _ _ _ _ ha hb
  cases ha
  cases hb
  exact h

/-- Nothing comes after a fault. -/
theorem throw_left {both : α → σ → β → τ → Prop} {fault : Fault} :
    Beside (throw fault : Attempt σ α) y s s' both := by
  intro _ _ _ _ ha
  cases ha

end Beside

namespace Agree

variable {x : Attempt σ α} {y : Attempt τ β} {f : α → Attempt σ γ} {g : β → Attempt τ δ}

theorem bind {between : α → β → Prop} {related : γ → δ → Prop} (hx : Agree between x y)
    (hf : ∀ a b, between a b → Agree related (f a) (g b)) : Agree related (x >>= f) (y >>= g) :=
  fun s s' => (hx s s').bind fun a t b t' hab => hf a b hab t t'

theorem pure {related : α → β → Prop} {a : α} {b : β} (h : related a b) :
    Agree related (Pure.pure a : Attempt σ α) (Pure.pure b : Attempt τ β) :=
  fun _ _ => .pure h

end Agree

namespace Steady

variable {x : Attempt σ α} {f : α → Attempt σ β}

theorem bind (hx : x.Steady) (hf : ∀ a, (f a).Steady) : (x >>= f).Steady := by
  refine Agree.bind hx fun a b hab => ?_
  subst hab
  exact hf a

theorem pure (a : α) : Steady (Pure.pure a : Attempt σ α) :=
  Agree.pure rfl

theorem throw (fault : Fault) : Steady (throw fault : Attempt σ α) :=
  fun _ _ => .throw_left

theorem ofExcept (result : Except Fault α) : Steady (Attempt.ofExcept result : Attempt σ α) := by
  cases result with
  | ok a =>
      exact .pure a
  | error fault =>
      exact .throw fault

end Steady

end Attempt

/-! ## Steady comparisons -/

/-- Both come before zero, or both after it, or both are zero. -/
def SameSign (i j : Int) : Prop :=
  (i < 0 ↔ j < 0) ∧ (0 < i ↔ 0 < j)

/-- Whenever two comparisons of the same operands return, they return the same sign. -/
def Comparator.Steady (compare : Comparator σ) : Prop :=
  ∀ a b, (compare a b).Agree SameSign (compare a b)

structure Rules.Steady (rules : Rules σ) : Prop where
  argument : rules.argument.Steady
  value : rules.value.Steady

/-- Orderings answer by their operands alone; a meter only counts, or fails. -/
theorem Order.compare_steady (order : Order) (a b : Payload) : (order.compare a b).Steady := by
  fun_induction Order.compare order a b with
  | case1 a b =>
      exact .ofExcept _
  | case2 base a b ih =>
      exact ih
  | case3 =>
      exact .throw _
  | case4 key base a b _ ih =>
      exact .bind (.ofExcept _) fun keyA => .bind (.ofExcept _) fun keyB => ih keyA keyB
  | case5 less a b =>
      exact .ofExcept _
  | case6 rule a b =>
      exact .ofExcept _
  | case7 meter base a b ih =>
      exact .bind (fun _ _ _ _ _ _ _ _ => rfl) fun _ => ih
  | case8 =>
      exact .throw _

theorem Attempt.Steady.sameSign {x : Attempt σ Int} (h : x.Steady) : x.Agree SameSign x := by
  intro s s' i t j t' hi hj
  cases h s s' i t j t' hi hj
  exact ⟨Iff.rfl, Iff.rfl⟩

theorem Rules.ofOrders_steady (argument value : Order) :
    (Rules.ofOrders argument value).Steady where
  argument a b := (argument.compare_steady a b).sameSign
  value a b := (value.compare_steady a b).sameSign

/-- Where only the sign of an answer matters, nothing but the operands does. -/
theorem Attempt.Agree.test {x : Attempt σ Int} {f : Int → Attempt σ α} (hx : x.Agree SameSign x)
    (hf : ∀ i j, SameSign i j → f i = f j) (hsteady : ∀ i, (f i).Steady) : (x >>= f).Steady := by
  refine hx.bind fun i j hij => ?_
  rw [← hf i j hij]
  exact hsteady i

theorem SameSign.neg {i j : Int} (h : SameSign i j) : decide (i < 0) = decide (j < 0) :=
  decide_eq_decide.2 h.1

theorem SameSign.zero {i j : Int} (h : SameSign i j) : (i == 0) = (j == 0) := by
  unfold SameSign at h
  rw [Bool.eq_iff_iff, beq_iff_eq, beq_iff_eq]
  omega

theorem SameSign.nonpos {i j : Int} (h : SameSign i j) : decide (i ≤ 0) = decide (j ≤ 0) := by
  unfold SameSign at h
  rw [decide_eq_decide]
  omega

namespace Comparator.Steady

variable {compare : Comparator σ} (h : compare.Steady)
include h

theorem equivalent (a b : Payload) : (Comparator.equivalent compare a b).Steady :=
  (h a b).test (fun i j hij => by rw [hij.zero]) fun _ => .pure _

theorem lessEqual (a b : Payload) : (Comparator.lessEqual compare a b).Steady :=
  (h a b).test (fun i j hij => by rw [hij.nonpos]) fun _ => .pure _

end Comparator.Steady

/-! ## Searching -/

theorem Search.boundaryFrom_steady {probe : α → Attempt σ Bool} (hprobe : ∀ x, (probe x).Steady)
    (offset count : Nat) (window : List α) : (boundaryFrom probe offset count window).Steady := by
  fun_induction boundaryFrom probe offset count window with
  | case1 =>
      exact .pure _
  | case2 =>
      exact .pure _
  | case3 offset count window half x rest hdrop ihfar ihnear =>
      refine .bind (hprobe x) fun answer => ?_
      cases answer with
      | true =>
          exact ihfar
      | false =>
          exact ihnear

theorem Search.boundary_steady {probe : α → Attempt σ Bool} (hprobe : ∀ x, (probe x).Steady)
    (xs : List α) : (boundary probe xs).Steady :=
  boundaryFrom_steady hprobe 0 xs.length xs

namespace PointIndex

variable {compare : Comparator σ} (h : compare.Steady)
include h

theorem lowerBound_steady (points : List Point) (argument : Payload) :
    (lowerBound compare points argument).Steady := by
  refine Search.boundary_steady (fun p => ?_) points
  exact (h p.argument argument).test (fun i j hij => by rw [hij.neg]) fun _ => .pure _

theorem insert_steady (points : List Point) (point : Point) :
    (insert compare points point).Steady := by
  refine .bind (Search.boundary_steady (fun p => ?_) points) fun _ => .pure _
  exact (h point.argument p.argument).test (fun i j hij => by rw [hij.neg]) fun _ => .pure _

theorem locate_steady (points : List Point) (argument : Payload) :
    (locate compare points argument).Steady := by
  refine .bind (lowerBound_steady h points argument) fun index => ?_
  cases points[index]? with
  | none =>
      exact .pure _
  | some point =>
      refine (h point.argument argument).test (fun i j hij => by rw [hij.zero]) fun i => ?_
      split
      · exact .pure _
      · exact .pure _

end PointIndex

section Rules

variable {rules : Rules σ} (h : rules.Steady)
include h

namespace MaximaIndex

theorem compare_steady (a b : Point) : (compare rules a b).Agree SameSign (compare rules a b) := by
  refine Attempt.Agree.bind (h.value b.value a.value) fun i j hij => ?_
  -- tied values leave the decision to the arguments, and all others make it
  by_cases hzero : i = 0
  · have hzero' : j = 0 := by
      unfold SameSign at hij
      omega
    rw [if_neg (by simp [hzero]), if_neg (by simp [hzero'])]
    exact h.argument a.argument b.argument
  · have hzero' : j ≠ 0 := by
      unfold SameSign at hij
      omega
    rw [if_pos hzero, if_pos hzero']
    exact .pure hij

theorem position_steady (entries : List Point) (point : Point) :
    (position rules entries point).Steady := by
  refine Search.boundary_steady (fun p => ?_) entries
  exact (compare_steady h p point).test (fun i j hij => by rw [hij.neg]) fun _ => .pure _

theorem find?_steady (entries : List Point) (point : Point) :
    (find? rules entries point).Steady := by
  refine .bind (position_steady h entries point) fun index => ?_
  cases entries[index]? with
  | none =>
      exact .pure _
  | some entry =>
      refine (compare_steady h entry point).test (fun i j hij => by rw [hij.zero]) fun i => ?_
      split
      · exact .pure _
      · exact .pure _

end MaximaIndex

/-! ## Staged steps -/

theorem Scan.isBoundedBy_steady (value : Payload) (neighbour : Option Payload) :
    (Scan.isBoundedBy rules.value value neighbour).Steady := by
  cases neighbour with
  | none =>
      exact .pure true
  | some neighbour =>
      exact h.value.lessEqual neighbour value

theorem Scan.isPeak_steady (left : Option Payload) (value : Payload) (right : Option Payload) :
    (Scan.isPeak rules.value left value right).Steady := by
  refine .bind (isBoundedBy_steady h value left) fun bounded => ?_
  split
  · exact isBoundedBy_steady h value right
  · exact .pure false

namespace Staging

theorem insert_steady (point : Point) (s : Staging) : (s.insert rules point).Steady := by
  refine .bind (MaximaIndex.position_steady h s.maxima point) fun index => ?_
  -- the allocator returns nothing that could differ
  refine .bind (.bind (fun _ _ _ _ _ _ _ _ => rfl) fun _ => .pure _) fun _ => .pure _

theorem resolve_steady (maxima doomed : List Point) : (resolve rules maxima doomed).Steady := by
  induction doomed with
  | nil =>
      exact .pure []
  | cons p rest ih =>
      exact .bind (MaximaIndex.find?_steady h maxima p) fun _ => .bind ih fun _ => .pure _

theorem prepare_steady (s : Staging) : (s.prepare rules).Steady :=
  .bind (resolve_steady h s.maxima s.doomed) fun _ => .pure _

end Staging

namespace Store

theorem stage_steady (points : List Point) (index ignored : Option Nat) (s : Staging) :
    (stage rules points index ignored s).Steady := by
  unfold stage stageBy
  cases index with
  | none =>
      exact .pure s
  | some i =>
      dsimp only
      split
      · exact .pure s
      cases points[i]? with
      | none =>
          exact .throw _
      | some point =>
          refine .bind (MaximaIndex.find?_steady h s.maxima point) fun found => ?_
          refine .bind (Scan.isPeak_steady h _ _ _) fun peak => ?_
          -- the answers decide between an insertion, a removal and nothing
          split
          · split
            · exact .pure s
            · exact Staging.insert_steady h point s
          · exact .pure _

omit h in
theorem deferAt_steady (points : List Point) (index : Nat) (s : Staging) :
    (deferAt (σ := σ) points index s).Steady := by
  unfold deferAt
  cases points[index]? with
  | none =>
      exact .throw _
  | some point =>
      exact .pure _

theorem setSteps_steady (points : List Point) (index : Nat) (old : Option Nat) :
    ∀ step ∈ setSteps rules points index old, ∀ s, (step s).Steady := by
  intro step hstep s
  simp only [setSteps, setStepsBy, List.mem_append, List.mem_cons, List.mem_map, List.not_mem_nil,
    or_false] at hstep
  rcases hstep with ((rfl | rfl | rfl) | ⟨i, _, rfl⟩) | rfl
  · exact stage_steady h _ _ _ s
  · exact stage_steady h _ _ _ s
  · exact stage_steady h _ _ _ s
  · exact deferAt_steady points i s
  · exact Staging.prepare_steady h s

/-- Whether a set would change something is a matter of the content alone. -/
theorem wouldKeep_steady (s : Store) (argument value : Payload) :
    (s.wouldKeep rules argument value).Steady := by
  refine .bind (.bind (PointIndex.locate_steady h.argument s.points argument) fun _ => .pure _)
    fun found => ?_
  cases found with
  | none =>
      exact .pure false
  | some point =>
      exact h.value.equivalent point.value value

end Store

end Rules

theorem Attempt.exists_settle_of_ok {x : Attempt σ α} {s t : σ} {r : Except Fault α}
    (h : x.settle s = .ok r t) : (∃ a, r = .ok a ∧ x s = .ok a t) ∨
      ∃ fault, r = .error fault ∧ x s = .error fault t := by
  unfold settle at h
  cases hx : x s with
  | ok a u =>
      rw [hx] at h
      cases h
      exact Or.inl ⟨a, rfl, rfl⟩
  | error fault u =>
      rw [hx] at h
      cases h
      exact Or.inr ⟨fault, rfl, rfl⟩

/-- Steady steps that all succeed twice stage the same. -/
theorem Staging.attemptAll_agree {steps : List (Staging → Attempt σ Staging)}
    (hsteps : ∀ step ∈ steps, ∀ s, (step s).Steady) (s : Staging) :
    (attemptAll steps s).Agree (fun r r' => r.2 = none → r'.2 = none → r = r')
      (attemptAll steps s) := by
  induction steps generalizing s with
  | nil =>
      exact .pure fun _ _ => rfl
  | cons step steps ih =>
      intro host host' r t r' t' hrun hrun' hnone hnone'
      rcases Attempt.exists_of_bind_ok hrun with ⟨_, u, hsettle, hrun⟩
      rcases Attempt.exists_of_bind_ok hrun' with ⟨_, u', hsettle', hrun'⟩
      rcases Attempt.exists_settle_of_ok hsettle with ⟨a, rfl, hstep⟩ | ⟨fault, rfl, _⟩
      · rcases Attempt.exists_settle_of_ok hsettle' with ⟨a', rfl, hstep'⟩ | ⟨fault, rfl, _⟩
        · have hsame : a = a' := hsteps step List.mem_cons_self s _ _ _ _ _ _ hstep hstep'
          subst hsame
          have hrest : ∀ step ∈ steps, ∀ s, (step s).Steady := fun step hmem =>
            hsteps step (List.mem_cons_of_mem _ hmem)
          exact ih hrest a u u' r t r' t' hrun hrun' hnone hnone'
        · cases hrun'
          cases hnone'
      · cases hrun
        cases hnone

/-! ## Asking first -/

theorem Store.wouldKeep_congr {s s' : Store} (h : s'.points = s.points) (rules : Rules σ)
    (argument value : Payload) :
    s'.wouldKeep rules argument value = s.wouldKeep rules argument value := by
  unfold wouldKeep find?
  rw [h]

namespace Editor

variable {rules : Rules σ} {argument value : Payload} {e : Editor σ} {host : σ}

/-- A set first finds out whether the value is to be kept. If so it has nothing to do, and if not it
says that it changed something. A fault on the way leaves everything as it was, but for the host. -/
theorem set_endsFrom_wouldKeep :
    (set rules argument value).EndsFrom e
      (fun changed t => ∃ host, e.store.wouldKeep rules argument value e.host = .ok
        (!changed) host ∧
        (changed = false → t = { e with host := host }))
      (fun fault t => ∃ host, e.store.wouldKeep rules argument value e.host = .ok false host ∨
        e.store.wouldKeep rules argument value e.host = .error fault host ∧
        t = { e with host := host }) := by
  -- what is left to do after the answers can fail, but not say that nothing was changed
  have hchanged : ∀ (x : Attempt (Editor σ) Unit) (e : Editor σ),
      (do x; return true).EndsFrom e (fun changed _ => changed = true) fun _ _ => True := by
    intro x e
    have hx : x.EndsFrom e (fun _ _ => True) fun _ _ => True :=
      .of_runs (fun _ _ _ => trivial) fun _ _ _ => trivial
    exact hx.bind fun _ _ _ => .pure rfl
  refine .get_bind ?_
  cases hlocate : PointIndex.locate rules.argument e.store.points argument e.host with
  | error fault host =>
      refine .bind_error (onHost_eq_error hlocate) ⟨host, Or.inr ⟨?_, rfl⟩⟩
      rw [Store.wouldKeep, Store.find?, Attempt.bind_of_error (Attempt.bind_of_error hlocate)]
  | ok found host =>
      refine .bind_ok (onHost_eq_ok hlocate) ?_
      have hfind : e.store.find? rules argument e.host = .ok (found.map (·.2)) host :=
        Attempt.bind_of_ok hlocate
      rw [Store.wouldKeep, Attempt.bind_of_ok hfind]
      cases found with
      | none =>
          refine Attempt.EndsFrom.imp
            (.modifyGet_bind (.modifyGet_bind (.modifyGet_bind (hchanged _ _))))
            (fun changed _ h => ?_) fun _ _ _ => ⟨host, Or.inl rfl⟩
          cases h
          exact ⟨host, rfl, fun h => nomatch h⟩
      | some entry =>
          rcases entry with ⟨old, previous⟩
          dsimp only [Option.map_some]
          cases htie : Comparator.equivalent rules.value previous.value value host with
          | error fault host' =>
              exact .bind_error (onHost_eq_error htie) ⟨host', Or.inr ⟨rfl, rfl⟩⟩
          | ok tie host' =>
              refine .bind_ok (onHost_eq_ok htie) ?_
              cases tie with
              | true =>
                  exact .pure ⟨host', rfl, fun _ => rfl⟩
              | false =>
                  refine Attempt.EndsFrom.imp (.modifyGet_bind (.modifyGet_bind (hchanged _ _)))
                    (fun changed _ h => ?_) fun _ _ _ => ⟨host', Or.inl rfl⟩
                  cases h
                  exact ⟨host', rfl, fun h => nomatch h⟩

/-- A set says that it changed nothing exactly if the value is to be kept. -/
theorem set_eq_false_iff : (∃ t, set rules argument value e = .ok false t) ↔
    ∃ host, e.store.wouldKeep rules argument value e.host = .ok true host := by
  constructor
  · intro hset
    rcases hset with ⟨t, hset⟩
    rcases set_endsFrom_wouldKeep.ok hset with ⟨host, hkeep, _⟩
    exact ⟨host, hkeep⟩
  · intro hkeep
    rcases hkeep with ⟨host, hkeep⟩
    cases hset : set rules argument value e with
    | ok changed t =>
        rcases set_endsFrom_wouldKeep.ok hset with ⟨host', hkeep', _⟩
        rw [hkeep] at hkeep'
        cases changed with
        | false =>
            exact ⟨t, rfl⟩
        | true =>
            cases hkeep'
    | error fault t =>
        rcases set_endsFrom_wouldKeep.error hset with ⟨host', hkeep' | ⟨hkeep', _⟩⟩
        · cases hkeep.symm.trans hkeep'
        · cases hkeep.symm.trans hkeep'

end Editor

/-! ## Edits -/

namespace Editor

/-- Editors with the same mint, pool and content. Their hosts, journals and versions may differ. -/
structure Matches (e e' : Editor σ) : Prop where
  mint : e'.mint = e.mint
  pool : e'.pool = e.pool
  points : e'.store.points = e.store.points
  maxima : e'.store.maxima = e.store.maxima

theorem Matches.trans {x y z : Editor σ} (h : Matches x y) (h' : Matches y z) : Matches x z where
  mint := h'.mint.trans h.mint
  pool := h'.pool.trans h.pool
  points := h'.points.trans h.points
  maxima := h'.maxima.trans h.maxima

variable {e e' : Editor σ}

theorem onHost_agree {related : α → α → Prop} {x : Attempt σ α} (hx : x.Agree related x)
    (h : Matches e e') :
    (onHost x).Beside (onHost x) e e' fun a t b t' => related a b ∧ Matches t t' := by
  intro a t b t' ha hb
  unfold onHost Attempt.within at ha hb
  cases hrun : x e.host with
  | error fault host =>
      rw [hrun] at ha
      cases ha
  | ok c host =>
      cases hrun' : x e'.host with
      | error fault host' =>
          rw [hrun'] at hb
          cases hb
      | ok c' host' =>
          rw [hrun] at ha
          rw [hrun'] at hb
          cases ha
          cases hb
          exact ⟨hx _ _ _ _ _ _ hrun hrun', h.mint, h.pool, h.points, h.maxima⟩

theorem onHost_beside {x : Attempt σ α} (hx : x.Steady) (h : Matches e e') :
    (onHost x).Beside (onHost x) e e' fun a t b t' => a = b ∧ Matches t t' :=
  onHost_agree hx h

theorem obtainCell_beside (p : Payload) (h : Matches e e') :
    (obtainCell p).Beside (obtainCell p) e e' fun a t b t' => a = b ∧ Matches t t' := by
  refine .modifyGet ?_
  rw [h.pool, h.mint]
  exact ⟨rfl, rfl, rfl, h.points, h.maxima⟩

theorem makePoint_beside (argument value : Cell) (h : Matches e e') :
    (makePoint argument value).Beside (makePoint argument value) e e' fun a t b t' =>
      a = b ∧ Matches t t' := by
  refine .modifyGet ?_
  rw [h.mint]
  exact ⟨rfl, rfl, h.pool, h.points, h.maxima⟩

theorem recordCells_beside (cells : List Cell) (h : Matches e e') :
    (recordCells cells).Beside (recordCells cells) e e' fun _ t _ t' => Matches t t' := by
  refine .modifyGet ⟨h.mint, ?_, h.points, h.maxima⟩
  simp only [h.pool]

theorem putPoints_beside (points : List Point) (h : Matches e e') :
    (putPoints points).Beside (putPoints points) e e' fun _ t _ t' => Matches t t' :=
  .modifyGet ⟨h.mint, h.pool, rfl, h.maxima⟩

/-- Steps that agree unless they fail leave matching editors, unless they fail. -/
theorem stageAll_beside {steps : List (Staging → Attempt σ Staging)}
    (hsteps : ∀ s, (Staging.attemptAll steps s).Agree
      (fun r r' => r.2 = none → r'.2 = none → r = r') (Staging.attemptAll steps s))
    (h : Matches e e') :
    (stageAll steps).Beside (stageAll steps) e e' fun r t r' t' =>
      r.2 = none → r'.2 = none → r = r' ∧ Matches t t' := by
  refine .get_bind ?_
  rw [h.maxima]
  refine .bind (onHost_agree (hsteps _) h) ?_
  intro r t r' t' hstaged _ _ _ _ hrun hrun'
  cases hrun
  cases hrun'
  intro hnone hnone'
  cases hstaged.1 hnone hnone'
  exact ⟨rfl, hstaged.2.mint, hstaged.2.pool, hstaged.2.points, rfl⟩

theorem conclude_beside (staging : Staging) (gone : Option Nat) (h : Matches e e') :
    (conclude staging gone).Beside (conclude staging gone) e e' fun _ t _ t' => Matches t t' := by
  intro _ t _ t' hrun hrun'
  rcases hcommit : staging.commit with ⟨maxima, failure⟩
  cases failure with
  | none =>
      cases (conclude_run hcommit).symm.trans hrun
      cases (conclude_run hcommit).symm.trans hrun'
      exact ⟨h.mint, h.pool, by simp only [h.points], rfl⟩
  | some fault =>
      -- a commit that stopped half-way is a fault on both sides
      cases (conclude_stopped_run hcommit).symm.trans hrun

variable {rules : Rules σ} (hrules : rules.Steady)
include hrules

theorem place_beside (point : Point) (old : Option Nat) (cells : List Cell) (argument : Payload)
    (h : Matches e e') :
    (place rules point old cells argument).Beside (place rules point old cells argument) e e'
      fun _ t _ t' => Matches t t' := by
  refine .get_bind ?_
  simp only [h.points]
  refine .bind (onHost_beside (PointIndex.insert_steady hrules.argument _ point) h) ?_
  intro inserted t inserted' t' hinserted
  rcases hinserted with ⟨rfl, h⟩
  refine .bind (putPoints_beside inserted.2 h) fun _ t _ t' h => ?_
  have hsteps := Store.setSteps_steady hrules inserted.2 inserted.1 old
  refine .bind (stageAll_beside (Staging.attemptAll_agree hsteps) h) ?_
  intro staged t staged' t' hstaged
  rcases staged with ⟨staging, failure⟩
  rcases staged' with ⟨staging', failure'⟩
  cases failure with
  | some fault =>
      intro _ _ _ _ hrun
      exact absurd hrun (abandon_ne_ok _ _ _ _ _)
  | none =>
      cases failure' with
      | some fault =>
          intro _ _ _ _ _ hrun
          exact absurd hrun (abandon_ne_ok _ _ _ _ _)
      | none =>
          obtain ⟨hsame, h⟩ := hstaged rfl rfl
          cases hsame
          exact .bind (recordCells_beside cells h) fun _ _ _ _ h => conclude_beside _ _ h

/-- Matching editors that both return from a set return the same, and match again. -/
theorem set_beside (argument value : Payload) (h : Matches e e') :
    (set rules argument value).Beside (set rules argument value) e e' fun a t b t' =>
      a = b ∧ Matches t t' := by
  refine .get_bind ?_
  simp only [h.points]
  refine .bind (onHost_beside (PointIndex.locate_steady hrules.argument _ argument) h) ?_
  intro found t found' t' hfound
  rcases hfound with ⟨rfl, h⟩
  cases found with
  | some entry =>
      rcases entry with ⟨old, previous⟩
      refine .bind (onHost_beside (hrules.value.equivalent previous.value value) h) ?_
      intro keep t keep' t' hkeep
      rcases hkeep with ⟨rfl, h⟩
      cases keep with
      | true =>
          exact .pure ⟨rfl, h⟩
      | false =>
          refine .bind (obtainCell_beside value h) ?_
          intro cell t cell' t' hcell
          rcases hcell with ⟨rfl, h⟩
          refine .bind (makePoint_beside _ cell h) ?_
          intro point t point' t' hpoint
          rcases hpoint with ⟨rfl, h⟩
          exact .bind (place_beside hrules point _ _ _ h) fun _ _ _ _ h => .pure ⟨rfl, h⟩
  | none =>
      refine .bind (obtainCell_beside argument h) ?_
      intro argumentCell t argumentCell' t' hargument
      rcases hargument with ⟨rfl, h⟩
      refine .bind (obtainCell_beside value h) ?_
      intro valueCell t valueCell' t' hvalue
      rcases hvalue with ⟨rfl, h⟩
      refine .bind (makePoint_beside argumentCell valueCell h) ?_
      intro point t point' t' hpoint
      rcases hpoint with ⟨rfl, h⟩
      exact .bind (place_beside hrules point _ _ _ h) fun _ _ _ _ h => .pure ⟨rfl, h⟩

end Editor

end Peaks
