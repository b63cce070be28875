import Peaks.Attempt

/-!
# How attempts may end

`x.EndsFrom s done failed` says of an attempt that starts in the state `s`: a result it returns
satisfies `done` together with the state it leaves, and a fault it fails with satisfies `failed`
together with the state it leaves. Every attempt ends, so this says how it ends in all cases.
`x.Ensures done failed` says so for every state to start in.

- `Attempt.bind_of_ok`, `Attempt.bind_of_error` : running one part after another
- `Attempt.EndsFrom.bind`, `Attempt.Ensures.bind` : one rule for each way to build an attempt
- `Attempt.EndsFrom.ok`, `Attempt.EndsFrom.error` : reading the predicate at one run
- `Attempt.told` : an attempt that does not fail over the telling of another fault
-/

namespace Peaks

/-- Any fault but that of a text about another one. -/
def Fault.isSpoken : Fault → Bool
  | .unspoken _ => false
  | _ => true

/-- A fault as it comes out in the end: the very one, or another over the telling of it. -/
def Fault.StemsFrom (fault cause : Fault) : Prop :=
  fault = cause ∨ fault = .unspoken cause

/-- What a fault becomes on its way out where it is to be told. -/
def Fault.reported (fault : Fault) : Fault :=
  if fault.isWritable then fault else .unspoken fault

theorem Fault.reported_of_writable {fault : Fault} (h : fault.isWritable = true) :
    fault.reported = fault :=
  if_pos h

theorem Fault.reported_of_mute {fault : Fault} (h : fault.isWritable = false) :
    fault.reported = .unspoken fault :=
  if_neg (by simp [h])

theorem Fault.isWritable_of_reported {fault : Fault} (h : fault.reported.isSpoken = true) :
    fault.isWritable = true := by
  cases hwritable : fault.isWritable with
  | true =>
      rfl
  | false =>
      rw [reported_of_mute hwritable] at h
      cases h

namespace Attempt

variable {σ α β : Type}

/-! ## Running one part after another -/

theorem bind_of_ok {x : Attempt σ α} {f : α → Attempt σ β} {s t : σ} {a : α}
    (h : x s = .ok a t) : (x >>= f) s = f a t := by
  simp only [bind, EStateM.bind, h]

theorem bind_of_error {x : Attempt σ α} {f : α → Attempt σ β} {s t : σ} {fault : Fault}
    (h : x s = .error fault t) : (x >>= f) s = .error fault t := by
  simp only [bind, EStateM.bind, h]

theorem get_bind_run (f : σ → Attempt σ β) (s : σ) : (get >>= f : Attempt σ β) s = f s s :=
  rfl

theorem modify_run (f : σ → σ) (s : σ) : (modify f : Attempt σ PUnit) s = .ok ⟨⟩ (f s) :=
  rfl

theorem settle_of_ok {x : Attempt σ α} {s t : σ} {a : α} (h : x s = .ok a t) :
    x.settle s = .ok (.ok a) t := by
  rw [settle, h]

theorem settle_of_error {x : Attempt σ α} {s t : σ} {fault : Fault} (h : x s = .error fault t) :
    x.settle s = .ok (.error fault) t := by
  rw [settle, h]

/-! ## All ends of an attempt -/

/-- The ends of an attempt that starts in the given state. -/
def EndsFrom (x : Attempt σ α) (s : σ) (done : α → σ → Prop) (failed : Fault → σ → Prop) : Prop :=
  match x s with
  | .ok a t => done a t
  | .error fault t => failed fault t

/-- The ends of an attempt, whatever state it starts in. -/
def Ensures (x : Attempt σ α) (done : α → σ → Prop) (failed : Fault → σ → Prop) : Prop :=
  ∀ s, x.EndsFrom s done failed

namespace EndsFrom

variable {x : Attempt σ α} {f : α → Attempt σ β} {s : σ} {failed : Fault → σ → Prop}

theorem ok {done : α → σ → Prop} {t : σ} {a : α} (h : x.EndsFrom s done failed)
    (hx : x s = .ok a t) : done a t := by
  rw [EndsFrom, hx] at h
  exact h

theorem error {done : α → σ → Prop} {t : σ} {fault : Fault} (h : x.EndsFrom s done failed)
    (hx : x s = .error fault t) : failed fault t := by
  rw [EndsFrom, hx] at h
  exact h

theorem of_runs {done : α → σ → Prop} (hok : ∀ a t, x s = .ok a t → done a t)
    (herror : ∀ fault t, x s = .error fault t → failed fault t) : x.EndsFrom s done failed := by
  unfold EndsFrom
  cases hx : x s with
  | ok a t =>
      exact hok a t hx
  | error fault t =>
      exact herror fault t hx

theorem imp {done done' : α → σ → Prop} {failed' : Fault → σ → Prop} (h : x.EndsFrom s done failed)
    (hdone : ∀ a t, done a t → done' a t) (hfailed : ∀ fault t, failed fault t → failed' fault t) :
    x.EndsFrom s done' failed' :=
  of_runs (fun a t hx => hdone a t (h.ok hx)) (fun fault t hx => hfailed fault t (h.error hx))

theorem and {done done' : α → σ → Prop} {failed' : Fault → σ → Prop} (h : x.EndsFrom s done failed)
    (h' : x.EndsFrom s done' failed') :
    x.EndsFrom s (fun a t => done a t ∧ done' a t)
      (fun fault t => failed fault t ∧ failed' fault t) :=
  of_runs (fun _ _ hx => ⟨h.ok hx, h'.ok hx⟩) (fun _ _ hx => ⟨h.error hx, h'.error hx⟩)

/-- What cannot fail returns. -/
theorem exists_ok {done : α → σ → Prop} (h : x.EndsFrom s done failed)
    (hno : ∀ fault t, ¬ failed fault t) :
    ∃ a t, x s = .ok a t := by
  cases hx : x s with
  | ok a t =>
      exact ⟨a, t, rfl⟩
  | error fault t =>
      exact absurd (h.error hx) (hno fault t)

/-- The run itself may be told together with its end. -/
theorem run {done : α → σ → Prop} (h : x.EndsFrom s done failed) :
    x.EndsFrom s (fun a t => x s = .ok a t ∧ done a t)
      (fun fault t => x s = .error fault t ∧ failed fault t) :=
  of_runs (fun _ _ hx => ⟨hx, h.ok hx⟩) (fun _ _ hx => ⟨hx, h.error hx⟩)

theorem pure {done : α → σ → Prop} {a : α} (h : done a s) :
    EndsFrom (Pure.pure a : Attempt σ α) s done failed :=
  h

/-- The first part is known to return. -/
theorem bind_ok {done : β → σ → Prop} {t : σ} {a : α} (hx : x s = .ok a t)
    (hf : (f a).EndsFrom t done failed) : (x >>= f).EndsFrom s done failed := by
  rw [EndsFrom] at hf ⊢
  rw [bind_of_ok hx]
  exact hf

/-- The first part is known to fail. -/
theorem bind_error {done : β → σ → Prop} {t : σ} {fault : Fault} (hx : x s = .error fault t)
    (hfailed : failed fault t) : (x >>= f).EndsFrom s done failed := by
  rw [EndsFrom, bind_of_error hx]
  exact hfailed

/-- The second part starts where the first one ends. -/
theorem bind {done : β → σ → Prop} {between : α → σ → Prop} (hx : x.EndsFrom s between failed)
    (hf : ∀ a t, between a t → (f a).EndsFrom t done failed) :
    (x >>= f).EndsFrom s done failed := by
  cases h : x s with
  | ok a t =>
      exact bind_ok h (hf a t (hx.ok h))
  | error fault t =>
      exact bind_error h (hx.error h)

theorem get_bind {f : σ → Attempt σ β} {done : β → σ → Prop} (h : (f s).EndsFrom s done failed) :
    (get >>= f : Attempt σ β).EndsFrom s done failed :=
  h

theorem modify_bind {f : PUnit → Attempt σ β} {g : σ → σ} {done : β → σ → Prop}
    (h : (f ⟨⟩).EndsFrom (g s) done failed) :
    (modify g >>= f : Attempt σ β).EndsFrom s done failed :=
  h

theorem modifyGet_bind {g : σ → α × σ} {done : β → σ → Prop}
    (h : (f (g s).1).EndsFrom (g s).2 done failed) :
    (modifyGet g >>= f : Attempt σ β).EndsFrom s done failed :=
  h

/-- An attempt run to its end, and what follows either way. -/
theorem settle_bind {f : Except Fault α → Attempt σ β} {done : β → σ → Prop}
    {between : α → σ → Prop}
    {raised : Fault → σ → Prop} (hx : x.EndsFrom s between raised)
    (hok : ∀ a t, between a t → (f (.ok a)).EndsFrom t done failed)
    (herror : ∀ fault t, raised fault t → (f (.error fault)).EndsFrom t done failed) :
    (x.settle >>= f).EndsFrom s done failed := by
  cases h : x s with
  | ok a t =>
      exact .bind_ok (settle_of_ok h) (hok a t (hx.ok h))
  | error fault t =>
      exact .bind_ok (settle_of_error h) (herror fault t (hx.error h))

end EndsFrom

namespace Ensures

variable {x : Attempt σ α} {f : α → Attempt σ β} {failed : Fault → σ → Prop}

theorem ok {done : α → σ → Prop} {s t : σ} {a : α} (h : x.Ensures done failed)
    (hx : x s = .ok a t) : done a t :=
  (h s).ok hx

theorem error {done : α → σ → Prop} {s t : σ} {fault : Fault} (h : x.Ensures done failed)
    (hx : x s = .error fault t) : failed fault t :=
  (h s).error hx

theorem of_runs {done : α → σ → Prop} (hok : ∀ s a t, x s = .ok a t → done a t)
    (herror : ∀ s fault t, x s = .error fault t → failed fault t) : x.Ensures done failed :=
  fun s => .of_runs (hok s) (herror s)

theorem imp {done done' : α → σ → Prop} {failed' : Fault → σ → Prop} (h : x.Ensures done failed)
    (hdone : ∀ a t, done a t → done' a t) (hfailed : ∀ fault t, failed fault t → failed' fault t) :
    x.Ensures done' failed' :=
  fun s => (h s).imp hdone hfailed

theorem mono {done done' : α → σ → Prop} (h : x.Ensures done failed)
    (hdone : ∀ a t, done a t → done' a t) : x.Ensures done' failed :=
  fun s => (h s).imp hdone fun _ _ hfailed => hfailed

theorem pure {done : α → σ → Prop} {a : α} (h : ∀ s, done a s) :
    Ensures (Pure.pure a : Attempt σ α) done failed :=
  fun s => .pure (h s)

/-- What the first part promises of its result is all that the second part may rely on. -/
theorem bind {done : β → σ → Prop} {between : α → Prop}
    (hx : x.Ensures (fun a _ => between a) failed)
    (hf : ∀ a, between a → (f a).Ensures done failed) : (x >>= f).Ensures done failed :=
  fun s => (hx s).bind fun a t ha => hf a ha t

theorem ofOption {fault : Fault} (result : Option α) :
    Ensures (ofOption fault result : Attempt σ α) (fun a _ => result = some a)
      (fun f _ => f = fault ∧ result = none) := by
  intro s
  cases result with
  | none =>
      exact ⟨rfl, rfl⟩
  | some a =>
      exact rfl

/-- A pure function of a result. -/
theorem map {done : β → σ → Prop} {between : α → Prop} {g : α → β}
    (hx : x.Ensures (fun a _ => between a) failed) (hg : ∀ a t, between a → done (g a) t) :
    (x >>= fun a => (Pure.pure (g a) : Attempt σ β)).Ensures done failed :=
  hx.bind fun a ha => .pure fun t => hg a t ha

end Ensures

/-! ## Single runs -/

/-- The state that an attempt leaves, however it ends. -/
def stateAfter (x : Attempt σ α) (s : σ) : σ :=
  match x s with
  | .ok _ t => t
  | .error _ t => t

theorem EndsFrom.stateAfter {x : Attempt σ α} {s : σ} {P : σ → Prop}
    (h : x.EndsFrom s (fun _ t => P t) (fun _ t => P t)) : P (x.stateAfter s) := by
  unfold Attempt.stateAfter
  cases hx : x s with
  | ok a t =>
      exact h.ok hx
  | error fault t =>
      exact h.error hx

/-- An attempt does not fail over the text about another fault. -/
def told (x : Attempt σ α) (s : σ) : Bool :=
  match x s with
  | .ok .. => true
  | .error fault _ => fault.isSpoken

theorem isSpoken_of_told {x : Attempt σ α} {s t : σ} {fault : Fault} (h : x.told s = true)
    (hx : x s = .error fault t) : fault.isSpoken = true := by
  rw [told, hx] at h
  exact h

theorem EndsFrom.stateAfter_of_told {x : Attempt σ α} {s : σ} {P : σ → Prop}
    (h : x.EndsFrom s (fun _ t => P t) (fun fault t => fault.isSpoken = true → P t))
    (htold : x.told s = true) : P (x.stateAfter s) := by
  refine EndsFrom.stateAfter (.of_runs (fun _ _ hx => h.ok hx) fun fault t hx => ?_)
  exact h.error hx (isSpoken_of_told htold hx)

theorem exists_error_of_outcome {x : Attempt σ α} {s : σ}
    (h : (x.outcome s).isOk = false) : ∃ fault t, x s = .error fault t := by
  unfold outcome at h
  cases hx : x s with
  | ok a t =>
      rw [hx] at h
      exact absurd h (by simp [Except.isOk, Except.toBool])
  | error fault t =>
      exact ⟨fault, t, rfl⟩

theorem exists_ok_of_outcome {x : Attempt σ α} {s : σ}
    (h : (x.outcome s).isOk = true) : ∃ a t, x s = .ok a t := by
  unfold outcome at h
  cases hx : x s with
  | ok a t =>
      exact ⟨a, t, rfl⟩
  | error fault t =>
      rw [hx] at h
      exact absurd h (by simp [Except.isOk, Except.toBool])

end Attempt
end Peaks
