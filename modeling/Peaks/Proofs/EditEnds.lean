import Peaks.Editor
import Peaks.Proofs.Attempt

/-!
# The ends of an edit

Once its steps have run, an edit is either concluded or abandoned, and compares nothing any more. An
edit that is abandoned takes back what it has put into the store, but first it says that it failed:
if that cannot be said, it stops there.

- `Editor.stageAll_run`      : the steps fail inside their result only
- `Editor.conclude_endsFrom` : committed, unless the commit stops half-way
- `Editor.takenBack`         : the editor after a failed edit was told and taken back
- `Editor.abandon_cases`     : told and taken back, or neither
-/

namespace Peaks

variable {σ α : Type}

/-- A fault of a step is no fault of the attempt. -/
theorem Staging.attemptAll_eq_ok (steps : List (Staging → Attempt σ Staging)) (s : Staging)
    (host : σ) : ∃ attempted host', attemptAll steps s host = .ok attempted host' := by
  induction steps generalizing s host with
  | nil =>
      exact ⟨_, host, rfl⟩
  | cons step steps ih =>
      cases hstep : step s host with
      | ok s' host' =>
          rw [attemptAll, Attempt.bind_of_ok (Attempt.settle_of_ok hstep)]
          exact ih s' host'
      | error fault host' =>
          rw [attemptAll, Attempt.bind_of_ok (Attempt.settle_of_error hstep)]
          exact ⟨_, host', rfl⟩

namespace Editor

variable {e : Editor σ} {host : σ}

/-! ## The steps -/

theorem onHost_eq_ok {x : Attempt σ α} {a : α} (h : x e.host = .ok a host) :
    onHost x e = .ok a { e with host := host } := by
  unfold onHost Attempt.within
  rw [h]

theorem onHost_eq_error {x : Attempt σ α} {fault : Fault} (h : x e.host = .error fault host) :
    onHost x e = .error fault { e with host := host } := by
  unfold onHost Attempt.within
  rw [h]

theorem stageAll_run {steps : List (Staging → Attempt σ Staging)}
    {attempted : Staging × Option Fault}
    (h : Staging.attemptAll steps (.start e.store.maxima) e.host = .ok attempted host) :
    stageAll steps e =
      .ok attempted
        { e with host := host, store := { e.store with maxima := attempted.1.maxima } } := by
  unfold stageAll
  rw [Attempt.get_bind_run, Attempt.bind_of_ok (onHost_eq_ok h)]
  rfl

/-- What the steps insert is in the store, whether or not one of them failed. -/
theorem stageAll_bind {β : Type} {steps : List (Staging → Attempt σ Staging)}
    {f : Staging × Option Fault → Attempt (Editor σ) β} {done : β → Editor σ → Prop}
    {failed : Fault → Editor σ → Prop}
    (hf : ∀ attempted host,
      Staging.attemptAll steps (.start e.store.maxima) e.host = .ok attempted host →
      (f attempted).EndsFrom
        { e with host := host, store := { e.store with maxima := attempted.1.maxima } }
        done failed) :
    (stageAll steps >>= f).EndsFrom e done failed := by
  obtain ⟨attempted, host, hrun⟩ := Staging.attemptAll_eq_ok steps (.start e.store.maxima) e.host
  exact .bind_ok (stageAll_run hrun) (hf attempted host hrun)

/-! ## The conclusion -/

theorem conclude_run {staging : Staging} {gone : Option Nat} {maxima : List Point}
    (hcommit : staging.commit = (maxima, none)) :
    conclude staging gone e = .ok ⟨⟩ { e with
      store := {
        points := gone.elim e.store.points e.store.points.eraseIdx
        maxima := maxima
        version := e.store.version + 1 } } := by
  unfold conclude
  rw [hcommit]
  rfl

theorem conclude_stopped_run {staging : Staging} {gone : Option Nat} {maxima : List Point}
    {fault : Fault} (hcommit : staging.commit = (maxima, some fault)) :
    conclude staging gone e = .error fault
      { e with store := { e.store with maxima := maxima } } := by
  unfold conclude
  rw [hcommit]
  rfl

/-- Both ends of the conclusion: all is committed, or the commit stops half-way. -/
theorem conclude_endsFrom {staging : Staging} {gone : Option Nat} {done : Unit → Editor σ → Prop}
    {failed : Fault → Editor σ → Prop}
    (hcommitted : ∀ maxima, staging.commit = (maxima, none) → done ⟨⟩ { e with
      store := {
        points := gone.elim e.store.points e.store.points.eraseIdx
        maxima := maxima
        version := e.store.version + 1 } })
    (hstopped : ∀ maxima fault, staging.commit = (maxima, some fault) →
      failed fault { e with store := { e.store with maxima := maxima } }) :
    (conclude staging gone : Attempt (Editor σ) Unit).EndsFrom e done failed := by
  rcases hcommit : staging.commit with ⟨maxima, failure⟩
  cases failure with
  | none =>
      rw [Attempt.EndsFrom, conclude_run hcommit]
      exact hcommitted maxima hcommit
  | some fault =>
      rw [Attempt.EndsFrom, conclude_stopped_run hcommit]
      exact hstopped maxima fault hcommit

/-! ## Taking an edit back -/

/-- The editor after a failed edit was told and taken back. -/
def takenBack (e : Editor σ) (text : String) (staging : Staging) (added : Option Nat) : Editor σ :=
  { e with
    journal := e.journal.debug text
    store := { e.store with
      points := added.elim e.store.points e.store.points.eraseIdx
      maxima := staging.rollback.maxima } }

theorem rollbackText?_eq_none_iff {edit : String} {argument : Payload} {fault : Fault} :
    rollbackText? edit argument fault = none ↔
    (argument.isWritable && fault.isWritable) = false := by
  cases hargument : argument.isWritable <;> cases hfault : fault.isWritable <;>
    simp [rollbackText?, Payload.text?, Fault.text?, hargument, hfault]

/-- An abandoned edit fails: either it was told and taken back, and the fault is the one that it was
abandoned for, or it could not be told, which is the fault then, and everything is left as it
stands. -/
theorem abandon_cases (edit : String) (argument : Payload) (staging : Staging) (added : Option Nat)
    (fault : Fault) (e : Editor σ) :
    (∃ text, rollbackText? edit argument fault = some text ∧
      (abandon edit argument staging added fault : Attempt (Editor σ) α) e =
        .error fault (e.takenBack text staging added)) ∨
    ((argument.isWritable && fault.isWritable) = false ∧
      (abandon edit argument staging added fault : Attempt (Editor σ) α) e =
        .error (.unspoken fault) e) := by
  unfold abandon
  cases htext : rollbackText? edit argument fault with
  | none =>
      exact Or.inr ⟨rollbackText?_eq_none_iff.1 htext, rfl⟩
  | some text =>
      exact Or.inl ⟨text, rfl, rfl⟩

/-- Both ends of an abandoned edit. -/
theorem abandon_endsFrom {edit : String} {argument : Payload} {staging : Staging}
    {added : Option Nat} {fault : Fault} {done : α → Editor σ → Prop}
    {failed : Fault → Editor σ → Prop}
    (htold : ∀ text, failed fault (e.takenBack text staging added))
    (huntold : (argument.isWritable && fault.isWritable) = false → failed (.unspoken fault) e) :
    (abandon edit argument staging added fault : Attempt (Editor σ) α).EndsFrom e done failed := by
  rcases abandon_cases (α := α) edit argument staging added fault e with
    ⟨text, -, hrun⟩ | ⟨hmute, hrun⟩
  · rw [Attempt.EndsFrom, hrun]
    exact htold text
  · rw [Attempt.EndsFrom, hrun]
    exact huntold hmute

theorem abandon_ne_ok (edit : String) (argument : Payload) (staging : Staging)
    (added : Option Nat) (fault : Fault) {a : α} {t : Editor σ} :
    (abandon edit argument staging added fault : Attempt (Editor σ) α) e ≠ .ok a t := by
  rcases abandon_cases (α := α) edit argument staging added fault e with ⟨_, -, hrun⟩ | ⟨-, hrun⟩
  all_goals
    rw [hrun]
    exact nofun

end Editor

end Peaks
