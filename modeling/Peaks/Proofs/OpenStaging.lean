import Peaks.Proofs.Unruly

/-!
# Open stagings

Until it ends, a staging may be asked for anything: points that already have an entry may be put in
once more, tied ones may be marked, and a request that fails leaves everything as it was. While the
comparisons that return answer by the rankings, a point goes in front of all entries that it is tied
with, itself included. Taking the insertions out again, the latest first, therefore finds each of
them at its own place.

- `Rankings.Ranked`           : lists in maxima order, where entries may be tied
- `Staging.Request`           : what a staging may be asked for
- `Staging.serve`             : requests in turn, whether or not they fail
- `Staging.insert_places`     : where a point goes in
- `Staging.Recoverable`       : what every request keeps
- `Staging.rollback_restores` : a rollback gives back the entries of the beginning
-/

namespace Peaks

variable {σ : Type}

/-- No entry outranks one in front of it. -/
def Rankings.Ranked (R : Rankings) (entries : List Point) : Prop :=
  entries.Pairwise fun p q => ¬ R.Outranks q p

namespace Staging

/-! ## Requests -/

/-- What an open staging may be asked for. -/
inductive Request where
  | insert (point : Point)
  | defer (point : Point)
  | prepare
  | rollback
  deriving Repr

namespace Request

/-- The points that a request is about. -/
def points : Request → List Point
  | insert p => [p]
  | defer p => [p]
  | prepare => []
  | rollback => []

def run (rules : Rules σ) : Request → Staging → Attempt σ Staging
  | insert p, s => s.insert rules p
  | defer p, s => pure (s.defer p)
  | prepare, s => s.prepare rules
  | rollback, s => pure s.rollback

end Request

/-- Requests in turn. One that fails changes nothing, and the next one follows all the same. -/
def serve (rules : Rules σ) : List Request → Staging → Attempt σ Staging
  | [], s => pure s
  | request :: rest, s => do
      match ← (request.run rules s).settle with
      | .ok s => serve rules rest s
      | .error _ => serve rules rest s

/-! ## What every request keeps -/

/-- A staging of `points` that began with the maxima `before`. -/
structure Recoverable (R : Rankings) (points before : List Point) (s : Staging) : Prop where
  ranked : R.Ranked s.maxima
  maxima_mem : ∀ p ∈ s.maxima, p ∈ points
  doomed_mem : ∀ p ∈ s.doomed, p ∈ points
  undo : s.rollback.maxima = before

variable {rules : Rules σ} {R : Rankings} {points before : List Point} {s : Staging} {p : Point}

/-- The entries in front of a new one all outrank it, and those behind it do not. -/
theorem insert_places (hR : rules.Follow R) (hranked : R.Ranked s.maxima) (hp : R.Covers p)
    (hcovers : ∀ q ∈ s.maxima, R.Covers q) :
    (s.insert rules p).Ensures
      (fun s' _ => ∃ front back, s.maxima = front ++ back ∧ (∀ x ∈ front, R.Outranks x p) ∧
        (∀ x ∈ back, ¬ R.Outranks x p) ∧
        s' = { s with maxima := front ++ p :: back, inserted := p :: s.inserted })
          rules.Raised := by
  obtain ⟨maxima, inserted, doomed, positions⟩ := s
  obtain ⟨front, back, rfl, hfront, hback⟩ :=
    exists_split (P := fun x => R.Outranks x p) hranked fun _ _ hxy hy =>
      before_of_not_of_before hxy hy
  refine (MaximaIndex.position_ensures hR hp hcovers hfront hback).bind fun k hk => ?_
  refine (MaximaIndex.insertAt_ensures rules _ k p).map fun maxima _ hinserted => ?_
  obtain rfl : maxima = front ++ p :: back := by
    rw [hinserted, hk]
    exact insertIdx_append front back p
  exact ⟨front, back, rfl, hfront, hback, rfl⟩

namespace Recoverable

theorem start (hranked : R.Ranked before) (hmem : ∀ p ∈ before, p ∈ points) :
    (Staging.start before).Recoverable R points before where
  ranked := hranked
  maxima_mem := hmem
  doomed_mem := by simp [Staging.start]
  undo := rfl

theorem insert (hR : rules.Follow R) (hcovers : ∀ q ∈ points, R.Covers q) (hknown : Known points)
    (hs : s.Recoverable R points before) (hp : p ∈ points) :
    (s.insert rules p).Ensures (fun s' _ => s'.Recoverable R points before) rules.Raised := by
  refine (insert_places hR hs.ranked (hcovers p hp)
    fun q hq => hcovers q (hs.maxima_mem q hq)).mono ?_
  rintro _ _ ⟨front, back, hmaxima, hfront, hback, rfl⟩
  have hranked := hs.ranked
  have hmem := hs.maxima_mem
  have hundo := hs.undo
  simp only [rollback, hmaxima] at hranked hmem hundo
  -- an entry in front outranks the point, so it is not another entry of the same point
  have hother : ∀ x ∈ front, ¬ x.same p := by
    intro x hx hsame
    obtain rfl := hknown x (hmem x (List.mem_append_left _ hx)) p hp hsame
    exact irrefl_of R.Outranks x (hfront x hx)
  refine ⟨?_, ?_, hs.doomed_mem, ?_⟩
  · exact pairwise_insert hranked
      (fun x hx hpx => irrefl_of R.Outranks x ((hfront x hx).trans hpx)) hback
  · intro x hx
    rcases List.mem_cons.1 (List.perm_middle.mem_iff.1 hx) with rfl | hx
    · exact hp
    · exact hmem x hx
  · simp only [rollback, List.foldl_cons, MaximaIndex.discard_append hother]
    exact hundo

theorem defer (hs : s.Recoverable R points before) (hp : p ∈ points) :
    (s.defer p).Recoverable R points before where
  ranked := hs.ranked
  maxima_mem := hs.maxima_mem
  doomed_mem := by
    intro q hq
    rcases List.mem_append.1 hq with hq | hq
    · exact hs.doomed_mem q hq
    · rw [List.mem_singleton.1 hq]
      exact hp
  undo := hs.undo

theorem rollback (hranked : R.Ranked before) (hmem : ∀ p ∈ before, p ∈ points)
    (hs : s.Recoverable R points before) : s.rollback.Recoverable R points before where
  ranked := by rwa [hs.undo]
  maxima_mem := by rwa [hs.undo]
  doomed_mem := hs.doomed_mem
  undo := hs.undo

/-- One request. -/
theorem run (hR : rules.Follow R) (hcovers : ∀ q ∈ points, R.Covers q) (hknown : Known points)
    (hranked : R.Ranked before) (hbefore : ∀ p ∈ before, p ∈ points)
    (hs : s.Recoverable R points before)
    {request : Request} (hrequest : ∀ p ∈ request.points, p ∈ points) :
    (request.run rules s).Ensures (fun s' _ => s'.Recoverable R points before)
      (fun _ _ => True) := by
  cases request with
  | insert p =>
      exact fun host =>
        (hs.insert hR hcovers hknown (hrequest p (by simp [Request.points])) host).imp
        (fun _ _ h => h) fun _ _ _ => trivial
  | defer p =>
      exact .pure fun _ => hs.defer (hrequest p (by simp [Request.points]))
  | prepare =>
      exact (any_ensures _).map fun _ _ _ => ⟨hs.ranked, hs.maxima_mem, hs.doomed_mem, hs.undo⟩
  | rollback =>
      exact .pure fun _ => hs.rollback hranked hbefore

/-- Requests in turn. They never fail as a whole. -/
theorem serve (hR : rules.Follow R) (hcovers : ∀ q ∈ points, R.Covers q) (hknown : Known points)
    (hranked : R.Ranked before) (hbefore : ∀ p ∈ before, p ∈ points) (requests : List Request)
    (hs : s.Recoverable R points before)
    (hrequests : ∀ p ∈ requests.flatMap Request.points, p ∈ points) :
    (serve rules requests s).Ensures (fun s' _ => s'.Recoverable R points before)
      (fun _ _ => False) := by
  induction requests generalizing s with
  | nil =>
      exact .pure fun _ => hs
  | cons request requests ih =>
      rw [List.flatMap_cons] at hrequests
      have hrest : ∀ p ∈ requests.flatMap Request.points, p ∈ points :=
        fun p hp => hrequests p (List.mem_append_right _ hp)
      have hrun := hs.run hR hcovers hknown hranked hbefore fun p hp =>
        hrequests p (List.mem_append_left _ hp)
      intro host
      rw [Staging.serve]
      exact (hrun host).settle_bind (fun s' t hs' => ih hs' hrest t) fun _ t _ => ih hs hrest t

end Recoverable

/-- What any requests lead to from maxima in order. -/
theorem serve_recoverable (hR : rules.Follow R) {maxima : List Point} (hranked : R.Ranked maxima)
    (requests : List Request)
    (hcovers : ∀ p ∈ maxima ++ requests.flatMap Request.points, R.Covers p)
    (hknown : Known (maxima ++ requests.flatMap Request.points)) :
    (serve rules requests (start maxima)).Ensures
      (fun s _ => s.Recoverable R (maxima ++ requests.flatMap Request.points) maxima)
      (fun _ _ => False) := by
  have hmaxima : ∀ p ∈ maxima, p ∈ maxima ++ requests.flatMap Request.points :=
    fun p hp => List.mem_append_left _ hp
  exact (Recoverable.start hranked hmaxima).serve hR hcovers hknown hranked hmaxima requests
    fun p hp => List.mem_append_right _ hp

/-- However many requests were served and however many of them failed, a rollback gives back the
entries of the beginning in their order and forgets all insertions. It asks no rules for
anything. -/
theorem rollback_restores (hR : rules.Follow R) {maxima : List Point} (hranked : R.Ranked maxima)
    (requests : List Request)
    (hcovers : ∀ p ∈ maxima ++ requests.flatMap Request.points, R.Covers p)
    (hknown : Known (maxima ++ requests.flatMap Request.points)) (host : σ) :
    ∃ s host', serve rules requests (start maxima) host = .ok s host' ∧
      ∀ (others : Rules σ) (later : σ),
        Request.rollback.run others s later = .ok
          { s with maxima := maxima, inserted := [] } later := by
  have hserve := serve_recoverable hR hranked requests hcovers hknown
  obtain ⟨s, host', hrun⟩ := (hserve host).exists_ok fun _ _ h => h
  refine ⟨s, host', hrun, fun others later => ?_⟩
  have hs : s.rollback = { s with maxima := maxima, inserted := [] } := by
    rw [← (hserve.ok hrun).undo, rollback]
  rw [← hs]
  rfl

/-! ## Tied points -/

/-- Falling values at rising arguments. Points between two tens are tied. -/
def weakPoint (n : Nat) : Point where
  id := n
  argumentCell := { id := 2 * n, payload := .weak n }
  valueCell := { id := 2 * n + 1, payload := .weak (100 - n) }

theorem weakPoint_covers (ns : List Nat) :
    ∀ p ∈ ns.map weakPoint, Rankings.Covers ⟨.tens, .tens⟩ p := by
  intro p hp
  obtain ⟨n, _, rfl⟩ := List.mem_map.1 hp
  exact ⟨⟨_, rfl⟩, ⟨_, rfl⟩⟩

theorem weakPoint_known (ns : List Nat) : Known (ns.map weakPoint) := by
  intro p hp q hq hsame
  obtain ⟨m, _, rfl⟩ := List.mem_map.1 hp
  obtain ⟨n, _, rfl⟩ := List.mem_map.1 hq
  obtain rfl : m = n := by simpa [Point.same, weakPoint] using hsame
  rfl

def weakMaxima : List Point :=
  [5, 11, 13, 24].map weakPoint

theorem weakMaxima_ranked : Rankings.Ranked ⟨.tens, .tens⟩ weakMaxima := by
  simp only [Rankings.Ranked, Rankings.Outranks, Ranking.tens, Tied]
  decide +kernel

/-- One of the entries is put in once more, and a point that is tied with it twice. -/
def weakRequests : List Request :=
  [.insert (weakPoint 13), .insert (weakPoint 15), .defer (weakPoint 11),
   .insert (weakPoint 15), .prepare,
   .insert (weakPoint 12), .defer (weakPoint 24)]

/-- Here the last insertion fails, at the fifteenth comparison of values. -/
def weakHost : Surroundings :=
  { meters := [{}, { countdown := some 14 }] }

theorem rollback_restores_weak :
    ((serve .metered weakRequests (start weakMaxima)).outcome weakHost).toOption.map
      (fun r => (r.1.maxima.map Point.id, r.1.inserted.map Point.id)) =
        some ([5, 15, 15, 13, 11, 13, 24], [15, 15, 13]) ∧
    ∃ s host', serve .metered weakRequests (start weakMaxima) weakHost = .ok s host' ∧
      ∀ (others : Rules Surroundings) (later : Surroundings),
        Request.rollback.run others s later = .ok
          { s with maxima := weakMaxima, inserted := [] } later := by
  refine ⟨by decide +kernel, rollback_restores Rules.metered_follow weakMaxima_ranked _ ?_ ?_ _⟩
  · exact weakPoint_covers [5, 11, 13, 24, 13, 15, 11, 15, 12, 24]
  · exact weakPoint_known [5, 11, 13, 24, 13, 15, 11, 15, 12, 24]

end Staging
end Peaks
