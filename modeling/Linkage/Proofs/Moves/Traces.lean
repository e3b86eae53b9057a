import Linkage.Proofs.Moves.Courses

/-!
# What the tracker remembers

Moving a place out takes everything below it off the list, and with it the moves that were made there before. Nothing
is lost by that: a write that makes the larger place usable again does so for the smaller one too. What can be asked
of the tracker passes from a place to those above it, so it is answered as if the tracker had kept every move.
-/

namespace Linkage

namespace MoveTracker

variable {t : MoveTracker} {es : List Event} {p q : Place} {policy : BranchPolicy}

/-! ### What is listed and what is gone -/

theorem dangling_of_mem_places (h : q ∈ (afterAll { policy } es).places) : Dangling q es := by
  rcases mem_places_afterAll h with ⟨hnone, -⟩ | hdangling
  · exact absurd hnone List.not_mem_nil
  · exact hdangling

/-- A property that passes from a place to those above it holds of something that is listed if it holds of something
that is gone: what is gone is listed, or something above it is. -/
theorem exists_moved_afterAll_iff {P : Place → Prop} (hup : ∀ p q, p.within q = true → P p → P q) :
    (∃ m ∈ (afterAll { policy } es).moved, P m.place) ↔ ∃ q, Dangling q es ∧ P q := by
  constructor
  · rintro ⟨m, hm, hP⟩
    exact ⟨m.place, dangling_of_mem_places (List.mem_map_of_mem hm), hP⟩
  · rintro ⟨p, hdangling, hP⟩
    obtain ⟨m, hm, hwithin⟩ := covers_iff.1 (covers_afterAll_of_dangling { policy } hdangling)
    exact ⟨m, hm, hup p m.place hwithin hP⟩

theorem gone_afterAll_iff :
    (afterAll { policy } es).gone p = true ↔ ∃ q, Dangling q es ∧ q.overlaps p = true := by
  rw [gone_iff]
  exact exists_moved_afterAll_iff (P := fun q => q.overlaps p = true)
    fun _ _ hwithin => Place.overlaps_of_within hwithin

theorem movedFrom_afterAll_iff {d : DeclId} :
    (afterAll { policy } es).movedFrom d = true ↔ ∃ q, Dangling q es ∧ q.root = d := by
  simp only [movedFrom, List.any_eq_true, beq_iff_eq]
  apply exists_moved_afterAll_iff (P := fun q => q.root = d)
  intro p q hwithin hroot
  rw [Place.within, Bool.and_eq_true, beq_iff_eq] at hwithin
  exact hwithin.1.symm.trans hroot

/-! ### Nothing is listed twice -/

theorem nodup_after (h : t.places.Nodup) (e : Event) : (t.after e).places.Nodup := by
  have hkept : ∀ p : Place, ((t.moved.filter (!·.place.within p)).map (·.place)).Nodup :=
    fun p => h.sublist (List.filter_sublist.map _)
  cases e with
  | moved p span =>
    rw [after, places, moved_move, List.map_append, List.nodup_append]
    refine ⟨hkept p, List.pairwise_singleton _ _, ?_⟩
    rintro q hq _ hp rfl
    obtain ⟨m, hm, rfl⟩ := List.mem_map.1 hq
    have hout := (List.mem_filter.1 hm).2
    rw [List.mem_singleton.1 hp, Place.within_refl] at hout
    contradiction
  | written p => exact hkept p
  | read => exact h
  | passing => exact h
  | returned => exact h

theorem nodup_afterAll (h : t.places.Nodup) (es : List Event) : (t.afterAll es).places.Nodup := by
  induction es generalizing t with
  | nil => exact h
  | cons e es ih => exact ih (nodup_after h e)

/-- After any moves and writes from an empty list on, a read of a place is refused exactly if some place that shares
storage with it was moved out and is not written to afterwards, as a whole or as part of a larger one, and a local
counts as moved out of exactly if such a place belongs to it. No place is listed twice. -/
theorem afterAll_remembers (policy : BranchPolicy) (es : List Event) :
    (∀ p, ((afterAll { policy } es).movedAt? p).isSome = true ↔ ∃ q, Dangling q es ∧ q.overlaps p = true) ∧
      (∀ d, (afterAll { policy } es).movedFrom d = true ↔ ∃ q, Dangling q es ∧ q.root = d) ∧
      ((afterAll { policy } es).moved.map (·.place)).Nodup :=
  ⟨fun _ => gone_afterAll_iff, fun _ => movedFrom_afterAll_iff, nodup_afterAll (t := { policy }) List.Pairwise.nil es⟩

end MoveTracker

end Linkage
