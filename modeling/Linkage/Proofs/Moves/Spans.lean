import Linkage.Proofs.Moves.Intersection
import Linkage.Proofs.Moves.Paths

/-!
# Spans have no say

The tracker keeps the span of every move, to be reported later. There is one place where it compares them. A place that
was listed before a branch and is moved again in an arm counts as moved by the arm, unless it was moved at the very same
span. What an arm lists of such places has no effect when the branch is closed, since whatever shares storage with them
is gone already. So a run of the tracker can be followed without any spans: leaving them out before the run comes to the
same as leaving them out after it.
-/

namespace Linkage

/-! ### Runs of the tracker -/

inductive MoveCall where
  | move (p : Place) (span : Span)
  | reinit (p : Place)
  | beginBranch
  | endArm
  | endBranch (exhaustive : Bool)
  deriving DecidableEq, Repr

/-- The number of open branches after the call. There has to be one for an arm or a branch to end. -/
def MoveCall.depth? : Nat → MoveCall → Option Nat
  | n, .move _ _ | n, .reinit _ => some n
  | n, .beginBranch => some (n + 1)
  | n + 1, .endArm => some (n + 1)
  | n + 1, .endBranch _ => some n
  | 0, .endArm | 0, .endBranch _ => none

/-- Arms and branches end only where a branch is open. -/
def WellNested (calls : List MoveCall) : Prop := (calls.foldlM MoveCall.depth? 0).isSome = true

instance (calls : List MoveCall) : Decidable (WellNested calls) := inferInstanceAs (Decidable (_ = true))

/-- A tracker and the branches that are open, the innermost in front. -/
structure Tracking where
  tracker : MoveTracker
  branches : List Branch := []
  deriving DecidableEq, Repr

namespace Tracking

def step : Tracking → MoveCall → Option Tracking
  | ⟨t, bs⟩, .move p span => some ⟨t.move p span, bs⟩
  | ⟨t, bs⟩, .reinit p => some ⟨t.reinit p, bs⟩
  | ⟨t, bs⟩, .beginBranch => some ⟨t, t.beginBranch :: bs⟩
  | ⟨t, b :: bs⟩, .endArm => some ⟨(t.endArm b).1, (t.endArm b).2 :: bs⟩
  | ⟨t, b :: bs⟩, .endBranch exhaustive => some ⟨t.endBranch b exhaustive, bs⟩
  | ⟨_, []⟩, .endArm | ⟨_, []⟩, .endBranch _ => none

def run (s : Tracking) (calls : List MoveCall) : Option Tracking := calls.foldlM step s

/-- A view of the state that can be followed from one call to the next can be followed through a run. -/
theorem run_view {σ : Type} {view : Tracking → σ} (seen : MoveCall → MoveCall) {next : σ → MoveCall → Option σ}
    (hstep : ∀ s c, (step s c).map view = next (view s) (seen c)) (s : Tracking) (calls : List MoveCall) :
    (s.run calls).map view = (calls.map seen).foldlM next (view s) := by
  induction calls generalizing s with
  | nil => rfl
  | cons c calls ih =>
    rw [run, List.foldlM_cons, List.map_cons, List.foldlM_cons, ← hstep]
    cases s.step c with
    | none => rfl
    | some s' => exact ih s'

theorem depth?_step (s : Tracking) (c : MoveCall) :
    (s.step c).map (·.branches.length) = c.depth? s.branches.length := by
  obtain ⟨t, _ | ⟨b, bs⟩⟩ := s
  · cases c <;> rfl
  · cases c <;> rfl

theorem isSome_run (t : MoveTracker) {calls : List MoveCall} (h : WellNested calls) :
    (run ⟨t, []⟩ calls).isSome = true := by
  have hdepth := run_view id depth?_step ⟨t, []⟩ calls
  rw [← Option.isSome_map, hdepth, List.map_id]
  exact h

end Tracking

theorem WellNested.take {calls : List MoveCall} (h : WellNested calls) (n : Nat) : WellNested (calls.take n) := by
  rw [WellNested, ← List.take_append_drop n calls, List.foldlM_append] at h
  rw [WellNested]
  cases hfront : (calls.take n).foldlM MoveCall.depth? 0 with
  | none => simp [hfront] at h
  | some depth => rfl

/-! ### Places that were listed before the branch -/

namespace Branch

open MoveTracker

variable {b : Branch} {t : MoveTracker} {m : MovedPlace} {p : Place}

def listed (b : Branch) (m : MovedPlace) : Bool := (b.before.map (·.place)).contains m.place

/-- What the arms moved, less the places that were listed before. -/
def fresh (b : Branch) : Branch :=
  { b with arms := b.arms.map fun arm => ⟨arm.places.filter fun m => !b.listed m⟩ }

theorem gone_of_listed (h : b.listed m = true) (hwithin : p.within m.place = true) :
    (t.restore b.before).gone p = true := by
  rw [listed, List.contains_iff_mem] at h
  obtain ⟨n, hn, hplace⟩ := List.mem_map.1 h
  refine gone_iff.2 ⟨n, hn, ?_⟩
  rw [hplace, Place.overlaps, hwithin, Bool.or_true]

theorem covers_fresh (hgone : (t.restore b.before).gone p = false) (arm : ArmMoves) :
    ArmMoves.covers ⟨arm.places.filter fun m => !b.listed m⟩ p = arm.covers p := by
  rw [ArmMoves.covers, ArmMoves.covers, List.any_filter]
  congr 1
  funext m
  cases hlisted : b.listed m with
  | false => rfl
  | true =>
    cases hwithin : p.within m.place with
    | false => rfl
    | true =>
      rw [gone_of_listed hlisted hwithin] at hgone
      contradiction

theorem common_fresh (t : MoveTracker) (b : Branch) :
    (common b.fresh).filter (fun m => !(t.restore b.before).gone m.place) =
      (common b).filter fun m => !(t.restore b.before).gone m.place := by
  have hplaces : b.fresh.arms.flatMap (·.places) = (b.arms.flatMap (·.places)).filter fun m => !b.listed m := by
    rw [fresh, List.flatMap_map, List.filter_flatMap]
  rw [common, common, hplaces, List.filter_filter, List.filter_filter, List.filter_filter]
  refine List.filter_congr fun m _ => ?_
  cases hgone : (t.restore b.before).gone m.place with
  | true => rfl
  | false =>
    have hlisted : b.listed m = false := by
      cases hlisted : b.listed m with
      | false => rfl
      | true => rw [← hgone, gone_of_listed hlisted (Place.within_refl _)]
    have hcovers : b.fresh.arms.all (·.covers m.place) = b.arms.all (·.covers m.place) := by
      rw [fresh, List.all_map]
      exact congrArg b.arms.all (funext fun arm => covers_fresh hgone arm)
    rw [hcovers, hlisted]
    simp

theorem gone_moveFresh (h : t.gone p = true) : (t.moveFresh m).gone p = true := by
  obtain ⟨n, hn, hoverlaps⟩ := gone_iff.1 h
  have hcovers : t.covers n.place = true := MoveTracker.covers_iff.2 ⟨n, hn, Place.within_refl _⟩
  obtain ⟨k, hk, hwithin⟩ := MoveTracker.covers_iff.1 (covers_moveFresh (m := m) hcovers)
  exact gone_iff.2 ⟨k, hk, Place.overlaps_of_within hwithin hoverlaps⟩

/-- Places that are gone at the start are passed over. -/
theorem foldl_moveFresh_filter (start : MoveTracker) (hstart : ∀ p, start.gone p = true → t.gone p = true)
    (places : List MovedPlace) :
    (places.filter fun m => !start.gone m.place).foldl moveFresh t = places.foldl moveFresh t := by
  induction places generalizing t with
  | nil => rfl
  | cons m places ih =>
    have hnext := ih (t := t.moveFresh m) fun p hp => gone_moveFresh (hstart p hp)
    cases hgone : start.gone m.place with
    | false => simpa [hgone] using hnext
    | true =>
      have hstays : t.moveFresh m = t := by
        rcases moveFresh_cases t m with ⟨hthere, -⟩ | ⟨-, heq⟩
        · rw [hstart _ hgone] at hthere
          contradiction
        · exact heq
      rw [hstays] at hnext
      simpa [hgone, hstays] using hnext

/-- What the arms list of the places that were listed before has no effect when the branch is closed. -/
theorem endBranch_fresh (t : MoveTracker) (b : Branch) (exhaustive : Bool) :
    t.endBranch b.fresh exhaustive = t.endBranch b exhaustive := by
  have hfold : (common b.fresh).foldl moveFresh (t.restore b.before) =
      (common b).foldl moveFresh (t.restore b.before) := by
    rw [← foldl_moveFresh_filter (t.restore b.before) fun _ h => h, common_fresh,
      foldl_moveFresh_filter _ fun _ h => h]
  show (if _ then (common b.fresh).foldl moveFresh (t.restore b.before) else t.restore b.before) = _
  rw [hfold]
  rfl

end Branch

/-! ### Leaving the spans out -/

def MovedPlace.bare (m : MovedPlace) : MovedPlace := { m with span := {} }

def MoveTracker.bare (t : MoveTracker) : MoveTracker := { t with moved := t.moved.map (·.bare) }

/-- The branch without spans, and without what they could decide. -/
def Branch.bare (b : Branch) : Branch where
  before := b.before.map (·.bare)
  arms := b.fresh.arms.map fun arm => ⟨arm.places.map (·.bare)⟩

def MoveCall.bare : MoveCall → MoveCall
  | .move p _ => .move p {}
  | c => c

def Tracking.bare (s : Tracking) : Tracking := ⟨s.tracker.bare, s.branches.map (·.bare)⟩

namespace MoveTracker

theorem bare_move (t : MoveTracker) (p : Place) (span : Span) : (t.move p span).bare = t.bare.move p {} := by
  simp [bare, move, MovedPlace.bare, List.filter_map, Function.comp_def]

theorem bare_reinit (t : MoveTracker) (p : Place) : (t.reinit p).bare = t.bare.reinit p := by
  simp [bare, reinit, MovedPlace.bare, List.filter_map, Function.comp_def]

theorem bare_moveFresh (t : MoveTracker) (m : MovedPlace) : (t.moveFresh m).bare = t.bare.moveFresh m.bare := by
  have hgone : (t.bare.movedAt? m.place).isNone = (t.movedAt? m.place).isNone := by
    simp [bare, movedAt?, MovedPlace.bare, List.find?_map, Function.comp_def]
  show _ = if (t.bare.movedAt? m.place).isNone then t.bare.move m.place {} else t.bare
  rw [hgone, moveFresh, apply_ite bare, bare_move]

theorem bare_foldl_moveFresh (t : MoveTracker) (places : List MovedPlace) :
    (places.foldl moveFresh t).bare = (places.map (·.bare)).foldl moveFresh t.bare := by
  induction places generalizing t with
  | nil => rfl
  | cons m places ih => rw [List.foldl_cons, ih, bare_moveFresh, List.map_cons, List.foldl_cons]

theorem common_bare (b : Branch) : common b.bare = (common b.fresh).map (·.bare) := by
  have hcovers : ∀ (arm : ArmMoves) p, ArmMoves.covers ⟨arm.places.map (·.bare)⟩ p = arm.covers p := by
    intro arm p
    rw [ArmMoves.covers, List.any_map]
    rfl
  simp only [common, Branch.bare, List.flatMap_map, List.all_map, Function.comp_def, hcovers, ← List.map_flatMap,
    List.filter_map]
  rfl

theorem bare_endBranch (t : MoveTracker) (b : Branch) (exhaustive : Bool) :
    (t.endBranch b exhaustive).bare = t.bare.endBranch b.bare exhaustive := by
  rw [← Branch.endBranch_fresh, endBranch, apply_ite bare, bare_foldl_moveFresh, ← common_bare]
  rfl

theorem bare_endArm (t : MoveTracker) (b : Branch) : (t.endArm b).2.bare = (t.bare.endArm b.bare).2 := by
  have hlisted : ∀ m : MovedPlace, (b.before.map (·.bare)).contains m.bare = b.listed m := by
    intro m
    rw [Branch.listed, Bool.eq_iff_iff]
    simp [MovedPlace.bare]
  have harm : ((t.moved.filter fun m => !b.before.contains m).filter fun m => !b.listed m) =
      t.moved.filter fun m => !b.listed m := by
    rw [List.filter_filter]
    refine List.filter_congr fun m _ => ?_
    cases hm : b.before.contains m with
    | false => simp
    | true =>
      have hplace : b.listed m = true :=
        List.contains_iff_mem.2 (List.mem_map_of_mem (List.contains_iff_mem.1 hm))
      simp [hplace]
  simp only [endArm, Branch.bare, Branch.fresh, bare, List.map_append, List.map_cons, List.map_nil, List.filter_map,
    Function.comp_def, hlisted]
  rw [← harm]
  rfl

end MoveTracker

namespace Tracking

theorem bare_step (s : Tracking) (c : MoveCall) : (s.step c).map bare = s.bare.step c.bare := by
  obtain ⟨t, bs⟩ := s
  cases c with
  | move p span => simp only [step, Option.map_some, bare, MoveCall.bare, MoveTracker.bare_move]
  | reinit p => simp only [step, Option.map_some, bare, MoveCall.bare, MoveTracker.bare_reinit]
  | beginBranch => rfl
  | endArm =>
    cases bs with
    | nil => rfl
    | cons b bs =>
      simp only [step, Option.map_some, bare, MoveCall.bare, List.map_cons, MoveTracker.bare_endArm]
      rfl
  | endBranch exhaustive =>
    cases bs with
    | nil => rfl
    | cons b bs => simp only [step, Option.map_some, bare, MoveCall.bare, List.map_cons, MoveTracker.bare_endBranch]

/-- A run without spans is the run with spans, with the spans left out. -/
theorem bare_run (s : Tracking) (calls : List MoveCall) : (s.run calls).map bare = s.bare.run (calls.map (·.bare)) :=
  run_view (·.bare) bare_step s calls

end Tracking

namespace MoveTracker

variable {t t' : MoveTracker}

theorem places_eq_of_bare (h : t.bare = t'.bare) : t.places = t'.places := by
  have hplaces : ∀ t : MoveTracker, t.bare.places = t.places := by
    intro t
    rw [places, bare, List.map_map]
    rfl
  rw [← hplaces t, h, hplaces t']

theorem any_moved_eq (h : t.places = t'.places) (P : Place → Bool) :
    t.moved.any (fun m => P m.place) = t'.moved.any fun m => P m.place := by
  have hplaces : ∀ t : MoveTracker, t.places.any P = t.moved.any fun m => P m.place := fun t => List.any_map
  rw [← hplaces, h, hplaces]

/-- Two runs of the same calls, from the same tracker on and well nested, that differ only in the spans of moves: both
go through, and after any number of calls the same places are listed in the same order. So the same reads are refused,
and the same locals count as moved out of. -/
theorem spans_never_decide (t : MoveTracker) (calls calls' : List MoveCall)
    (hspans : calls.map (·.bare) = calls'.map (·.bare)) (hnested : WellNested calls) (n : Nat) :
    ∃ s s', Tracking.run ⟨t, []⟩ (calls.take n) = some s ∧ Tracking.run ⟨t, []⟩ (calls'.take n) = some s' ∧
      s.tracker.moved.map (·.place) = s'.tracker.moved.map (·.place) ∧
      (∀ p, (s.tracker.movedAt? p).isSome = (s'.tracker.movedAt? p).isSome) ∧
      ∀ d, s.tracker.movedFrom d = s'.tracker.movedFrom d := by
  have hbare : (Tracking.run ⟨t, []⟩ (calls.take n)).map Tracking.bare =
      (Tracking.run ⟨t, []⟩ (calls'.take n)).map Tracking.bare := by
    rw [Tracking.bare_run, Tracking.bare_run, List.map_take, List.map_take, hspans]
  obtain ⟨s, hs⟩ := Option.isSome_iff_exists.1 (Tracking.isSome_run t (hnested.take n))
  rw [hs, Option.map_some] at hbare
  obtain ⟨s', hs', hsame⟩ := Option.map_eq_some_iff.1 hbare.symm
  have hplaces : s.tracker.places = s'.tracker.places :=
    places_eq_of_bare (congrArg Tracking.tracker hsame.symm)
  refine ⟨s, s', hs, hs', hplaces, fun p => ?_, fun d => any_moved_eq hplaces (·.root == d)⟩
  rw [movedAt?_isSome, movedAt?_isSome]
  exact any_moved_eq hplaces (·.overlaps p)

/-- A binding is moved before the branch and moved again in the first arm, which moves another one too. The second arm
moves a field of the first binding and the other one as a whole. -/
def movedAgain (span : Span) : List MoveCall :=
  [.move { root := ⟨0⟩ } ⟨1, 2⟩, .beginBranch, .move { root := ⟨0⟩ } span, .move { root := ⟨1⟩ } ⟨3, 4⟩, .endArm,
    .reinit { root := ⟨0⟩ }, .move { root := ⟨0⟩, path := ["f"] } ⟨5, 6⟩, .move { root := ⟨1⟩ } ⟨7, 8⟩, .endArm,
    .endBranch true]

/-- The first arm lists the binding only if it is moved at another span. The places are the same all along. -/
theorem spans_never_decide_movedAgain :
    let after := fun span n => Tracking.run ⟨{ policy := .intersect }, []⟩ ((movedAgain span).take n)
    (after ⟨1, 2⟩ 5).map (·.branches) ≠ (after ⟨9, 9⟩ 5).map (·.branches) ∧
      ∀ n, ∃ s s', after ⟨1, 2⟩ n = some s ∧ after ⟨9, 9⟩ n = some s' ∧
        s.tracker.moved.map (·.place) = s'.tracker.moved.map (·.place) := by
  refine ⟨by decide, fun n => ?_⟩
  obtain ⟨s, s', hs, hs', hplaces, -⟩ :=
    spans_never_decide { policy := .intersect } (movedAgain ⟨1, 2⟩) (movedAgain ⟨9, 9⟩) rfl (by decide) n
  exact ⟨s, s', hs, hs', hplaces⟩

end MoveTracker

end Linkage
