import Linkage.Proofs.Moves.Flow

/-!
# What stays moved after the arms

Under the policy that intersects, the lowest of the places that all arms of an exhaustive branch cover are moved one
after the other when it is closed, as long as nothing that shares storage with them is gone already. That condition is
too strong in two cases. A part of the place may have been moved out before the branch, and an arm may list a place
together with a part of it, so that the part is moved first. Branches in which neither happens are called
unobstructed, and for them the covered places are exactly those that were covered before and those that all arms
cover.
-/

namespace Linkage

variable {b : Branch} {m n : MovedPlace} {p : Place}

namespace ArmMoves

theorem covers_iff {arm : ArmMoves} : arm.covers p = true ↔ ∃ m ∈ arm.places, p.within m.place = true := by
  simp [covers]

theorem covers_of_within {arm : ArmMoves} {q : Place} (h : arm.covers p = true) (hwithin : q.within p = true) :
    arm.covers q = true := by
  obtain ⟨m, hm, hp⟩ := covers_iff.1 h
  exact covers_iff.2 ⟨m, hm, Place.within_trans hwithin hp⟩

end ArmMoves

theorem Place.eq_of_within {q : Place} (hpq : p.within q = true) (hqp : q.within p = true) : p = q := by
  obtain ⟨root, path⟩ := p
  obtain ⟨root', path'⟩ := q
  simp only [within, Bool.and_eq_true, beq_iff_eq, List.isPrefixOf_iff_prefix] at hpq hqp
  have hpath : path = path' := hqp.2.eq_of_length_le hpq.2.length_le
  rw [hpq.1, hpath]

namespace MoveTracker

/-- The place has been moved out, by itself or as part of a larger one. -/
def covers (t : MoveTracker) (p : Place) : Bool := t.moved.any fun m => p.within m.place

variable {t : MoveTracker} {p q : Place} {m : MovedPlace} {places : List MovedPlace}

theorem covers_iff : t.covers p = true ↔ ∃ m ∈ t.moved, p.within m.place = true := by
  simp [covers]

theorem covers_of_within (h : t.covers p = true) (hwithin : q.within p = true) : t.covers q = true := by
  obtain ⟨m, hm, hp⟩ := covers_iff.1 h
  exact covers_iff.2 ⟨m, hm, Place.within_trans hwithin hp⟩

/-! ### Moving what is still there -/

theorem moveFresh_cases (t : MoveTracker) (m : MovedPlace) :
    (t.gone m.place = false ∧ t.moveFresh m = t.move m.place m.span) ∨
      (t.gone m.place = true ∧ t.moveFresh m = t) := by
  unfold moveFresh gone
  cases hat : t.movedAt? m.place with
  | none => exact .inl ⟨rfl, rfl⟩
  | some span => exact .inr ⟨rfl, rfl⟩

theorem mem_moveFresh (h : n ∈ (t.moveFresh m).moved) : n ∈ t.moved ∨ n = m := by
  rcases moveFresh_cases t m with ⟨-, heq⟩ | ⟨-, heq⟩
  · rw [heq, moved_move, List.mem_append, List.mem_filter, List.mem_singleton] at h
    rcases h with ⟨hn, -⟩ | rfl
    · exact .inl hn
    · exact .inr rfl
  · rw [heq] at h
    exact .inl h

theorem covers_moveFresh (h : t.covers p = true) : (t.moveFresh m).covers p = true := by
  rcases moveFresh_cases t m with ⟨-, heq⟩ | ⟨-, heq⟩
  · rw [heq]
    apply covers_iff.2
    exact exists_moved_after (e := .moved m.place m.span) (covers_iff.1 h) nofun
  · rwa [heq]

theorem covers_moveFresh_self
    (hbelow : ∀ n ∈ t.moved, n.place.within m.place = true → t.covers m.place = true) :
    (t.moveFresh m).covers m.place = true := by
  rcases moveFresh_cases t m with ⟨-, heq⟩ | ⟨hgone, heq⟩
  · rw [heq]
    apply covers_iff.2
    exact ⟨m, List.mem_append_right _ List.mem_cons_self, Place.within_refl _⟩
  · rw [heq]
    obtain ⟨n, hn, hoverlaps⟩ := gone_iff.1 hgone
    rw [Place.overlaps, Bool.or_eq_true] at hoverlaps
    rcases hoverlaps with hwithin | hwithin
    · exact hbelow n hn hwithin
    · exact covers_iff.2 ⟨n, hn, hwithin⟩

theorem covers_foldl_moveFresh (h : t.covers p = true) : (places.foldl moveFresh t).covers p = true := by
  induction places generalizing t with
  | nil => exact h
  | cons m places ih => exact ih (covers_moveFresh h)

theorem mem_foldl_moveFresh (h : n ∈ (places.foldl moveFresh t).moved) : n ∈ t.moved ∨ n ∈ places := by
  induction places generalizing t with
  | nil => exact .inl h
  | cons m places ih =>
    rcases ih h with hn | hn
    · rcases mem_moveFresh hn with hn | rfl
      · exact .inl hn
      · exact .inr List.mem_cons_self
    · exact .inr (List.mem_cons_of_mem _ hn)

/-- Places none of which is a part of another are all covered afterwards, unless one was left alone for the sake
of a part of it that was gone before. -/
theorem covers_of_mem_foldl_moveFresh
    (hapart : ∀ m ∈ places, ∀ n ∈ places, n.place.within m.place = true → n.place = m.place)
    (hbelow : ∀ m ∈ places, ∀ n ∈ t.moved, n.place.within m.place = true → t.covers m.place = true)
    (hm : m ∈ places) : (places.foldl moveFresh t).covers m.place = true := by
  induction places generalizing t with
  | nil => exact absurd hm List.not_mem_nil
  | cons first places ih =>
    rw [List.foldl_cons]
    have hfirst : (t.moveFresh first).covers first.place = true :=
      covers_moveFresh_self (hbelow first List.mem_cons_self)
    rcases List.mem_cons.1 hm with rfl | hm
    · exact covers_foldl_moveFresh hfirst
    · apply ih
      · intro k hk n hn
        exact hapart k (List.mem_cons_of_mem _ hk) n (List.mem_cons_of_mem _ hn)
      · intro k hk n hn hwithin
        rcases mem_moveFresh hn with hn | rfl
        · exact covers_moveFresh (hbelow k (List.mem_cons_of_mem _ hk) n hn hwithin)
        · have heq := hapart k (List.mem_cons_of_mem _ hk) n List.mem_cons_self hwithin
          rwa [← heq]
      · exact hm

end MoveTracker

/-! ### Places that all arms cover -/

namespace Branch

open MoveTracker

theorem mem_common : m ∈ common b ↔ (∃ arm ∈ b.arms, m ∈ arm.places) ∧ ∀ arm ∈ b.arms, arm.covers m.place = true := by
  simp [common]

/-- What all arms cover lies within a place that some arm lists and all arms cover: the lowest of the places
that the arms list above it. -/
theorem exists_common (hne : b.arms ≠ []) {c : Place} (h : ∀ arm ∈ b.arms, arm.covers c = true) :
    ∃ m ∈ common b, c.within m.place = true := by
  suffices hlowest : ∀ arms : List ArmMoves, arms ≠ [] → (∀ arm ∈ arms, arm.covers c = true) →
      ∃ m, c.within m.place = true ∧ (∃ arm ∈ arms, m ∈ arm.places) ∧ ∀ arm ∈ arms, arm.covers m.place = true by
    obtain ⟨m, hwithin, hcommon⟩ := hlowest b.arms hne h
    exact ⟨m, mem_common.2 hcommon, hwithin⟩
  intro arms hne h
  induction arms with
  | nil => exact absurd rfl hne
  | cons first arms ih =>
    obtain ⟨n, hn, hcn⟩ := ArmMoves.covers_iff.1 (h first List.mem_cons_self)
    have hlisted : first.covers n.place = true := ArmMoves.covers_iff.2 ⟨n, hn, Place.within_refl _⟩
    by_cases hrest : arms = []
    · subst hrest
      refine ⟨n, hcn, ⟨first, List.mem_cons_self, hn⟩, ?_⟩
      intro arm harm
      rwa [List.mem_singleton.1 harm]
    · obtain ⟨m, hcm, ⟨arm, harm, hm⟩, hcovers⟩ := ih hrest fun arm harm => h arm (List.mem_cons_of_mem _ harm)
      -- both lie above the same place, so one of them is the lower
      have hoverlaps : m.place.overlaps n.place = true := by
        apply Place.overlaps_of_within hcm
        rw [Place.overlaps, hcn, Bool.true_or]
      rw [Place.overlaps, Bool.or_eq_true] at hoverlaps
      rcases hoverlaps with hmn | hnm
      · refine ⟨m, hcm, ⟨arm, List.mem_cons_of_mem _ harm, hm⟩, ?_⟩
        exact List.forall_mem_cons.2 ⟨ArmMoves.covers_of_within hlisted hmn, hcovers⟩
      · refine ⟨n, hcn, ⟨first, List.mem_cons_self, hn⟩, List.forall_mem_cons.2 ⟨hlisted, ?_⟩⟩
        intro arm harm
        exact ArmMoves.covers_of_within (hcovers arm harm) hnm

structure Unobstructed (b : Branch) : Prop where
  /-- No arm lists a place together with a part of it. -/
  apart : ∀ arm ∈ b.arms, ∀ m ∈ arm.places, ∀ n ∈ arm.places, n.place.within m.place = true → n.place = m.place
  /-- Where a part was gone before the branch, so was the whole. -/
  before : ∀ m ∈ common b, ∀ n ∈ b.before, n.place.within m.place = true →
    ∃ k ∈ b.before, m.place.within k.place = true

theorem Unobstructed.common_apart (h : b.Unobstructed) (hm : m ∈ common b)
    (hn : n ∈ common b) (hwithin : n.place.within m.place = true) : n.place = m.place := by
  obtain ⟨⟨arm, harm, hlisted⟩, -⟩ := mem_common.1 hn
  obtain ⟨k, hk, hmk⟩ := ArmMoves.covers_iff.1 ((mem_common.1 hm).2 arm harm)
  -- the arm that lists the lower place covers the upper one by a place above both
  have hnk : n.place = k.place := h.apart arm harm k hk n hlisted (Place.within_trans hwithin hmk)
  rw [← hnk] at hmk
  exact Place.eq_of_within hwithin hmk

variable {t : MoveTracker} {b : Branch} {c : Place}

theorem endBranch_intersect (hpolicy : t.policy = .intersect) :
    t.endBranch b true = (common b).foldl moveFresh (t.restore b.before) := by
  have hrestore : (t.restore b.before).policy = .intersect := hpolicy
  simp [endBranch, hrestore]

theorem covers_of_endBranch (hpolicy : t.policy = .intersect) (h : (t.endBranch b true).covers c = true) :
    (t.restore b.before).covers c = true ∨ ∀ arm ∈ b.arms, arm.covers c = true := by
  rw [endBranch_intersect hpolicy] at h
  obtain ⟨m, hm, hwithin⟩ := MoveTracker.covers_iff.1 h
  rcases mem_foldl_moveFresh hm with hm | hm
  · exact .inl (MoveTracker.covers_iff.2 ⟨m, hm, hwithin⟩)
  · right
    intro arm harm
    exact ArmMoves.covers_of_within ((mem_common.1 hm).2 arm harm) hwithin

theorem covers_endBranch_of_before (hpolicy : t.policy = .intersect) (h : (t.restore b.before).covers c = true) :
    (t.endBranch b true).covers c = true := by
  rw [endBranch_intersect hpolicy]
  exact covers_foldl_moveFresh h

theorem Unobstructed.covers_endBranch (h : b.Unobstructed) (hpolicy : t.policy = .intersect) (hne : b.arms ≠ [])
    (harms : ∀ arm ∈ b.arms, arm.covers c = true) : (t.endBranch b true).covers c = true := by
  obtain ⟨m, hm, hwithin⟩ := exists_common hne harms
  rw [endBranch_intersect hpolicy]
  apply MoveTracker.covers_of_within _ hwithin
  apply covers_of_mem_foldl_moveFresh _ _ hm
  · intro m hm n hn hwithin
    exact h.common_apart hm hn hwithin
  · intro m hm n hn hwithin
    exact MoveTracker.covers_iff.2 (h.before m hm n hn hwithin)

end Branch

/-! ### Arms of a flow -/

namespace Flow

def armMoves (t : MoveTracker) (arm : List Flow) : ArmMoves :=
  ⟨(runAll arm t).moved.filter fun m => !t.moved.contains m⟩

def branchOf (t : MoveTracker) (arms : List (List Flow)) : Branch := (runArms arms t t.beginBranch).2

theorem arms_runArms (arms : List (List Flow)) (t : MoveTracker) (hbefore : b.before = t.moved) :
    (runArms arms t b).2.arms = b.arms ++ arms.map (armMoves t) := by
  induction arms generalizing b with
  | nil => rw [runArms, List.map_nil, List.append_nil]
  | cons arm arms ih =>
    have hstart : ((runAll arm t).endArm b).1 = t := by
      obtain ⟨policy, moved⟩ := t
      have hpolicy : (runAll arm ⟨policy, moved⟩).policy = policy := policy_runAll arm _
      simp only at hbefore
      rw [MoveTracker.endArm, MoveTracker.restore, hpolicy, hbefore]
    rw [runArms]
    show (runArms arms ((runAll arm t).endArm b).1 ((runAll arm t).endArm b).2).2.arms = _
    have hnext : ((runAll arm t).endArm b).2.before = t.moved := hbefore
    rw [hstart, ih hnext, MoveTracker.endArm, hbefore, List.map_cons, List.append_assoc]
    rfl

theorem arms_branchOf (t : MoveTracker) (arms : List (List Flow)) :
    (branchOf t arms).arms = arms.map (armMoves t) := by
  rw [branchOf, arms_runArms arms t rfl, MoveTracker.beginBranch, List.nil_append]

theorem before_branchOf (t : MoveTracker) (arms : List (List Flow)) : (branchOf t arms).before = t.moved :=
  (runArms_start arms t t.beginBranch).2

theorem run_arms (t : MoveTracker) (arms : List (List Flow)) (exhaustive : Bool) :
    (fork [] arms exhaustive).run t = (runArms arms t t.beginBranch).1.endBranch (branchOf t arms) exhaustive := by
  rw [run]
  rfl

theorem mem_common_of_perm {t : MoveTracker} {arms arms' : List (List Flow)} (hperm : arms.Perm arms')
    (h : m ∈ MoveTracker.common (branchOf t arms')) : m ∈ MoveTracker.common (branchOf t arms) := by
  rw [Branch.mem_common, arms_branchOf] at h ⊢
  have hmem : ∀ arm, arm ∈ arms.map (armMoves t) ↔ arm ∈ arms'.map (armMoves t) :=
    fun _ => (hperm.map (armMoves t)).mem_iff
  simpa only [hmem] using h

theorem unobstructed_of_perm {t : MoveTracker} {arms arms' : List (List Flow)} (hperm : arms.Perm arms')
    (h : (branchOf t arms).Unobstructed) : (branchOf t arms').Unobstructed where
  apart arm harm := by
    apply h.apart arm
    rw [arms_branchOf] at harm ⊢
    exact (hperm.map (armMoves t)).mem_iff.2 harm
  before m hm := by
    rw [before_branchOf, ← before_branchOf t arms]
    exact h.before m (mem_common_of_perm hperm hm)

variable {t : MoveTracker} {arms : List (List Flow)} {c : Place}

theorem restore_runArms (t : MoveTracker) (arms : List (List Flow)) :
    (runArms arms t t.beginBranch).1.restore (branchOf t arms).before = t := by
  have hpolicy := (runArms_start arms t t.beginBranch).1
  rw [MoveTracker.restore, before_branchOf, hpolicy]

theorem policy_runArms (hpolicy : t.policy = .intersect) :
    (runArms arms t t.beginBranch).1.policy = .intersect := by
  rw [(runArms_start arms t t.beginBranch).1, hpolicy]

theorem covers_arms_of_before (hpolicy : t.policy = .intersect) (h : t.covers c = true) :
    ((fork [] arms true).run t).covers c = true := by
  rw [run_arms]
  apply Branch.covers_endBranch_of_before (policy_runArms hpolicy)
  rwa [restore_runArms]

theorem covers_of_arms (hpolicy : t.policy = .intersect) (h : ((fork [] arms true).run t).covers c = true) :
    t.covers c = true ∨ ∀ arm ∈ (branchOf t arms).arms, arm.covers c = true := by
  rw [run_arms] at h
  have hsound := Branch.covers_of_endBranch (policy_runArms hpolicy) h
  rwa [restore_runArms] at hsound

theorem covers_arms_iff (hpolicy : t.policy = .intersect) (hne : arms ≠ []) (h : (branchOf t arms).Unobstructed) :
    ((fork [] arms true).run t).covers c = true ↔
      t.covers c = true ∨ ∀ arm ∈ (branchOf t arms).arms, arm.covers c = true := by
  constructor
  · exact covers_of_arms hpolicy
  · rintro (hbefore | harms)
    · exact covers_arms_of_before hpolicy hbefore
    · rw [run_arms]
      apply h.covers_endBranch (policy_runArms hpolicy) _ harms
      rw [arms_branchOf]
      simpa using hne

/-- When an exhaustive branch is closed under the policy that intersects, everything that was covered before it
still is, and nothing is covered that was not covered before or by all arms. If the branch is unobstructed, the
covered places are exactly these, whatever the order of the arms. -/
theorem covers_after_arms (hpolicy : t.policy = .intersect) (hne : arms ≠ []) :
    (∀ c, t.covers c = true → ((fork [] arms true).run t).covers c = true) ∧
    (∀ c, ((fork [] arms true).run t).covers c = true →
      t.covers c = true ∨ ∀ arm ∈ (branchOf t arms).arms, arm.covers c = true) ∧
    ((branchOf t arms).Unobstructed →
      (∀ c, ((fork [] arms true).run t).covers c = true ↔
        t.covers c = true ∨ ∀ arm ∈ (branchOf t arms).arms, arm.covers c = true) ∧
      ∀ arms', arms.Perm arms' → ∀ c, ((fork [] arms' true).run t).covers c = ((fork [] arms true).run t).covers c) := by
  refine ⟨?_, ?_, ?_⟩
  · intro c hbefore
    exact covers_arms_of_before hpolicy hbefore
  · intro c hcovers
    exact covers_of_arms hpolicy hcovers
  · intro h
    refine ⟨fun c => covers_arms_iff hpolicy hne h, ?_⟩
    intro arms' hperm c
    have hne' : arms' ≠ [] := by
      rintro rfl
      exact hne hperm.eq_nil
    apply Bool.eq_iff_iff.2
    rw [covers_arms_iff hpolicy hne' (unobstructed_of_perm hperm h), covers_arms_iff hpolicy hne h,
      arms_branchOf, arms_branchOf]
    have hmem : ∀ arm, arm ∈ arms'.map (armMoves t) ↔ arm ∈ arms.map (armMoves t) :=
      fun _ => (hperm.map (armMoves t)).mem_iff.symm
    simp only [hmem]

/-- The first arm moves a binding and a field of another one, the second a field of the binding and the other one
as a whole. -/
def crossedArms : List (List Flow) :=
  [[.event (.moved { root := ⟨0⟩ } ⟨1, 2⟩), .event (.moved { root := ⟨1⟩, path := ["f"] } ⟨3, 4⟩)],
    [.event (.moved { root := ⟨0⟩, path := ["f"] } ⟨5, 6⟩), .event (.moved { root := ⟨1⟩ } ⟨7, 8⟩)]]

theorem unobstructed_crossedArms : (branchOf { policy := .intersect } crossedArms).Unobstructed :=
  ⟨by decide +kernel, by decide +kernel⟩

theorem covers_crossedArms : crossedArms ≠ [] ∧ ∀ c,
    ((fork [] crossedArms.reverse true).run { policy := .intersect }).covers c = true ↔
      ∀ arm ∈ (branchOf { policy := .intersect } crossedArms).arms, arm.covers c = true := by
  have hne : crossedArms ≠ [] := List.cons_ne_nil _ _
  obtain ⟨-, -, hexact⟩ := @covers_after_arms { policy := .intersect } crossedArms rfl hne
  obtain ⟨hcovers, hperm⟩ := hexact unobstructed_crossedArms
  refine ⟨hne, fun c => ?_⟩
  rw [hperm _ (List.reverse_perm _).symm, hcovers]
  simp [MoveTracker.covers]

/-! ### Obstructed branches -/

/-- Both arms write to the binding and move it out again. -/
def rewritingArms : List (List Flow) :=
  [[.event (.written { root := ⟨0⟩ }), .event (.moved { root := ⟨0⟩ } ⟨3, 4⟩)],
    [.event (.written { root := ⟨0⟩ }), .event (.moved { root := ⟨0⟩ } ⟨5, 6⟩)]]

/-- The first arm moves a binding and then a part of its field, the second moves the field. -/
def nestedArms : List (List Flow) :=
  [[.event (.moved { root := ⟨0⟩ } ⟨1, 2⟩), .event (.moved { root := ⟨0⟩, path := ["f", "g"] } ⟨3, 4⟩)],
    [.event (.moved { root := ⟨0⟩, path := ["f"] } ⟨5, 6⟩)]]

/-- A field of the binding has been moved out. -/
def partlyMoved : MoveTracker :=
  { policy := .intersect, moved := [⟨{ root := ⟨0⟩, path := ["f"] }, ⟨1, 2⟩⟩] }

/-- If a field was moved out before the branch, the binding that both arms move is not covered afterwards. And what
is covered after arms one of which moves a place and a part of it depends on their order. -/
theorem uncovered_obstructedArms :
    ((∀ arm ∈ (branchOf partlyMoved rewritingArms).arms, arm.covers { root := ⟨0⟩ } = true) ∧
      ((fork [] rewritingArms true).run partlyMoved).covers { root := ⟨0⟩ } = false) ∧
    ((fork [] nestedArms true).run { policy := .intersect }).covers { root := ⟨0⟩, path := ["f"] } = false ∧
      ((fork [] nestedArms.reverse true).run { policy := .intersect }).covers { root := ⟨0⟩, path := ["f"] } = true := by
  decide +kernel

end Flow

end Linkage
