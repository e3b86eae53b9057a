import Linkage.History

/-!
# The record and the tracker

A read is noted as a read of something that is gone exactly if the tracker says so, and a place is moved out only
after it has been announced: it was read just before, or it is among the places that arguments name. An announcement
by arguments is weaker. If the place was still there when they were passed on, nothing has been moved since that
shares storage with it. If it was gone already, it has been read as well, but that read may have come before the move.
-/

namespace Linkage

variable {gone readGone : Bool} {e : ExprId} {es : List Event} {left : List Place} {t : MoveTracker} {p q : Place}

namespace Place

theorem within_trans {r : Place} (hpq : p.within q = true) (hqr : q.within r = true) : p.within r = true := by
  simp only [within, Bool.and_eq_true, beq_iff_eq, List.isPrefixOf_iff_prefix] at *
  exact ⟨hpq.1.trans hqr.1, hqr.2.trans hpq.2⟩

theorem overlaps_of_within {r : Place} (hpq : p.within q = true) (hpr : p.overlaps r = true) : q.overlaps r = true := by
  rw [overlaps, Bool.or_eq_true] at hpr ⊢
  rcases hpr with hpr | hrp
  · simp only [within, Bool.and_eq_true, beq_iff_eq, List.isPrefixOf_iff_prefix] at *
    rcases List.prefix_or_prefix_of_prefix hpq.2 hpr.2 with h | h
    · exact .inr ⟨hpr.1.symm.trans hpq.1, h⟩
    · exact .inl ⟨hpq.1.symm.trans hpr.1, h⟩
  · exact .inr (within_trans hrp hpq)

end Place

namespace MoveTracker

theorem gone_iff : t.gone p = true ↔ ∃ m ∈ t.moved, m.place.overlaps p = true := by
  rw [gone, movedAt?_isSome, List.any_eq_true]

def after (t : MoveTracker) : Event → MoveTracker
  | .moved p span => t.move p span
  | .written p => t.reinit p
  | .read _ _ _ _ | .passing _ | .returned => t

def afterAll (t : MoveTracker) (es : List Event) : MoveTracker := es.foldl after t

theorem afterAll_append (t : MoveTracker) (es es' : List Event) :
    t.afterAll (es ++ es') = (t.afterAll es).afterAll es' :=
  List.foldl_append

@[simp] theorem policy_after (t : MoveTracker) (e : Event) : (t.after e).policy = t.policy := by
  cases e <;> rfl

@[simp] theorem policy_afterAll (t : MoveTracker) (es : List Event) :
    (t.afterAll es).policy = t.policy := by
  induction es generalizing t with
  | nil => rfl
  | cons e es ih => exact (ih (t.after e)).trans (t.policy_after e)

/-- A place that is moved out stays so, by itself or as part of a larger one, until it is written to. -/
theorem exists_moved_after (h : ∃ m ∈ t.moved, p.within m.place = true)
    {e : Event} (he : ∀ q, e = .written q → p.within q = false) :
    ∃ m ∈ (t.after e).moved, p.within m.place = true := by
  obtain ⟨m, hm, hwithin⟩ := h
  cases e with
  | moved q span =>
    by_cases hq : m.place.within q = true
    · exact ⟨⟨q, span⟩, List.mem_append_right _ List.mem_cons_self, Place.within_trans hwithin hq⟩
    · exact ⟨m, List.mem_append_left _ (List.mem_filter.2 ⟨hm, by simp [hq]⟩), hwithin⟩
  | written q =>
    have hq : m.place.within q = false := by
      rw [Bool.eq_false_iff]
      intro hq
      have hpq := Place.within_trans hwithin hq
      rw [he q rfl] at hpq
      contradiction
    exact ⟨m, List.mem_filter.2 ⟨hm, by simp [hq]⟩, hwithin⟩
  | read => exact ⟨m, hm, hwithin⟩
  | passing => exact ⟨m, hm, hwithin⟩
  | returned => exact ⟨m, hm, hwithin⟩

theorem exists_moved_afterAll (h : ∃ m ∈ t.moved, p.within m.place = true)
    (hes : ∀ q, .written q ∈ es → p.within q = false) :
    ∃ m ∈ (t.afterAll es).moved, p.within m.place = true := by
  induction es generalizing t with
  | nil => exact h
  | cons e es ih =>
    refine ih (exists_moved_after h fun q hq => ?_) fun q hq => hes q (List.mem_cons_of_mem _ hq)
    exact hes q (hq ▸ List.mem_cons_self)

theorem gone_afterAll_move (t : MoveTracker) (span : Span) (hoverlaps : p.overlaps q = true)
    (hes : ∀ r, .written r ∈ es → p.within r = false) : ((t.move p span).afterAll es).gone q = true := by
  have hmove : ∃ m ∈ (t.move p span).moved, p.within m.place = true :=
    ⟨⟨p, span⟩, List.mem_append_right _ List.mem_cons_self, Place.within_refl p⟩
  obtain ⟨m, hm, hwithin⟩ := exists_moved_afterAll hmove hes
  exact gone_iff.2 ⟨m, hm, Place.overlaps_of_within hwithin hoverlaps⟩

end MoveTracker

/-- What the event says about places agrees with the tracker. -/
def Event.Truthful (t : MoveTracker) : Event → Prop
  | .read _ _ p gone => gone = t.gone p
  | .passing args => ∀ a ∈ args, a.gone = t.gone a.place
  | .moved _ _ | .written _ | .returned => True

/-- Expressions read places and move them out. They do not write, and do not leave the body. -/
def Event.inExpr : Event → Bool
  | .read _ _ _ _ | .passing _ | .moved _ _ => true
  | .written _ | .returned => false

def Event.stays : Event → Bool
  | .returned => false
  | .read _ _ _ _ | .passing _ | .moved _ _ | .written _ => true

/-- What may be noted while arguments are passed on that leave the places in `left`. -/
def Event.Passes (left : List Place) : Event → Prop
  | .read _ _ _ _ => True
  | .moved q _ => q ∈ left
  | .passing _ | .written _ | .returned => False

/-- The argument `e` has been read and is being passed on. The read found its place gone or not, which is
`readGone`, and the place `p` it names was gone or not when passing on began, which is `gone`. The places in
`left` have been moved out since. -/
def PassedOn (es : List Event) (left : List Place) (e : ExprId) (p : Place) (readGone gone : Bool) : Prop :=
  ∃ before span r since args mid, es = before ++ .read e span r readGone :: since ++ .passing args :: mid ∧
    (∀ x ∈ since, x.inExpr = true) ∧ ⟨e, p, gone⟩ ∈ args ∧ ∀ x ∈ mid, x.Passes left

/-- After these events the place may be moved out. -/
def Announced (es : List Event) (p : Place) : Prop :=
  (∃ before e span gone, es = before ++ [.read e span p gone]) ∨
    ∃ left e readGone gone, PassedOn es left e p readGone gone ∧ (gone = false → ∀ q ∈ left, q.overlaps p = false)

/-- The place is being passed on. It was there when its argument was read, and gone when the arguments were
passed on: an argument after it has moved it. -/
def Overtaken (es : List Event) (p : Place) : Prop := ∃ left e, PassedOn es left e p false true

theorem Event.stays_of_inExpr {x : Event} (h : x.inExpr = true) : x.stays = true := by
  cases x with
  | returned => exact h
  | _ => rfl

theorem Event.Passes.mono {left' : List Place} {e : Event} (h : e.Passes left) (hleft : left ⊆ left') :
    e.Passes left' := by
  cases e with
  | read => trivial
  | moved q span => exact hleft h
  | passing => exact h
  | written => exact h
  | returned => exact h

theorem Event.Passes.inExpr {x : Event} (h : x.Passes left) : x.inExpr = true := by
  cases x with
  | read => rfl
  | moved => rfl
  | passing => exact absurd h id
  | written => exact absurd h id
  | returned => exact absurd h id

theorem PassedOn.append {es' : List Event} {left' : List Place}
    (h : PassedOn es left e p readGone gone) (hleft : left ⊆ left')
    (hes' : ∀ x ∈ es', x.Passes left') : PassedOn (es ++ es') left' e p readGone gone := by
  obtain ⟨before, span, r, since, args, mid, rfl, hsince, hmem, hmid⟩ := h
  refine ⟨before, span, r, since, args, mid ++ es', by simp, hsince, hmem, ?_⟩
  exact List.forall_mem_append.2 ⟨fun x hx => (hmid x hx).mono hleft, hes'⟩

theorem PassedOn.append_left (h : PassedOn es left e p readGone gone) (front : List Event) :
    PassedOn (front ++ es) left e p readGone gone := by
  obtain ⟨before, span, r, since, args, mid, rfl, hrest⟩ := h
  exact ⟨front ++ before, span, r, since, args, mid, by simp, hrest⟩

theorem Announced.append_left (h : Announced es p) (front : List Event) : Announced (front ++ es) p := by
  rcases h with ⟨before, e, span, gone, rfl⟩ | ⟨left, e, readGone, gone, hon, hleft⟩
  · exact .inl ⟨front ++ before, e, span, gone, by simp⟩
  · exact .inr ⟨left, e, readGone, gone, hon.append_left front, hleft⟩

/-- The events were noted one after the other, from the tracker `t` on. -/
inductive Noted (t : MoveTracker) : List Event → Prop
  | nil : Noted t []
  | snoc {es : List Event} {e : Event} (h : Noted t es) (htruthful : e.Truthful (t.afterAll es))
      (hannounced : ∀ p span, e = .moved p span → Announced es p) : Noted t (es ++ [e])

namespace Noted

variable {t : MoveTracker} {es es' : List Event}

theorem append (h : Noted t es) (h' : Noted (t.afterAll es) es') : Noted t (es ++ es') := by
  induction h' with
  | nil => rwa [List.append_nil]
  | snoc _ htruthful hannounced ih =>
    rw [← List.append_assoc]
    refine ih.snoc ?_ fun p span hmoved => (hannounced p span hmoved).append_left es
    rwa [MoveTracker.afterAll_append]

theorem of_append_left (h : Noted t (es ++ es')) : Noted t es := by
  generalize hall : es ++ es' = all at h
  induction h generalizing es' with
  | nil =>
    obtain ⟨rfl, -⟩ := List.append_eq_nil_iff.1 hall
    exact .nil
  | @snoc front e h htruthful hannounced ih =>
    rcases List.eq_nil_or_concat es' with rfl | ⟨rest, last, rfl⟩
    · rw [List.append_nil] at hall
      exact hall ▸ h.snoc htruthful hannounced
    · rw [List.concat_eq_append, ← List.append_assoc] at hall
      exact ih (List.append_inj_left' hall rfl)

theorem at_event {e : Event} (h : Noted t (es ++ e :: es')) :
    e.Truthful (t.afterAll es) ∧ ∀ p span, e = .moved p span → Announced es p := by
  rw [List.append_cons] at h
  generalize hall : es ++ [e] = all at h
  have hfront := h.of_append_left
  cases hfront with
  | nil => simp at hall
  | snoc _ htruthful hannounced =>
    obtain ⟨rfl, heq⟩ := List.append_inj' hall rfl
    obtain rfl := List.singleton_inj.1 heq
    exact ⟨htruthful, hannounced⟩

section Twice

variable {first mid : List Event} {p q : Place} {span : Span}

/-- What shares storage with a place that is moved out is gone when anything is noted after the move. -/
theorem gone_since (t : MoveTracker) (hoverlaps : p.overlaps q = true)
    (hmid : ∀ r, .written r ∈ mid → p.within r = false) {rest : List Event} (hrest : rest <+: mid) :
    (t.afterAll (first ++ .moved p span :: rest)).gone q = true := by
  rw [MoveTracker.afterAll_append]
  exact MoveTracker.gone_afterAll_move _ span hoverlaps fun r hr => hmid r (hrest.subset hr)

theorem gone_of_last_read (h : Noted t (first ++ .moved p span :: mid)) (hoverlaps : p.overlaps q = true)
    (hmid : ∀ r, .written r ∈ mid → p.within r = false) {before : List Event} {readAt : Span}
    (hlast : first ++ .moved p span :: mid = before ++ [.read e readAt q gone]) : gone = true := by
  rcases List.eq_nil_or_concat mid with rfl | ⟨rest, last, rfl⟩
  · have heq := (List.append_inj' hlast rfl).2
    simp at heq
  · rw [List.concat_eq_append] at hlast h hmid
    rw [← List.cons_append, ← List.append_assoc] at hlast h
    obtain ⟨rfl, heq⟩ := List.append_inj' hlast rfl
    obtain rfl := List.singleton_inj.1 heq
    exact h.at_event.1.trans (gone_since t hoverlaps hmid (List.prefix_append _ _))

theorem gone_of_passedOn (h : Noted t (first ++ .moved p span :: mid)) (hoverlaps : p.overlaps q = true)
    (hmid : ∀ r, .written r ∈ mid → p.within r = false)
    (hpassed : PassedOn (first ++ .moved p span :: mid) left e q readGone gone)
    (hleft : gone = false → ∀ r ∈ left, r.overlaps q = false) : gone = true := by
  obtain ⟨before, readAt, r, since, args, late, heq, -, hmem, hlate⟩ := hpassed
  -- the arguments were passed on after the first place was moved, or before that
  rcases List.append_eq_append_iff.1 heq with ⟨skipped, hbefore, hrest⟩ | ⟨skipped, rfl, hrest⟩
  · cases skipped with
    | nil => simp at hrest
    | cons x skipped =>
      obtain ⟨rfl, rfl⟩ := List.cons.inj hrest
      rw [heq, hbefore] at h
      exact (h.at_event.1 ⟨e, q, gone⟩ hmem).trans (gone_since t hoverlaps hmid (List.prefix_append _ _))
  · cases skipped with
    | nil => simp at hrest
    | cons x skipped =>
      obtain ⟨rfl, rfl⟩ := List.cons.inj hrest
      have hmoved : p ∈ left := hlate (.moved p span) (List.mem_append_right _ List.mem_cons_self)
      cases gone with
      | true => rfl
      | false => exact (hleft rfl p hmoved).symm.trans hoverlaps

/-- If two places that share storage are moved out one after the other, and the first was not written to
in between, then a read was noted that found its place gone, unless an argument after the second has moved
it. -/
theorem exists_read_gone {last : List Event} {span' : Span}
    (h : Noted t (first ++ .moved p span :: mid ++ .moved q span' :: last))
    (hovertaken : ¬Overtaken (first ++ .moved p span :: mid) q)
    (hoverlaps : p.overlaps q = true) (hmid : ∀ r, .written r ∈ mid → p.within r = false) :
    ∃ e readAt r, .read e readAt r true ∈ first ++ .moved p span :: mid := by
  have hfront := h.of_append_left
  rcases h.at_event.2 q span' rfl with ⟨before, e, readAt, gone, heq⟩ | ⟨left, e, readGone, gone, hpassed, hleft⟩
  · obtain rfl := gone_of_last_read hfront hoverlaps hmid heq
    exact ⟨e, readAt, q, heq ▸ by simp⟩
  · obtain rfl := gone_of_passedOn hfront hoverlaps hmid hpassed hleft
    cases readGone with
    | false => exact absurd ⟨left, e, hpassed⟩ hovertaken
    | true =>
      obtain ⟨before, readAt, r, since, args, late, heq, -⟩ := hpassed
      exact ⟨e, readAt, r, heq ▸ by simp⟩

end Twice

end Noted

end Linkage
