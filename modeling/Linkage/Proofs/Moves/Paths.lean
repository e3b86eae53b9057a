import Linkage.Proofs.Moves.Flow

/-!
# Paths through a body

A body runs along a path of its flow. At a conditional one of the arms is taken, after the conditions up to its own
have been evaluated, or none of them where it is not exhaustive. A path ends where the body is left.

The tracker knows of no paths. Under the policy that restores, what it holds at some point is nevertheless what was
moved along some path that leads there, as long as three things do not happen. An arm finds a place gone that a
condition after its own has moved. A place is found gone after an exhaustive conditional, although every arm that can
be run through writes to it. And a place is found gone where no path leads. Flows in which none of these happen are
called regular.
-/

namespace Linkage

variable {e : Event} {es es' : List Event} {f fs g : List Flow} {t : MoveTracker} {p : Place} {span : Span}

open Linkage.Flow

/-! ### Paths -/

/-- One step along a flow, with the events that happen in it and what remains. -/
inductive Flow.Step : List Flow → List Event → List Flow → Prop
  | event {e : Event} (hstays : e.stays = true) (f : List Flow) : Step (.event e :: f) [e] f
  | arm {tests : List (List Event)} {arms : List (List Flow)} {exhaustive : Bool} {i : Nat} {arm : List Flow}
      (harm : arms[i]? = some arm) (f : List Flow) :
      Step (.fork tests arms exhaustive :: f) [] ((tests.take (i + 1)).flatten.map .event ++ (arm ++ f))
  | skip (tests : List (List Event)) (arms : List (List Flow)) (f : List Flow) :
      Step (.fork tests arms false :: f) [] (tests.flatten.map .event ++ f)
  | leave (test : List Event) (body f : List Flow) : Step (.loop test body :: f) [] (test.map .event ++ f)
  | again (test : List Event) (body f : List Flow) :
      Step (.loop test body :: f) [] (test.map .event ++ (body ++ .loop test body :: f))

/-- A path along a flow, with the events on it and what remains. -/
inductive Flow.Path : List Flow → List Event → List Flow → Prop
  | nil (f : List Flow) : Path f [] f
  | cons {f g h : List Flow} {es es' : List Event} (hstep : Step f es g) (hrest : Path g es' h) :
      Path f (es ++ es') h

namespace Flow

theorem Step.path (h : Step f es g) : Path f es g := by
  have hpath := Path.cons h (.nil g)
  rwa [List.append_nil] at hpath

theorem Path.trans {h : List Flow} (hfirst : Path f es g) (hrest : Path g es' h) : Path f (es ++ es') h := by
  induction hfirst with
  | nil => exact hrest
  | cons hstep _ ih =>
    rw [List.append_assoc]
    exact .cons hstep (ih hrest)

theorem Step.append (h : Step f es g) (k : List Flow) : Step (f ++ k) es (g ++ k) := by
  cases h with
  | event hstays => exact .event hstays _
  | arm harm =>
    rw [List.append_assoc, List.append_assoc]
    exact .arm harm _
  | skip tests arms =>
    rw [List.append_assoc]
    exact .skip tests arms _
  | leave test body =>
    rw [List.append_assoc]
    exact .leave test body _
  | again test body =>
    rw [List.append_assoc, List.append_assoc]
    exact .again test body _

theorem Path.events (hstays : ∀ e ∈ es, e.stays = true) (f : List Flow) : Path (es.map .event ++ f) es f := by
  induction es with
  | nil => exact .nil f
  | cons e es ih =>
    exact .cons (.event (hstays e List.mem_cons_self) _) (ih fun x hx => hstays x (List.mem_cons_of_mem _ hx))

theorem Path.of_events (h : Path (es.map .event) es' g) :
    ∃ rest : List Event, es = es' ++ rest ∧ g = rest.map .event := by
  induction es generalizing es' with
  | nil =>
    cases h with
    | nil => exact ⟨[], rfl, rfl⟩
    | cons hstep _ => nomatch hstep
  | cons e es ih =>
    cases h with
    | nil => exact ⟨e :: es, rfl, rfl⟩
    | cons hstep hrest =>
      cases hstep
      obtain ⟨rest, rfl, hg⟩ := ih hrest
      exact ⟨rest, rfl, hg⟩

theorem Path.append (h : Path f es g) (k : List Flow) : Path (f ++ k) es (g ++ k) := by
  induction h with
  | nil => exact .nil _
  | cons hstep _ ih => exact .cons (hstep.append k) ih

end Flow

/-! ### Places along a path -/

/-- The place is moved out, and not written to afterwards. -/
def Dangling (p : Place) (es : List Event) : Prop :=
  ∃ before span after, es = before ++ .moved p span :: after ∧ ∀ q, .written q ∈ after → p.within q = false

theorem Dangling.append (h : Dangling p es)
    (hes' : ∀ q, .written q ∈ es' → p.within q = false) : Dangling p (es ++ es') := by
  obtain ⟨before, span, after, rfl, hafter⟩ := h
  refine ⟨before, span, after ++ es', by simp, fun q hq => ?_⟩
  rcases List.mem_append.1 hq with hq | hq
  · exact hafter q hq
  · exact hes' q hq

theorem Dangling.append_left (h : Dangling p es') (es : List Event) : Dangling p (es ++ es') := by
  obtain ⟨before, span, after, rfl, hafter⟩ := h
  exact ⟨es ++ before, span, after, by simp, hafter⟩

theorem Dangling.sublist_of_path (h : Dangling p es') (hpath : Path (es.map .event) es' (.event e :: f)) :
    ∃ span, [.moved p span, e].Sublist es := by
  obtain ⟨before, span, after, rfl, -⟩ := h
  obtain ⟨_ | ⟨e', rest⟩, rfl, heq⟩ := hpath.of_events
  · nomatch heq
  · obtain ⟨heq, -⟩ := List.cons.inj heq
    obtain rfl := Flow.event.inj heq
    refine ⟨span, ?_⟩
    have hmoved : [.moved p span].Sublist (before ++ .moved p span :: after) :=
      List.singleton_sublist.2 (List.mem_append_right _ List.mem_cons_self)
    exact hmoved.append (List.singleton_sublist.2 List.mem_cons_self)

def MoveTracker.places (t : MoveTracker) : List Place := t.moved.map (·.place)

theorem MoveTracker.exists_place_of_gone (h : t.gone p = true) :
    ∃ q ∈ t.places, q.overlaps p = true := by
  obtain ⟨m, hm, hoverlaps⟩ := gone_iff.1 h
  exact ⟨m.place, List.mem_map_of_mem hm, hoverlaps⟩

theorem MoveTracker.mem_places_after {q : Place} (h : q ∈ (t.after e).places) :
    (q ∈ t.places ∧ ∀ r, e = .written r → q.within r = false) ∨ ∃ span, e = .moved q span := by
  obtain ⟨m, hm, rfl⟩ := List.mem_map.1 h
  cases e with
  | moved p span =>
    rcases List.mem_append.1 hm with hm | hm
    · exact .inl ⟨List.mem_map_of_mem (List.mem_filter.1 hm).1, nofun⟩
    · rw [List.mem_singleton.1 hm]
      exact .inr ⟨span, rfl⟩
  | written p =>
    obtain ⟨hm, hwithin⟩ := List.mem_filter.1 hm
    refine .inl ⟨List.mem_map_of_mem hm, ?_⟩
    rintro r ⟨⟩
    simpa using hwithin
  | read => exact .inl ⟨h, nofun⟩
  | passing => exact .inl ⟨h, nofun⟩
  | returned => exact .inl ⟨h, nofun⟩

theorem MoveTracker.mem_places_afterAll {q : Place} (h : q ∈ (t.afterAll es).places) :
    (q ∈ t.places ∧ ∀ r, .written r ∈ es → q.within r = false) ∨ Dangling q es := by
  induction es generalizing t with
  | nil => exact .inl ⟨h, nofun⟩
  | cons e es ih =>
    rcases ih (t := t.after e) h with ⟨hq, hwritten⟩ | hdangling
    · rcases mem_places_after hq with ⟨hq, he⟩ | ⟨span, rfl⟩
      · refine .inl ⟨hq, fun r hr => ?_⟩
        rcases List.mem_cons.1 hr with rfl | hr
        · exact he r rfl
        · exact hwritten r hr
      · exact .inr ⟨[], span, es, rfl, hwritten⟩
    · exact .inr (hdangling.append_left [e])

/-! ### Regular flows -/

def Flow.Misreads (fs : List Flow) (p : Place) : Prop := ∃ e span, .event (.read e span p true) ∈ allEntries fs

/-- What is found gone in the flow was moved on some way to it. -/
inductive Flow.Regular : MoveTracker → List Flow → Prop
  | nil (t : MoveTracker) : Regular t []
  | event {t : MoveTracker} {e : Event} {fs : List Flow} (hreach : ∀ p, Misreads fs p → e.stays = true)
      (hrest : Regular (t.after e) fs) : Regular t (.event e :: fs)
  | fork {t : MoveTracker} {tests : List (List Event)} {arms : List (List Flow)} {exhaustive : Bool}
      {fs : List Flow} (harms : ∀ arm ∈ arms, Regular (t.afterAll tests.flatten) arm)
      -- an arm finds nothing gone that only conditions after its own have moved
      (hbefore : ∀ i arm, arms[i]? = some arm → ∀ q ∈ (t.afterAll tests.flatten).places, ∀ p, Misreads arm p →
        q.overlaps p = true → q ∈ (t.afterAll (tests.take (i + 1)).flatten).places)
      -- what comes after an exhaustive conditional is reached through some arm
      (hreach : exhaustive = true → ∀ p, Misreads fs p → ∃ arm ∈ arms, ∃ es, Path arm es [])
      -- and what is found gone there is still gone after some arm
      (hkept : exhaustive = true → ∀ q ∈ (t.afterAll tests.flatten).places, ∀ p, Misreads fs p →
        q.overlaps p = true → ∃ i arm es, arms[i]? = some arm ∧ Path arm es [] ∧
          q ∈ ((t.afterAll (tests.take (i + 1)).flatten).afterAll es).places)
      (hrest : Regular (t.afterAll tests.flatten) fs) : Regular t (.fork tests arms exhaustive :: fs)
  | loop {t : MoveTracker} {test : List Event} {body fs : List Flow} (hbody : Regular (t.afterAll test) body)
      (hrest : Regular (t.afterAll test) fs) : Regular t (.loop test body :: fs)

theorem Flow.Regular.events (hstays : ∀ e ∈ es, e.stays = true)
    (hrest : Regular (t.afterAll es) fs) : Regular t (es.map .event ++ fs) := by
  induction es generalizing t with
  | nil => exact hrest
  | cons e es ih =>
    refine .event (fun _ _ => hstays e List.mem_cons_self) (ih ?_ hrest)
    exact fun x hx => hstays x (List.mem_cons_of_mem _ hx)

theorem Flow.Regular.of_events (hstays : ∀ e ∈ es, e.stays = true) : Regular t (es.map .event) := by
  have hregular := Regular.events hstays (.nil (t.afterAll es))
  rwa [List.append_nil] at hregular

/-! ### What the tracker holds was moved on some path -/

section Backed

variable {whole f g : List Flow} {reads reads' : Place → Prop} {t : MoveTracker}

/-- The flow `f` is what remains of `whole` after some path, if anything is found gone in it at all, and what
the tracker holds of the places that are found gone was moved on such a path. -/
structure Backed (whole : List Flow) (reads : Place → Prop) (t : MoveTracker) (f : List Flow) : Prop where
  reach : ∀ p, reads p → ∃ es, Path whole es f
  moved : ∀ q ∈ t.places, ∀ p, reads p → q.overlaps p = true → ∃ es, Path whole es f ∧ Dangling q es

theorem Backed.mono (h : Backed whole reads t f) (hreads : ∀ p, reads' p → reads p) : Backed whole reads' t f :=
  ⟨fun p hp => h.reach p (hreads p hp), fun q hq p hp => h.moved q hq p (hreads p hp)⟩

theorem Backed.step (h : Backed whole reads t f) (hstep : Step f es g) : Backed whole reads (t.afterAll es) g where
  reach p hp := by
    obtain ⟨es, hpath⟩ := h.reach p hp
    exact ⟨_, hpath.trans hstep.path⟩
  moved q hq p hp hoverlaps := by
    rcases MoveTracker.mem_places_afterAll hq with ⟨hq, hwritten⟩ | hdangling
    · obtain ⟨es, hpath, hdangling⟩ := h.moved q hq p hp hoverlaps
      exact ⟨_, hpath.trans hstep.path, hdangling.append hwritten⟩
    · obtain ⟨es, hpath⟩ := h.reach p hp
      exact ⟨_, hpath.trans hstep.path, hdangling.append_left es⟩

theorem Backed.path (h : Backed whole reads t f) (hpath : Path f es g) : Backed whole reads (t.afterAll es) g := by
  induction hpath generalizing t with
  | nil => exact h
  | cons hstep _ ih =>
    rw [MoveTracker.afterAll_append]
    exact ih (h.step hstep)

theorem Backed.event (h : Backed whole reads t (.event e :: f)) (hstays : e.stays = true) :
    Backed whole reads (t.after e) f :=
  h.step (.event hstays f)

theorem Backed.events (h : Backed whole reads t (es.map .event ++ f))
    (hstays : ∀ e ∈ es, e.stays = true) : Backed whole reads (t.afterAll es) f :=
  h.path (.events hstays f)

/-- A read is justified if the place is gone on some path to it. -/
def Justified (whole : List Flow) (e : ExprId) (span : Span) (p : Place) : Prop :=
  ∃ q es f, Path whole es (.event (.read e span p true) :: f) ∧ q.overlaps p = true ∧ Dangling q es

theorem Backed.justified {e : ExprId} (h : Backed whole reads t (.event (.read e span p true) :: f)) (hreads : reads p)
    (htruthful : (Event.read e span p true).Truthful t) : Justified whole e span p := by
  obtain ⟨q, hq, hoverlaps⟩ := MoveTracker.exists_place_of_gone htruthful.symm
  obtain ⟨es, hpath, hdangling⟩ := h.moved q hq p hreads hoverlaps
  exact ⟨q, es, f, hpath, hoverlaps, hdangling⟩

theorem Backed.justified_of_mem (h : Backed whole reads t (es.map .event ++ f))
    (htracked : Tracked t (es.map .event)) (hstays : ∀ e ∈ es, e.stays = true) {e : ExprId}
    (hreads : reads p) (hmem : .read e span p true ∈ es) : Justified whole e span p := by
  induction es generalizing t with
  | nil => simp at hmem
  | cons x es ih =>
    cases htracked with
    | event htruthful hrest =>
      rcases List.mem_cons.1 hmem with rfl | hmem
      · exact Backed.justified h hreads htruthful
      · exact ih (Backed.event h (hstays x List.mem_cons_self)) hrest
          (fun y hy => hstays y (List.mem_cons_of_mem _ hy)) hmem

end Backed

/-! ### Regular flows are justified -/

section Membership

variable {e : Event} {tests : List (List Event)} {arms : List (List Flow)}

theorem mem_testEntries : .event e ∈ testEntries tests ↔ e ∈ tests.flatten := by
  simp [testEntries]

theorem Flow.mem_armEntries : .event e ∈ armEntries arms ↔ ∃ arm ∈ arms, .event e ∈ allEntries arm := by
  induction arms with
  | nil => simp [armEntries]
  | cons arm arms ih => simp [armEntries, ih]

theorem Flow.mem_fork {exhaustive : Bool} :
    .event e ∈ allEntries (.fork tests arms exhaustive :: fs) ↔
      e ∈ tests.flatten ∨ (∃ arm ∈ arms, .event e ∈ allEntries arm) ∨ .event e ∈ allEntries fs := by
  rw [allEntries, entries, List.cons_append, List.mem_cons, List.mem_append, List.mem_append, List.mem_append,
    mem_testEntries, mem_armEntries]
  simp [or_assoc]

theorem Flow.mem_loop {test : List Event} {body : List Flow} :
    .event e ∈ allEntries (.loop test body :: fs) ↔
      e ∈ test ∨ .event e ∈ allEntries body ∨ .event e ∈ allEntries fs := by
  rw [allEntries, entries, List.cons_append, List.mem_cons, List.mem_append, List.mem_append, List.mem_append,
    mem_testEntries]
  simp [or_assoc]

end Membership

section Fork

variable {whole fs k : List Flow} {t : MoveTracker} {tests : List (List Event)} {arms : List (List Flow)}
  {exhaustive : Bool}

theorem Flow.misreads_of_arm {arm : List Flow} (harm : arm ∈ arms) (h : Misreads arm p) :
    Misreads (.fork tests arms exhaustive :: fs) p := by
  obtain ⟨e, span, hmem⟩ := h
  exact ⟨e, span, mem_fork.2 (.inr (.inl ⟨arm, harm, hmem⟩))⟩

theorem Flow.misreads_of_rest (h : Misreads fs p) : Misreads (.fork tests arms exhaustive :: fs) p := by
  obtain ⟨e, span, hmem⟩ := h
  exact ⟨e, span, mem_fork.2 (.inr (.inr hmem))⟩

theorem Backed.into_arm {reads : Place → Prop} (h : Backed whole reads t (.fork tests arms exhaustive :: fs ++ k))
    (hstays : ∀ e ∈ tests.flatten, e.stays = true) {i : Nat} {arm : List Flow} (harm : arms[i]? = some arm) :
    Backed whole reads (t.afterAll (tests.take (i + 1)).flatten) (arm ++ (fs ++ k)) := by
  refine (h.step (.arm harm (fs ++ k))).events fun x hx => hstays x ?_
  obtain ⟨test, htest, hx⟩ := List.mem_flatten.1 hx
  exact List.mem_flatten.2 ⟨test, List.mem_of_mem_take htest, hx⟩

theorem Backed.into_tests {reads : Place → Prop}
    (h : Backed whole reads t (.fork tests arms exhaustive :: fs ++ k)) (hlength : tests.length ≤ arms.length)
    (hne : tests ≠ []) : ∃ f, Backed whole reads t (tests.flatten.map .event ++ f) := by
  have hpos := List.length_pos_iff.2 hne
  have hlast : tests.length - 1 < arms.length := by omega
  have harm := List.getElem?_eq_getElem hlast
  have hstep := h.step (.arm harm (fs ++ k))
  rw [Nat.sub_add_cancel hpos, List.take_length] at hstep
  exact ⟨_, hstep⟩

/-- What comes after a conditional is reached through an arm, or past all of them. -/
theorem Backed.past_fork (h : Backed whole (Misreads (.fork tests arms exhaustive :: fs)) t
      (.fork tests arms exhaustive :: fs ++ k))
    (hstays : ∀ e ∈ tests.flatten, e.stays = true)
    (hreach : exhaustive = true → ∀ p, Misreads fs p → ∃ arm ∈ arms, ∃ es, Path arm es [])
    (hkept : exhaustive = true → ∀ q ∈ (t.afterAll tests.flatten).places, ∀ p, Misreads fs p →
      q.overlaps p = true → ∃ i arm es, arms[i]? = some arm ∧ Path arm es [] ∧
        q ∈ ((t.afterAll (tests.take (i + 1)).flatten).afterAll es).places) :
    Backed whole (Misreads fs) (t.afterAll tests.flatten) (fs ++ k) := by
  have hrest := h.mono fun p (hp : Misreads fs p) => misreads_of_rest hp
  cases exhaustive with
  | false => exact (hrest.step (.skip tests arms (fs ++ k))).events hstays
  | true =>
    refine ⟨fun p hp => ?_, fun q hq p hp hoverlaps => ?_⟩
    · obtain ⟨arm, harm, es', hthrough⟩ := hreach rfl p hp
      obtain ⟨i, hi⟩ := List.getElem?_of_mem harm
      exact ((hrest.into_arm hstays hi).path (hthrough.append (fs ++ k))).reach p hp
    · obtain ⟨i, arm, es', hi, hthrough, hmoved⟩ := hkept rfl q hq p hp hoverlaps
      exact ((hrest.into_arm hstays hi).path (hthrough.append (fs ++ k))).moved q hmoved p hp hoverlaps

end Fork

/-- In a regular flow, whatever is found gone was moved on some path to the read that finds it. -/
theorem Flow.Regular.justified {whole : List Flow} (hregular : Regular t fs)
    (htracked : Tracked t fs) (hrestore : t.policy = .restore) (k : List Flow)
    (hbacked : Backed whole (Misreads fs) t (fs ++ k)) {e : ExprId}
    (hmem : .event (.read e span p true) ∈ allEntries fs) : Justified whole e span p := by
  induction hregular generalizing k with
  | nil => simp [allEntries] at hmem
  | @event t x fs hreach _ ih =>
    cases htracked with
    | event htruthful htracked =>
      rw [allEntries, entries, List.singleton_append, List.mem_cons] at hmem
      rcases hmem with heq | hmem
      · obtain rfl := Entry.event.inj heq
        exact Backed.justified hbacked ⟨e, span, by simp [allEntries, entries]⟩ htruthful
      · have hrest : ∀ q, Misreads fs q → Misreads (.event x :: fs) q := by
          rintro q ⟨e, span, hq⟩
          exact ⟨e, span, by simp [allEntries, hq]⟩
        refine ih htracked ((t.policy_after x).trans hrestore) k ?_ hmem
        exact Backed.event (hbacked.mono hrest) (hreach p ⟨e, span, hmem⟩)
  | @fork t tests arms exhaustive fs _ hbefore hreach hkept _ iharms ihrest =>
    cases htracked with
    | fork htests hstays hlength harms htracked =>
      have hstart : (t.afterAll tests.flatten).policy = .restore := (t.policy_afterAll _).trans hrestore
      rcases mem_fork.1 hmem with hmem' | ⟨arm, harm, hmem'⟩ | hmem'
      · have hne : tests ≠ [] := by
          rintro rfl
          simp at hmem'
        obtain ⟨f, htests'⟩ := hbacked.into_tests hlength hne
        exact htests'.justified_of_mem htests hstays ⟨e, span, hmem⟩ hmem'
      · obtain ⟨i, hi⟩ := List.getElem?_of_mem harm
        have hinto := (hbacked.into_arm hstays hi).mono fun p (hp : Misreads arm p) => misreads_of_arm harm hp
        refine iharms arm harm (harms arm harm) hstart (fs ++ k) ⟨hinto.reach, fun q hq p hp hoverlaps => ?_⟩ hmem'
        exact hinto.moved q (hbefore i arm hi q hq p hp hoverlaps) p hp hoverlaps
      · rw [run_fork_eq_tests _ _ (.inl hrestore)] at htracked
        exact ihrest htracked hstart k (hbacked.past_fork hstays hreach hkept) hmem'
  | @loop t test body fs _ _ ihbody ihrest =>
    cases htracked with
    | loop htest hstays hbody htracked =>
      have hstart : (t.afterAll test).policy = .restore := (t.policy_afterAll _).trans hrestore
      rcases mem_loop.1 hmem with hmem' | hmem' | hmem'
      · have hleave := hbacked.step (.leave test body (fs ++ k))
        exact hleave.justified_of_mem htest hstays ⟨e, span, hmem⟩ hmem'
      · have hagain := (hbacked.step (.again test body (fs ++ k))).events hstays
        refine ihbody hbody hstart _ (hagain.mono fun p hp => ?_) hmem'
        obtain ⟨e, span, hp⟩ := hp
        exact ⟨e, span, mem_loop.2 (.inr (.inl hp))⟩
      · rw [run_loop] at htracked
        have hleave := (hbacked.step (.leave test body (fs ++ k))).events hstays
        refine ihrest htracked hstart k (hleave.mono fun p hp => ?_) hmem'
        obtain ⟨e, span, hp⟩ := hp
        exact ⟨e, span, mem_loop.2 (.inr (.inr hp))⟩

end Linkage
