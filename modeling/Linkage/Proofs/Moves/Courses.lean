import Linkage.Proofs.Moves.Intersection
import Linkage.Proofs.Moves.Paths

/-!
# Courses

A flow does not tell where a block ends. A course is a flow that does: its blocks are kept, each with the locals that
are destroyed when it is left. A body runs along a way through its course.

The tracker decides what is destroyed at the end of a block, and it knows of no ways. If a local is destroyed, there
is nevertheless a way to the end of the block that leaves the local whole, as long as what is gone of it is accounted
for: a conditional that has to run one of its arms can be run through, or left, such that the tracker still knows
afterwards what is gone of the local on this way, and what comes after a place that no such way passes neither writes
to the local nor holds the block.
-/

namespace Linkage

open Linkage.Flow

inductive Course where
  | event (e : Event)
  | block (id : BlockId) (body : List Course) (dropped : List DeclId)
  | fork (tests : List (List Event)) (arms : List (List Course)) (exhaustive : Bool)
  | loop (test : List Event) (body : List Course)

/-- How a way ends: behind the last part of the course, or where the body is left. -/
inductive Ending where
  | through
  | left

namespace Course

/-! ### The flow and the blocks of a course -/

mutual
def flow : Course → List Flow
  | .event e => [.event e]
  | .block _ body _ => flows body
  | .fork tests arms exhaustive => [.fork tests (armFlows arms) exhaustive]
  | .loop test body => [.loop test (flows body)]
def flows : List Course → List Flow
  | [] => []
  | c :: cs => c.flow ++ flows cs
def armFlows : List (List Course) → List (List Flow)
  | [] => []
  | arm :: arms => flows arm :: armFlows arms
end

mutual
def exits : Course → List (BlockId × List DeclId)
  | .event _ => []
  | .block id body dropped => allExits body ++ [(id, dropped)]
  | .fork _ arms _ => armExits arms
  | .loop _ body => allExits body
def allExits : List Course → List (BlockId × List DeclId)
  | [] => []
  | c :: cs => c.exits ++ allExits cs
def armExits : List (List Course) → List (BlockId × List DeclId)
  | [] => []
  | arm :: arms => allExits arm ++ armExits arms
end

def droppedAt (cs : List Course) (b : BlockId) : List DeclId :=
  (allExits cs).flatMap fun exit => if exit.1 = b then exit.2 else []

theorem flows_append (cs ds : List Course) : flows (cs ++ ds) = flows cs ++ flows ds := by
  induction cs with
  | nil => rw [List.nil_append, flows, List.nil_append]
  | cons c cs ih => rw [List.cons_append, flows, flows, ih, List.append_assoc]

theorem allExits_append (cs ds : List Course) : allExits (cs ++ ds) = allExits cs ++ allExits ds := by
  induction cs with
  | nil => rw [List.nil_append, allExits, List.nil_append]
  | cons c cs ih => rw [List.cons_append, allExits, allExits, ih, List.append_assoc]

theorem flows_map_event (es : List Event) : flows (es.map .event) = es.map .event := by
  induction es with
  | nil => rw [List.map_nil, flows, List.map_nil]
  | cons e es ih => rw [List.map_cons, flows, flow, ih, List.map_cons, List.singleton_append]

theorem allExits_map_event (es : List Event) : allExits (es.map .event) = [] := by
  induction es with
  | nil => rw [List.map_nil, allExits]
  | cons e es ih => rw [List.map_cons, allExits, exits, ih, List.append_nil]

theorem armFlows_eq_map (arms : List (List Course)) : armFlows arms = arms.map flows := by
  induction arms with
  | nil => rw [armFlows, List.map_nil]
  | cons arm arms ih => rw [armFlows, ih, List.map_cons]

theorem armExits_eq_flatMap (arms : List (List Course)) : armExits arms = arms.flatMap allExits := by
  induction arms with
  | nil => rw [armExits, List.flatMap_nil]
  | cons arm arms ih => rw [armExits, ih, List.flatMap_cons]

theorem droppedAt_append (cs ds : List Course) (b : BlockId) :
    droppedAt (cs ++ ds) b = droppedAt cs b ++ droppedAt ds b := by
  rw [droppedAt, allExits_append, List.flatMap_append]
  rfl

theorem mem_droppedAt {cs : List Course} {b : BlockId} {x : DeclId} :
    x ∈ droppedAt cs b ↔ ∃ dropped, (b, dropped) ∈ allExits cs ∧ x ∈ dropped := by
  rw [droppedAt, List.mem_flatMap]
  constructor
  · rintro ⟨⟨id, dropped⟩, hexit, hx⟩
    by_cases hid : id = b
    · subst hid
      rw [if_pos rfl] at hx
      exact ⟨dropped, hexit, hx⟩
    · rw [if_neg hid] at hx
      exact absurd hx List.not_mem_nil
  · rintro ⟨dropped, hexit, hx⟩
    exact ⟨(b, dropped), hexit, by rwa [if_pos rfl]⟩

/-! ### Following a course -/

theorem runAll_flows_cons (c : Course) (cs : List Course) (t : MoveTracker) :
    runAll (flows (c :: cs)) t = runAll (flows cs) (runAll c.flow t) := by
  rw [flows, runAll_append]

theorem runAll_event (e : Event) (t : MoveTracker) : runAll (event e).flow t = t.after e := by
  rw [flow, runAll, runAll, run]

theorem runAll_fork (tests : List (List Event)) (arms : List (List Course)) (exhaustive : Bool) (t : MoveTracker) :
    runAll (fork tests arms exhaustive).flow t = (Flow.fork tests (armFlows arms) exhaustive).run t := by
  rw [flow, runAll, runAll]

theorem runAll_loop (test : List Event) (body : List Course) (t : MoveTracker) :
    runAll (loop test body).flow t = t.afterAll test := by
  rw [flow, runAll, runAll, run_loop]

/-! ### Ways -/

mutual
/-- A way through one part of a course, with the events on it and how it ends. -/
inductive Way : Course → List Event → Ending → Prop
  | event {e : Event} (hstays : e.stays = true) : Way (.event e) [e] .through
  | returned : Way (.event .returned) [.returned] .left
  | block {id : BlockId} {body : List Course} {dropped : List DeclId} {es : List Event} {ending : Ending}
      (hbody : Ways body es ending) : Way (.block id body dropped) es ending
  | arm {tests : List (List Event)} {arms : List (List Course)} {exhaustive : Bool} {i : Nat} {arm : List Course}
      {es : List Event} {ending : Ending} (hi : arms[i]? = some arm) (harm : Ways arm es ending) :
      Way (.fork tests arms exhaustive) ((tests.take (i + 1)).flatten ++ es) ending
  | skip (tests : List (List Event)) (arms : List (List Course)) : Way (.fork tests arms false) tests.flatten .through
  | leave (test : List Event) (body : List Course) : Way (.loop test body) test .through
  | again {test : List Event} {body : List Course} {es es' : List Event} {ending : Ending}
      (hbody : Ways body es .through) (hagain : Way (.loop test body) es' ending) :
      Way (.loop test body) (test ++ (es ++ es')) ending
  | leftBody {test : List Event} {body : List Course} {es : List Event} (hbody : Ways body es .left) :
      Way (.loop test body) (test ++ es) .left
inductive Ways : List Course → List Event → Ending → Prop
  | nil : Ways [] [] .through
  | cons {c : Course} {cs : List Course} {es es' : List Event} {ending : Ending} (hfirst : Way c es .through)
      (hrest : Ways cs es' ending) : Ways (c :: cs) (es ++ es') ending
  | stop {c : Course} {es : List Event} (hfirst : Way c es .left) (cs : List Course) : Ways (c :: cs) es .left
end

mutual
/-- A way that leads to the end of the block, behind its last part or where the body is left. -/
inductive Exit (b : BlockId) : Course → List Event → Prop
  | here {body : List Course} {dropped : List DeclId} {es : List Event} {ending : Ending}
      (hbody : Ways body es ending) : Exit b (.block b body dropped) es
  | block {id : BlockId} {body : List Course} {dropped : List DeclId} {es : List Event} (hbody : Exits b body es) :
      Exit b (.block id body dropped) es
  | arm {tests : List (List Event)} {arms : List (List Course)} {exhaustive : Bool} {i : Nat} {arm : List Course}
      {es : List Event} (hi : arms[i]? = some arm) (harm : Exits b arm es) :
      Exit b (.fork tests arms exhaustive) ((tests.take (i + 1)).flatten ++ es)
  | loop {test : List Event} {body : List Course} {es : List Event} (hbody : Exits b body es) :
      Exit b (.loop test body) (test ++ es)
  | again {test : List Event} {body : List Course} {es es' : List Event} (hbody : Ways body es .through)
      (hagain : Exit b (.loop test body) es') : Exit b (.loop test body) (test ++ (es ++ es'))
inductive Exits (b : BlockId) : List Course → List Event → Prop
  | head {c : Course} {es : List Event} (hfirst : Exit b c es) (cs : List Course) : Exits b (c :: cs) es
  | tail {c : Course} {cs : List Course} {es es' : List Event} (hfirst : Way c es .through)
      (hrest : Exits b cs es') : Exits b (c :: cs) (es ++ es')
end

theorem Ways.of_events {es es' : List Event} {ending : Ending} (h : Ways (es.map .event) es' ending)
    (hstays : ∀ e ∈ es, e.stays = true) : ending = .through ∧ es' = es := by
  induction es generalizing es' with
  | nil =>
    cases h
    exact ⟨rfl, rfl⟩
  | cons e es ih =>
    cases h with
    | cons hfirst hrest =>
      cases hfirst
      obtain ⟨hending, rfl⟩ := ih hrest fun x hx => hstays x (List.mem_cons_of_mem _ hx)
      exact ⟨hending, rfl⟩
    | stop hfirst =>
      cases hfirst
      exact nomatch hstays .returned List.mem_cons_self

theorem Exits.not_events {b : BlockId} {es es' : List Event} : ¬Exits b (es.map .event) es' := by
  intro h
  induction es generalizing es' with
  | nil => nomatch h
  | cons e es ih =>
    cases h with
    | head hfirst => nomatch hfirst
    | tail _ hrest => exact ih hrest

end Course

/-! ### What the tracker knows -/

/-- A place that is gone after all events is moved by the last of them, or by the first and not written to since. -/
theorem Dangling.of_append {p : Place} {es es' : List Event} (h : Dangling p (es ++ es')) :
    Dangling p es' ∨ Dangling p es ∧ ∀ q, .written q ∈ es' → p.within q = false := by
  obtain ⟨before, span, after, heq, hafter⟩ := h
  rcases List.append_eq_append_iff.1 heq with ⟨mid, rfl, rfl⟩ | ⟨mid, rfl, hmid⟩
  · exact .inl ⟨mid, span, after, rfl, hafter⟩
  · cases mid with
    | nil =>
      rw [List.nil_append] at hmid
      exact .inl ⟨[], span, after, hmid.symm, hafter⟩
    | cons e mid =>
      obtain ⟨rfl, rfl⟩ := List.cons.inj hmid
      right
      refine ⟨⟨before, span, mid, rfl, ?_⟩, ?_⟩
      · intro q hq
        exact hafter q (List.mem_append_left _ hq)
      · intro q hq
        exact hafter q (List.mem_append_right _ hq)

namespace MoveTracker

variable {t t' t'' : MoveTracker} {x : DeclId} {p : Place} {es es' : List Event}

/-- The tracker knows what is gone of the local after the events. -/
def Knows (t : MoveTracker) (x : DeclId) (es : List Event) : Prop :=
  ∀ p, p.root = x → Dangling p es → t.covers p = true

theorem covers_afterAll (h : t.covers p = true) (hes : ∀ q, .written q ∈ es → p.within q = false) :
    (t.afterAll es).covers p = true :=
  covers_iff.2 (exists_moved_afterAll (covers_iff.1 h) hes)

theorem covers_afterAll_of_dangling (t : MoveTracker) (h : Dangling p es) : (t.afterAll es).covers p = true := by
  obtain ⟨before, span, after, rfl, hafter⟩ := h
  rw [afterAll_append]
  apply covers_iff.2
  apply exists_moved_afterAll _ hafter
  exact ⟨⟨p, span⟩, List.mem_append_right _ List.mem_cons_self, Place.within_refl p⟩

theorem knows_nil (t : MoveTracker) (x : DeclId) : t.Knows x [] := by
  rintro p - ⟨before, span, after, heq, -⟩
  simp at heq

theorem Knows.afterAll (h : t.Knows x es) (es' : List Event) : (t.afterAll es').Knows x (es ++ es') := by
  intro p hroot hgone
  rcases hgone.of_append with hgone | ⟨hgone, hkept⟩
  · exact covers_afterAll_of_dangling t hgone
  · exact covers_afterAll (h p hroot hgone) hkept

theorem Knows.mono (h : t.Knows x es) (hcovers : ∀ p, p.root = x → t.covers p = true → t'.covers p = true) :
    t'.Knows x es :=
  fun p hroot hgone => hcovers p hroot (h p hroot hgone)

theorem Knows.append (h : t.Knows x es) (h' : t.Knows x es') : t.Knows x (es ++ es') := by
  intro p hroot hgone
  rcases hgone.of_append with hgone | ⟨hgone, -⟩
  · exact h' p hroot hgone
  · exact h p hroot hgone

theorem movedFrom_of_covers (h : t.covers p = true) : t.movedFrom p.root = true := by
  obtain ⟨m, hm, hwithin⟩ := covers_iff.1 h
  rw [Place.within, Bool.and_eq_true, beq_iff_eq] at hwithin
  rw [movedFrom, List.any_eq_true]
  exact ⟨m, hm, beq_iff_eq.2 hwithin.1.symm⟩

/-- What is gone of the local after the events is known to `t'` if what was gone before them is known to `t`. -/
def Keeps (t : MoveTracker) (x : DeclId) (es : List Event) (t' : MoveTracker) : Prop :=
  ∀ before, t.Knows x before → t'.Knows x (before ++ es)

/-- The local is whole after the events if what was gone of it before them is known. -/
def Spares (t : MoveTracker) (x : DeclId) (es : List Event) : Prop :=
  ∀ before, t.Knows x before → ∀ p, p.root = x → ¬Dangling p (before ++ es)

theorem keeps_afterAll (t : MoveTracker) (x : DeclId) (es : List Event) : t.Keeps x es (t.afterAll es) :=
  fun _ hbefore => hbefore.afterAll es

theorem Keeps.trans (h : t.Keeps x es t') (h' : t'.Keeps x es' t'') : t.Keeps x (es ++ es') t'' := by
  intro before hbefore
  rw [← List.append_assoc]
  exact h' _ (h before hbefore)

theorem Keeps.spares (h : t.Keeps x es t') (h' : t'.Spares x es') : t.Spares x (es ++ es') := by
  intro before hbefore
  rw [← List.append_assoc]
  exact h' _ (h before hbefore)

theorem Keeps.spares_of_whole (h : t.Keeps x es t') (hwhole : t'.movedFrom x = false) : t.Spares x es := by
  intro before hbefore p hroot hgone
  have hmoved := movedFrom_of_covers (h before hbefore p hroot hgone)
  rw [hroot, hwhole] at hmoved
  contradiction

end MoveTracker

namespace Flow

variable {t : MoveTracker} {p : Place} {tests : List (List Event)} {arms : List (List Flow)} {exhaustive : Bool}

theorem covers_run_fork (h : (t.afterAll tests.flatten).covers p = true) :
    ((fork tests arms exhaustive).run t).covers p = true := by
  by_cases hkept : t.policy = .restore ∨ exhaustive = false
  · rwa [run_fork_eq_tests tests arms hkept]
  · obtain ⟨hpolicy, hexhaustive⟩ := not_or.1 hkept
    have hintersect : (t.afterAll tests.flatten).policy = .intersect := by
      rw [t.policy_afterAll]
      cases hp : t.policy with
      | restore => exact absurd hp hpolicy
      | intersect => rfl
    obtain rfl : exhaustive = true := by simpa using hexhaustive
    have hrun : (fork tests arms true).run t = (fork [] arms true).run (t.afterAll tests.flatten) := by
      rw [run, run]
      rfl
    rw [hrun]
    exact covers_arms_of_before hintersect h

theorem covers_runAll {fs : List Flow} (h : t.covers p = true)
    (hfs : ∀ q, .event (.written q) ∈ allEntries fs → p.within q = false) : (runAll fs t).covers p = true := by
  induction fs generalizing t with
  | nil => rwa [runAll]
  | cons f fs ih =>
    rw [runAll]
    cases f with
    | event e =>
      apply ih
      · have he : ∀ q, .written q ∈ [e] → p.within q = false := by
          intro q hq
          apply hfs q
          rw [List.mem_singleton.1 hq, allEntries, entries]
          exact List.mem_cons_self
        rw [run]
        exact MoveTracker.covers_afterAll h he
      · intro q hq
        apply hfs q
        rw [allEntries]
        exact List.mem_append_right _ hq
    | fork tests arms exhaustive =>
      apply ih
      · apply covers_run_fork
        apply MoveTracker.covers_afterAll h
        exact fun q hq => hfs q (mem_fork.2 (.inl hq))
      · exact fun q hq => hfs q (mem_fork.2 (.inr (.inr hq)))
    | loop test body =>
      apply ih
      · rw [run_loop]
        apply MoveTracker.covers_afterAll h
        exact fun q hq => hfs q (mem_loop.2 (.inl hq))
      · exact fun q hq => hfs q (mem_loop.2 (.inr (.inr hq)))

end Flow

/-! ### Courses along which a local is accounted for -/

namespace Course

/-- What is destroyed at the end of each block has not been moved out of, as far as the tracker knows, and conditions
do not write. -/
inductive Scheduled : MoveTracker → List Course → Prop
  | nil (t : MoveTracker) : Scheduled t []
  | event {t : MoveTracker} {e : Event} {cs : List Course} (hrest : Scheduled (t.after e) cs) :
      Scheduled t (.event e :: cs)
  | block {t : MoveTracker} {id : BlockId} {body cs : List Course} {dropped : List DeclId}
      (hbody : Scheduled t body) (hwhole : ∀ x ∈ dropped, (runAll (flows body) t).movedFrom x = false)
      (hrest : Scheduled (runAll (flows body) t) cs) : Scheduled t (.block id body dropped :: cs)
  | fork {t : MoveTracker} {tests : List (List Event)} {arms : List (List Course)} {exhaustive : Bool}
      {cs : List Course} (htests : ∀ e ∈ tests.flatten, e.inExpr = true)
      (harms : ∀ arm ∈ arms, Scheduled (t.afterAll tests.flatten) arm)
      (hrest : Scheduled ((Flow.fork tests (armFlows arms) exhaustive).run t) cs) :
      Scheduled t (.fork tests arms exhaustive :: cs)
  | loop {t : MoveTracker} {test : List Event} {body cs : List Course} (hbody : Scheduled (t.afterAll test) body)
      (hrest : Scheduled (t.afterAll test) cs) : Scheduled t (.loop test body :: cs)

/-- Nothing is written to the local, and the block is somewhere else. -/
structure Sealed (x : DeclId) (b : BlockId) (cs : List Course) : Prop where
  unwritten : ∀ q, .event (.written q) ∈ allEntries (flows cs) → q.root ≠ x
  elsewhere : ∀ dropped, (b, dropped) ∉ allExits cs

/-- One of the arms can be gone through such that the tracker knows afterwards what is gone of the local. -/
def Passed (x : DeclId) (arms : List (List Course)) (after : MoveTracker) (ending : Ending) : Prop :=
  ∃ arm ∈ arms, ∃ es, Ways arm es ending ∧ after.Knows x es

/-- What is gone of the local is accounted for on the way to the end of the block. -/
inductive Accounted (x : DeclId) (b : BlockId) : MoveTracker → List Course → Ending → Prop
  | nil (t : MoveTracker) : Accounted x b t [] .through
  | event {t : MoveTracker} {e : Event} {cs : List Course} {ending : Ending} (hstays : e.stays = true)
      (hrest : Accounted x b (t.after e) cs ending) : Accounted x b t (.event e :: cs) ending
  | returned {t : MoveTracker} {cs : List Course} (hsealed : Sealed x b cs) :
      Accounted x b t (.event .returned :: cs) .left
  | block {t : MoveTracker} {id : BlockId} {body cs : List Course} {dropped : List DeclId} {ending : Ending}
      (hbody : Accounted x b t body .through) (hrest : Accounted x b (runAll (flows body) t) cs ending) :
      Accounted x b t (.block id body dropped :: cs) ending
  | leftBlock {t : MoveTracker} {id : BlockId} {body cs : List Course} {dropped : List DeclId}
      (hbody : Accounted x b t body .left) (hsealed : Sealed x b cs) :
      Accounted x b t (.block id body dropped :: cs) .left
  | fork {t : MoveTracker} {tests : List (List Event)} {arms : List (List Course)} {exhaustive : Bool}
      {cs : List Course} {ending : Ending} (endings : List Course → Ending)
      (harms : ∀ arm ∈ arms, Accounted x b (t.afterAll tests.flatten) arm (endings arm))
      -- unless one can go past all arms
      (hpassed : exhaustive = true → Passed x arms ((Flow.fork tests (armFlows arms) exhaustive).run t) .through)
      (hrest : Accounted x b ((Flow.fork tests (armFlows arms) exhaustive).run t) cs ending) :
      Accounted x b t (.fork tests arms exhaustive :: cs) ending
  | leftFork {t : MoveTracker} {tests : List (List Event)} {arms : List (List Course)} {exhaustive : Bool}
      {cs : List Course} (endings : List Course → Ending)
      (harms : ∀ arm ∈ arms, Accounted x b (t.afterAll tests.flatten) arm (endings arm))
      (hpassed : Passed x arms ((Flow.fork tests (armFlows arms) exhaustive).run t) .left) (hsealed : Sealed x b cs) :
      Accounted x b t (.fork tests arms exhaustive :: cs) .left
  | loop {t : MoveTracker} {test : List Event} {body cs : List Course} {inner ending : Ending}
      (hbody : Accounted x b (t.afterAll test) body inner) (hrest : Accounted x b (t.afterAll test) cs ending) :
      Accounted x b t (.loop test body :: cs) ending

variable {x : DeclId} {b : BlockId} {t : MoveTracker} {cs : List Course} {ending : Ending}

theorem Sealed.keeps (h : Sealed x b cs) : t.Keeps x [] (runAll (flows cs) t) := by
  intro before hbefore
  rw [List.append_nil]
  apply hbefore.mono
  intro p hroot hcovers
  apply covers_runAll hcovers
  intro q hq
  have hne : p.root ≠ q.root := by
    rw [hroot]
    exact (h.unwritten q hq).symm
  rw [Place.within, beq_false_of_ne hne, Bool.false_and]

section Fork

variable {tests : List (List Event)} {arms : List (List Course)} {exhaustive : Bool}

/-- All arms start with what all conditions do, also with what those do that are not evaluated on the way to an
arm. -/
theorem keeps_tests (htests : ∀ e ∈ tests.flatten, e.inExpr = true) (i : Nat) :
    t.Keeps x (tests.take i).flatten (t.afterAll tests.flatten) := by
  have hsplit : tests.flatten = (tests.take i).flatten ++ (tests.drop i).flatten := by
    rw [← List.flatten_append, List.take_append_drop]
  intro before hbefore
  rw [hsplit, MoveTracker.afterAll_append]
  apply (hbefore.afterAll (tests.take i).flatten).mono
  intro p _ hcovers
  apply MoveTracker.covers_afterAll hcovers
  intro q hq
  have hwritten := htests (.written q) (hsplit ▸ List.mem_append_right _ hq)
  contradiction

theorem Passed.exists_way (h : Passed x arms ((Flow.fork tests (armFlows arms) exhaustive).run t) ending)
    (htests : ∀ e ∈ tests.flatten, e.inExpr = true) :
    ∃ es, Way (.fork tests arms exhaustive) es ending ∧
      t.Keeps x es ((Flow.fork tests (armFlows arms) exhaustive).run t) := by
  obtain ⟨arm, harm, es, hways, hafter⟩ := h
  obtain ⟨i, hi⟩ := List.getElem?_of_mem harm
  refine ⟨_, .arm hi hways, ?_⟩
  intro before hbefore
  rw [← List.append_assoc]
  apply MoveTracker.Knows.append _ hafter
  apply (keeps_tests htests (i + 1) before hbefore).mono
  intro p _ hcovers
  exact covers_run_fork hcovers

theorem exists_way_fork (htests : ∀ e ∈ tests.flatten, e.inExpr = true)
    (hpassed : exhaustive = true → Passed x arms ((Flow.fork tests (armFlows arms) exhaustive).run t) .through) :
    ∃ es, Way (.fork tests arms exhaustive) es .through ∧
      t.Keeps x es ((Flow.fork tests (armFlows arms) exhaustive).run t) := by
  cases exhaustive with
  | true => exact (hpassed rfl).exists_way htests
  | false =>
    refine ⟨_, .skip tests arms, ?_⟩
    rw [run_fork_eq_tests tests _ (.inr rfl)]
    exact t.keeps_afterAll x _

end Fork

/-- There is a way along the course after which the tracker knows what is gone of the local. -/
theorem Accounted.exists_ways (h : Accounted x b t cs ending) (hscheduled : Scheduled t cs) :
    ∃ es, Ways cs es ending ∧ t.Keeps x es (runAll (flows cs) t) := by
  induction h with
  | nil t =>
    refine ⟨[], .nil, ?_⟩
    rw [flows, runAll]
    exact t.keeps_afterAll x []
  | @event t e cs ending hstays _ ih =>
    cases hscheduled with
    | event hrest =>
      obtain ⟨es, hways, hkeeps⟩ := ih hrest
      refine ⟨_, .cons (.event hstays) hways, ?_⟩
      rw [runAll_flows_cons, runAll_event]
      exact (t.keeps_afterAll x [e]).trans hkeeps
  | @returned t cs hsealed =>
    refine ⟨_, .stop .returned cs, ?_⟩
    rw [runAll_flows_cons, runAll_event]
    exact (t.keeps_afterAll x [.returned]).trans hsealed.keeps
  | @block t id body cs dropped ending _ _ ihbody ihrest =>
    cases hscheduled with
    | block hbody _ hrest =>
      obtain ⟨es, hways, hkeeps⟩ := ihbody hbody
      obtain ⟨es', hways', hkeeps'⟩ := ihrest hrest
      refine ⟨_, .cons (.block hways) hways', ?_⟩
      rw [runAll_flows_cons, flow]
      exact hkeeps.trans hkeeps'
  | @leftBlock t id body cs dropped _ hsealed ih =>
    cases hscheduled with
    | block hbody _ _ =>
      obtain ⟨es, hways, hkeeps⟩ := ih hbody
      refine ⟨es, .stop (.block hways) cs, ?_⟩
      rw [runAll_flows_cons, flow, ← List.append_nil es]
      exact hkeeps.trans hsealed.keeps
  | @fork t tests arms exhaustive cs ending _ _ hpassed _ _ ihrest =>
    cases hscheduled with
    | fork htests _ hrest =>
      obtain ⟨es, hway, hkeeps⟩ := exists_way_fork htests hpassed
      obtain ⟨es', hways, hkeeps'⟩ := ihrest hrest
      refine ⟨_, .cons hway hways, ?_⟩
      rw [runAll_flows_cons, runAll_fork]
      exact hkeeps.trans hkeeps'
  | @leftFork t tests arms exhaustive cs _ _ hpassed hsealed _ =>
    cases hscheduled with
    | fork htests _ _ =>
      obtain ⟨es, hway, hkeeps⟩ := hpassed.exists_way htests
      refine ⟨es, .stop hway cs, ?_⟩
      rw [runAll_flows_cons, runAll_fork, ← List.append_nil es]
      exact hkeeps.trans hsealed.keeps
  | @loop t test body cs _ ending _ _ _ ihrest =>
    cases hscheduled with
    | loop _ hrest =>
      obtain ⟨es, hways, hkeeps⟩ := ihrest hrest
      refine ⟨_, .cons (.leave test body) hways, ?_⟩
      rw [runAll_flows_cons, runAll_loop]
      exact (t.keeps_afterAll x test).trans hkeeps

section Exits

variable {dropped : List DeclId}

theorem exists_exit_block {id : BlockId} {body : List Course} {dropped' : List DeclId}
    (hexit : (b, dropped) ∈ (block id body dropped').exits) (hx : x ∈ dropped)
    (hbody : Accounted x b t body ending) (hscheduled : Scheduled t body)
    (hwhole : ∀ y ∈ dropped', (runAll (flows body) t).movedFrom y = false)
    (hinner : (b, dropped) ∈ allExits body → ∃ es, Exits b body es ∧ t.Spares x es) :
    ∃ es, Exit b (.block id body dropped') es ∧ t.Spares x es := by
  rw [exits, List.mem_append, List.mem_singleton, Prod.mk.injEq] at hexit
  rcases hexit with hexit | ⟨rfl, rfl⟩
  · obtain ⟨es, hexits, hspares⟩ := hinner hexit
    exact ⟨es, .block hexits, hspares⟩
  · obtain ⟨es, hways, hkeeps⟩ := hbody.exists_ways hscheduled
    exact ⟨es, .here hways, hkeeps.spares_of_whole (hwhole x hx)⟩

theorem exists_exit_fork {tests : List (List Event)} {arms : List (List Course)} {exhaustive : Bool}
    (hexit : (b, dropped) ∈ (fork tests arms exhaustive).exits) (htests : ∀ e ∈ tests.flatten, e.inExpr = true)
    (hinner : ∀ arm ∈ arms, (b, dropped) ∈ allExits arm →
      ∃ es, Exits b arm es ∧ (t.afterAll tests.flatten).Spares x es) :
    ∃ es, Exit b (.fork tests arms exhaustive) es ∧ t.Spares x es := by
  rw [exits, armExits_eq_flatMap, List.mem_flatMap] at hexit
  obtain ⟨arm, harm, hexit⟩ := hexit
  obtain ⟨es, hexits, hspares⟩ := hinner arm harm hexit
  obtain ⟨i, hi⟩ := List.getElem?_of_mem harm
  exact ⟨_, .arm hi hexits, (keeps_tests htests (i + 1)).spares hspares⟩

/-- If the local is destroyed at the end of the block, some way there leaves it whole. -/
theorem Accounted.exists_exits (h : Accounted x b t cs ending) (hscheduled : Scheduled t cs)
    (hexit : (b, dropped) ∈ allExits cs) (hx : x ∈ dropped) : ∃ es, Exits b cs es ∧ t.Spares x es := by
  induction h with
  | nil t =>
    rw [allExits] at hexit
    exact absurd hexit List.not_mem_nil
  | @event t e cs ending hstays _ ih =>
    cases hscheduled with
    | event hrest =>
      rw [allExits, exits, List.nil_append] at hexit
      obtain ⟨es, hexits, hspares⟩ := ih hrest hexit
      exact ⟨_, .tail (.event hstays) hexits, (t.keeps_afterAll x [e]).spares hspares⟩
  | @returned t cs hsealed =>
    rw [allExits, exits, List.nil_append] at hexit
    exact absurd hexit (hsealed.elsewhere dropped)
  | @block t id body cs _ ending hbody _ ihbody ihrest =>
    cases hscheduled with
    | block hinner hwhole hrest =>
      rw [allExits, List.mem_append] at hexit
      rcases hexit with hexit | hexit
      · obtain ⟨es, hfirst, hspares⟩ := exists_exit_block hexit hx hbody hinner hwhole (ihbody hinner)
        exact ⟨es, .head hfirst cs, hspares⟩
      · obtain ⟨es, hways, hkeeps⟩ := hbody.exists_ways hinner
        obtain ⟨es', hexits, hspares⟩ := ihrest hrest hexit
        exact ⟨_, .tail (.block hways) hexits, hkeeps.spares hspares⟩
  | @leftBlock t id body cs _ hbody hsealed ih =>
    cases hscheduled with
    | block hinner hwhole _ =>
      rw [allExits, List.mem_append] at hexit
      rcases hexit with hexit | hexit
      · obtain ⟨es, hfirst, hspares⟩ := exists_exit_block hexit hx hbody hinner hwhole (ih hinner)
        exact ⟨es, .head hfirst cs, hspares⟩
      · exact absurd hexit (hsealed.elsewhere dropped)
  | @fork t tests arms exhaustive cs ending _ _ hpassed _ iharms ihrest =>
    cases hscheduled with
    | fork htests harms hrest =>
      rw [allExits, List.mem_append] at hexit
      rcases hexit with hexit | hexit
      · obtain ⟨es, hfirst, hspares⟩ := exists_exit_fork hexit htests fun arm harm => iharms arm harm (harms arm harm)
        exact ⟨es, .head hfirst cs, hspares⟩
      · obtain ⟨es, hway, hkeeps⟩ := exists_way_fork htests hpassed
        obtain ⟨es', hexits, hspares⟩ := ihrest hrest hexit
        exact ⟨_, .tail hway hexits, hkeeps.spares hspares⟩
  | @leftFork t tests arms exhaustive cs _ _ _ hsealed iharms =>
    cases hscheduled with
    | fork htests harms _ =>
      rw [allExits, List.mem_append] at hexit
      rcases hexit with hexit | hexit
      · obtain ⟨es, hfirst, hspares⟩ := exists_exit_fork hexit htests fun arm harm => iharms arm harm (harms arm harm)
        exact ⟨es, .head hfirst cs, hspares⟩
      · exact absurd hexit (hsealed.elsewhere dropped)
  | @loop t test body cs _ ending _ _ ihbody ihrest =>
    cases hscheduled with
    | loop hinner hrest =>
      rw [allExits, exits, List.mem_append] at hexit
      rcases hexit with hexit | hexit
      · obtain ⟨es, hexits, hspares⟩ := ihbody hinner hexit
        exact ⟨_, .head (.loop hexits) cs, (t.keeps_afterAll x test).spares hspares⟩
      · obtain ⟨es, hexits, hspares⟩ := ihrest hrest hexit
        exact ⟨_, .tail (.leave test body) hexits, (t.keeps_afterAll x test).spares hspares⟩

end Exits

end Course

end Linkage
