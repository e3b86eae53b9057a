import Linkage.Proofs.Moves.Record

/-!
# The flow of a body

The record of a body is flat. Its marks tell how events belong together, and reading them back gives the flow of the
body: a list of events and of constructs that have lists of the same kind as their arms. A flow determines what the
tracker holds when it is over. `Tracked` says that every event was noted when the tracker agreed with it.
-/

namespace Linkage

inductive Flow where
  | event (e : Event)
  /-- Conditions are evaluated one after the other, up to the one that selects an arm. An arm that has no
  condition of its own comes after all of them. -/
  | fork (tests : List (List Event)) (arms : List (List Flow)) (exhaustive : Bool)
  | loop (test : List Event) (body : List Flow)

/-! ### Writing a flow down -/

def testEntries (tests : List (List Event)) : List Entry :=
  tests.flatMap fun test => test.map .event ++ [.mark .test]

namespace Flow

mutual
def entries : Flow → List Entry
  | .event e => [.event e]
  | .fork tests arms exhaustive =>
    .mark .fork :: (testEntries tests ++ (armEntries arms ++ [.mark (.join exhaustive)]))
  | .loop test body =>
    .mark .loop :: (testEntries [test] ++ (allEntries body ++ [.mark .arm, .mark (.join false)]))
def allEntries : List Flow → List Entry
  | [] => []
  | f :: fs => f.entries ++ allEntries fs
def armEntries : List (List Flow) → List Entry
  | [] => []
  | arm :: arms => allEntries arm ++ .mark .arm :: armEntries arms
end

theorem allEntries_append (fs gs : List Flow) : allEntries (fs ++ gs) = allEntries fs ++ allEntries gs := by
  induction fs with
  | nil => rw [allEntries, List.nil_append, List.nil_append]
  | cons f fs ih => rw [List.cons_append, allEntries, allEntries, ih, List.append_assoc]

theorem allEntries_map_event (es : List Event) : allEntries (es.map .event) = es.map .event := by
  induction es with
  | nil => rw [List.map_nil, allEntries, List.map_nil]
  | cons e es ih => rw [List.map_cons, allEntries, entries, ih, List.map_cons, List.singleton_append]

end Flow

/-! ### Reading it back -/

structure OpenFlow where
  isLoop : Bool
  before : List Flow
  tests : List (List Event) := []
  arms : List (List Flow) := []

def OpenFlow.close (o : OpenFlow) (exhaustive : Bool) : Flow :=
  if o.isLoop then .loop (o.tests.headD []) (o.arms.headD []) else .fork o.tests o.arms exhaustive

/-- What has been read since the last mark, and the constructs around it, the innermost in front. -/
structure FlowReader where
  found : List Flow := []
  around : List OpenFlow := []

def Flow.event? : Flow → Option Event
  | .event e => some e
  | .fork _ _ _ | .loop _ _ => none

namespace FlowReader

def step (r : FlowReader) : Entry → FlowReader
  | .event e => { r with found := r.found ++ [.event e] }
  | .mark .fork => { around := { isLoop := false, before := r.found } :: r.around }
  | .mark .loop => { around := { isLoop := true, before := r.found } :: r.around }
  | .mark .test =>
    match r.around with
    | [] => r
    | o :: around => { around := { o with tests := o.tests ++ [r.found.filterMap Flow.event?] } :: around }
  | .mark .arm =>
    match r.around with
    | [] => r
    | o :: around => { around := { o with arms := o.arms ++ [r.found] } :: around }
  | .mark (.join exhaustive) =>
    match r.around with
    | [] => r
    | o :: around => { found := o.before ++ [o.close exhaustive], around }

def all (r : FlowReader) (entries : List Entry) : FlowReader := entries.foldl step r

theorem all_append (r : FlowReader) (entries entries' : List Entry) :
    r.all (entries ++ entries') = (r.all entries).all entries' :=
  List.foldl_append

theorem all_cons (r : FlowReader) (entry : Entry) (entries : List Entry) :
    r.all (entry :: entries) = (r.step entry).all entries := rfl

theorem all_events (r : FlowReader) (es : List Event) :
    r.all (es.map .event) = { r with found := r.found ++ es.map .event } := by
  induction es generalizing r with
  | nil => simp [all]
  | cons e es ih =>
    rw [List.map_cons, all_cons, ih]
    simp [step]

theorem all_testEntries (o : OpenFlow) (around : List OpenFlow) (tests : List (List Event)) :
    all { around := o :: around } (testEntries tests) =
      { around := { o with tests := o.tests ++ tests } :: around } := by
  induction tests generalizing o with
  | nil => simp [testEntries, all]
  | cons test tests ih =>
    have hevents : (test.map Flow.event).filterMap Flow.event? = test := by
      simp [List.filterMap_map, Function.comp_def, Flow.event?]
    rw [testEntries, List.flatMap_cons, ← testEntries, List.append_assoc, all_append, all_events, all_append,
      all_cons]
    simp only [step, List.nil_append, hevents, all, List.foldl_nil]
    have hrest := ih { o with tests := o.tests ++ [test] }
    rw [all] at hrest
    rw [hrest]
    simp

mutual
theorem all_entries : ∀ (f : Flow) (r : FlowReader), r.all f.entries = { r with found := r.found ++ [f] }
  | .event e, r => by
    rw [Flow.entries]
    rfl
  | .fork tests arms exhaustive, r => by
    rw [Flow.entries, all_cons, all_append]
    simp only [step]
    rw [all_testEntries, all_append, all_armEntries arms]
    simp [all, step, OpenFlow.close]
  | .loop test body, r => by
    rw [Flow.entries, all_cons, all_append]
    simp only [step]
    rw [all_testEntries, all_append, all_allEntries body]
    simp [all, step, OpenFlow.close]
theorem all_allEntries : ∀ (fs : List Flow) (r : FlowReader),
    r.all (Flow.allEntries fs) = { r with found := r.found ++ fs }
  | [], r => by
    rw [Flow.allEntries, List.append_nil]
    rfl
  | f :: fs, r => by
    rw [Flow.allEntries, all_append, all_entries f, all_allEntries fs]
    simp
theorem all_armEntries : ∀ (arms : List (List Flow)) {o : OpenFlow} {around : List OpenFlow},
    all { around := o :: around } (Flow.armEntries arms) =
      { around := { o with arms := o.arms ++ arms } :: around }
  | [], o, around => by
    rw [Flow.armEntries, List.append_nil]
    rfl
  | arm :: arms, o, around => by
    rw [Flow.armEntries, all_append, all_allEntries arm, all_cons]
    simp only [step, List.nil_append]
    rw [all_armEntries arms]
    simp
end

end FlowReader

def Flow.ofEntries (entries : List Entry) : List Flow := (FlowReader.all {} entries).found

theorem Flow.ofEntries_allEntries (fs : List Flow) : ofEntries (allEntries fs) = fs := by
  rw [ofEntries, FlowReader.all_allEntries, List.nil_append]

theorem Flow.allEntries_injective : Function.Injective allEntries :=
  Function.LeftInverse.injective ofEntries_allEntries

/-! ### Following a flow -/

namespace Flow

mutual
def run : Flow → MoveTracker → MoveTracker
  | .event e, t => t.after e
  | .fork tests arms exhaustive, t =>
    let start := t.afterAll tests.flatten
    let (last, branch) := runArms arms start start.beginBranch
    last.endBranch branch exhaustive
  | .loop test body, t =>
    let start := t.afterAll test
    let (last, branch) := (runAll body start).endArm start.beginBranch
    last.endBranch branch false
def runAll : List Flow → MoveTracker → MoveTracker
  | [], t => t
  | f :: fs, t => runAll fs (f.run t)
def runArms : List (List Flow) → MoveTracker → Branch → MoveTracker × Branch
  | [], t, branch => (t, branch)
  | arm :: arms, t, branch =>
    let (next, branch) := (runAll arm t).endArm branch
    runArms arms next branch
end

theorem runAll_append (fs gs : List Flow) (t : MoveTracker) : runAll (fs ++ gs) t = runAll gs (runAll fs t) := by
  induction fs generalizing t with
  | nil => rw [List.nil_append, runAll]
  | cons f fs ih => rw [List.cons_append, runAll, runAll, ih]

theorem runAll_map_event (es : List Event) (t : MoveTracker) : runAll (es.map .event) t = t.afterAll es := by
  induction es generalizing t with
  | nil => rw [List.map_nil, runAll, MoveTracker.afterAll, List.foldl_nil]
  | cons e es ih => rw [List.map_cons, runAll, run, ih, MoveTracker.afterAll, MoveTracker.afterAll, List.foldl_cons]

theorem policy_moveFresh (t : MoveTracker) (m : MovedPlace) : (t.moveFresh m).policy = t.policy := by
  unfold MoveTracker.moveFresh
  split
  · rfl
  · rfl

theorem policy_endBranch (t : MoveTracker) (branch : Branch) (exhaustive : Bool) :
    (t.endBranch branch exhaustive).policy = t.policy := by
  have hfold : ∀ (places : List MovedPlace) (t : MoveTracker),
      (places.foldl MoveTracker.moveFresh t).policy = t.policy := by
    intro places
    induction places with
    | nil => exact fun _ => rfl
    | cons m places ih => exact fun t => (ih _).trans (policy_moveFresh t m)
  unfold MoveTracker.endBranch
  dsimp only
  split
  · exact hfold _ _
  · rfl

theorem endBranch_eq_start {start last : MoveTracker} (hpolicy : last.policy = start.policy) {branch : Branch}
    (hbefore : branch.before = start.moved) {exhaustive : Bool}
    (h : start.policy = .restore ∨ exhaustive = false) : last.endBranch branch exhaustive = start := by
  obtain ⟨policy, moved⟩ := start
  simp only at hbefore hpolicy h
  rcases h with rfl | rfl
  · simp [MoveTracker.endBranch, MoveTracker.restore, hpolicy, hbefore]
  · simp [MoveTracker.endBranch, MoveTracker.restore, hpolicy, hbefore]

mutual
theorem policy_run : ∀ (f : Flow) (t : MoveTracker), (f.run t).policy = t.policy
  | .event e, t => by
    rw [run]
    exact t.policy_after e
  | .fork tests arms exhaustive, t => by
    rw [run, policy_endBranch, (runArms_start arms _ _).1]
    exact t.policy_afterAll _
  | .loop test body, t => by
    rw [run, policy_endBranch]
    exact (policy_runAll body _).trans (t.policy_afterAll _)
theorem policy_runAll : ∀ (fs : List Flow) (t : MoveTracker), (runAll fs t).policy = t.policy
  | [], t => by rw [runAll]
  | f :: fs, t => by rw [runAll, policy_runAll fs, policy_run f]
theorem runArms_start : ∀ (arms : List (List Flow)) (t : MoveTracker) (branch : Branch),
    (runArms arms t branch).1.policy = t.policy ∧ (runArms arms t branch).2.before = branch.before
  | [], t, branch => by
    rw [runArms]
    exact ⟨rfl, rfl⟩
  | arm :: arms, t, branch => by
    rw [runArms]
    obtain ⟨hpolicy, hbefore⟩ := runArms_start arms ((runAll arm t).endArm branch).1 ((runAll arm t).endArm branch).2
    exact ⟨hpolicy.trans (policy_runAll arm t), hbefore⟩
end

/-- Under the policy that restores, and where none of the arms has to run, a conditional leaves behind what its
conditions do. -/
theorem run_fork_eq_tests {t : MoveTracker} (tests : List (List Event)) (arms : List (List Flow)) {exhaustive : Bool}
    (h : t.policy = .restore ∨ exhaustive = false) :
    (fork tests arms exhaustive).run t = t.afterAll tests.flatten := by
  obtain ⟨hpolicy, hbefore⟩ := runArms_start arms (t.afterAll tests.flatten) (t.afterAll tests.flatten).beginBranch
  rw [run]
  apply endBranch_eq_start hpolicy hbefore
  rwa [t.policy_afterAll]

theorem run_loop (t : MoveTracker) (test : List Event) (body : List Flow) :
    (loop test body).run t = t.afterAll test := by
  rw [run]
  exact endBranch_eq_start (policy_runAll body _) rfl (.inr rfl)

end Flow

/-- Every event of the flow was noted when the tracker agreed with it, and the conditions of a construct do
not leave the body. -/
inductive Tracked : MoveTracker → List Flow → Prop
  | nil (t : MoveTracker) : Tracked t []
  | event {t : MoveTracker} {e : Event} {fs : List Flow} (htruthful : e.Truthful t)
      (hrest : Tracked (t.after e) fs) : Tracked t (.event e :: fs)
  | fork {t : MoveTracker} {tests : List (List Event)} {arms : List (List Flow)} {exhaustive : Bool}
      {fs : List Flow} (htests : Tracked t (tests.flatten.map .event))
      (hstays : ∀ e ∈ tests.flatten, e.stays = true) (hlength : tests.length ≤ arms.length)
      (harms : ∀ arm ∈ arms, Tracked (t.afterAll tests.flatten) arm)
      (hrest : Tracked ((Flow.fork tests arms exhaustive).run t) fs) : Tracked t (.fork tests arms exhaustive :: fs)
  | loop {t : MoveTracker} {test : List Event} {body fs : List Flow} (htest : Tracked t (test.map .event))
      (hstays : ∀ e ∈ test, e.stays = true) (hbody : Tracked (t.afterAll test) body)
      (hrest : Tracked ((Flow.loop test body).run t) fs) : Tracked t (.loop test body :: fs)

namespace Tracked

theorem append {t : MoveTracker} {fs gs : List Flow} (h : Tracked t fs) (h' : Tracked (Flow.runAll fs t) gs) :
    Tracked t (fs ++ gs) := by
  induction h with
  | nil t =>
    rw [Flow.runAll] at h'
    exact h'
  | event htruthful _ ih =>
    rw [Flow.runAll, Flow.run] at h'
    exact .event htruthful (ih h')
  | fork htests hstays hlength harms _ _ _ ih =>
    rw [Flow.runAll] at h'
    exact .fork htests hstays hlength harms (ih h')
  | loop htest hstays hbody _ _ _ ih =>
    rw [Flow.runAll] at h'
    exact .loop htest hstays hbody (ih h')

theorem of_noted {t : MoveTracker} {es : List Event} (h : Noted t es) : Tracked t (es.map .event) := by
  induction h with
  | nil => exact .nil t
  | snoc _ htruthful _ ih =>
    rw [List.map_append]
    refine ih.append (.event ?_ (.nil _))
    rwa [Flow.runAll_map_event]

end Tracked

end Linkage
