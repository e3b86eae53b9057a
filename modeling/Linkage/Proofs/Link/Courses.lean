import Linkage.Proofs.Link.Flows
import Linkage.Proofs.Moves.Courses

/-!
# The course of a body that is linked

A body is linked along its course. The course has the constructs and the blocks of the body in the same places
(`BlockCourse`), and its flow is what is added to the record (`BlockCourse.flow`). What is destroyed at the end of
a block is what linking adds to the schedule of the block, and nothing was moved out of it when it was added
(`Charts`).
-/

namespace Linkage

open Linkage.Flow

/-! ### Courses of statements -/

mutual
/-- The course has the constructs and the blocks of the statement. -/
inductive StmtCourse : Stmt → List Course → Prop
  | node {id : StmtId} {span : Span} {shape : StmtShape Expr Block} {cs : List Course} (hshape : ShapeCourse shape cs) :
      StmtCourse (.node id span shape) cs
inductive ShapeCourse : StmtShape Expr Block → List Course → Prop
  | binding {decl : DeclId} {init : Option Expr} {es : List Event} (hstays : ∀ e ∈ es, e.stays = true) :
      ShapeCourse (.binding decl init) (es.map .event)
  | assign {target value : Expr} {es : List Event} (hstays : ∀ e ∈ es, e.stays = true) :
      ShapeCourse (.assign target value) (es.map .event)
  | expr {e : Expr} {es : List Event} (hstays : ∀ e ∈ es, e.stays = true) : ShapeCourse (.expr e) (es.map .event)
  | ret {value : Option Expr} {es : List Event} (hstays : ∀ e ∈ es, e.stays = true) :
      ShapeCourse (.ret value) (es.map .event ++ [.event .returned])
  | ifChain {arms : List (Expr × Block)} {otherwise : Option Block} {tests : List (List Event)}
      {courses : List (List Course)} (hlength : tests.length = arms.length)
      (harms : ArmsCourse (arms.map (·.2) ++ otherwise.toList) courses) :
      ShapeCourse (.ifChain arms otherwise) [.fork tests courses otherwise.isSome]
  | taken {cond : Expr} {first : Block} {otherwise : Option Block} {es : List Event} {c : Course}
      (hstays : ∀ e ∈ es, e.stays = true) (harm : BlockCourse first c) :
      ShapeCourse (.staticIf cond first otherwise) (es.map .event ++ [c])
  | passed {cond : Expr} {first : Block} {otherwise : Option Block} {es : List Event} {courses : List (List Course)}
      (hstays : ∀ e ∈ es, e.stays = true) (harm : ArmsCourse otherwise.toList courses) :
      ShapeCourse (.staticIf cond first otherwise) (es.map .event ++ courses.flatten)
  | undecided {cond : Expr} {first : Block} {otherwise : Option Block} {es : List Event}
      {courses : List (List Course)} (hstays : ∀ e ∈ es, e.stays = true)
      (harms : ArmsCourse (first :: otherwise.toList) courses) :
      ShapeCourse (.staticIf cond first otherwise) (es.map .event ++ [.fork [] courses otherwise.isSome])
  | switch {scrutinee : Expr} {cases : List (SwitchCase Expr Block)} {es : List Event} {courses : List (List Course)}
      (hstays : ∀ e ∈ es, e.stays = true) (harms : ArmsCourse (linkedBodies false cases) courses) :
      ShapeCourse (.switch scrutinee cases) (es.map .event ++ [.fork [] courses (cases.any (·.isDefault))])
  | whileLoop {cond : Expr} {inner : Block} {test : List Event} {c : Course} (hbody : BlockCourse inner c) :
      ShapeCourse (.whileLoop cond inner) [.loop test [c]]
  | block {inner : Block} {c : Course} (hinner : BlockCourse inner c) : ShapeCourse (.block inner) [c]
inductive BlockCourse : Block → Course → Prop
  | node {id : BlockId} {span : Span} {stmts : List Stmt} {cs : List Course} {dropped : List DeclId}
      (hstmts : StmtsCourse stmts cs) : BlockCourse (.node id span stmts) (.block id cs dropped)
inductive StmtsCourse : List Stmt → List Course → Prop
  | nil : StmtsCourse [] []
  | cons {stmt : Stmt} {stmts : List Stmt} {cs ds : List Course} (hstmt : StmtCourse stmt cs)
      (hrest : StmtsCourse stmts ds) : StmtsCourse (stmt :: stmts) (cs ++ ds)
inductive ArmsCourse : List Block → List (List Course) → Prop
  | nil : ArmsCourse [] []
  | cons {arm : Block} {arms : List Block} {c : Course} {courses : List (List Course)} (harm : BlockCourse arm c)
      (hrest : ArmsCourse arms courses) : ArmsCourse (arm :: arms) ([c] :: courses)
end

theorem ArmsCourse.length {arms : List Block} {courses : List (List Course)} (h : ArmsCourse arms courses) :
    courses.length = arms.length := by
  induction arms generalizing courses with
  | nil =>
    cases h
    rfl
  | cons arm arms ih =>
    cases h with
    | cons _ hrest => rw [List.length_cons, List.length_cons, ih hrest]

theorem ArmsCourse.append {arms arms' : List Block} {courses courses' : List (List Course)}
    (h : ArmsCourse arms courses) (h' : ArmsCourse arms' courses') :
    ArmsCourse (arms ++ arms') (courses ++ courses') := by
  induction arms generalizing courses with
  | nil =>
    cases h
    exact h'
  | cons arm arms ih =>
    cases h with
    | cons harm hrest => exact .cons harm (ih hrest)

/-! ### The flow of a course -/

namespace Course

theorem flows_singleton (c : Course) : flows [c] = c.flow := by
  rw [flows, flows, List.append_nil]

theorem flows_flatten (courses : List (List Course)) : flows courses.flatten = (armFlows courses).flatten := by
  induction courses with
  | nil => rw [List.flatten_nil, flows, armFlows, List.flatten_nil]
  | cons cs courses ih => rw [List.flatten_cons, flows_append, ih, armFlows, List.flatten_cons]

end Course

open Course in
mutual
theorem StmtCourse.flow {stmt : Stmt} {cs : List Course} : StmtCourse stmt cs → StmtFlow stmt (flows cs)
  | .node hshape => .node hshape.flow
theorem ShapeCourse.flow {shape : StmtShape Expr Block} {cs : List Course} :
    ShapeCourse shape cs → ShapeFlow shape (flows cs)
  | .binding hstays => by
    rw [flows_map_event]
    exact .binding hstays
  | .assign hstays => by
    rw [flows_map_event]
    exact .assign hstays
  | .expr hstays => by
    rw [flows_map_event]
    exact .expr hstays
  | .ret hstays => by
    rw [flows_append, flows_map_event, flows_singleton, Course.flow]
    exact .ret hstays
  | .ifChain hlength harms => by
    rw [flows_singleton, Course.flow]
    exact .ifChain hlength harms.flows
  | .taken hstays harm => by
    rw [flows_append, flows_map_event, flows_singleton]
    exact .taken hstays harm.flow
  | .passed hstays harm => by
    rw [flows_append, flows_map_event, flows_flatten]
    exact .passed hstays harm.flows
  | .undecided hstays harms => by
    rw [flows_append, flows_map_event, flows_singleton, Course.flow]
    exact .undecided hstays harms.flows
  | .switch hstays harms => by
    rw [flows_append, flows_map_event, flows_singleton, Course.flow]
    exact .switch hstays harms.flows
  | .whileLoop hbody => by
    rw [flows_singleton, Course.flow, flows_singleton]
    exact .whileLoop hbody.flow
  | .block hinner => by
    rw [flows_singleton]
    exact .block hinner.flow
theorem BlockCourse.flow {block : Block} {c : Course} : BlockCourse block c → BlockFlow block c.flow
  | .node hstmts => by
    rw [Course.flow]
    exact .node hstmts.flow
theorem StmtsCourse.flow {stmts : List Stmt} {cs : List Course} : StmtsCourse stmts cs → StmtsFlow stmts (flows cs)
  | .nil => by
    rw [flows]
    exact .nil
  | .cons hstmt hrest => by
    rw [flows_append]
    exact .cons hstmt.flow hrest.flow
theorem ArmsCourse.flows {arms : List Block} {courses : List (List Course)} :
    ArmsCourse arms courses → ArmsFlow arms (armFlows courses)
  | .nil => by
    rw [armFlows]
    exact .nil
  | .cons harm hrest => by
    rw [armFlows, flows_singleton]
    exact .cons harm.flow hrest.flows
end

/-! ### What is scheduled along a course -/

namespace Course

theorem Scheduled.events (es : List Event) (t : MoveTracker) : Scheduled t (es.map .event) := by
  induction es generalizing t with
  | nil => exact .nil t
  | cons e es ih => exact .event (ih (t.after e))

theorem Scheduled.append {t : MoveTracker} {cs ds : List Course} (h : Scheduled t cs)
    (h' : Scheduled (runAll (flows cs) t) ds) : Scheduled t (cs ++ ds) := by
  induction h with
  | nil t =>
    rw [flows, runAll] at h'
    exact h'
  | event _ ih =>
    rw [runAll_flows_cons, runAll_event] at h'
    exact .event (ih h')
  | block hbody hwhole _ _ ih =>
    rw [runAll_flows_cons, flow] at h'
    exact .block hbody hwhole (ih h')
  | fork htests harms _ _ ih =>
    rw [runAll_flows_cons, runAll_fork] at h'
    exact .fork htests harms (ih h')
  | loop hbody _ _ ih =>
    rw [runAll_flows_cons, runAll_loop] at h'
    exact .loop hbody (ih h')

variable {b : BlockId}

theorem droppedAt_map_event (es : List Event) : droppedAt (es.map .event) b = [] := by
  rw [droppedAt, allExits_map_event, List.flatMap_nil]

theorem droppedAt_block (id : BlockId) (cs : List Course) (dropped : List DeclId) :
    droppedAt [.block id cs dropped] b = droppedAt cs b ++ if id = b then dropped else [] := by
  simp [droppedAt, allExits, exits]

theorem droppedAt_fork (tests : List (List Event)) (arms : List (List Course)) (exhaustive : Bool) :
    droppedAt [.fork tests arms exhaustive] b = arms.flatMap (droppedAt · b) := by
  rw [droppedAt, allExits, exits, allExits, List.append_nil, armExits_eq_flatMap, List.flatMap_assoc]
  rfl

theorem droppedAt_loop (test : List Event) (cs : List Course) : droppedAt [.loop test cs] b = droppedAt cs b := by
  rw [droppedAt, allExits, exits, allExits, List.append_nil]
  rfl

end Course

namespace Link

variable {env : LinkEnv} {s s₁ s₂ s' : LinkState} {body : Body} {u : Unit} {branch branch' : Branch}
  {cs ds : List Course} {arms : List (List Course)} {tests : List (List Event)} {b : BlockId}

/-- The course is what was linked from `s` to `s'`. -/
structure Charts (s : LinkState) (cs : List Course) (s' : LinkState) : Prop where
  logs : Logs s (Course.flows cs) s'
  drops : ∀ b, s'.program.droppedAt b = s.program.droppedAt b ++ Course.droppedAt cs b
  scheduled : Course.Scheduled s.moves cs

theorem droppedAt_of_drops (h : s'.program.drops = s.program.drops) :
    s'.program.droppedAt b = s.program.droppedAt b := by
  rw [Program.droppedAt, Program.dropsAt, h]
  rfl

theorem Notes.charts {es : List Event} (h : Notes s es s') : Charts s (es.map .event) s' where
  logs := by
    rw [Course.flows_map_event]
    exact h.logs
  drops b := by rw [Course.droppedAt_map_event, List.append_nil, droppedAt_of_drops h.drops]
  scheduled := .events es _

theorem Charts.append (h : Charts s cs s₁) (h' : Charts s₁ ds s') : Charts s (cs ++ ds) s' where
  logs := by
    rw [Course.flows_append]
    exact h.logs.append h'.logs
  drops b := by rw [h'.drops, h.drops, Course.droppedAt_append, List.append_assoc]
  scheduled := h.scheduled.append (h.logs.moves ▸ h'.scheduled)

theorem Charts.block {id : BlockId} {dropped : List DeclId} (hopen : Silent s s₁) (hbody : Charts s₁ cs s₂)
    (hend : Schedules s₂ id dropped s') : Charts s [.block id cs dropped] s' := by
  have hmoves : s₂.moves = runAll (Course.flows cs) s.moves := by rw [hbody.logs.moves, hopen.moves]
  refine ⟨?_, fun b => ?_, .block (hopen.moves ▸ hbody.scheduled) (hmoves ▸ hend.whole) (.nil _)⟩
  · have hlogs := (hopen.notes.logs.append hbody.logs).append hend.logs
    rw [List.map_nil, List.nil_append, List.append_nil] at hlogs
    rwa [Course.flows_singleton, Course.flow]
  · rw [hend.schedule, hbody.drops, droppedAt_of_drops hopen.drops, Course.droppedAt_block, List.append_assoc]

/-- The arms of a branch, each of them ended before the next begins. -/
inductive ChartsArms (env : LinkEnv) : LinkState → Branch → List (List Course) → LinkState → Branch → Prop
  | nil (s : LinkState) (branch : Branch) : ChartsArms env s branch [] s branch
  | cons {s s₁ s₂ s' : LinkState} {branch branch₁ branch' : Branch} {cs : List Course} {arms : List (List Course)}
      (harm : Charts s cs s₁) (hend : Runs env (endArm branch) s₁ branch₁ s₂)
      (hrest : ChartsArms env s₂ branch₁ arms s' branch') : ChartsArms env s branch (cs :: arms) s' branch'

namespace ChartsArms

theorem append {arms' : List (List Course)} {branch₁ : Branch} (h : ChartsArms env s branch arms s₁ branch₁)
    (h' : ChartsArms env s₁ branch₁ arms' s' branch') : ChartsArms env s branch (arms ++ arms') s' branch' := by
  induction h with
  | nil => exact h'
  | cons harm hend _ ih => exact .cons harm hend (ih h')

theorem logs (h : ChartsArms env s branch arms s' branch') :
    LogsArms env s branch (Course.armFlows arms) s' branch' := by
  induction h with
  | nil s branch =>
    rw [Course.armFlows]
    exact .nil s branch
  | cons harm hend _ ih =>
    rw [Course.armFlows]
    exact .cons harm.logs hend ih

theorem drops (h : ChartsArms env s branch arms s' branch') (b : BlockId) :
    s'.program.droppedAt b = s.program.droppedAt b ++ arms.flatMap (Course.droppedAt · b) := by
  induction h with
  | nil => rw [List.flatMap_nil, List.append_nil]
  | cons harm hend _ ih =>
    rw [ih, droppedAt_of_drops (drops_endArm hend), harm.drops, List.flatMap_cons, List.append_assoc]

theorem scheduled (h : ChartsArms env s branch arms s' branch') (hbefore : branch.before = s.moves.moved) :
    ∀ arm ∈ arms, Course.Scheduled s.moves arm := by
  induction h with
  | nil => exact nofun
  | cons harm hend _ ih =>
    obtain ⟨hstart, hbefore'⟩ := harm.logs.next_arm hend hbefore
    intro arm hmem
    rcases List.mem_cons.1 hmem with rfl | hmem
    · exact harm.scheduled
    · exact hstart ▸ ih hbefore' arm hmem

end ChartsArms

theorem Charts.fork {u' : Unit} {s₃ : LinkState} {exhaustive : Bool} (hmark : Runs env (mark .fork) s u s₁)
    (htests : LogsTests s₁ tests s₂) (harms : ChartsArms env s₂ s₂.moves.beginBranch arms s₃ branch)
    (hend : Runs env (endBranch branch exhaustive) s₃ u' s') (hlength : tests.length ≤ arms.length) :
    Charts s [.fork tests arms exhaustive] s' := by
  have hstart : s₂.moves = s.moves.afterAll tests.flatten := by rw [htests.moves, (enters_mark hmark).2]
  refine ⟨?_, fun b => ?_, .fork htests.inExpr ?_ (.nil _)⟩
  · rw [Course.flows_singleton, Course.flow]
    apply Logs.fork hmark htests harms.logs hend
    rwa [Course.armFlows_eq_map, List.length_map]
  · rw [droppedAt_of_drops (drops_endBranch hend), harms.drops, droppedAt_of_drops htests.drops,
      droppedAt_of_drops (drops_mark hmark), Course.droppedAt_fork]
  · rw [← hstart]
    exact harms.scheduled rfl

theorem Charts.loop {u' : Unit} {s₃ s₄ : LinkState} {test : List Event} (hmark : Runs env (mark .loop) s u s₁)
    (htest : LogsTests s₁ [test] s₂) (hbody : Charts s₂ cs s₃)
    (harm : Runs env (endArm s₂.moves.beginBranch) s₃ branch s₄)
    (hend : Runs env (endBranch branch false) s₄ u' s') : Charts s [.loop test cs] s' := by
  have hstart : s₂.moves = s.moves.afterAll test := by
    rw [htest.moves, (enters_mark hmark).2]
    simp
  refine ⟨?_, fun b => ?_, .loop (hstart ▸ hbody.scheduled) (.nil _)⟩
  · rw [Course.flows_singleton, Course.flow]
    exact Logs.loop hmark htest hbody.logs harm hend
  · rw [droppedAt_of_drops (drops_endBranch hend), droppedAt_of_drops (drops_endArm harm), hbody.drops,
      droppedAt_of_drops htest.drops, droppedAt_of_drops (drops_mark hmark), Course.droppedAt_loop]

/-! ### Linking statements -/

theorem Noting.charts {kind : Event → Bool} (h : Noting kind s s') :
    ∃ es : List Event, (∀ e ∈ es, kind e = true) ∧ Charts s (es.map .event) s' := by
  obtain ⟨es, hnotes, hkind⟩ := h
  exact ⟨es, hkind, hnotes.charts⟩

theorem Leaving.charts (h : Leaving s s') :
    ∃ es : List Event, (∀ e ∈ es, e.stays = true) ∧ Charts s (es.map .event ++ [.event .returned]) s' := by
  obtain ⟨s₁, hnoting, hreturned⟩ := h
  obtain ⟨es, hstays, hcharts⟩ := hnoting.charts
  exact ⟨es, hstays, hcharts.append hreturned.charts⟩

theorem linkCaseValues_result {scrutinee : Ty} {hasDefault found : Bool} {cases : List (SwitchCase Expr Block)}
    (h : Runs env (linkCaseValues body scrutinee hasDefault cases) s found s') :
    found = (hasDefault || cases.any (·.isDefault)) := by
  induction cases generalizing s hasDefault with
  | nil =>
    obtain ⟨rfl, -⟩ := runs_pure.1 h
    simp
  | cons c cases ih =>
    rw [linkCaseValues] at h
    split at h
    · rename_i hdefault
      obtain ⟨_, s₁, -, hrest⟩ := runs_bind.1 h
      rw [ih hrest]
      simp [(Bool.and_eq_true _ _).mp hdefault]
    · obtain ⟨_, s₁, -, hrest⟩ := runs_bind.1 h
      rw [ih hrest, List.any_cons, Bool.or_assoc]

theorem runs_staticIf {id : StmtId} {span : Span} {cond : Expr} {first : Block} {otherwise : Option Block}
    (h : Runs env (linkStmtShape body id span (.staticIf cond first otherwise)) s u s') :
    ∃ s₁, Noting Event.stays s s₁ ∧ (Runs env (linkBlock body first) s₁ u s' ∨
      Runs env (linkElse body otherwise) s₁ u s' ∨
      Runs env (linkBoth (linkBlock body first) (linkOtherwise body · otherwise) otherwise.isSome) s₁ u s') := by
  rw [linkStmtShape, runs_bind] at h
  obtain ⟨_, s₁, hcond, h⟩ := h
  have hcond := (tells_linkCond cond s _ s₁ hcond).stays
  rw [runs_bind] at h
  obtain ⟨value, s₂, hvalue, h⟩ := h
  obtain rfl := (looks_evaluate cond).of_runs hvalue
  split at h
  · rw [runs_bind] at h
    obtain ⟨_, s₂, hbranch, h⟩ := h
    have hsilent : Silent s₁ s₂ := by
      rw [← runs_modify.1 hbranch]
      exact silent_of_eq rfl rfl rfl rfl rfl rfl
    refine ⟨s₂, Sequential.trans hcond hsilent.noting, ?_⟩
    split at h
    · exact .inl h
    · exact .inr (.inl h)
  · dsimp only at h
    split at h
    · rw [runs_bind] at h
      obtain ⟨_, s₂, hreport, h⟩ := h
      have hsilent : Silent s₁ s₂ := (silent_report _ (by rintro ⟨⟩)).of_runs hreport
      exact ⟨s₂, Sequential.trans hcond hsilent.noting, .inr (.inr h)⟩
    · exact ⟨s₁, hcond, .inr (.inr h)⟩

mutual
theorem linkStmt_charts : ∀ (stmt : Stmt) {s u s'}, Runs env (linkStmt body stmt) s u s' →
    ∃ cs, StmtCourse stmt cs ∧ Charts s cs s'
  | .missing id, s, u, s', h => by
    rw [linkStmt] at h
    exact absurd h not_runs_throw
  | .node id span shape, s, u, s', h => by
    rw [linkStmt] at h
    obtain ⟨cs, hshape, hcharts⟩ := linkStmtShape_charts shape h
    exact ⟨cs, .node hshape, hcharts⟩
theorem linkStmtShape_charts : ∀ (shape : StmtShape Expr Block) {id span s u s'},
    Runs env (linkStmtShape body id span shape) s u s' → ∃ cs, ShapeCourse shape cs ∧ Charts s cs s'
  | .binding decl init, id, span, s, u, s', h => by
    rw [linkStmtShape] at h
    obtain ⟨es, hstays, hcharts⟩ := (tells_linkBinding span decl init s u s' h).charts
    exact ⟨_, .binding hstays, hcharts⟩
  | .assign target value, id, span, s, u, s', h => by
    rw [linkStmtShape] at h
    obtain ⟨es, hstays, hcharts⟩ := (tells_linkAssign target value s u s' h).charts
    exact ⟨_, .assign hstays, hcharts⟩
  | .expr e, id, span, s, u, s', h => by
    simp only [linkStmtShape, runs_bind, runs_pure] at h
    obtain ⟨ty, s₁, hlink, out, s₂, hconsume, -, rfl⟩ := h
    obtain ⟨es, hstays, hcharts⟩ := (linkExprStmt_noting hlink hconsume).charts
    exact ⟨_, .expr hstays, hcharts⟩
  | .ret value, id, span, s, u, s', h => by
    rw [linkStmtShape] at h
    obtain ⟨es, hstays, hcharts⟩ := (linkReturn_leaving h).charts
    exact ⟨_, .ret hstays, hcharts⟩
  | .ifChain arms otherwise, id, span, s, u, s', h => by
    simp only [linkStmtShape, runs_bind] at h
    obtain ⟨_, s₁, hmark, _, s₂, htests, start, s₃, hbegin, branch₁, s₄, harms, branch₂, s₅, hotherwise, hend⟩ := h
    obtain ⟨tests, hlength, htests⟩ := linkTests_logs htests
    obtain ⟨rfl, rfl⟩ := runs_beginBranch.1 hbegin
    obtain ⟨courses, hcourses, harms⟩ := linkArms_charts arms harms
    obtain ⟨last, hlast, hotherwise⟩ := linkOtherwise_charts otherwise hotherwise
    have hall := hcourses.append hlast
    refine ⟨_, .ifChain hlength hall, Charts.fork hmark htests (harms.append hotherwise) hend ?_⟩
    rw [hlength, hall.length, List.length_append, List.length_map]
    exact Nat.le_add_right _ _
  | .staticIf cond first otherwise, id, span, s, u, s', h => by
    obtain ⟨s₁, hcond, h⟩ := runs_staticIf h
    obtain ⟨es, hstays, hcond⟩ := hcond.charts
    rcases h with h | h | h
    · obtain ⟨c, hcourse, hcharts⟩ := linkBlock_charts first h
      exact ⟨_, .taken hstays hcourse, hcond.append hcharts⟩
    · obtain ⟨courses, hcourses, hcharts⟩ := linkElse_charts otherwise h
      exact ⟨_, .passed hstays hcourses, hcond.append hcharts⟩
    · simp only [linkBoth, runs_bind] at h
      obtain ⟨_, s₂, hmark, start, s₃, hbegin, _, s₄, hfirst, branch₁, s₅, harm, branch₂, s₆, hotherwise, hend⟩ := h
      obtain ⟨rfl, rfl⟩ := runs_beginBranch.1 hbegin
      obtain ⟨c, hcourse, hfirst⟩ := linkBlock_charts first hfirst
      obtain ⟨last, hlast, hotherwise⟩ := linkOtherwise_charts otherwise hotherwise
      have harms : ChartsArms env _ _ ([c] :: last) s₆ branch₂ := .cons hfirst harm hotherwise
      exact ⟨_, .undecided hstays (.cons hcourse hlast),
        hcond.append (Charts.fork hmark (LogsTests.nil _) harms hend (Nat.zero_le _))⟩
  | .switch scrutinee cases, id, span, s, u, s', h => by
    simp only [linkStmtShape, runs_bind] at h
    obtain ⟨ty, s₁, hlink, hasDefault, s₂, hvalues, _, s₃, hmark, start, s₄, hbegin, branch, s₅, hcases, hend⟩ := h
    obtain rfl : hasDefault = cases.any (·.isDefault) := linkCaseValues_result hvalues
    obtain ⟨es, hstays, hcharts⟩ := Noting.charts
      (Sequential.trans (tells_linkExpr scrutinee _ _ s ty s₁ hlink) (tells_linkCaseValues _ _ _ s₁ _ s₂ hvalues))
    obtain ⟨rfl, rfl⟩ := runs_beginBranch.1 hbegin
    obtain ⟨courses, hcourses, hcases⟩ := linkCases_charts cases hcases
    exact ⟨_, .switch hstays hcourses,
      hcharts.append (Charts.fork hmark (LogsTests.nil _) hcases hend (Nat.zero_le _))⟩
  | .whileLoop cond inner, id, span, s, u, s', h => by
    simp only [linkStmtShape, runs_bind] at h
    obtain ⟨_, s₁, hmark, _, s₂, htest, start, s₃, hbegin, _, s₄, hinner, branch, s₅, harm, hend⟩ := h
    obtain ⟨test, htest⟩ := linkTest_logs htest
    obtain ⟨rfl, rfl⟩ := runs_beginBranch.1 hbegin
    obtain ⟨c, hcourse, hcharts⟩ := linkBlock_charts inner hinner
    exact ⟨_, .whileLoop hcourse, Charts.loop hmark htest hcharts harm hend⟩
  | .block inner, id, span, s, u, s', h => by
    rw [linkStmtShape] at h
    obtain ⟨c, hcourse, hcharts⟩ := linkBlock_charts inner h
    exact ⟨_, .block hcourse, hcharts⟩
theorem linkBlock_charts : ∀ (block : Block) {s u s'}, Runs env (linkBlock body block) s u s' →
    ∃ c, BlockCourse block c ∧ Charts s [c] s'
  | .missing id, s, u, s', h => by
    rw [linkBlock] at h
    exact absurd h not_runs_throw
  | .node id span stmts, s, u, s', h => by
    obtain ⟨s₁, s₂, dropped, hopen, hstmts, hend⟩ := runs_linkBlock_node h
    obtain ⟨cs, hcourse, hcharts⟩ := linkStmts_charts stmts hstmts
    exact ⟨_, .node hcourse, hcharts.block hopen hend⟩
theorem linkStmts_charts : ∀ (stmts : List Stmt) {s u s'}, Runs env (linkStmts body stmts) s u s' →
    ∃ cs, StmtsCourse stmts cs ∧ Charts s cs s'
  | [], s, u, s', h => by
    rw [linkStmts] at h
    obtain ⟨-, rfl⟩ := runs_pure.1 h
    exact ⟨[], .nil, (Notes.refl s).charts⟩
  | stmt :: stmts, s, u, s', h => by
    rw [linkStmts, runs_bind] at h
    obtain ⟨_, s₁, hfirst, hrest⟩ := h
    obtain ⟨cs, hstmt, hfirst⟩ := linkStmt_charts stmt hfirst
    obtain ⟨ds, hstmts, hrest⟩ := linkStmts_charts stmts hrest
    exact ⟨cs ++ ds, .cons hstmt hstmts, hfirst.append hrest⟩
theorem linkArms_charts : ∀ (arms : List (Expr × Block)) {branch s branch' s'},
    Runs env (linkArms body branch arms) s branch' s' →
    ∃ courses, ArmsCourse (arms.map (·.2)) courses ∧ ChartsArms env s branch courses s' branch'
  | [], branch, s, branch', s', h => by
    rw [linkArms] at h
    obtain ⟨rfl, rfl⟩ := runs_pure.1 h
    exact ⟨[], .nil, .nil s _⟩
  | (_, arm) :: arms, branch, s, branch', s', h => by
    simp only [linkArms, runs_bind] at h
    obtain ⟨_, s₁, harm, branch₁, s₂, hend, hrest⟩ := h
    obtain ⟨c, hcourse, hcharts⟩ := linkBlock_charts arm harm
    obtain ⟨courses, hcourses, hrest⟩ := linkArms_charts arms hrest
    exact ⟨[c] :: courses, .cons hcourse hcourses, .cons hcharts hend hrest⟩
theorem linkOtherwise_charts : ∀ (otherwise : Option Block) {branch s branch' s'},
    Runs env (linkOtherwise body branch otherwise) s branch' s' →
    ∃ courses, ArmsCourse otherwise.toList courses ∧ ChartsArms env s branch courses s' branch'
  | none, branch, s, branch', s', h => by
    rw [linkOtherwise] at h
    obtain ⟨rfl, rfl⟩ := runs_pure.1 h
    exact ⟨[], .nil, .nil s _⟩
  | some arm, branch, s, branch', s', h => by
    rw [linkOtherwise, runs_bind] at h
    obtain ⟨_, s₁, harm, hend⟩ := h
    obtain ⟨c, hcourse, hcharts⟩ := linkBlock_charts arm harm
    exact ⟨[[c]], .cons hcourse .nil, .cons hcharts hend (.nil _ _)⟩
theorem linkElse_charts : ∀ (otherwise : Option Block) {s u s'}, Runs env (linkElse body otherwise) s u s' →
    ∃ courses, ArmsCourse otherwise.toList courses ∧ Charts s courses.flatten s'
  | none, s, u, s', h => by
    rw [linkElse] at h
    obtain ⟨-, rfl⟩ := runs_pure.1 h
    exact ⟨[], .nil, (Notes.refl s).charts⟩
  | some arm, s, u, s', h => by
    rw [linkElse] at h
    obtain ⟨c, hcourse, hcharts⟩ := linkBlock_charts arm h
    exact ⟨[[c]], .cons hcourse .nil, by simpa using hcharts⟩
theorem linkCases_charts : ∀ (cases : List (SwitchCase Expr Block)) {branch hasDefault s branch' s'},
    Runs env (linkCases body branch hasDefault cases) s branch' s' →
    ∃ courses, ArmsCourse (linkedBodies hasDefault cases) courses ∧ ChartsArms env s branch courses s' branch'
  | [], branch, hasDefault, s, branch', s', h => by
    rw [linkCases] at h
    obtain ⟨rfl, rfl⟩ := runs_pure.1 h
    exact ⟨[], .nil, .nil s _⟩
  | ⟨span, values, arm, isDefault⟩ :: cases, branch, hasDefault, s, branch', s', h => by
    rw [linkCases] at h
    rw [linkedBodies]
    split at h
    · rename_i hpassed
      rw [if_pos hpassed]
      exact linkCases_charts cases h
    · rename_i hlinked
      rw [if_neg hlinked]
      simp only [runs_bind] at h
      obtain ⟨_, s₁, harm, branch₁, s₂, hend, hrest⟩ := h
      obtain ⟨c, hcourse, hcharts⟩ := linkBlock_charts arm harm
      obtain ⟨courses, hcourses, hrest⟩ := linkCases_charts cases hrest
      exact ⟨[c] :: courses, .cons hcourse hcourses, .cons hcharts hend hrest⟩
end

/-- The body of a function is linked with nothing moved out. The parameters are destroyed at the end of a block
around the body that has the same name. -/
theorem linkFunction_charts {func : DeclId} {params : List DeclId} {block : BlockId}
    (h : Runs env (linkFunction func params block) s u s') :
    ∃ c dropped s₁ s₂, BlockCourse (env.trees.block block) c ∧ Charts s₁ [.block block [c] dropped] s₂ ∧
      s₁.moves = { policy := env.options.branchMoves } ∧ s₁.quiet = s.quiet ∧ s₁.history = s.history ∧
      s₁.reports = s.reports ∧ s₁.program = s.program ∧ s'.quiet = s₂.quiet ∧ s'.history = s₂.history ∧
      s'.reports = s₂.reports ∧ s'.program = s₂.program := by
  obtain ⟨body, s₁, s₂, s₃, dropped, hblock, hdrops, hagree⟩ := runs_linkFunction h
  obtain ⟨c, hcourse, hblock⟩ := linkBlock_charts _ hblock
  exact ⟨c, dropped, s₁, s₃, hcourse, hblock.block (Sequential.refl s₁) hdrops, hagree⟩

theorem linkFunction_logs {func : DeclId} {params : List DeclId} {block : BlockId}
    (h : Runs env (linkFunction func params block) s u s') :
    ∃ fs, BlockFlow (env.trees.block block) fs ∧ Enters s (allEntries fs) s' ∧
      Tracked { policy := env.options.branchMoves } fs ∧
      ∀ es : List Event, fs = es.map .event → Noted { policy := env.options.branchMoves } es := by
  obtain ⟨c, dropped, s₁, s₂, hcourse, hcharts, hmoves, hquiet, hhistory, hreports, -, hquiet', hhistory', hreports',
    -⟩ := linkFunction_charts h
  have hlogs := hcharts.logs
  rw [Course.flows_singleton, Course.flow, Course.flows_singleton] at hlogs
  refine ⟨c.flow, hcourse.flow, ⟨?_, ?_, fun hloud => ?_⟩, hmoves ▸ hlogs.tracked, hmoves ▸ hlogs.noted⟩
  · rw [hhistory', hlogs.enters.history, hhistory]
  · rw [hquiet', hlogs.enters.quiet, hquiet]
  · obtain ⟨added, hadded, hmisuses⟩ := hlogs.enters.reports (hquiet.trans hloud)
    exact ⟨added, by rw [hreports', hadded, hreports], hmisuses⟩

end Link

end Linkage
