import Linkage.Proofs.Link.Simple
import Linkage.Proofs.Moves.Flow

/-!
# The flow of a body that is linked

The record of a body is its flow, written down. The flow has the constructs of the body in the same places
(`BlockFlow`): a conditional has one list of events for each of its conditions and one flow for each of its arms. The
tracker follows the flow, and a use of a moved value is reported for each read in it that finds its place gone
(`Logs`).
-/

namespace Linkage

open Linkage.Flow

/-! ### Flows of statements -/

def linkedBodies (hasDefault : Bool) : List (SwitchCase Expr Block) → List Block
  | [] => []
  | c :: cases =>
    if c.isDefault && hasDefault then linkedBodies hasDefault cases
    else c.body :: linkedBodies (hasDefault || c.isDefault) cases

mutual
/-- The flow has the constructs of the statement. -/
inductive StmtFlow : Stmt → List Flow → Prop
  | node {id : StmtId} {span : Span} {shape : StmtShape Expr Block} {fs : List Flow} (hshape : ShapeFlow shape fs) :
      StmtFlow (.node id span shape) fs
inductive ShapeFlow : StmtShape Expr Block → List Flow → Prop
  | binding {decl : DeclId} {init : Option Expr} {es : List Event} (hstays : ∀ e ∈ es, e.stays = true) :
      ShapeFlow (.binding decl init) (es.map .event)
  | assign {target value : Expr} {es : List Event} (hstays : ∀ e ∈ es, e.stays = true) :
      ShapeFlow (.assign target value) (es.map .event)
  | expr {e : Expr} {es : List Event} (hstays : ∀ e ∈ es, e.stays = true) : ShapeFlow (.expr e) (es.map .event)
  | ret {value : Option Expr} {es : List Event} (hstays : ∀ e ∈ es, e.stays = true) :
      ShapeFlow (.ret value) (es.map .event ++ [.event .returned])
  | ifChain {arms : List (Expr × Block)} {otherwise : Option Block} {tests : List (List Event)}
      {flows : List (List Flow)} (hlength : tests.length = arms.length)
      (harms : ArmsFlow (arms.map (·.2) ++ otherwise.toList) flows) :
      ShapeFlow (.ifChain arms otherwise) [.fork tests flows otherwise.isSome]
  | taken {cond : Expr} {first : Block} {otherwise : Option Block} {es : List Event} {fs : List Flow}
      (hstays : ∀ e ∈ es, e.stays = true) (harm : BlockFlow first fs) :
      ShapeFlow (.staticIf cond first otherwise) (es.map .event ++ fs)
  | passed {cond : Expr} {first : Block} {otherwise : Option Block} {es : List Event} {flows : List (List Flow)}
      (hstays : ∀ e ∈ es, e.stays = true) (harm : ArmsFlow otherwise.toList flows) :
      ShapeFlow (.staticIf cond first otherwise) (es.map .event ++ flows.flatten)
  | undecided {cond : Expr} {first : Block} {otherwise : Option Block} {es : List Event} {flows : List (List Flow)}
      (hstays : ∀ e ∈ es, e.stays = true) (harms : ArmsFlow (first :: otherwise.toList) flows) :
      ShapeFlow (.staticIf cond first otherwise) (es.map .event ++ [.fork [] flows otherwise.isSome])
  | switch {scrutinee : Expr} {cases : List (SwitchCase Expr Block)} {es : List Event} {flows : List (List Flow)}
      (hstays : ∀ e ∈ es, e.stays = true) (harms : ArmsFlow (linkedBodies false cases) flows) :
      ShapeFlow (.switch scrutinee cases) (es.map .event ++ [.fork [] flows (cases.any (·.isDefault))])
  | whileLoop {cond : Expr} {inner : Block} {test : List Event} {fs : List Flow} (hbody : BlockFlow inner fs) :
      ShapeFlow (.whileLoop cond inner) [.loop test fs]
  | block {inner : Block} {fs : List Flow} (hinner : BlockFlow inner fs) : ShapeFlow (.block inner) fs
inductive BlockFlow : Block → List Flow → Prop
  | node {id : BlockId} {span : Span} {stmts : List Stmt} {fs : List Flow} (hstmts : StmtsFlow stmts fs) :
      BlockFlow (.node id span stmts) fs
inductive StmtsFlow : List Stmt → List Flow → Prop
  | nil : StmtsFlow [] []
  | cons {stmt : Stmt} {stmts : List Stmt} {fs gs : List Flow} (hstmt : StmtFlow stmt fs)
      (hrest : StmtsFlow stmts gs) : StmtsFlow (stmt :: stmts) (fs ++ gs)
inductive ArmsFlow : List Block → List (List Flow) → Prop
  | nil : ArmsFlow [] []
  | cons {arm : Block} {arms : List Block} {fs : List Flow} {flows : List (List Flow)} (harm : BlockFlow arm fs)
      (hrest : ArmsFlow arms flows) : ArmsFlow (arm :: arms) (fs :: flows)
end

def Entry.misuse? : Entry → Option Span
  | .event e => e.misuse?
  | .mark _ => none

namespace Link

variable {env : LinkEnv} {s s₁ s₂ s' : LinkState} {body : Body} {u : Unit} {branch branch' : Branch}
  {fs gs : List Flow} {arms : List (List Flow)} {tests : List (List Event)}

/-! ### Entries of the record -/

/-- The entries were added to the record from `s` to `s'`, and each read in them that finds its place gone was
reported. -/
structure Enters (s : LinkState) (entries : List Entry) (s' : LinkState) : Prop where
  history : s'.history = s.history ++ entries
  quiet : s'.quiet = s.quiet
  reports : s.quiet = false → ∃ added, s'.reports = s.reports ++ added ∧
    misuses added = entries.filterMap Entry.misuse?

theorem Enters.refl (s : LinkState) : Enters s [] s :=
  ⟨(List.append_nil _).symm, rfl, fun _ => ⟨[], (List.append_nil _).symm, rfl⟩⟩

theorem Enters.trans {entries entries' : List Entry} (h : Enters s entries s₁) (h' : Enters s₁ entries' s') :
    Enters s (entries ++ entries') s' where
  history := by rw [h'.history, h.history, List.append_assoc]
  quiet := h'.quiet.trans h.quiet
  reports hloud := by
    obtain ⟨added, hadded, heq⟩ := h.reports hloud
    obtain ⟨added', hadded', heq'⟩ := h'.reports (h.quiet.trans hloud)
    refine ⟨added ++ added', ?_, ?_⟩
    · rw [hadded', hadded, List.append_assoc]
    · rw [misuses_append, heq, heq', List.filterMap_append]

theorem Notes.enters {es : List Event} (h : Notes s es s') : Enters s (es.map .event) s' where
  history := h.history
  quiet := h.quiet
  reports hloud := by
    obtain ⟨added, hadded, heq⟩ := h.reports hloud
    refine ⟨added, hadded, ?_⟩
    rw [heq, List.filterMap_map]
    rfl

theorem enters_mark {m : Mark} (h : Runs env (mark m) s u s') : Enters s [.mark m] s' ∧ s'.moves = s.moves := by
  obtain rfl := runs_modify.1 h
  exact ⟨⟨rfl, rfl, fun _ => ⟨[], (List.append_nil _).symm, rfl⟩⟩, rfl⟩

theorem drops_mark {m : Mark} (h : Runs env (mark m) s u s') : s'.program.drops = s.program.drops := by
  obtain rfl := runs_modify.1 h
  rfl

theorem runs_beginBranch : Runs env beginBranch s branch s' ↔ s.moves.beginBranch = branch ∧ s = s' :=
  (runs_get.2 ⟨rfl, rfl⟩).bind_iff.trans runs_pure

theorem enters_endArm (h : Runs env (endArm branch) s branch' s') :
    Enters s [.mark .arm] s' ∧ (s'.moves, branch') = s.moves.endArm branch := by
  simp only [endArm, runs_bind, runs_modifyGet] at h
  obtain ⟨_, s₁, hmark, rfl, rfl⟩ := h
  obtain ⟨hmark, hmoves⟩ := enters_mark hmark
  exact ⟨⟨hmark.history, hmark.quiet, hmark.reports⟩, by rw [hmoves]⟩

theorem drops_endArm (h : Runs env (endArm branch) s branch' s') : s'.program.drops = s.program.drops := by
  simp only [endArm, runs_bind, runs_modifyGet] at h
  obtain ⟨_, s₁, hmark, rfl, rfl⟩ := h
  have hdrops := drops_mark hmark
  exact hdrops

theorem enters_endBranch {exhaustive : Bool} (h : Runs env (endBranch branch exhaustive) s u s') :
    Enters s [.mark (.join exhaustive)] s' ∧ s'.moves = s.moves.endBranch branch exhaustive := by
  simp only [endBranch, runs_bind] at h
  obtain ⟨_, s₁, hmark, h⟩ := h
  obtain rfl := runs_modify.1 h
  obtain ⟨hmark, hmoves⟩ := enters_mark hmark
  exact ⟨⟨hmark.history, hmark.quiet, hmark.reports⟩, by rw [hmoves]⟩

theorem drops_endBranch {exhaustive : Bool} (h : Runs env (endBranch branch exhaustive) s u s') :
    s'.program.drops = s.program.drops := by
  simp only [endBranch, runs_bind] at h
  obtain ⟨_, s₁, hmark, h⟩ := h
  obtain rfl := runs_modify.1 h
  have hdrops := drops_mark hmark
  exact hdrops

/-! ### Flows -/

/-- The flow is what was added to the record from `s` to `s'`. -/
structure Logs (s : LinkState) (fs : List Flow) (s' : LinkState) : Prop where
  enters : Enters s (allEntries fs) s'
  moves : s'.moves = runAll fs s.moves
  tracked : Tracked s.moves fs
  /-- Where there are no constructs, each event is known to have been noted right after the one before it. -/
  noted : ∀ es : List Event, fs = es.map .event → Noted s.moves es

theorem Notes.logs {es : List Event} (h : Notes s es s') : Logs s (es.map .event) s' where
  enters := by
    rw [allEntries_map_event]
    exact h.enters
  moves := by rw [h.moves, runAll_map_event]
  tracked := .of_noted h.noted
  noted es' heq := by
    rw [List.map_inj_right fun _ _ => Flow.event.inj] at heq
    exact heq ▸ h.noted

theorem Logs.append (h : Logs s fs s₁) (h' : Logs s₁ gs s') : Logs s (fs ++ gs) s' where
  enters := by
    rw [allEntries_append]
    exact h.enters.trans h'.enters
  moves := by rw [h'.moves, h.moves, runAll_append]
  tracked := h.tracked.append (h.moves ▸ h'.tracked)
  noted es heq := by
    obtain ⟨es₁, es₂, rfl, rfl, rfl⟩ := List.map_eq_append_iff.1 heq.symm
    have hnoted := h'.noted es₂ rfl
    rw [h.moves, runAll_map_event] at hnoted
    exact (h.noted es₁ rfl).append hnoted

theorem Schedules.logs {block : BlockId} {dropped : List DeclId} (h : Schedules s block dropped s') : Logs s [] s' where
  enters := by
    refine ⟨?_, h.quiet, fun _ => ?_⟩
    · rw [h.history, allEntries, List.append_nil]
    · obtain ⟨added, hadded, hkind⟩ := h.reports
      exact ⟨added, hadded, misuses_eq_nil hkind⟩
  moves := by rw [h.moves, runAll]
  tracked := .nil _
  noted es heq := by
    rw [List.map_eq_nil_iff.1 heq.symm]
    exact .nil

structure LogsTests (s : LinkState) (tests : List (List Event)) (s' : LinkState) : Prop where
  enters : Enters s (testEntries tests) s'
  moves : s'.moves = s.moves.afterAll tests.flatten
  noted : Noted s.moves tests.flatten
  drops : s'.program.drops = s.program.drops
  inExpr : ∀ e ∈ tests.flatten, e.inExpr = true

theorem LogsTests.nil (s : LinkState) : LogsTests s [] s := ⟨Enters.refl s, rfl, .nil, rfl, nofun⟩

theorem LogsTests.stays (h : LogsTests s tests s') : ∀ e ∈ tests.flatten, e.stays = true :=
  fun e he => Event.stays_of_inExpr (h.inExpr e he)

theorem LogsTests.cons {test : List Event} (h : LogsTests s [test] s₁) (h' : LogsTests s₁ tests s') :
    LogsTests s (test :: tests) s' where
  enters := by
    have henters := h.enters.trans h'.enters
    simpa [testEntries] using henters
  moves := by
    rw [h'.moves, h.moves, ← MoveTracker.afterAll_append]
    simp
  noted := by
    have hnoted := h.noted.append (h.moves ▸ h'.noted)
    simpa using hnoted
  drops := h'.drops.trans h.drops
  inExpr e he := by
    rw [List.flatten_cons, List.mem_append] at he
    rcases he with he | he
    · exact h.inExpr e (by simpa using he)
    · exact h'.inExpr e he

theorem linkTest_logs {cond : Expr} (h : Runs env (linkTest body cond) s u s') : ∃ test, LogsTests s [test] s' := by
  simp only [linkTest, runs_bind] at h
  obtain ⟨_, s₁, hcond, hmark⟩ := h
  obtain ⟨test, hnotes, hkind⟩ := tells_linkCond cond s _ s₁ hcond
  have hdrops := drops_mark hmark
  obtain ⟨hmark, hmoves⟩ := enters_mark hmark
  have hflatten : [test].flatten = test := by simp
  refine ⟨test, ?_, ?_, ?_, hdrops.trans hnotes.drops, ?_⟩
  · have henters := hnotes.enters.trans hmark
    simpa [testEntries] using henters
  · rw [hmoves, hnotes.moves, hflatten]
  · rw [hflatten]
    exact hnotes.noted
  · rw [hflatten]
    exact hkind

theorem linkTests_logs {arms : List (Expr × Block)} (h : Runs env (arms.forM fun arm => linkTest body arm.1) s u s') :
    ∃ tests, tests.length = arms.length ∧ LogsTests s tests s' := by
  induction arms generalizing s with
  | nil =>
    obtain rfl := runs_forM_nil.1 h
    exact ⟨[], rfl, LogsTests.nil s⟩
  | cons arm arms ih =>
    obtain ⟨s₁, hfirst, hrest⟩ := runs_forM_cons.1 h
    obtain ⟨test, htest⟩ := linkTest_logs hfirst
    obtain ⟨tests, hlength, htests⟩ := ih hrest
    exact ⟨test :: tests, by rw [List.length_cons, List.length_cons, hlength], htest.cons htests⟩

theorem Logs.next_arm (h : Logs s fs s₁) (hend : Runs env (endArm branch) s₁ branch' s₂)
    (hbefore : branch.before = s.moves.moved) : s₂.moves = s.moves ∧ branch'.before = s₂.moves.moved := by
  obtain ⟨hmoves, hbranch⟩ := Prod.mk.inj (enters_endArm hend).2
  have hstart : s₂.moves = s.moves := by
    have hpolicy : s₁.moves.policy = s.moves.policy := by rw [h.moves, policy_runAll]
    rw [hmoves, MoveTracker.restore, hpolicy, hbefore]
  refine ⟨hstart, ?_⟩
  rw [hbranch, hstart]
  exact hbefore

/-- The arms of a branch, each of them ended before the next begins. -/
inductive LogsArms (env : LinkEnv) : LinkState → Branch → List (List Flow) → LinkState → Branch → Prop
  | nil (s : LinkState) (branch : Branch) : LogsArms env s branch [] s branch
  | cons {s s₁ s₂ s' : LinkState} {branch branch₁ branch' : Branch} {fs : List Flow} {arms : List (List Flow)}
      (harm : Logs s fs s₁) (hend : Runs env (endArm branch) s₁ branch₁ s₂)
      (hrest : LogsArms env s₂ branch₁ arms s' branch') : LogsArms env s branch (fs :: arms) s' branch'

namespace LogsArms

theorem enters (h : LogsArms env s branch arms s' branch') : Enters s (armEntries arms) s' := by
  induction h with
  | nil s branch =>
    rw [armEntries]
    exact Enters.refl s
  | cons harm hend _ ih =>
    rw [armEntries]
    exact harm.enters.trans ((enters_endArm hend).1.trans ih)

theorem moves (h : LogsArms env s branch arms s' branch') : (s'.moves, branch') = runArms arms s.moves branch := by
  induction h with
  | nil => rw [runArms]
  | cons harm hend _ ih => rw [ih, runArms, ← harm.moves, ← (enters_endArm hend).2]

theorem tracked (h : LogsArms env s branch arms s' branch') (hbefore : branch.before = s.moves.moved) :
    ∀ arm ∈ arms, Tracked s.moves arm := by
  induction h with
  | nil => exact nofun
  | cons harm hend _ ih =>
    obtain ⟨hstart, hbefore'⟩ := harm.next_arm hend hbefore
    intro arm hmem
    rcases List.mem_cons.1 hmem with rfl | hmem
    · exact harm.tracked
    · exact hstart ▸ ih hbefore' arm hmem

end LogsArms

theorem Logs.fork {u' : Unit} {s₃ : LinkState} {exhaustive : Bool} (hmark : Runs env (mark .fork) s u s₁)
    (htests : LogsTests s₁ tests s₂) (harms : LogsArms env s₂ s₂.moves.beginBranch arms s₃ branch)
    (hend : Runs env (endBranch branch exhaustive) s₃ u' s') (hlength : tests.length ≤ arms.length) :
    Logs s [.fork tests arms exhaustive] s' := by
  obtain ⟨hmark, hmoves⟩ := enters_mark hmark
  obtain ⟨hjoin, hmoves'⟩ := enters_endBranch hend
  have hstart : s₂.moves = s.moves.afterAll tests.flatten := by rw [htests.moves, hmoves]
  refine ⟨?_, ?_, .fork (.of_noted (hmoves ▸ htests.noted)) htests.stays hlength ?_ (.nil _), fun es heq => ?_⟩
  · rw [allEntries, entries, allEntries, List.append_nil]
    exact hmark.trans (htests.enters.trans (harms.enters.trans hjoin))
  · rw [runAll, runAll, run, ← hstart, ← harms.moves]
    exact hmoves'
  · rw [← hstart]
    exact harms.tracked rfl
  · cases es <;> simp at heq

theorem Logs.loop {u' : Unit} {s₃ s₄ : LinkState} {test : List Event} (hmark : Runs env (mark .loop) s u s₁)
    (htest : LogsTests s₁ [test] s₂) (hbody : Logs s₂ fs s₃)
    (harm : Runs env (endArm s₂.moves.beginBranch) s₃ branch s₄)
    (hend : Runs env (endBranch branch false) s₄ u' s') : Logs s [.loop test fs] s' := by
  obtain ⟨hmark, hmoves⟩ := enters_mark hmark
  obtain ⟨harm, hbranch⟩ := enters_endArm harm
  obtain ⟨hjoin, hmoves'⟩ := enters_endBranch hend
  have hflatten : [test].flatten = test := by simp
  have hstart : s₂.moves = s.moves.afterAll test := by rw [htest.moves, hmoves, hflatten]
  have hnoted : Noted s.moves test := by
    rw [← hflatten, ← hmoves]
    exact htest.noted
  refine ⟨?_, ?_, .loop (.of_noted hnoted) (hflatten ▸ htest.stays) ?_ (.nil _), fun es heq => ?_⟩
  · rw [allEntries, entries, allEntries, List.append_nil]
    exact hmark.trans (htest.enters.trans (hbody.enters.trans (harm.trans hjoin)))
  · rw [runAll, runAll, run, ← hstart, ← hbody.moves, ← hbranch]
    exact hmoves'
  · rw [← hstart]
    exact hbody.tracked
  · cases es <;> simp at heq

end Link

end Linkage
