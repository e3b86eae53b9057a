import Linkage.Proofs.Link.Courses
import Linkage.Proofs.Link.Outcome

/-!
# Bodies without branches

In a body without branches all that is noted is one list of events, in the order in which the body runs. If two places
that share storage are moved out and the first is not written to in between, the second move is announced by a read,
and the read is reported. There is one gap: an argument may move a place that another one before it has read already,
and when the arguments are then passed on nothing looks at it again.
-/

namespace Linkage

/-! ### Straight bodies -/

mutual
def Stmt.isStraight : Stmt → Bool
  | .missing _ => true
  | .node _ _ shape => Stmt.isStraightShape shape
def Stmt.isStraightShape : StmtShape Expr Block → Bool
  | .binding _ _ | .assign _ _ | .expr _ | .ret _ => true
  | .block inner => inner.isStraight
  | .ifChain _ _ | .staticIf _ _ _ | .switch _ _ | .whileLoop _ _ => false
def Block.isStraight : Block → Bool
  | .missing _ => true
  | .node _ _ stmts => Stmt.areStraight stmts
def Stmt.areStraight : List Stmt → Bool
  | [] => true
  | stmt :: stmts => stmt.isStraight && Stmt.areStraight stmts
end

mutual
theorem StmtFlow.events {stmt : Stmt} {fs : List Flow} : StmtFlow stmt fs → stmt.isStraight = true →
    ∃ es : List Event, fs = es.map .event
  | .node hshape, hstraight => by
    rw [Stmt.isStraight] at hstraight
    exact hshape.events hstraight
theorem ShapeFlow.events {shape : StmtShape Expr Block} {fs : List Flow} : ShapeFlow shape fs →
    Stmt.isStraightShape shape = true → ∃ es : List Event, fs = es.map .event
  | .binding _, _ => ⟨_, rfl⟩
  | .assign _, _ => ⟨_, rfl⟩
  | .expr _, _ => ⟨_, rfl⟩
  | @ShapeFlow.ret _ es _, _ => ⟨es ++ [.returned], by rw [List.map_append]; rfl⟩
  | .block hinner, hstraight => by
    rw [Stmt.isStraightShape] at hstraight
    exact hinner.events hstraight
theorem BlockFlow.events {block : Block} {fs : List Flow} : BlockFlow block fs → block.isStraight = true →
    ∃ es : List Event, fs = es.map .event
  | .node hstmts, hstraight => by
    rw [Block.isStraight] at hstraight
    exact hstmts.events hstraight
theorem StmtsFlow.events {stmts : List Stmt} {fs : List Flow} : StmtsFlow stmts fs → Stmt.areStraight stmts = true →
    ∃ es : List Event, fs = es.map .event
  | .nil, _ => ⟨[], rfl⟩
  | .cons hstmt hrest, hstraight => by
    rw [Stmt.areStraight, Bool.and_eq_true] at hstraight
    obtain ⟨es, rfl⟩ := hstmt.events hstraight.1
    obtain ⟨es', rfl⟩ := hrest.events hstraight.2
    exact ⟨es ++ es', List.map_append.symm⟩
end

open Link

/-! ### Moving twice -/

theorem exists_misuse_of_read {reports : List Diagnostic} {es : List Event}
    (h : misuses reports = (es.map .event).filterMap Entry.misuse?) {e : ExprId} {span : Span} {p : Place}
    (hread : .read e span p true ∈ es) : ∃ d ∈ reports, d.kind = .useAfterMove := by
  have hspan : span ∈ misuses reports := h ▸ List.mem_filterMap.2 ⟨_, List.mem_map_of_mem hread, rfl⟩
  obtain ⟨d, hd, -⟩ := List.mem_map.1 hspan
  obtain ⟨hd, hkind⟩ := List.mem_filter.1 hd
  exact ⟨d, hd, by simpa using hkind⟩

/-- What is noted while the body of a function without branches is linked are events. If two of them move
places that share storage, and the first place is not written to in between, then some use of a moved value
is reported, unless the second place is one that an argument after it has moved. -/
theorem linkFunction_reports_second_move {env : LinkEnv} {func : DeclId} {params : List DeclId} {block : BlockId}
    {s s' : LinkState} (hrun : Runs env (linkFunction func params block) s () s') (hloud : s.quiet = false)
    (hstraight : (env.trees.block block).isStraight = true) :
    ∃ es added, s'.history = s.history ++ es.map .event ∧ s'.reports = s.reports ++ added ∧
      ∀ first p span mid q span' last, es = first ++ .moved p span :: mid ++ .moved q span' :: last →
        p.overlaps q = true → (∀ r, .written r ∈ mid → p.within r = false) →
        ¬Overtaken (first ++ .moved p span :: mid) q → ∃ d ∈ added, d.kind = .useAfterMove := by
  obtain ⟨fs, hflow, henters, -, hnoted⟩ := linkFunction_logs hrun
  obtain ⟨es, rfl⟩ := hflow.events hstraight
  rw [Flow.allEntries_map_event] at henters
  obtain ⟨added, hadded, hmisuses⟩ := henters.reports hloud
  refine ⟨es, added, henters.history, hadded, ?_⟩
  rintro first p span mid q span' last rfl hoverlaps hmid hovertaken
  obtain ⟨e, readAt, r, hread⟩ := (hnoted _ rfl).exists_read_gone hovertaken hoverlaps hmid
  exact exists_misuse_of_read hmisuses (List.mem_append_left _ hread)

/-! ### Arguments that are overtaken -/

/-- A type whose values are moved, and functions that take them. The body of `main`, which has one of them as
its parameter `a`, is to follow. -/
def takingSteps : List BuildStep := [
  .struct "Res" (.owned (some "drop")),
  .function "drop",
  .typeExpr (.named ["Res"] []),
  .param ⟨1⟩ "r" ⟨0⟩ false,
  .function "take",
  .typeExpr (.named ["Res"] []),
  .param ⟨3⟩ "r" ⟨1⟩ false,
  .typeExpr (.named ["bool"] []),
  .returns ⟨3⟩ ⟨2⟩,
  .function "both",
  .typeExpr (.named ["Res"] []),
  .param ⟨5⟩ "r" ⟨3⟩ false,
  .typeExpr (.named ["bool"] []),
  .param ⟨5⟩ "b" ⟨4⟩ false,
  .function "main",
  .typeExpr (.named ["Res"] []),
  .param ⟨8⟩ "a" ⟨5⟩ false]

/-- The body `let b = a; { both(b, take(a)); }`. -/
def movedTwice : Setup where
  source := .ofSteps (takingSteps ++ [
    .expr (.name "a"),
    .binding "b" none (some ⟨0⟩) false false,
    .expr (.name "b"),
    .expr (.name "a"),
    .callName "take" [] [⟨2⟩],
    .callName "both" [] [⟨1⟩, ⟨4⟩],
    .exprStmt ⟨6⟩,
    .block [⟨1⟩],
    .blockStmt ⟨0⟩,
    .block [⟨0⟩, ⟨2⟩],
    .body ⟨8⟩ ⟨1⟩])

theorem second_move_movedTwice : ∃ s', Runs movedTwice.linkEnv (linkFunction ⟨8⟩ [⟨9⟩] ⟨1⟩) movedTwice.declared () s' ∧
    ∃ d ∈ s'.reports, d.kind = .useAfterMove := by
  obtain ⟨s', hrun, hevents⟩ : ∃ s',
      Runs movedTwice.linkEnv (linkFunction ⟨8⟩ [⟨9⟩] ⟨1⟩) movedTwice.declared () s' ∧
        s'.history = movedTwice.declared.history ++ List.map Entry.event
          ([.read ⟨0⟩ {} { root := ⟨9⟩ } false] ++ .moved { root := ⟨9⟩ } {} :: [.written { root := ⟨10⟩ },
            .read ⟨1⟩ {} { root := ⟨10⟩ } false, .read ⟨2⟩ {} { root := ⟨9⟩ } true,
            .passing [⟨⟨2⟩, { root := ⟨9⟩ }, true⟩]] ++ .moved { root := ⟨9⟩ } {} ::
            [.passing [⟨⟨1⟩, { root := ⟨10⟩ }, false⟩], .moved { root := ⟨10⟩ } {}]) :=
    exists_of_run (by decide +kernel)
  obtain ⟨es, added, hhistory, hreports, hsecond⟩ :=
    linkFunction_reports_second_move hrun (by decide +kernel) (by decide +kernel)
  have hes := List.append_cancel_left (hhistory.symm.trans hevents)
  rw [List.map_inj_right fun _ _ => Entry.event.inj] at hes
  obtain ⟨d, hd, hkind⟩ := hsecond _ _ _ _ _ _ _ hes (by decide) (by simp [Place.within]) (by
    rintro ⟨left, e, before, span, r, since, args, mid, heq, -, hmem, -⟩
    have hpassing : .passing args ∈ before ++ .read e span r false :: since ++ .passing args :: mid := by simp
    have hread : .read e span r false ∈ before ++ .read e span r false :: since ++ .passing args :: mid := by simp
    rw [← heq] at hpassing hread
    simp only [List.cons_append, List.nil_append, List.mem_cons, List.not_mem_nil, reduceCtorEq, or_false,
      false_or, Event.passing.injEq, Event.read.injEq] at hpassing hread
    subst hpassing
    obtain rfl : e = ⟨2⟩ := by simpa using hmem
    simp at hread)
  exact ⟨s', hrun, d, hreports ▸ List.mem_append_right _ hd, hkind⟩

/-- The body `both(a, take(a));`. -/
def overtakenCall : Setup where
  source := .ofSteps (takingSteps ++ [
    .setSpan ⟨1, 2⟩,
    .expr (.name "a"),
    .setSpan ⟨3, 4⟩,
    .expr (.name "a"),
    .callName "take" [] [⟨1⟩],
    .callName "both" [] [⟨0⟩, ⟨3⟩],
    .exprStmt ⟨5⟩,
    .block [⟨0⟩],
    .body ⟨8⟩ ⟨0⟩])

/-- The parameter is moved twice, and nothing is reported. -/
theorem unreported_overtakenCall : (overtakenCall.source.trees.block ⟨0⟩).isStraight = true ∧
    overtakenCall.link.reports = [] ∧ ∃ first mid : List Event, overtakenCall.link.history =
      List.map .event (first ++ .moved { root := ⟨9⟩ } ⟨3, 4⟩ :: mid ++ [.moved { root := ⟨9⟩ } ⟨1, 2⟩]) ∧
        ∀ r, .written r ∉ mid :=
  ⟨by decide +kernel, by decide +kernel, [.read ⟨0⟩ ⟨1, 2⟩ { root := ⟨9⟩ } false,
    .read ⟨1⟩ ⟨3, 4⟩ { root := ⟨9⟩ } false, .passing [⟨⟨1⟩, { root := ⟨9⟩ }, false⟩]],
    [.passing [⟨⟨0⟩, { root := ⟨9⟩ }, true⟩]], by decide +kernel, by simp⟩

end Linkage
