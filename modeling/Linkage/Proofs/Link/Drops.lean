import Linkage.Proofs.Link.Branches

/-!
# Destruction at the end of a block

If a local is moved out of on every way to the end of its block, it is not destroyed there, provided that what is gone
of it is accounted for. There are bodies in which it is not: under the policy that restores, what all arms of a
conditional have moved is forgotten, and the local is destroyed although it is gone whichever arm runs.
-/

namespace Linkage

open Linkage.Flow Link

/-- The course of a body. Its parameters are destroyed at the end of a block around it that has the same name. -/
def BodyCourse (block : BlockId) (body : Block) (c : Course) : Prop :=
  ∃ inner dropped, c = .block block [inner] dropped ∧ BlockCourse body inner

/-- A body is linked along a course that has its constructs and its blocks, and what is added to the schedule of each
block is what the course destroys there. If on every way to the end of a block some place of a local is moved out and
not written to afterwards, the local is not destroyed there, as long as what is gone of it is accounted for. -/
theorem linkFunction_drops_whole {env : LinkEnv} {func : DeclId} {params : List DeclId} {block : BlockId}
    {s s' : LinkState} (hrun : Runs env (linkFunction func params block) s () s') :
    ∃ c, BodyCourse block (env.trees.block block) c ∧ s'.history = s.history ++ allEntries c.flow ∧
      (∀ b, s'.program.droppedAt b = s.program.droppedAt b ++ Course.droppedAt [c] b) ∧
      ∀ x b ending, Course.Accounted x b { policy := env.options.branchMoves } [c] ending →
        (∀ es, Course.Exits b [c] es → ∃ p, p.root = x ∧ Dangling p es) → x ∉ Course.droppedAt [c] b := by
  obtain ⟨inner, dropped, s₁, s₂, hcourse, hcharts, hmoves, -, hhistory, -, hprogram, -, hhistory', -, hprogram'⟩ :=
    linkFunction_charts hrun
  refine ⟨.block block [inner] dropped, ⟨inner, dropped, rfl, hcourse⟩, ?_, fun b => ?_, ?_⟩
  · rw [hhistory', hcharts.logs.enters.history, hhistory, Course.flows_singleton]
  · rw [hprogram', hcharts.drops, hprogram]
  · intro x b ending haccounted hgone hx
    have hscheduled := hcharts.scheduled
    rw [hmoves] at hscheduled
    obtain ⟨held, hexit, hheld⟩ := Course.mem_droppedAt.1 hx
    obtain ⟨es, hexits, hspares⟩ := haccounted.exists_exits hscheduled hexit hheld
    obtain ⟨p, hroot, hdangling⟩ := hgone es hexits
    exact hspares [] (MoveTracker.knows_nil _ x) p hroot hdangling

/-! ### Moved in both arms -/

/-- The body `if c { take(a); } else { take(a); }`. -/
def takenInBothArms (policy : BranchPolicy) : Setup where
  source := .ofSteps (branchingSteps ++ [
    .setSpan ⟨1, 2⟩,
    .expr (.name "c"),
    .setSpan ⟨3, 4⟩,
    .expr (.name "a"),
    .callName "take" [] [⟨1⟩],
    .exprStmt ⟨3⟩,
    .block [⟨0⟩],
    .setSpan ⟨5, 6⟩,
    .expr (.name "a"),
    .callName "take" [] [⟨4⟩],
    .exprStmt ⟨6⟩,
    .block [⟨1⟩],
    .ifChain [(⟨0⟩, ⟨0⟩)] (some ⟨1⟩),
    .block [⟨2⟩],
    .body ⟨8⟩ ⟨2⟩])
  options := { branchMoves := policy }

def takenArms (dropped dropped' : List DeclId) : List (List Course) :=
  [[.block ⟨0⟩ ((takes ⟨1⟩ ⟨3, 4⟩ false).map .event) dropped],
    [.block ⟨1⟩ ((takes ⟨4⟩ ⟨5, 6⟩ false).map .event) dropped']]

def takenTests : List (List Event) := [[.read ⟨0⟩ ⟨1, 2⟩ { root := ⟨11⟩ } false]]

def takenCourse (dropped dropped' dropped'' params : List DeclId) : Course :=
  .block ⟨2⟩ [.block ⟨2⟩ [.fork takenTests (takenArms dropped dropped') true] dropped''] params

section TakenInBothArms

variable {dropped dropped' dropped'' params : List DeclId} {es : List Event} {ending : Ending}

theorem dangling_takes (before : List Event) (e : ExprId) (span : Span) (gone : Bool) :
    Dangling { root := ⟨9⟩ } (before ++ takes e span gone) :=
  ⟨before ++ [.read e span { root := ⟨9⟩ } gone, .passing [⟨e, { root := ⟨9⟩ }, gone⟩]], span, [],
    by simp [takes], nofun⟩

theorem ways_takingBlock {id : BlockId} {e : ExprId} {span : Span}
    (h : Course.Ways [.block id ((takes e span false).map .event) dropped] es ending) : es = takes e span false := by
  have hstays : ∀ x ∈ takes e span false, x.stays = true := by simp [takes, Event.stays]
  cases h with
  | cons hfirst hrest =>
    cases hfirst with
    | block hbody =>
      cases hrest
      rw [List.append_nil]
      exact (hbody.of_events hstays).2
  | stop hfirst =>
    cases hfirst with
    | block hbody => exact (hbody.of_events hstays).2

theorem not_exits_takingBlock {id b : BlockId} (hne : id ≠ b) {e : ExprId} {span : Span} :
    ¬Course.Exits b [.block id ((takes e span false).map .event) dropped] es := by
  intro h
  cases h with
  | tail _ hrest => nomatch hrest
  | head hfirst =>
    cases hfirst with
    | here _ => exact hne rfl
    | block hevents => exact Course.Exits.not_events hevents

theorem dangling_takenFork (h : Course.Ways [.fork takenTests (takenArms dropped dropped') true] es ending) :
    Dangling { root := ⟨9⟩ } es := by
  have harms : ∀ {es ending}, Course.Way (.fork takenTests (takenArms dropped dropped') true) es ending →
      Dangling { root := ⟨9⟩ } es := by
    intro es ending hway
    cases hway with
    | @arm _ _ _ i _ _ _ hi harm =>
      match i, hi with
      | 0, rfl =>
        rw [ways_takingBlock harm]
        exact dangling_takes _ _ _ _
      | 1, rfl =>
        rw [ways_takingBlock harm]
        exact dangling_takes _ _ _ _
  cases h with
  | cons hfirst hrest =>
    cases hrest
    rw [List.append_nil]
    exact harms hfirst
  | stop hfirst => exact harms hfirst

theorem dangling_takenCourse (h : Course.Exits ⟨2⟩ [takenCourse dropped dropped' dropped'' params] es) :
    Dangling { root := ⟨9⟩ } es := by
  cases h with
  | tail _ hrest => nomatch hrest
  | head hfirst =>
    cases hfirst with
    | here hways =>
      cases hways with
      | cons hway hrest =>
        cases hrest
        rw [List.append_nil]
        cases hway with
        | block hbody => exact dangling_takenFork hbody
      | stop hway =>
        cases hway with
        | block hbody => exact dangling_takenFork hbody
    | block hexits =>
      cases hexits with
      | tail _ hrest => nomatch hrest
      | head hfirst =>
        cases hfirst with
        | here hbody => exact dangling_takenFork hbody
        | block hexits =>
          cases hexits with
          | tail _ hrest => nomatch hrest
          | head hfirst =>
            -- the arms are other blocks
            cases hfirst with
            | @arm _ _ _ i _ _ hi harm =>
              match i, hi with
              | 0, rfl => exact absurd harm (not_exits_takingBlock (by decide))
              | 1, rfl => exact absurd harm (not_exits_takingBlock (by decide))

theorem accounted_takenCourse : Course.Accounted ⟨9⟩ ⟨2⟩ { policy := .intersect }
    [takenCourse dropped dropped' dropped'' params] .through := by
  have harm : ∀ (id : BlockId) (e : ExprId) (span : Span) (d : List DeclId) (t : MoveTracker),
      Course.Accounted ⟨9⟩ ⟨2⟩ t [.block id ((takes e span false).map .event) d] .through := by
    intro id e span d t
    apply Course.Accounted.block _ (.nil _)
    exact .event rfl (.event rfl (.event rfl (.nil _)))
  apply Course.Accounted.block _ (.nil _)
  apply Course.Accounted.block _ (.nil _)
  apply Course.Accounted.fork (fun _ => .through) _ _ (.nil _)
  · intro arm hmem
    rcases List.mem_cons.1 hmem with rfl | hmem
    · exact harm _ _ _ _ _
    · rw [List.mem_singleton.1 hmem]
      exact harm _ _ _ _ _
  · intro _
    refine ⟨_, List.mem_cons_self, _, .cons (.block (.cons (.event rfl) (.cons (.event rfl)
      (.cons (.event rfl) .nil)))) .nil, ?_⟩
    intro p hroot _
    have hwhole : ((Flow.fork takenTests (Course.armFlows (takenArms dropped dropped')) true).run
        { policy := .intersect }).covers { root := ⟨9⟩ } = true := rfl
    apply MoveTracker.covers_of_within hwhole
    simp [Place.within, hroot]

end TakenInBothArms

def takenTree : Block :=
  let taking (id : StmtId) (span : Span) (arg callee call : ExprId) : Stmt :=
    .node id span (.expr (.node call span (.call (.node callee span (.name "take")) [] [.node arg span (.name "a")])))
  .node ⟨2⟩ ⟨5, 6⟩ [.node ⟨2⟩ ⟨5, 6⟩ (.ifChain
    [(.node ⟨0⟩ ⟨1, 2⟩ (.name "c"), .node ⟨0⟩ ⟨3, 4⟩ [taking ⟨0⟩ ⟨3, 4⟩ ⟨1⟩ ⟨2⟩ ⟨3⟩])]
    (some (.node ⟨1⟩ ⟨5, 6⟩ [taking ⟨1⟩ ⟨5, 6⟩ ⟨4⟩ ⟨5⟩ ⟨6⟩])))]

theorem block_takenInBothArms (policy : BranchPolicy) :
    (takenInBothArms policy).linkEnv.trees.block ⟨2⟩ = takenTree := rfl

theorem bodyCourse_takenTree (dropped dropped' dropped'' params : List DeclId) :
    BodyCourse ⟨2⟩ takenTree (takenCourse dropped dropped' dropped'' params) := by
  have hstays : ∀ (e : ExprId) (span : Span), ∀ x ∈ takes e span false, x.stays = true := by
    simp [takes, Event.stays]
  refine ⟨_, _, rfl, ?_⟩
  refine .node (.cons (.node (.ifChain rfl ?_)) .nil)
  exact .cons (.node (.cons (.node (.expr (hstays _ _))) .nil))
    (.cons (.node (.cons (.node (.expr (hstays _ _))) .nil)) .nil)

def takenFlow : List Flow :=
  [.fork takenTests [(takes ⟨1⟩ ⟨3, 4⟩ false).map .event, (takes ⟨4⟩ ⟨5, 6⟩ false).map .event] true]

theorem BlockCourse.block_of_expr {id : BlockId} {stmt : StmtId} {span span' : Span} {e : Expr} {c : Course}
    {es : List Event} (h : BlockCourse (.node id span [.node stmt span' (.expr e)]) c)
    (hflow : c.flow = es.map .event) : ∃ dropped, c = .block id (es.map .event) dropped := by
  cases h with
  | @node _ _ _ _ dropped hstmts =>
    cases hstmts with
    | cons hstmt hrest =>
      cases hrest
      cases hstmt with
      | node hshape =>
        cases hshape
        rw [List.append_nil, Course.flow, Course.flows_map_event] at hflow
        rw [List.map_inj_right fun _ _ => Flow.event.inj] at hflow
        exact ⟨dropped, by rw [List.append_nil, hflow]⟩

theorem takenCourse_of_flow {c : Course} (h : BodyCourse ⟨2⟩ takenTree c) (hflow : c.flow = takenFlow) :
    ∃ dropped dropped' dropped'' params, c = takenCourse dropped dropped' dropped'' params := by
  obtain ⟨inner, params, rfl, hinner⟩ := h
  rw [takenTree] at hinner
  cases hinner with
  | @node _ _ _ _ dropped'' hstmts =>
    cases hstmts with
    | cons hstmt hrest =>
      cases hrest
      cases hstmt with
      | node hshape =>
        cases hshape with
        | ifChain _ harms =>
          cases harms with
          | cons hfirst hrest =>
            cases hrest with
            | cons hsecond hrest =>
              cases hrest
              simp only [Course.flow, Course.flows, Course.armFlows, List.append_nil, takenFlow, List.cons.injEq,
                Flow.fork.injEq, and_true, Option.isSome_some] at hflow
              obtain ⟨rfl, hfirstFlow, hsecondFlow⟩ := hflow
              obtain ⟨dropped, rfl⟩ := hfirst.block_of_expr hfirstFlow
              obtain ⟨dropped', rfl⟩ := hsecond.block_of_expr hsecondFlow
              exact ⟨dropped, dropped', dropped'', params, rfl⟩

theorem drops_whole_takenInBothArms : ∃ s', Runs (takenInBothArms .intersect).linkEnv
    (linkFunction ⟨8⟩ [⟨9⟩, ⟨10⟩, ⟨11⟩] ⟨2⟩) (takenInBothArms .intersect).declared () s' ∧
      ⟨10⟩ ∈ s'.program.droppedAt ⟨2⟩ ∧ ⟨9⟩ ∉ s'.program.droppedAt ⟨2⟩ := by
  obtain ⟨s', hrun, hentries, hother⟩ : ∃ s', Runs (takenInBothArms .intersect).linkEnv
      (linkFunction ⟨8⟩ [⟨9⟩, ⟨10⟩, ⟨11⟩] ⟨2⟩) (takenInBothArms .intersect).declared () s' ∧
        s'.history = (takenInBothArms .intersect).declared.history ++ allEntries takenFlow ∧
        ⟨10⟩ ∈ s'.program.droppedAt ⟨2⟩ :=
    exists_of_run (by decide +kernel)
  obtain ⟨c, hcourse, hhistory, hdrops, hwhole⟩ := linkFunction_drops_whole hrun
  have hflow := allEntries_injective (List.append_cancel_left (hhistory.symm.trans hentries))
  obtain ⟨dropped, dropped', dropped'', params, rfl⟩ := takenCourse_of_flow hcourse hflow
  have hnone : (takenInBothArms .intersect).declared.program.droppedAt ⟨2⟩ = [] := by decide +kernel
  refine ⟨s', hrun, hother, ?_⟩
  rw [hdrops, hnone, List.nil_append]
  apply hwhole ⟨9⟩ ⟨2⟩ .through accounted_takenCourse
  intro es hexits
  exact ⟨_, rfl, dangling_takenCourse hexits⟩

/-- Under the policy that restores, the parameter is destroyed at the end of the body, although it is gone on every
way there. -/
theorem dropped_takenInBothArms : ∃ s' c, Runs (takenInBothArms .restore).linkEnv
    (linkFunction ⟨8⟩ [⟨9⟩, ⟨10⟩, ⟨11⟩] ⟨2⟩) (takenInBothArms .restore).declared () s' ∧
      BodyCourse ⟨2⟩ ((takenInBothArms .restore).linkEnv.trees.block ⟨2⟩) c ∧
      s'.history = (takenInBothArms .restore).declared.history ++ allEntries c.flow ∧
      (∀ es, Course.Exits ⟨2⟩ [c] es → Dangling { root := ⟨9⟩ } es) ∧ ⟨9⟩ ∈ s'.program.droppedAt ⟨2⟩ := by
  obtain ⟨s', hrun, hentries, hdropped⟩ : ∃ s', Runs (takenInBothArms .restore).linkEnv
      (linkFunction ⟨8⟩ [⟨9⟩, ⟨10⟩, ⟨11⟩] ⟨2⟩) (takenInBothArms .restore).declared () s' ∧
        s'.history = (takenInBothArms .restore).declared.history ++ allEntries takenFlow ∧
        ⟨9⟩ ∈ s'.program.droppedAt ⟨2⟩ :=
    exists_of_run (by decide +kernel)
  refine ⟨s', takenCourse [] [] [] [⟨10⟩, ⟨9⟩], hrun, ?_, ?_, ?_, hdropped⟩
  · rw [block_takenInBothArms]
    exact bodyCourse_takenTree _ _ _ _
  · rw [hentries]
    rfl
  · intro es hexits
    exact dangling_takenCourse hexits

end Linkage
