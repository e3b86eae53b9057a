import Linkage.Proofs.Link.Footprints
import Linkage.Proofs.Link.Straight

/-!
# The ends of blocks while a body is linked

In a body without branches every block is linked once, so each of them has one state in which its statements have been
linked and its locals are looked at. From the start of the body to this state only events are noted, and the tracker
has followed them. What is linked after that changes neither the schedule of the block nor the types of its locals,
since they are not bound again. The states are found by linking the body again, statement by statement
(`Block.exits`).
-/

namespace Linkage

structure Exit extends Closing where
  func : DeclId
  /-- What has happened to places since the body of the function was entered. -/
  events : List Event
  deriving DecidableEq, Repr

def Entry.event? : Entry → Option Event
  | .event e => some e
  | .mark _ => none

open Link

mutual
/-- Where the blocks in a statement end when it is linked from the state `s`, each with the state in which the last
of its statements has been linked. Branches are left out. -/
def Stmt.exits (env : LinkEnv) (body : Body) (s : LinkState) : Stmt → List (Closing × LinkState)
  | .missing _ => []
  | .node _ _ shape => Stmt.exitsShape env body s shape
def Stmt.exitsShape (env : LinkEnv) (body : Body) (s : LinkState) : StmtShape Expr Block → List (Closing × LinkState)
  | .block inner => inner.exits env body [] s
  | _ => []
/-- The same for a block and those in it. If it is the body of a function, its parameters are due at its end. -/
def Block.exits (env : LinkEnv) (body : Body) (params : List DeclId) (s : LinkState) :
    Block → List (Closing × LinkState)
  | .missing _ => []
  | .node id span stmts => Stmt.exitsAll env body s.inBlock stmts ++
      [((Block.node id span stmts).closing env.source params, (linkStmts body stmts env s.inBlock).2)]
def Stmt.exitsAll (env : LinkEnv) (body : Body) (s : LinkState) : List Stmt → List (Closing × LinkState)
  | [] => []
  | stmt :: stmts => stmt.exits env body s ++ Stmt.exitsAll env body (linkStmt body stmt env s).2 stmts
end

section

variable (env : LinkEnv) (body : Body)

mutual
theorem Stmt.map_exits : ∀ (stmt : Stmt) (s : LinkState), stmt.isStraight = true →
    (stmt.exits env body s).map (·.1) = stmt.within.map (·.closing env.source [])
  | .missing _, _, _ => by rw [Stmt.exits, Stmt.within, List.map_nil, List.map_nil]
  | .node _ _ (.block inner), s, hstraight => by
    rw [Stmt.isStraight, Stmt.isStraightShape] at hstraight
    rw [Stmt.exits, Stmt.exitsShape, Block.map_exits inner [] s hstraight, Block.closings_nil, Stmt.within,
      Stmt.withinShape]
  | .node _ _ (.binding _ _), _, _ | .node _ _ (.assign _ _), _, _ | .node _ _ (.expr _), _, _
  | .node _ _ (.ret _), _, _ => by simp [Stmt.exits, Stmt.exitsShape, Stmt.within, Stmt.withinShape]
  | .node _ _ (.ifChain _ _), _, hstraight | .node _ _ (.staticIf _ _ _), _, hstraight
  | .node _ _ (.switch _ _), _, hstraight | .node _ _ (.whileLoop _ _), _, hstraight => by
    simp [Stmt.isStraight, Stmt.isStraightShape] at hstraight
theorem Block.map_exits : ∀ (b : Block) (params : List DeclId) (s : LinkState), b.isStraight = true →
    (b.exits env body params s).map (·.1) = b.closings env.source params
  | .missing _, _, _, _ => by rw [Block.exits, Block.closings, List.map_nil]
  | .node id span stmts, params, s, hstraight => by
    rw [Block.isStraight] at hstraight
    rw [Block.exits, Block.closings, List.map_append, Stmt.map_exitsAll stmts _ hstraight, List.map_singleton]
theorem Stmt.map_exitsAll : ∀ (stmts : List Stmt) (s : LinkState), Stmt.areStraight stmts = true →
    (Stmt.exitsAll env body s stmts).map (·.1) = (Stmt.withinAll stmts).map (·.closing env.source [])
  | [], _, _ => by rw [Stmt.exitsAll, Stmt.withinAll, List.map_nil, List.map_nil]
  | stmt :: stmts, s, hstraight => by
    rw [Stmt.areStraight, Bool.and_eq_true] at hstraight
    rw [Stmt.exitsAll, Stmt.withinAll, List.map_append, List.map_append, Stmt.map_exits stmt s hstraight.1,
      Stmt.map_exitsAll stmts _ hstraight.2]
end

end

namespace Link

variable {env : LinkEnv} {s s₁ s' t : LinkState} {body : Body} {u : Unit} {c : Closing} {cs cs' : List Closing}
  {typed : DeclId → Prop} {loose loose' : List DeclId}

/-! ### What is noted without branches -/

/-- Only events have been noted, and the tracker has followed them. -/
def Recorded (s s' : LinkState) : Prop :=
  ∃ es : List Event, s'.history = s.history ++ es.map .event ∧ s'.moves = s.moves.afterAll es

instance : Sequential Recorded where
  refl s := ⟨[], (List.append_nil _).symm, rfl⟩
  trans := by
    rintro s s₁ s' ⟨es, hhistory, hmoves⟩ ⟨es', hhistory', hmoves'⟩
    refine ⟨es ++ es', ?_, ?_⟩
    · rw [hhistory', hhistory, List.map_append, List.append_assoc]
    · rw [hmoves', hmoves, MoveTracker.afterAll_append]

theorem Charts.recorded {courses : List Course} (h : Charts s courses s') {es : List Event}
    (hes : Course.flows courses = es.map .event) : Recorded s s' := by
  refine ⟨es, ?_, ?_⟩
  · rw [h.logs.enters.history, hes, Flow.allEntries_map_event]
  · rw [h.logs.moves, hes, Flow.runAll_map_event]

theorem linkStmt_recorded {stmt : Stmt} (hstraight : stmt.isStraight = true)
    (h : Runs env (linkStmt body stmt) s u s') : Recorded s s' := by
  obtain ⟨courses, hcourse, hcharts⟩ := linkStmt_charts stmt h
  obtain ⟨es, hes⟩ := hcourse.flow.events hstraight
  exact hcharts.recorded hes

theorem linkStmts_recorded {stmts : List Stmt} (hstraight : Stmt.areStraight stmts = true)
    (h : Runs env (linkStmts body stmts) s u s') : Recorded s s' := by
  obtain ⟨courses, hcourse, hcharts⟩ := linkStmts_charts stmts h
  obtain ⟨es, hes⟩ := hcourse.flow.events hstraight
  exact hcharts.recorded hes

theorem Plans.recorded {block : BlockId} {drops : List ScheduledDrop} (h : Plans s block drops s') : Recorded s s' :=
  ⟨[], by rw [h.history, List.map_nil, List.append_nil], h.moves⟩

theorem Recorded.eq (h : Recorded s s') {es : List Event}
    (hes : es = (s'.history.drop s.history.length).filterMap Entry.event?) :
    s'.history = s.history ++ es.map .event ∧ s'.moves = s.moves.afterAll es := by
  obtain ⟨noted, hhistory, hmoves⟩ := h
  have hevents : (noted.map Entry.event).filterMap Entry.event? = noted := by
    rw [List.filterMap_map]
    exact List.filterMap_some
  rw [hhistory, List.drop_left, hevents] at hes
  exact ⟨hes ▸ hhistory, hes ▸ hmoves⟩

/-! ### One end among others -/

/-- On the way from `s` to `s'` the ends `cs` are passed, the end `c` in the state `t`. What is due there is put on the
schedule, and later only locals that are due at a later end are given types, and the `loose` ones, whose blocks have
not ended. -/
def Ends (loose : List DeclId) (cs : List Closing) (s : LinkState) (c : Closing) (t s' : LinkState) : Prop :=
  ∃ before after closed, cs = before ++ c :: after ∧ Touches (fun _ => True) before s t ∧
    Plans t c.block (c.due.filterMap t.drop?) closed ∧
    Touches (fun x => x ∈ loose ∨ x ∈ after.flatMap (·.due)) after closed s'

namespace Ends

theorem mono (h : Ends loose cs s c t s') (hloose : loose ⊆ loose') : Ends loose' cs s c t s' := by
  obtain ⟨before, after, closed, hcs, hbefore, hplans, hafter⟩ := h
  exact ⟨before, after, closed, hcs, hbefore, hplans,
    hafter.mono (fun x hx => hx.imp_left fun hx => hloose hx) (List.Subset.refl _)⟩

theorem before (h₀ : Touches (fun _ => True) cs' s s₁) (h : Ends loose cs s₁ c t s') :
    Ends loose (cs' ++ cs) s c t s' := by
  obtain ⟨before, after, closed, rfl, hbefore, hplans, hafter⟩ := h
  refine ⟨cs' ++ before, after, closed, (List.append_assoc ..).symm, ?_, hplans, hafter⟩
  exact Sequential.trans (h₀.mono (fun _ hx => hx) (List.subset_append_left _ _))
    (hbefore.mono (fun _ hx => hx) (List.subset_append_right _ _))

theorem after (h : Ends loose cs s c t s₁)
    (h₁ : Touches (fun x => x ∈ loose' ∨ x ∈ cs'.flatMap (·.due)) cs' s₁ s')
    (hloose : ∀ x ∈ loose, x ∈ loose' ∨ x ∈ cs'.flatMap (·.due)) : Ends loose' (cs ++ cs') s c t s' := by
  obtain ⟨before, after, closed, rfl, hbefore, hplans, hafter⟩ := h
  refine ⟨before, after ++ cs', closed, by simp, hbefore, hplans, ?_⟩
  simp only [List.flatMap_append, List.mem_append]
  refine Sequential.trans (hafter.mono ?_ (List.subset_append_left _ _)) (h₁.mono ?_ (List.subset_append_right _ _))
  · rintro x (hx | hx)
    · exact (hloose x hx).imp_right .inr
    · exact .inr (.inl hx)
  · exact fun x hx => hx.imp_right .inr

end Ends

/-! ### Straight code -/

theorem admits_closing {src : Source} {blocks : List Block} {b : Block} (hb : b ∈ blocks)
    (htyped : ∀ x ∈ (blocks.map (·.closing src [])).flatMap (·.due), typed x) :
    Admits src typed (blocks.map (·.closing src [])) b := by
  refine ⟨⟨_, List.mem_map_of_mem hb, rfl, b.locals_subset_due src []⟩, fun x hx => htyped x ?_⟩
  exact List.mem_flatMap.2 ⟨_, List.mem_map_of_mem hb, b.locals_subset_due src [] hx⟩

theorem stmt_touches {stmt : Stmt} (h : Runs env (linkStmt body stmt) s u s') :
    Touches (fun _ => True) (stmt.within.map (·.closing env.source [])) s s' :=
  touches_linkStmt body stmt ⟨fun _ _ => trivial, fun _ hb => admits_closing hb fun _ _ => trivial⟩ _ _ _ h

theorem stmts_touches {stmts : List Stmt} (h : Runs env (linkStmts body stmts) s u s') :
    Touches (fun x => x ∈ Stmt.locals env.source stmts ∨
        x ∈ ((Stmt.withinAll stmts).map (·.closing env.source [])).flatMap (·.due))
      ((Stmt.withinAll stmts).map (·.closing env.source [])) s s' :=
  touches_linkStmts (fun stmt _ => touches_linkStmt body stmt) (fun _ hx => .inl hx)
    (fun _ hb => admits_closing hb fun _ hx => .inr hx) _ _ _ h

theorem ends_block {id : BlockId} {span : Span} {stmts : List Stmt} {params : List DeclId}
    (hstmts : Runs env (linkStmts body stmts) s.inBlock () s₁)
    (hplans : Plans s₁ id ((Block.closing env.source params (.node id span stmts)).due.filterMap s₁.drop?) s')
    (hrecorded : Recorded s.inBlock s₁)
    (hinner : ∀ p ∈ Stmt.exitsAll env body s.inBlock stmts, Ends (Stmt.locals env.source stmts)
      ((Stmt.withinAll stmts).map (·.closing env.source [])) s.inBlock p.1 p.2 s₁ ∧ Recorded s.inBlock p.2 ∧
        Recorded p.2 s₁) :
    ∀ p ∈ (Block.node id span stmts).exits env body params s,
      Ends [] ((Block.node id span stmts).closings env.source params) s p.1 p.2 s' ∧ Recorded s p.2 ∧
        Recorded p.2 s' := by
  have hopened : Touches (fun _ => True) [] s s.inBlock := touches_of_eq rfl rfl (retains_of_eq rfl rfl)
  have hlocals := (Block.node id span stmts).locals_subset_due env.source params
  intro p hp
  rw [Block.exits, List.mem_append, List.mem_singleton] at hp
  rcases hp with hp | rfl
  · obtain ⟨hends, hbefore, hafter⟩ := hinner p hp
    refine ⟨(hends.before hopened).after (hplans.touches List.mem_cons_self rfl (List.Subset.refl _)) ?_, hbefore,
      Sequential.trans hafter hplans.recorded⟩
    intro x hx
    exact .inr (List.mem_flatMap.2 ⟨_, List.mem_cons_self, hlocals hx⟩)
  · have hend : (linkStmts body stmts env s.inBlock).2 = s₁ := congrArg Prod.snd hstmts
    rw [hend]
    refine ⟨⟨_, [], s', rfl, ?_, hplans, Sequential.refl s'⟩, hrecorded, hplans.recorded⟩
    exact Sequential.trans (hopened.mono (fun _ hx => hx) (List.nil_subset _))
      ((stmts_touches hstmts).mono (fun _ _ => trivial) (List.Subset.refl _))

section

variable {env : LinkEnv}

mutual
theorem ends_linkStmt (body : Body) : ∀ (stmt : Stmt) {s s'}, stmt.isStraight = true →
    Runs env (linkStmt body stmt) s () s' → ∀ p ∈ stmt.exits env body s,
      Ends [] (stmt.within.map (·.closing env.source [])) s p.1 p.2 s' ∧ Recorded s p.2 ∧ Recorded p.2 s'
  | .missing id, s, s', _, h => by
    rw [linkStmt] at h
    exact absurd h not_runs_throw
  | .node id span (.block inner), s, s', hstraight, h => by
    rw [Stmt.isStraight, Stmt.isStraightShape] at hstraight
    rw [linkStmt, linkStmtShape] at h
    rw [Stmt.exits, Stmt.exitsShape, Stmt.within, Stmt.withinShape, ← Block.closings_nil]
    exact ends_linkBlock body inner hstraight h
  | .node _ _ (.binding _ _), _, _, _, _ | .node _ _ (.assign _ _), _, _, _, _ | .node _ _ (.expr _), _, _, _, _
  | .node _ _ (.ret _), _, _, _, _ | .node _ _ (.ifChain _ _), _, _, _, _ | .node _ _ (.staticIf _ _ _), _, _, _, _
  | .node _ _ (.switch _ _), _, _, _, _ | .node _ _ (.whileLoop _ _), _, _, _, _ => by
    simp [Stmt.exits, Stmt.exitsShape]
theorem ends_linkBlock (body : Body) : ∀ (b : Block) {s s'}, b.isStraight = true →
    Runs env (linkBlock body b) s () s' → ∀ p ∈ b.exits env body [] s,
      Ends [] (b.closings env.source []) s p.1 p.2 s' ∧ Recorded s p.2 ∧ Recorded p.2 s'
  | .missing id, s, s', _, h => by
    rw [linkBlock] at h
    exact absurd h not_runs_throw
  | .node id span stmts, s, s', hstraight, h => by
    rw [Block.isStraight] at hstraight
    obtain ⟨s₁, hstmts, hplans⟩ := linkBlock_plans h
    refine ends_block hstmts ?_ (linkStmts_recorded hstraight hstmts) (ends_linkStmts body stmts hstraight hstmts)
    rw [Block.closing, List.reverse_nil, List.append_nil]
    exact hplans
theorem ends_linkStmts (body : Body) : ∀ (stmts : List Stmt) {s s'}, Stmt.areStraight stmts = true →
    Runs env (linkStmts body stmts) s () s' → ∀ p ∈ Stmt.exitsAll env body s stmts,
      Ends (Stmt.locals env.source stmts) ((Stmt.withinAll stmts).map (·.closing env.source [])) s p.1 p.2 s' ∧
        Recorded s p.2 ∧ Recorded p.2 s'
  | [], _, _, _, _ => by simp [Stmt.exitsAll]
  | stmt :: stmts, s, s', hstraight, h => by
    rw [Stmt.areStraight, Bool.and_eq_true] at hstraight
    rw [linkStmts] at h
    obtain ⟨_, s₁, hfirst, hrest⟩ := runs_bind.1 h
    have hnext : (linkStmt body stmt env s).2 = s₁ := congrArg Prod.snd hfirst
    have hlocals : Stmt.locals env.source stmts ⊆ Stmt.locals env.source (stmt :: stmts) :=
      ((List.sublist_cons_self stmt stmts).filterMap _).subset
    intro p hp
    rw [Stmt.exitsAll, hnext, List.mem_append] at hp
    rw [Stmt.withinAll, List.map_append]
    -- the end is in the first statement, and the others come afterwards, or it is in one of them
    rcases hp with hp | hp
    · obtain ⟨hends, hbefore, hafter⟩ := ends_linkStmt body stmt hstraight.1 hfirst p hp
      exact ⟨(hends.after (stmts_touches hrest) fun x hx => absurd hx List.not_mem_nil).mono hlocals, hbefore,
        Sequential.trans hafter (linkStmts_recorded hstraight.2 hrest)⟩
    · obtain ⟨hends, hbefore, hafter⟩ := ends_linkStmts body stmts hstraight.2 hrest p hp
      exact ⟨(hends.mono hlocals).before (stmt_touches hfirst),
        Sequential.trans (linkStmt_recorded hstraight.1 hfirst) hbefore, hafter⟩
end

end

end Link

/-! ### Functions -/

namespace Link

variable {α : Type} {env : LinkEnv} {s s' : LinkState} {func : DeclId} {params : List DeclId} {block : BlockId}

structure SameOutcome (s s' : LinkState) : Prop where
  program : s'.program = s.program
  linked : s'.linked = s.linked
  history : s'.history = s.history

theorem SameOutcome.touches (h : SameOutcome s s') {typed : DeclId → Prop} {cs : List Closing} :
    Touches typed cs s s' :=
  touches_of_eq (congrArg Program.signatures h.program) (congrArg Program.drops h.program)
    (retains_of_eq h.linked (congrArg Program.resolved h.program))

def bodyStart (func : DeclId) (params : List DeclId) : LinkM (Body × LinkState) :=
  inNamespaces func (inFunction func params fun body => return (body, ← get))

theorem exists_runs_withFrames {frames : List Frame} {act : LinkM α} {a : α}
    (h : ∃ s₁, Runs env act (s.opened frames) a s₁) : ∃ s', Runs env (withFrames frames act) s a s' := by
  induction frames generalizing s with
  | nil => exact h
  | cons frame frames ih =>
    obtain ⟨s₂, hrun⟩ := ih (s := { s with scopes := s.scopes.push frame }) h
    exact ⟨_, runs_withFrame.2 ⟨s₂, hrun, rfl⟩⟩

theorem runs_body {act : Body → LinkM α} {a : α}
    (h : Runs env (inNamespaces func (inFunction func params act)) s a s') :
    ∃ body start s₁, (∃ t, Runs env (bodyStart func params) s (body, start) t) ∧ Runs env (act body) start a s₁ ∧
      start.moves = { policy := env.options.branchMoves } ∧ SameOutcome s start ∧ SameOutcome s₁ s' := by
  simp only [inNamespaces, runs_bind, runs_get] at h
  obtain ⟨around, _, haround, _, _, ⟨rfl, rfl⟩, h⟩ := h
  obtain ⟨-, -, rfl⟩ := runs_spacesAround.1 haround
  obtain ⟨s₁, h, hclosed⟩ := runs_withFrames h
  obtain ⟨host, generics, names, s₄, hhost, hgenerics, hnames, hact, rfl⟩ := runs_inFunction.1 h
  refine ⟨_, _, s₄, ?_, hact, rfl, ⟨rfl, rfl, rfl⟩,
    ⟨by rw [hclosed], by rw [hclosed], by rw [hclosed]⟩⟩
  -- what comes before the body depends on the function and the state only, not on what is done in the body
  simp only [bodyStart, inNamespaces, runs_bind, runs_get]
  refine Exists.imp (fun t ht => ⟨around, _, haround, _, _, ⟨rfl, rfl⟩, ht⟩) (exists_runs_withFrames ?_)
  simp only [runs_inFunction, runs_bind, runs_get, runs_pure]
  exact ⟨_, host, generics, names, _, hhost, hgenerics, hnames, ⟨_, _, ⟨rfl, rfl⟩, rfl, rfl⟩, rfl⟩

/-- The parts of a body: its statements, its end, where its parameters are due as well, and the way back. -/
theorem linkBody_parts (htrees : env.trees = env.source.trees) (h : Runs env (linkBody func) s () s') :
    ∃ params block span stmts body start s₁ s₂, env.body? func = some (params, block) ∧
      env.trees.block block = .node block span stmts ∧
      (∃ t, Runs env (bodyStart func params) s (body, start) t) ∧
      Runs env (linkStmts body stmts) start.inBlock () s₁ ∧
      Plans s₁ block ((Block.closing env.source params (.node block span stmts)).due.filterMap s₁.drop?) s₂ ∧
      start.moves = { policy := env.options.branchMoves } ∧ SameOutcome s start ∧ SameOutcome s₂ s' := by
  obtain ⟨d, ⟨generics, params, ret, _⟩, block, hd, hkind, rfl, h⟩ := runs_linkBody h
  have hbody : env.body? func = some (params, block) := by
    unfold LinkEnv.body?
    rw [hd, Option.map_some, hkind]
  obtain ⟨body, start, s₂, hstart, hrun, hmoves, hin, hout⟩ := runs_body h
  simp only [runs_bind, runs_read] at hrun
  obtain ⟨_, _, ⟨rfl, rfl⟩, _, s₃, hblock, hdrops⟩ := hrun
  have hid := Source.id_block_trees env.source block
  rw [← htrees] at hid
  cases htree : env.trees.block block with
  | missing id =>
    rw [htree, linkBlock] at hblock
    exact absurd hblock not_runs_throw
  | node id span stmts =>
    rw [htree] at hid hblock
    obtain rfl : id = block := hid
    obtain ⟨s₁, hstmts, hplans⟩ := linkBlock_plans hblock
    have hparams := forM_scheduleDrop_plans hdrops
    rw [List.filterMap_congr fun x _ => hplans.drop? x] at hparams
    refine ⟨params, id, span, stmts, body, start, s₁, s₂, hbody, htree, hstart, hstmts, ?_, hmoves, hin, hout⟩
    rw [Block.closing, List.filterMap_append]
    exact hplans.trans hparams

theorem history_linkBody (htrees : env.trees = env.source.trees) (h : Runs env (linkBody func) s () s') :
    s.history <+: s'.history := by
  obtain ⟨_, _, _, stmts, _, start, s₁, s₂, -, -, -, hstmts, hplans, -, hin, hout⟩ := linkBody_parts htrees h
  obtain ⟨courses, -, hcharts⟩ := linkStmts_charts stmts hstmts
  rw [hout.history, hplans.history, hcharts.logs.enters.history, ← hin.history]
  exact List.prefix_append _ _

theorem touches_linkBody (htrees : env.trees = env.source.trees) (h : Runs env (linkBody func) s () s') :
    Touches (fun x => x ∈ (env.closingsOf func).flatMap (·.due)) (env.closingsOf func) s s' ∧
      env.blocksOf func ≠ [] := by
  obtain ⟨params, block, span, stmts, body, start, s₁, s₂, hbody, htree, -, hstmts, hplans, -, hin,
    hout⟩ := linkBody_parts htrees h
  have hlocals := (Block.node block span stmts).locals_subset_due env.source params
  rw [LinkEnv.closingsOf, LinkEnv.blocksOf, hbody]
  dsimp only
  rw [htree, Block.closings, Block.within]
  refine ⟨?_, by simp⟩
  have hin : SameOutcome s start.inBlock := ⟨hin.program, hin.linked, hin.history⟩
  refine Sequential.trans hin.touches (Sequential.trans ((stmts_touches hstmts).mono ?_ (List.subset_append_left _ _))
    (Sequential.trans (hplans.touches (List.mem_append_right _ List.mem_cons_self) rfl (List.Subset.refl _))
      hout.touches))
  rintro x (hx | hx)
  · exact List.mem_flatMap.2 ⟨_, List.mem_append_right _ List.mem_cons_self, hlocals hx⟩
  · rw [List.flatMap_append]
    exact List.mem_append_left _ hx

end Link

def LinkEnv.exitsOf (env : LinkEnv) (s : LinkState) (func : DeclId) : List Exit :=
  match env.body? func with
  | none => []
  | some (params, block) =>
    match Link.bodyStart func params env s with
    | (.error _, _) => []
    | (.ok (body, start), _) => ((env.trees.block block).exits env body params start).map fun (closing, t) =>
        { closing with func, events := (t.history.drop start.history.length).filterMap Entry.event? }

namespace Link

variable {env : LinkEnv} {s s' : LinkState} {e : Exit} {func : DeclId} {params : List DeclId} {block : BlockId}

theorem func_of_mem_exitsOf (he : e ∈ env.exitsOf s func) : e.func = func := by
  unfold LinkEnv.exitsOf at he
  split at he
  · simp at he
  · split at he
    · simp at he
    · obtain ⟨p, -, rfl⟩ := List.mem_map.1 he
      rfl

theorem ends_linkBody (htrees : env.trees = env.source.trees) (hbody : env.body? func = some (params, block))
    (hstraight : (env.trees.block block).isStraight = true) (h : Runs env (linkBody func) s () s') :
    (env.exitsOf s func).map (·.toClosing) = env.closingsOf func ∧
      ∀ e ∈ env.exitsOf s func, ∃ t, Ends [] (env.closingsOf func) s e.toClosing t s' ∧
        t.moves = MoveTracker.afterAll { policy := env.options.branchMoves } e.events ∧
        ∃ later, s'.history = s.history ++ e.events.map .event ++ later := by
  obtain ⟨_, _, span, stmts, body, start, s₁, s₂, hbody', htree, ⟨_, hstart⟩, hstmts, hplans, hmoves, hin, hout⟩ :=
    linkBody_parts htrees h
  obtain ⟨rfl, rfl⟩ := Prod.mk.inj (Option.some.inj (hbody.symm.trans hbody'))
  have hstart : bodyStart func params env s = (.ok (body, start), _) := hstart
  simp only [LinkEnv.exitsOf, LinkEnv.closingsOf, hbody, hstart]
  refine ⟨?_, fun e he => ?_⟩
  · rw [List.map_map]
    exact Block.map_exits env body _ params start hstraight
  · obtain ⟨⟨closing, t⟩, hp, rfl⟩ := List.mem_map.1 he
    rw [htree] at hp hstraight ⊢
    rw [Block.isStraight] at hstraight
    obtain ⟨hends, hbefore, later, hlater, -⟩ := ends_block hstmts hplans (linkStmts_recorded hstraight hstmts)
      (ends_linkStmts body stmts hstraight hstmts) _ hp
    have hopened : Touches (fun _ => True) [] s start := hin.touches
    have hleft : Touches (fun x => x ∈ [] ∨ x ∈ ([] : List Closing).flatMap (·.due)) [] s₂ s' := hout.touches
    have hends := (hends.before hopened).after hleft fun x hx => .inl hx
    obtain ⟨hhistory, hevents⟩ := hbefore.eq rfl
    refine ⟨t, ?_, hmoves ▸ hevents, later.map .event, ?_⟩
    · rwa [List.nil_append, List.append_nil] at hends
    · rw [hout.history, hlater, ← hin.history]
      exact congrArg (· ++ later.map Entry.event) hhistory

end Link

end Linkage
