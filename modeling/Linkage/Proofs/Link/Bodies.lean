import Linkage.Proofs.Link.Restoring

/-!
# What linking a body is made of

Every expression of a body stands inside blocks, and in each of them some locals are bound by then. What is visible at
the expression is determined by these. Statements are walked over once here, for any property of the state that
linking keeps; whether linking an expression keeps it may depend on what is visible there.
-/

namespace Linkage

variable {inv seen : LinkState → Prop} {stmts : List Stmt}

/-- Locals in the order in which they are bound. -/
abbrev Rib := List (String × DeclId)

/-- The expressions, and all that they are made of, inside the blocks. -/
def Expr.spots (blocks : List Rib) (es : List Expr) : List (Expr × List Rib) := (Expr.withinAll es).map (·, blocks)

mutual
/-- The expressions in a statement. With each goes what is bound in the blocks around it, innermost block
first. -/
def Stmt.spots (src : Source) (blocks : List Rib) : Stmt → List (Expr × List Rib)
  | .missing _ => []
  | .node _ _ shape => Stmt.spotsShape src blocks shape
def Stmt.spotsShape (src : Source) (blocks : List Rib) : StmtShape Expr Block → List (Expr × List Rib)
  | .binding _ init => Expr.spots blocks init.toList
  | .assign target value => Expr.spots blocks [target, value]
  | .expr e => Expr.spots blocks [e]
  | .ret value => Expr.spots blocks value.toList
  | .ifChain arms otherwise =>
    Expr.spots blocks (arms.map (·.1)) ++ Block.spotsArms src blocks arms ++ Block.spotsElse src blocks otherwise
  | .staticIf cond first otherwise =>
    Expr.spots blocks [cond] ++ first.spots src blocks ++ Block.spotsElse src blocks otherwise
  | .switch scrutinee cases =>
    Expr.spots blocks (scrutinee :: cases.flatMap (·.values)) ++ Block.spotsCases src blocks cases
  | .whileLoop cond inner => Expr.spots blocks [cond] ++ inner.spots src blocks
  | .block inner => inner.spots src blocks
def Block.spots (src : Source) (blocks : List Rib) : Block → List (Expr × List Rib)
  | .missing _ => []
  | .node _ _ stmts => Stmt.spotsAll src blocks [] stmts
/-- A statement sees what those before it in the block have bound. -/
def Stmt.spotsAll (src : Source) (blocks : List Rib) (rib : Rib) : List Stmt → List (Expr × List Rib)
  | [] => []
  | stmt :: stmts =>
    stmt.spots src (rib :: blocks) ++ Stmt.spotsAll src blocks (rib ++ (stmt.bound? src).toList) stmts
def Block.spotsArms (src : Source) (blocks : List Rib) : List (Expr × Block) → List (Expr × List Rib)
  | [] => []
  | (_, arm) :: arms => arm.spots src blocks ++ Block.spotsArms src blocks arms
def Block.spotsElse (src : Source) (blocks : List Rib) : Option Block → List (Expr × List Rib)
  | none => []
  | some arm => arm.spots src blocks
def Block.spotsCases (src : Source) (blocks : List Rib) : List (SwitchCase Expr Block) → List (Expr × List Rib)
  | [] => []
  | ⟨_, _, arm, _⟩ :: cases => arm.spots src blocks ++ Block.spotsCases src blocks cases
end

/-- The expressions come first, and then those in the blocks. -/
theorem Stmt.spotsShape_eq (src : Source) (blocks : List Rib) (shape : StmtShape Expr Block) :
    Stmt.spotsShape src blocks shape = Expr.spots blocks shape.exprs ++ shape.blocks.flatMap (Block.spots src blocks) := by
  have harms : ∀ arms, Block.spotsArms src blocks arms = (arms.map (·.2)).flatMap (Block.spots src blocks) := by
    intro arms
    induction arms with
    | nil => rfl
    | cons arm arms ih => rw [Block.spotsArms, ih, List.map_cons, List.flatMap_cons]
  have helse : ∀ otherwise, Block.spotsElse src blocks otherwise =
      otherwise.toList.flatMap (Block.spots src blocks) := by
    intro otherwise
    cases otherwise <;> simp [Block.spotsElse]
  have hcases : ∀ cases, Block.spotsCases src blocks cases = (cases.map (·.body)).flatMap (Block.spots src blocks) := by
    intro cases
    induction cases with
    | nil => rfl
    | cons c cases ih => rw [Block.spotsCases, ih, List.map_cons, List.flatMap_cons]
  cases shape <;> simp [Stmt.spotsShape, StmtShape.exprs, StmtShape.blocks, Expr.spots, Expr.withinAll, harms, helse, hcases]

theorem Expr.mem_withinAll {es : List Expr} {x : Expr} : x ∈ Expr.withinAll es ↔ ∃ e ∈ es, x ∈ e.within := by
  induction es with
  | nil => simp [Expr.withinAll]
  | cons e es ih => simp [Expr.withinAll, ih]

theorem Expr.forall_mem_spots {blocks : List Rib} {es : List Expr} {N : List Rib → Expr → Prop} :
    (∀ p ∈ Expr.spots blocks es, N p.2 p.1) ↔ ∀ e ∈ es, ∀ x ∈ e.within, N blocks x := by
  simp only [Expr.spots, List.forall_mem_map, Expr.mem_withinAll]
  exact ⟨fun h e he x hx => h x ⟨e, he, hx⟩, fun h x ⟨e, he, hx⟩ => h e he x hx⟩

namespace Link

variable {α β : Type} {env : LinkEnv} {s s' : LinkState}

/-! ### Properties that linking keeps -/

/-- What is seen is a matter of frames, namespaces and the flag. -/
class Stable (seen : LinkState → Prop) : Prop where
  of_eq : ∀ {s s'}, seen s → s'.scopes = s.scopes → s'.spaces = s.spaces → s'.quiet = s.quiet → seen s'

structure Guarded (ρ : LinkState → LinkState → Prop) (seen inv : LinkState → Prop) (s s' : LinkState) : Prop where
  rel : ρ s s'
  keeps : seen s → inv s → inv s'

instance : Stable fun _ => True := ⟨fun _ _ _ _ => trivial⟩

theorem Stable.reset [Stable seen] (h : Reset s s') (hseen : seen s) : seen s' :=
  Stable.of_eq hseen h.scopes h.spaces h.quiet

section

variable {ρ σ : LinkState → LinkState → Prop} {seen inv : LinkState → Prop} {x : LinkM α} {f : α → LinkM β}

theorem Guarded.imp (h : Guarded ρ seen inv s s') (himp : ρ s s' → σ s s') : Guarded σ seen inv s s' :=
  ⟨himp h.rel, h.keeps⟩

instance [Stable seen] : Sequential (Guarded Reset seen inv) where
  refl s := ⟨Sequential.refl s, fun _ h => h⟩
  trans h h' := ⟨Sequential.trans h.rel h'.rel,
    fun hseen hinv => h'.keeps (Stable.reset h.rel hseen) (h.keeps hseen hinv)⟩

instance [Stable seen] : Sequential (Guarded Walked seen inv) where
  refl s := ⟨Sequential.refl s, fun _ h => h⟩
  trans h h' := ⟨Sequential.trans h.rel h'.rel,
    fun hseen hinv => h'.keeps (Stable.reset h.rel.toReset hseen) (h.keeps hseen hinv)⟩

/-- Names come to the innermost frame after an action that leaves it alone. -/
theorem FramedIn.nest [Stable seen] (hx : FramedIn env (Guarded Reset seen inv) x)
    (hf : ∀ a, FramedIn env (Guarded Nested seen inv) (f a)) : FramedIn env (Guarded Nested seen inv) (x >>= f) := by
  refine hx.bind_comp (fun _ _ hs => hs.imp Reset.nested) fun s a s' _ hs => ?_
  refine ⟨Sequential.trans hs.rel.nested (hf a s').rel, fun hseen hinv => ?_⟩
  exact (hf a s').keeps (Stable.reset hs.rel hseen) (hs.keeps hseen hinv)

/-- After names have come to the innermost frame, nothing is known about what is seen. -/
theorem FramedIn.leave (hx : FramedIn env (Guarded Nested seen inv) x)
    (hf : ∀ a, FramedIn env (Guarded Reset (fun _ => True) inv) (f a)) :
    FramedIn env (Guarded Nested seen inv) (x >>= f) := by
  refine hx.bind_comp (fun _ _ hs => hs) fun s a s' _ hs => ?_
  refine ⟨Sequential.trans hs.rel (hf a s').rel.nested, fun hseen hinv => ?_⟩
  exact (hf a s').keeps trivial (hs.keeps hseen hinv)

end

/-- The property is kept as long as nothing is linked or resolved. -/
def Lasting (inv : LinkState → Prop) : Prop := ∀ {s s'}, inv s → Unmarked s s' → inv s'

theorem checkable_guarded (hinv : Lasting inv) : Checkable (Guarded Walked seen inv) :=
  .of_idle (fun h => ⟨checkable_walked.steps h, fun _ hs => hinv hs (checkable_unmarked.steps h)⟩)
    (fun span p s => ⟨checkable_walked.report span p s, fun _ hs => hinv hs (checkable_unmarked.report span p s)⟩)
    fun h => ⟨checkable_walked.idle h, fun _ hs => hinv hs (checkable_unmarked.idle h)⟩

theorem guarded_of_eq (hinv : Lasting inv) (h : Restored s s')
    (hlinked : s'.linked = s.linked) (hresolved : s'.program.resolved = s.program.resolved)
    (hreports : s'.reports = s.reports) : Guarded Walked seen inv s s' :=
  ⟨⟨h, retains_of_eq hlinked hresolved⟩, fun _ hs => hinv hs ⟨hresolved, hlinked, hreports ▸ List.prefix_refl _⟩⟩

/-- Linking an expression keeps the property if recording what it means and that it is linked does. -/
theorem walkable_guarded {N : Expr → Prop} [Stable seen] (hlasting : Lasting inv)
    (hconstruct : ∀ s id span ty fields struct, N (.node id span (.construct ty fields)) → inv s →
      inv (recordResolved id struct env s).2)
    (hcallee : ∀ s callee func, N callee → Runs env (calledFunction? callee) s (some func) s → seen s → inv s →
      inv (recordResolved callee.id func env s).2)
    (hname : ∀ s body hint access e, N e → e.path?.isSome → seen s → inv s →
      inv (linkExpr body hint access e env s).2)
    (hlinked : ∀ s e ty, N e → e.path? = none → (∀ callee ∈ e.callee?, s.Settled callee.id) → inv s →
      inv (recordLinked e.id ty env s).2) : Walkable env N (Guarded Walked seen inv) where
  toCheckable := checkable_guarded hlasting
  withActive decl index act h s := by
    refine ⟨(walkable_walked env).withActive decl index (fun s => (h s).rel) s, fun hseen hinv => ?_⟩
    let active : LinkState := { s with program := (s.program.activate decl index).2 }
    have hactive : inv active := hlasting hinv ⟨rfl, rfl, List.prefix_refl _⟩
    have hact := (h active).keeps (Stable.of_eq hseen rfl rfl rfl) hactive
    exact hlasting hact ⟨rfl, rfl, List.prefix_refl _⟩
  construct id span ty fields struct hN s :=
    ⟨walked_recordResolved id struct s, fun _ => hconstruct s id span ty fields struct hN⟩
  callee s callee func hN hrun := ⟨walked_recordResolved callee.id func s, hcallee s callee func hN hrun⟩
  name body hint access e hN he s :=
    ⟨(walkable_walked env).name body hint access e trivial he s, hname s body hint access e hN he⟩
  linked s e ty hN he hsettled := ⟨walked_recordLinked e.id ty s, fun _ => hlinked s e ty hN he hsettled⟩
  retains h := h.rel.retains

/-- Linking a body keeps the property, if linking an expression does where the blocks around it are as they
are seen. -/
structure Upholds (env : LinkEnv) (N : List Rib → Expr → Prop) (sees : List Rib → LinkState → Prop)
    (inv : LinkState → Prop) : Prop where
  lasting : Lasting inv
  opened : ∀ {blocks s}, sees blocks s → sees ([] :: blocks) { s with scopes := s.scopes.push {} }
  bound : ∀ {rib blocks s} b, sees (rib :: blocks) s → sees ((rib ++ b.toList) :: blocks) (s.bindOptional b)
  walkable : ∀ blocks, Walkable env (N blocks) (Guarded Walked (sees blocks) inv)

/-! ### Actions that put back what is around them -/

/-- The action does what it may, and puts the locals back if it comes to its end. -/
structure Restores (env : LinkEnv) (ρ : LinkState → LinkState → Prop) (act : LinkM α) : Prop where
  framed : FramedIn env ρ act
  locals : ∀ s a s', Runs env act s a s' → s'.locals = s.locals

/-- The statement binds what it says, and puts everything else back. -/
structure Introduces (env : LinkEnv) (ρ : LinkState → LinkState → Prop) (body : Body) (stmt : Stmt) : Prop where
  framed : FramedIn env ρ (linkStmt body stmt)
  bound : ∀ s u s', Runs env (linkStmt body stmt) s u s' → Restored (s.bindOptional (stmt.bound? env.source)) s'

/-- Statements one after the other change the locals of the innermost block. -/
structure Fills (env : LinkEnv) (ρ : LinkState → LinkState → Prop) (body : Body) (stmts : List Stmt) : Prop where
  framed : FramedIn env ρ (linkStmts body stmts)
  locals : ∀ s u s', Runs env (linkStmts body stmts) s u s' → s'.locals.tail = s.locals.tail

namespace Restores

variable {ρ σ : LinkState → LinkState → Prop}

theorem imp {act : LinkM α} (h : Restores env ρ act) (himp : ∀ s s', ρ s s' → σ s s') : Restores env σ act :=
  ⟨fun s => himp _ _ (h.framed s), h.locals⟩

theorem bind [Sequential ρ] {x : LinkM α} {f : α → LinkM β} (hx : Restores env ρ x)
    (hf : ∀ a, Restores env ρ (f a)) : Restores env ρ (x >>= f) := by
  refine ⟨.bind hx.framed fun a => (hf a).framed, fun s b s' hrun => ?_⟩
  obtain ⟨a, s₁, hfirst, hrest⟩ := runs_bind.1 hrun
  exact ((hf a).locals s₁ b s' hrest).trans (hx.locals s a s₁ hfirst)

theorem looks [Sequential ρ] {act : LinkM α} (h : Looks act) : Restores env ρ act :=
  ⟨h.framedIn, fun s a s' hrun => by rw [h.of_runs hrun]⟩

theorem throw [Sequential ρ] (fault : Fault) : Restores env ρ (throw fault : LinkM α) := looks (.throw fault)

theorem walked {act : LinkM α} (h : FramedIn env (Guarded Walked seen inv) act) :
    Restores env (Guarded Reset seen inv) act :=
  ⟨fun s => (h s).imp (·.toReset), fun _ _ _ hrun => (h.of_runs hrun).rel.locals⟩

end Restores

theorem Introduces.of_restores {body : Body} {stmt : Stmt}
    (h : Restores env (Guarded Reset seen inv) (linkStmt body stmt)) (hbound : stmt.bound? env.source = none) :
    Introduces env (Guarded Nested seen inv) body stmt := by
  refine ⟨fun s => (h.framed s).imp (·.nested), fun s u s' hrun => ?_⟩
  rw [hbound]
  exact ⟨(h.framed.of_runs hrun).rel, h.locals s u s' hrun⟩

/-! ### Statements and blocks -/

namespace Upholds

variable {N : List Rib → Expr → Prop} {sees : List Rib → LinkState → Prop} [∀ blocks, Stable (sees blocks)]
  {inv : LinkState → Prop} (h : Upholds env N sees inv) {blocks : List Rib} {rib : Rib} {body : Body}

include h

theorem linkBinding {init : Option Expr} (hinit : ∀ e ∈ init, ∀ x ∈ e.within, N blocks x) (span : Span)
    (decl : DeclId) : FramedIn env (Guarded Nested (sees blocks) inv) (linkBinding body span decl init) := by
  have hwalk := h.walkable blocks
  have hbind : ∀ name, FramedIn env (Guarded Nested (sees blocks) inv) (do
      declareLocal name decl
      addLocal decl
      reinit { root := decl }) := by
    intro name s
    have hnested : Nested s (declareLocal name decl env s).2 := nested_declareLocal name decl s
    exact ⟨⟨hnested.outer, hnested.spaces, hnested.quiet, hnested.cursors⟩,
      fun _ hinv => h.lasting hinv ⟨rfl, rfl, List.prefix_refl _⟩⟩
  have hreset : ∀ {γ : Type} {act : LinkM γ}, FramedIn env (Guarded Walked (sees blocks) inv) act →
      FramedIn env (Guarded Reset (sees blocks) inv) act := fun hact s => (hact s).imp (·.toReset)
  refine .nest (looks_declOf decl).framedIn fun d => ?_
  split
  · rename_i v _
    refine .nest (hreset (hwalk.linkVarType _ v.ty)) fun declared => ?_
    refine .nest (hreset (hwalk.linkInit hinit _ _ _)) fun ty => ?_
    refine .nest (.modify fun s => ⟨⟨rfl, rfl, rfl, fun _ => rfl⟩, fun _ hinv => ?_⟩) fun _ => ?_
    · exact h.lasting hinv ⟨rfl, rfl, List.prefix_refl _⟩
    · dsimp only
      split
      · exact .nest (hreset (hwalk.linkConstant decl init)) fun _ => hbind _
      · exact hbind _
  · exact fun s => ⟨Sequential.refl s, fun _ hinv => hinv⟩

theorem introduces_binding {init : Option Expr} (hinit : ∀ e ∈ init, ∀ x ∈ e.within, N blocks x) (id : StmtId)
    (span : Span) (decl : DeclId) :
    Introduces env (Guarded Nested (sees blocks) inv) body (.node id span (.binding decl init)) := by
  refine ⟨?_, fun s u s' hrun => ?_⟩
  · rw [linkStmt, linkStmtShape]
    exact h.linkBinding hinit span decl
  · rw [linkStmt, linkStmtShape] at hrun
    have hrecord : ∀ ty, FramedIn env (Guarded Walked (sees blocks) inv) (recordDeclType decl ty) := fun ty =>
      .modify fun _ => guarded_of_eq h.lasting (restored_of_eq rfl rfl rfl rfl rfl) rfl rfl rfl
    obtain ⟨s₁, hwalked, hidle⟩ := (h.walkable blocks).of_linkBinding hinit (fun _ _ => hrecord) hrun
    exact Sequential.trans (hwalked.rel.toRestored.bindOptional _) hidle.restored

theorem restores_block (hstmts : Fills env (Guarded Nested (sees ([] :: blocks)) inv) body stmts)
    (id : BlockId) (span : Span) :
    Restores env (Guarded Reset (sees blocks) inv) (linkBlock body (.node id span stmts)) := by
  have hlocals : ∀ {seen : LinkState → Prop} (s : LinkState) locals,
      Guarded Reset seen inv s { s with locals := locals } := fun s locals =>
    ⟨⟨rfl, rfl, rfl, fun _ => rfl⟩, fun _ hinv => h.lasting hinv ⟨rfl, rfl, List.prefix_refl _⟩⟩
  have hdrops : ∀ locals, FramedIn env (Guarded Walked (fun _ => True) inv) (scheduleDrops id locals) :=
    fun locals => (checkable_guarded h.lasting).scheduleDrops (fun s drops =>
      guarded_of_eq h.lasting (restored_of_eq rfl rfl rfl rfl rfl) rfl rfl rfl) locals
  have hinside : FramedIn env (Guarded Nested (sees ([] :: blocks)) inv) (do
      openLocals
      linkStmts body stmts
      let locals ← closeLocals
      scheduleDrops id locals) := by
    refine .nest (.modify fun s => hlocals s _) fun _ => .leave hstmts.framed fun _ => ?_
    exact .bind (.modifyGet fun s => hlocals s _) fun locals s => (hdrops locals s).imp (·.toReset)
  rw [linkBlock]
  refine ⟨fun s => ⟨reset_withFrame (fun s => (hinside s).rel) s, fun hsees hinv => ?_⟩, fun s u s' hrun => ?_⟩
  · have hopened : inv { s with scopes := s.scopes.push {} } := h.lasting hinv ⟨rfl, rfl, List.prefix_refl _⟩
    exact h.lasting ((hinside _).keeps (h.opened hsees) hopened) ⟨rfl, rfl, List.prefix_refl _⟩
  · rw [runs_withFrame] at hrun
    obtain ⟨s₄, hrun, rfl⟩ := hrun
    simp only [runs_bind] at hrun
    obtain ⟨_, s₁, hopen, _, s₂, hfill, locals, s₃, hclose, hrun⟩ := hrun
    obtain rfl := runs_modify.1 hopen
    obtain ⟨-, rfl⟩ := runs_modifyGet.1 hclose
    exact (((hdrops _).of_runs hrun).rel.locals).trans (hstmts.locals _ _ _ hfill)

theorem fills_cons {stmt : Stmt} (hstmt : Introduces env (Guarded Nested (sees (rib :: blocks)) inv) body stmt)
    (hstmts : Fills env (Guarded Nested (sees ((rib ++ (stmt.bound? env.source).toList) :: blocks)) inv) body stmts) :
    Fills env (Guarded Nested (sees (rib :: blocks)) inv) body (stmt :: stmts) := by
  refine ⟨?_, fun s u s' hrun => ?_⟩
  · rw [linkStmts]
    refine hstmt.framed.bind_comp (fun _ _ hs => hs) fun s u s' hrun hs => ?_
    have hrest := hstmts.framed s'
    refine ⟨Sequential.trans hs.rel hrest.rel, fun hsees hinv => hrest.keeps ?_ (hs.keeps hsees hinv)⟩
    exact Stable.reset (hstmt.bound s u s' hrun).toReset (h.bound _ hsees)
  · rw [linkStmts] at hrun
    obtain ⟨_, s₁, hfirst, hrest⟩ := runs_bind.1 hrun
    rw [hstmts.locals s₁ u s' hrest, (hstmt.bound s _ s₁ hfirst).locals, tail_locals_bindOptional]

theorem introduces_node {shape : StmtShape Expr Block} (hexprs : ∀ e ∈ shape.exprs, ∀ x ∈ e.within, N blocks x)
    (hblocks : ∀ b ∈ shape.blocks, Restores env (Guarded Reset (sees blocks) inv) (linkBlock body b)) (id : StmtId)
    (span : Span) : Introduces env (Guarded Nested (sees blocks) inv) body (.node id span shape) := by
  have hrestores : (∀ decl init, shape ≠ .binding decl init) →
      Restores env (Guarded Reset (sees blocks) inv) (linkStmt body (.node id span shape)) := by
    intro hshape
    rw [linkStmt]
    exact (h.walkable blocks).linkStmtShape (T := fun _ act => Restores env (Guarded Reset (sees blocks) inv) act)
      .walked (fun hx hf => .bind hx hf) hexprs (fun decl init heq => absurd heq (hshape decl init)) hblocks
  cases shape with
  | binding decl init => exact h.introduces_binding (fun e he => hexprs e (Option.mem_toList.2 he)) id span decl
  | _ => exact .of_restores (hrestores (by simp)) rfl

theorem fills_linkStmts (hstmts : ∀ stmt ∈ stmts, ∀ blocks,
      (∀ p ∈ Stmt.spots env.source blocks stmt, N p.2 p.1) → Introduces env (Guarded Nested (sees blocks) inv) body stmt)
    (rib : Rib) (hN : ∀ p ∈ Stmt.spotsAll env.source blocks rib stmts, N p.2 p.1) :
    Fills env (Guarded Nested (sees (rib :: blocks)) inv) body stmts := by
  induction stmts generalizing rib with
  | nil =>
    refine ⟨fun s => ?_, fun s u s' hrun => ?_⟩
    · rw [linkStmts]
      exact ⟨Sequential.refl s, fun _ hinv => hinv⟩
    · rw [linkStmts] at hrun
      obtain ⟨-, rfl⟩ := runs_pure.1 hrun
      rfl
  | cons stmt stmts ih =>
    obtain ⟨hstmt, hstmts⟩ := List.forall_mem_cons.1 hstmts
    rw [Stmt.spotsAll, List.forall_mem_append] at hN
    exact h.fills_cons (hstmt _ hN.1) (ih hstmts _ hN.2)

end Upholds

variable {N : List Rib → Expr → Prop} {sees : List Rib → LinkState → Prop} [∀ blocks, Stable (sees blocks)]
  {inv : LinkState → Prop}

theorem introduces_and_restores (h : Upholds env N sees inv) (body : Body) :
    (∀ stmt blocks, (∀ p ∈ Stmt.spots env.source blocks stmt, N p.2 p.1) →
      Introduces env (Guarded Nested (sees blocks) inv) body stmt) ∧
    ∀ b blocks, (∀ p ∈ Block.spots env.source blocks b, N p.2 p.1) →
      Restores env (Guarded Reset (sees blocks) inv) (linkBlock body b) := by
  refine Stmt.induction ⟨fun id blocks _ => .of_restores ?_ rfl, fun id span shape ih blocks hN => ?_,
    fun id blocks _ => ?_, fun id span stmts ih blocks hN => ?_⟩
  · rw [linkStmt]
    exact .throw _
  · rw [Stmt.spots, Stmt.spotsShape_eq, List.forall_mem_append, Expr.forall_mem_spots] at hN
    have hblocks : ∀ b ∈ shape.blocks, Restores env (Guarded Reset (sees blocks) inv) (linkBlock body b) :=
      fun b hb => ih b hb blocks fun p hp => hN.2 p (List.mem_flatMap_of_mem hb hp)
    exact h.introduces_node hN.1 hblocks id span
  · rw [linkBlock]
    exact .throw _
  · exact h.restores_block (h.fills_linkStmts ih [] hN) id span

theorem introduces_linkStmt (h : Upholds env N sees inv) (body : Body) (stmt : Stmt) (blocks : List Rib)
    (hN : ∀ p ∈ stmt.spots env.source blocks, N p.2 p.1) :
    Introduces env (Guarded Nested (sees blocks) inv) body stmt :=
  (introduces_and_restores h body).1 stmt blocks hN

theorem restores_linkBlock (h : Upholds env N sees inv) (body : Body) (b : Block) (blocks : List Rib)
    (hN : ∀ p ∈ b.spots env.source blocks, N p.2 p.1) :
    Restores env (Guarded Reset (sees blocks) inv) (linkBlock body b) :=
  (introduces_and_restores h body).2 b blocks hN

end Link

end Linkage
