import Linkage.Link.Expr

/-!
# Linking function bodies

Statements are linked in source order. A block opens a frame and, when it ends, schedules the
destruction of what its locals still hold. The arms of a branch all start from the places that were
moved out before it.

A static condition that can be evaluated selects one arm, and the other is not linked at all.
-/

namespace Linkage

namespace Link

/-! ## Destruction at the end of a block -/

/-- The struct names a destructor, whether or not it could be resolved. -/
def namesDestructor (d : Decl) : Bool :=
  match d.kind with
  | .struct { ownership := .owned (some _), .. } => true
  | _ => false

/-- Schedule the destruction of a local, unless something was moved out of it. An owned type without
a destructor is reported, except where an unresolved name has been reported already. -/
def scheduleDrop (block : BlockId) (held : DeclId) : LinkM Unit := do
  let s ← get
  if s.moves.movedFrom held then return
  match (s.signatures.declTypes.get? held).map s.env.expand with
  | some (.linked struct _) =>
    match s.signatures.disposalOf struct with
    | .copy => return
    | .owned (some destructor) =>
      let drops := s.program.dropsAt block ++ [{ decl := held, destructor }]
      set { s with program.drops := s.program.drops.insert block drops }
    | .owned none =>
      let owner ← declOf struct
      unless namesDestructor owner do
        let d ← declOf held
        report d.span (.undroppable d.name owner.name)
  | _ => return

def scheduleDrops (block : BlockId) (locals : List DeclId) : LinkM Unit :=
  locals.reverse.forM (scheduleDrop block)

def openLocals : LinkM Unit := modify fun s => { s with locals := [] :: s.locals }

def closeLocals : LinkM (List DeclId) :=
  modifyGet fun s => (s.locals.headD [], { s with locals := s.locals.tail })

def addLocal (decl : DeclId) : LinkM Unit := modify fun s =>
  { s with locals := match s.locals with
      | [] => []
      | innermost :: outer => (innermost ++ [decl]) :: outer }

/-! ## Branches -/

def beginBranch : LinkM Branch := return (← get).moves.beginBranch

def endArm (branch : Branch) : LinkM Branch := do
  mark .arm
  modifyGet fun s =>
    let (moves, branch) := s.moves.endArm branch
    (branch, { s with moves })

def endBranch (branch : Branch) (exhaustive : Bool) : LinkM Unit := do
  mark (.join exhaustive)
  modify fun s => { s with moves := s.moves.endBranch branch exhaustive }

/-! ## Simple statements -/

/-- The value of an expression, as far as it can be told while linking. -/
def evaluate (e : Expr) : LinkM (Option Constant) := do
  match (← read).evaluate (← get).foldEnv e with
  | .ok value => return value
  | .error id => throw (.missing id.ref)

/-- The type of a local from its annotation and its initial value. -/
def linkInit (body : Body) (name : String) (span : Span) : Option Ty → Option Expr → LinkM Ty
  | some declared, some init => do
    let actual ← linkExpr body declared.hint .read init
    expectType declared actual init.span
    settleLiteral init actual declared
    let _ ← consume init actual
    return declared
  | some declared, none => return declared
  | none, some init => do
    let actual ← linkExpr body none .read init
    recordType init.id actual.concrete
    let _ ← consume init actual
    return actual.concrete
  | none, none => do
    report span (.untypedVariable name)
    return .unknown

def linkConstant (decl : DeclId) : Option Expr → LinkM Unit
  | none => return
  | some init => do
    match ← evaluate init with
    | none => return
    | some value =>
      modify fun s => { s with program.constants := s.program.constants.insert decl value }

/-- A local binding. The name is bound after the initial value is linked, which therefore still
sees an outer binding of the name. -/
def linkBinding (body : Body) (span : Span) (decl : DeclId) (init : Option Expr) : LinkM Unit := do
  let d ← declOf decl
  match d.kind with
  | .var v =>
    let declared ← v.ty.mapM (linkTypeAt body.host .use)
    let ty ← linkInit body d.name span declared init
    recordDeclType decl ty
    if v.comptime then linkConstant decl init
    declareLocal d.name decl
    addLocal decl
    reinit { root := decl }
  | _ => return

def linkAssign (body : Body) (target value : Expr) : LinkM Unit := do
  let targetTy ← linkExpr body none .place target
  let valueTy ← linkExpr body targetTy.hint .read value
  expectType targetTy valueTy value.span
  settleLiteral value valueTy targetTy
  let _ ← consume value valueTy
  match ← placeOf target with
  | some p => reinit p
  | none => return

def linkReturn (body : Body) (span : Span) : Option Expr → LinkM Unit
  | none => do
    unless ← satisfies body.ret .void do report span (.missingResult (← showTy body.ret))
    note .returned
  | some value => do
    let ty ← linkExpr body body.ret.hint .read value
    unless ← satisfies body.ret ty do
      report value.span (.wrongResult (← showTy body.ret) (← showTy ty))
    settleLiteral value ty body.ret
    let _ ← consume value ty
    note .returned

def linkCond (body : Body) (cond : Expr) : LinkM Unit := do
  let ty ← linkExpr body (some .bool) .read cond
  unless ← satisfies .bool ty do report cond.span (.wrongCondition (← showTy ty))

/-- A condition on which it depends whether an arm runs. -/
def linkTest (body : Body) (cond : Expr) : LinkM Unit := do
  linkCond body cond
  mark .test

def linkCaseValue (body : Body) (scrutinee : Ty) (value : Expr) : LinkM Unit := do
  let ty ← linkExpr body scrutinee.hint .read value
  unless ← satisfies scrutinee ty do
    report value.span (.wrongCase (← showTy ty) (← showTy scrutinee))
  settleLiteral value ty scrutinee

/-- Link the values of all cases. A default case after the first is reported and passed over. The
result says whether there is a default case. -/
def linkCaseValues (body : Body) (scrutinee : Ty) (hasDefault : Bool) :
    List (SwitchCase Expr Block) → LinkM Bool
  | [] => return hasDefault
  | c :: cases => do
    if c.isDefault && hasDefault then
      report c.span .secondDefault
      linkCaseValues body scrutinee hasDefault cases
    else
      c.values.forM (linkCaseValue body scrutinee)
      linkCaseValues body scrutinee (hasDefault || c.isDefault) cases

/-! ## Statements and blocks -/

/-- Both arms of a static condition that cannot be evaluated. -/
def linkBoth (linkFirst : LinkM Unit) (linkOther : Branch → LinkM Branch) (exhaustive : Bool) : LinkM Unit := do
  mark .fork
  let branch ← beginBranch
  linkFirst
  let branch ← endArm branch
  let branch ← linkOther branch
  endBranch branch exhaustive

mutual
def linkStmt (body : Body) : Stmt → LinkM Unit
  | .missing id => throw (.missing id.ref)
  | .node id span shape => linkStmtShape body id span shape
def linkStmtShape (body : Body) (id : StmtId) (span : Span) : StmtShape Expr Block → LinkM Unit
  | .binding decl init => linkBinding body span decl init
  | .assign target value => linkAssign body target value
  | .expr e => do
    let ty ← linkExpr body none .read e
    let _ ← consume e ty
  | .ret value => linkReturn body span value
  | .ifChain arms otherwise => do
    mark .fork
    arms.forM fun arm => linkTest body arm.1
    let branch ← linkArms body (← beginBranch) arms
    let branch ← linkOtherwise body branch otherwise
    endBranch branch otherwise.isSome
  | .staticIf cond first otherwise => do
    linkCond body cond
    let value ← evaluate cond
    match value.map (·.bool?) with
    | some (some taken) =>
      modify fun s => { s with program.branches := s.program.branches.insert id taken }
      if taken then linkBlock body first else linkElse body otherwise
    | undecided =>
      match undecided, value with
      | some none, some found => report cond.span (.staticCondition found.text)
      | _, _ => pure ()
      linkBoth (linkBlock body first) (linkOtherwise body · otherwise) otherwise.isSome
  | .switch scrutinee cases => do
    let ty ← linkExpr body none .read scrutinee
    let hasDefault ← linkCaseValues body ty.concrete false cases
    mark .fork
    let branch ← linkCases body (← beginBranch) false cases
    endBranch branch hasDefault
  | .whileLoop cond inner => do
    mark .loop
    linkTest body cond
    let branch ← beginBranch
    linkBlock body inner
    let branch ← endArm branch
    endBranch branch false
  | .block inner => linkBlock body inner
def linkBlock (body : Body) : Block → LinkM Unit
  | .missing id => throw (.missing id.ref)
  | .node id _ stmts => withFrame {} do
    openLocals
    linkStmts body stmts
    let locals ← closeLocals
    scheduleDrops id locals
def linkStmts (body : Body) : List Stmt → LinkM Unit
  | [] => return
  | stmt :: stmts => do
    linkStmt body stmt
    linkStmts body stmts
def linkArms (body : Body) (branch : Branch) : List (Expr × Block) → LinkM Branch
  | [] => return branch
  | (_, arm) :: arms => do
    linkBlock body arm
    linkArms body (← endArm branch) arms
def linkOtherwise (body : Body) (branch : Branch) : Option Block → LinkM Branch
  | none => return branch
  | some arm => do
    linkBlock body arm
    endArm branch
/-- The block taken when a static condition is false. -/
def linkElse (body : Body) : Option Block → LinkM Unit
  | none => return
  | some arm => linkBlock body arm
/-- The bodies of cases, without those of default cases after the first. -/
def linkCases (body : Body) (branch : Branch) (hasDefault : Bool) :
    List (SwitchCase Expr Block) → LinkM Branch
  | [] => return branch
  | ⟨_, _, arm, isDefault⟩ :: cases => do
    if isDefault && hasDefault then linkCases body branch hasDefault cases
    else
      linkBlock body arm
      linkCases body (← endArm branch) (hasDefault || isDefault) cases
end

/-! ## Functions -/

/-- Run the action with nothing moved out and the parameters as the only locals. -/
def inBody {α : Type} (params : List DeclId) (act : LinkM α) : LinkM α := fun setup s =>
  let start := { s with moves := { policy := setup.options.branchMoves }, locals := [params] }
  let (result, after) := act setup start
  (result, { after with moves := s.moves, locals := s.locals })

/-- Do something where the body of a function is linked: inside its frames, with nothing moved out. -/
def inFunction {α : Type} (func : DeclId) (params : List DeclId) (act : Body → LinkM α) : LinkM α := do
  let host ← genericHost func
  let generics ← genericFrame func
  let names ← params.mapM fun param => return (← nameOf param, param)
  let visible : Frame := names.foldl (fun frame (name, param) => frame.insert name param) {}
  let ret := (((← signatures).functions.get? func).map (·.ret)).getD .void
  withFrame generics <| withFrame visible <| inBody params (act { host, ret })

/-- Link the body of a function. Its parameters are destroyed at the end of the body. -/
def linkFunction (func : DeclId) (params : List DeclId) (block : BlockId) : LinkM Unit :=
  inFunction func params fun body => do
    linkBlock body ((← read).trees.block block)
    scheduleDrops block params

def linkBody (func : DeclId) : LinkM Unit := do
  match (← declOf func).kind with
  | .function { params, body := some block, .. } => inNamespaces func (linkFunction func params block)
  | _ => throw (.noBody func)

def linkBodies : LinkM Unit := do
  (← get).bodies.forM linkBody

end Link

end Linkage
