import Linkage.Link.Call

/-!
# Linking expressions

Linking an expression finds its type and records it. A hint is a closed type that the surroundings
want; it guides the inference of generic arguments and is not checked here.
-/

namespace Linkage

/-- A field is looked for behind one pointer or reference. -/
def TypeEnv.pointee (env : TypeEnv) (ty : Ty) : Ty :=
  match env.expand ty with
  | .pointer inner => env.expand inner
  | .reference inner => env.expand inner
  | ty => ty

namespace Link

def linkName (id : ExprId) (span : Span) (access : Access) (path : List String) : LinkM Ty := do
  match ← resolve? path with
  | none =>
    report span (.unresolvedName (pathText path))
    return .unknown
  | some decl =>
    recordResolved id decl
    match (← declOf decl).kind with
    | .var _ | .parameter _ =>
      checkRead id access (some { root := decl }) span
      return ((← signatures).declTypes.get? decl).getD .unknown
    | .function f =>
      match f.generics, (← signatures).functions.get? decl with
      | [], some sig => return sig.asTy
      | _, _ =>
        report span (.genericValue (pathText path))
        return .unknown
    | .space _ =>
      report span (.namespaceValue (pathText path))
      return .unknown
    | .struct _ | .variant _ | .interface _ | .union _ | .typeAlias _ | .genericParam _ =>
      report span (.typeValue (pathText path))
      return .unknown

/-- The type of a field of a value of type `base`. -/
def linkField (span : Span) (base : Ty) (field : String) : LinkM Ty := do
  let ty := (← typeEnv).pointee base
  match ty with
  | .unknown => return .unknown
  | .linked decl args =>
    let sigs ← signatures
    if sigs.fields.contains decl then
      match sigs.fieldType? decl args field with
      | some ty => return ty
      | none => report span (.unknownMember field (← showTy ty))
    else report span (.noMembers (← showTy ty) field)
  | _ => report span (.noMembers (← showTy ty) field)
  return .unknown

def referent? : Ty → Option Ty
  | .reference inner => some inner
  | _ => none

/-- Types that can be negated. A parameter may turn out to be numeric. -/
def isNumeric : Ty → Bool
  | .prim (.int _ _) | .prim (.float _) | .literal .int | .literal .float | .param _ | .unknown => true
  | _ => false

def checkNot (span : Span) (ty : Ty) : LinkM Ty := do
  unless ← satisfies .bool ty do report span (.unaryOperand "!" (← showTy ty))
  return .bool

def checkNeg (span : Span) (ty : Ty) : LinkM Ty := do
  unless isNumeric ((← typeEnv).expand ty) do report span (.unaryOperand "-" (← showTy ty))
  return ty

def checkLogical (op : BinaryOp) (operand : Expr) (ty : Ty) : LinkM Unit := do
  unless ← satisfies .bool ty do report operand.span (.logicalOperand op.symbol (← showTy ty))

/-- The hint that the first operand gives for the second. -/
def operandHint (ty : Ty) : Option Ty := if ty.isLiteral then none else ty.hint

/-- The type of an operation on two operands. One of them has to fit the other, and a literal takes
the type of the other operand. -/
def checkBinary (op : BinaryOp) (span : Span) (lhs rhs : Expr) (lhsTy rhsTy : Ty) : LinkM Ty := do
  let fits := (← satisfies lhsTy rhsTy) || (← satisfies rhsTy lhsTy)
  if !fits then
    report span (.binaryOperands op.symbol (← showTy lhsTy) (← showTy rhsTy))
    return if op.isComparison then .bool else .unknown
  match lhsTy.isLiteral, rhsTy.isLiteral with
  | true, false => settleLiteral lhs lhsTy rhsTy
  | false, true => settleLiteral rhs rhsTy lhsTy
  | _, _ => pure ()
  return if op.isComparison then .bool else if lhsTy.isLiteral then rhsTy else lhsTy

mutual
def linkExpr (body : Body) (hint : Option Ty) (access : Access) : Expr → LinkM Ty
  | .missing id => throw (.missing id.ref)
  | .node id span shape => do
    let ty ← linkShape body hint access id span shape
    recordLinked id ty
    return ty
def linkShape (body : Body) (hint : Option Ty) (access : Access) (id : ExprId) (span : Span) :
    ExprShape Expr TypeExpr → LinkM Ty
  | .intLit _ => return .literal .int
  | .floatLit _ => return .literal .float
  | .strLit _ => return .literal .str
  | .boolLit _ => return .bool
  | .name name => linkName id span access [name]
  | .path path => linkName id span access path
  | .call callee typeArgs args =>
    linkCall body hint id span callee typeArgs args (linkExpr body none .read callee)
      (fun hints => linkArgs body hints args)
  | .construct ty fields =>
    linkConstruct body hint id span ty (fields.map (·.1)) (linkValues body fields)
      (fun plan => linkFields body plan fields)
  | .member base field => do
    let ty ← linkExpr body none .place base
    checkRead id access ((← placeOf base).map (·.field field)) span
    linkField span ty field
  | .addressOf place => do
    let ty ← linkExpr body (hint.bind referent?) .read place
    return .reference ty.concrete
  | .unary .not operand => do checkNot span (← linkExpr body (some .bool) .read operand)
  | .unary .neg operand => do checkNeg span (← linkExpr body hint .read operand)
  | .binary op lhs rhs => do
    if op.isLogical then
      checkLogical op lhs (← linkExpr body (some .bool) .read lhs)
      checkLogical op rhs (← linkExpr body (some .bool) .read rhs)
      return .bool
    let lhsTy ← linkExpr body (if op.isComparison then none else hint) .read lhs
    let rhsTy ← linkExpr body (operandHint lhsTy) .read rhs
    checkBinary op span lhs rhs lhsTy rhsTy
/-- Link expressions from left to right, each with the hint at its position, if there is one. -/
def linkArgs (body : Body) (hints : List (Option Ty)) : List Expr → LinkM (List Ty)
  | [] => return []
  | e :: es => do
    let ty ← linkExpr body (hints.headD none) .read e
    let types ← linkArgs body hints.tail es
    return ty :: types
/-- Link the values of a literal that has no fields to compare them with. -/
def linkValues (body : Body) : List (String × Expr) → LinkM Unit
  | [] => return
  | (_, value) :: fields => do
    let _ ← linkExpr body none .read value
    linkValues body fields
/-- Link the values of a struct literal. A value for a field that the struct does not have is linked
and left out. -/
def linkFields (body : Body) (plan : FieldPlan) : List (String × Expr) → LinkM (List Argument)
  | [] => return []
  | (name, value) :: fields => do
    match plan.formal? name with
    | none =>
      report value.span (.unknownField name plan.struct)
      let _ ← linkExpr body none .read value
      linkFields body plan fields
    | some formal =>
      let ty ← linkExpr body (plan.hint formal) .read value
      let args ← linkFields body plan fields
      return { value, ty, formal } :: args
end

end Link

end Linkage
