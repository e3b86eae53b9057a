import Linkage.Link.Value

/-!
# Calls and struct literals

Both name a declaration, may give it generic arguments, and pass values to it. How the parts are
linked is a parameter here: the definitions say in which order that happens, with which hints, and
what is made of the outcome.
-/

namespace Linkage

namespace Link

/-- Drop written generic arguments in excess, with a report. -/
def limitTypeArgs (decl : DeclId) (written : List Ty) (taken : Nat) (span : Span) : LinkM (List Ty) := do
  if taken < written.length then
    report span (.callTypeArgs (← nameOf decl) taken written.length)
  return written.take taken

/-- Report what could not be inferred, and hold the rest against the bounds. -/
def finishInference (decl : DeclId) (inferred : Inferred) (span : Span) : LinkM Unit := do
  let name ← nameOf decl
  inferred.unresolved.forM fun g => do report span (.notInferred (← genericOf g).name name)
  checkBounds decl inferred.args span

/-- Use a generic declaration in an expression: infer its arguments, select the copy for them and
pass the values to it. The result is the list of generic arguments. -/
def useInExpr (body : Body) (id : ExprId) (span : Span) (decl : DeclId) (sig : GenericSignature)
    (written : List Ty) (expected : Option Ty) (args : List Argument) : LinkM (List Ty) := do
  let site : CallSite := { argTypes := args.map (·.ty), expected := expected.bind Ty.hint }
  let inferred := sig.infer (← typeEnv) written site
  finishInference decl inferred span
  let copy ← useGeneric body.host decl inferred.args span
  recordUsage (.expr id) decl copy
  bindToInstance decl copy
    (args.map fun a => { a with formal := a.formal.subst sig.params inferred.args })
  return inferred.args

/-- Values, their types and the types wanted of them, as far as all three go. -/
def arguments (values : List Expr) (types formals : List Ty) : List Argument :=
  (values.zip (types.zip formals)).map fun (value, ty, formal) => { value, ty, formal }

/-! ## Calls -/

/-- The function that a callee names. A duplicate is not called by name. -/
def calledFunction? (callee : Expr) : LinkM (Option DeclId) := do
  let target ← match callee with
    | .node _ _ (.name name) => resolve? [name]
    | .node _ _ (.path path) => resolve? path
    | _ => pure none
  match target with
  | none => return none
  | some decl =>
    let callable := (← declOf decl).kind.isFunction && !(← get).ignored.contains decl
    return if callable then some decl else none

/-- A call of a function by name. `linkArgs` links the arguments with hints. -/
def linkDirectCall (body : Body) (expected : Option Ty) (id : ExprId) (span : Span) (func : DeclId)
    (typeArgs : List TypeExpr) (args : List Expr) (linkArgs : List (Option Ty) → LinkM (List Ty)) :
    LinkM Ty := do
  match (← signatures).functions.get? func with
  | none => return .unknown
  | some sig =>
    let formals := sig.explicitTypes
    if formals.length ≠ args.length then
      report span (.argumentCount (← nameOf func) formals.length args.length)
      let _ ← linkArgs []
      return .unknown
    let types ← linkArgs (formals.map Ty.hint)
    let written ← linkTypes body.host .use typeArgs
    let generics := (← signatures).genericsOf func
    let passed := arguments args types formals
    if generics.isEmpty then
      unless written.isEmpty do report span (.notGeneric (← nameOf func))
      recordUsage (.expr id) func .plain
      bindArgs passed
      return sig.ret
    let written ← limitTypeArgs func written generics.length span
    match (← signatures).callSignature? func with
    | none => return .unknown
    | some generic =>
      let inferred ← useInExpr body id span func generic written expected passed
      return sig.ret.subst generics inferred

def linkIndirectCall (span : Span) (args : List Expr) (linkCallee : LinkM Ty)
    (linkArgs : List (Option Ty) → LinkM (List Ty)) : LinkM Ty := do
  let callee ← linkCallee
  match (← typeEnv).expand callee with
  | .function formals ret =>
    if formals.length = args.length then
      let types ← linkArgs (formals.map Ty.hint)
      bindArgs (arguments args types formals)
      return ret
    report span (.valueArgumentCount (← showTy callee) formals.length args.length)
  | .unknown => pure ()
  | _ => report span (.notCallable (← showTy callee))
  let _ ← linkArgs []
  return .unknown

def linkCall (body : Body) (expected : Option Ty) (id : ExprId) (span : Span) (callee : Expr)
    (typeArgs : List TypeExpr) (args : List Expr) (linkCallee : LinkM Ty)
    (linkArgs : List (Option Ty) → LinkM (List Ty)) : LinkM Ty := do
  match ← calledFunction? callee with
  | none => linkIndirectCall span args linkCallee linkArgs
  | some func =>
    recordResolved callee.id func
    linkDirectCall body expected id span func typeArgs args linkArgs

/-! ## Struct literals -/

/-- How the fields of a struct literal are linked: the name of the struct as written, the declared
type of a field, and the hint that goes with it. -/
structure FieldPlan where
  struct : String
  formal? : String → Option Ty
  hint : Ty → Option Ty

/-- Fields of something that is no struct: their values are linked and nothing else. -/
def linkNoStruct (span : Span) (p : Problem) (linkValues : LinkM Unit) : LinkM Ty := do
  report span p
  linkValues
  return .unknown

def linkStructLiteral (body : Body) (expected : Option Ty) (id : ExprId) (span : Span) (struct : DeclId)
    (shown : String) (declared : List (String × Ty)) (typeArgs : List TypeExpr) (supplied : List String)
    (linkFields : FieldPlan → LinkM (List Argument)) : LinkM Ty := do
  let generics := (← signatures).genericsOf struct
  let written ← linkTypes body.host .use typeArgs
  let written ← limitTypeArgs struct written generics.length span
  let isComplete := written.length == generics.length
  let args ← linkFields
    { struct := shown
      formal? := fun field => declared.lookup field
      hint := fun formal => if isComplete then (formal.subst generics written).hint else none }
  declared.forM fun (field, _) =>
    unless supplied.contains field do report span (.missingField field shown)
  if generics.isEmpty then
    recordUsage (.expr id) struct .plain
    bindArgs args
    return .linked struct []
  let sig := (← signatures).constructSignature struct (args.map (·.formal))
  return .linked struct (← useInExpr body id span struct sig written expected args)

/-- A struct literal. `linkValues` links the values without regard to fields. -/
def linkConstruct (body : Body) (expected : Option Ty) (id : ExprId) (span : Span) (ty : TypeExpr)
    (supplied : List String) (linkValues : LinkM Unit) (linkFields : FieldPlan → LinkM (List Argument)) :
    LinkM Ty := do
  match ty with
  | .missing id => throw (.missing id.ref)
  | .node _ _ (.named path typeArgs) =>
    match ← resolve? path with
    | none => linkNoStruct span (.unresolvedType (pathText path)) linkValues
    | some struct =>
      match (← signatures).fields.get? struct with
      | none => linkNoStruct span (.notStruct (pathText path)) linkValues
      | some declared =>
        recordResolved id struct
        linkStructLiteral body expected id span struct (pathText path) declared typeArgs supplied linkFields
  | .node _ _ _ => linkNoStruct span .literalOfNoName linkValues

end Link

end Linkage
