import Linkage.Link.State

/-!
# Linking annotations

An annotation is linked to a type. Generic arguments that were left out are filled from defaults,
and closed arguments are held against the bounds of their parameters. What cannot be linked becomes
the unknown type, with a report.

Where the annotation says what a value is made of, naming a generic type is a use of it: the type is
instantiated, or subscribed to if its arguments depend on the surroundings. Bounds, defaults, alias
targets and lists of interfaces only mention types.
-/

namespace Linkage

inductive TypeUse where
  | use
  | mention
  deriving DecidableEq, Repr, Inhabited

namespace Link

/-- Add an argument for each of the parameters that have none yet: the default, closed over the
arguments before it, or the unknown type. -/
def fillTypeArgs (name : String) (span : Span) (generics : List GenericId) :
    List GenericId → List Ty → LinkM (List Ty)
  | [], args => return args
  | g :: rest, args => do
    match (← signatures).defaults.get? g with
    | some default =>
      let before ← sliceTo generics args.length
      fillTypeArgs name span generics rest (args ++ [default.subst before args])
    | none =>
      report span (.missingTypeArg (← genericOf g).name name)
      fillTypeArgs name span generics rest (args ++ [.unknown])

/-- Make the number of arguments fit the declaration. Those in excess are dropped. -/
def completeTypeArgs (decl : DeclId) (args : List Ty) (span : Span) : LinkM (List Ty) := do
  let generics := (← signatures).genericsOf decl
  let name ← nameOf decl
  if generics.length < args.length then
    report span (.annotationTypeArgs name generics.length args.length)
  let kept := args.take generics.length
  let rest ← sliceFrom generics kept.length
  fillTypeArgs name span generics rest kept

def boundViolation (span : Span) (g : GenericId) (arg bound : Ty) : LinkM Diagnostic := do
  let param := (← genericOf g).name
  return (Problem.boundViolated (← showTy arg) (← showTy bound) param).diagnostic span

def checkBound (generics : List GenericId) (args : List Ty) (span : Span) (g : GenericId) (arg : Ty) :
    LinkM Unit := do
  let seen ← signatures
  let reported ← (seen.violatedBound? generics args g arg).mapM (boundViolation span g arg)
  noteCheck { generics, args, param := g, arg, seen, reported }

def checkBounds (decl : DeclId) (args : List Ty) (span : Span) : LinkM Unit := do
  let generics := (← signatures).genericsOf decl
  (generics.zip args).forM fun (g, arg) => checkBound generics args span g arg

/-- The generic declaration that a type is an instance of, seen through aliases. -/
def instantiable? (env : TypeEnv) (ty : Ty) : Option (DeclId × List Ty) :=
  match env.expandWithin env.reach ty with
  | .linked _ [] => none
  | .linked decl args => some (decl, args)
  | _ => none

/-- Link a name that stands for a declared type, whose arguments are linked by `linkArgs`. -/
def linkDeclared (host : Option DeclId) (usage : TypeUse) (id : TypeExprId) (span : Span) (decl : DeclId)
    (linkArgs : LinkM (List Ty)) : LinkM Ty := do
  let args ← completeTypeArgs decl (← linkArgs) span
  checkBounds decl args span
  let ty := Ty.linked decl args
  if usage = .use then
    match instantiable? (← typeEnv) ty with
    | none => pure ()
    | some (target, args) =>
      recordUsage (.typeExpr id) target (← useGeneric host target args span)
  return ty

/-- The builtin type of the path, if it has one. Builtin names cannot be shadowed. -/
def builtin? : List String → Option Primitive
  | [name] => Primitive.ofName? name
  | _ => none

/-- Link a name. `isBare` says that it has no arguments. -/
def linkNamed (host : Option DeclId) (usage : TypeUse) (id : TypeExprId) (span : Span)
    (path : List String) (isBare : Bool) (linkArgs : LinkM (List Ty)) : LinkM Ty := do
  match builtin? path with
  | some p =>
    unless isBare do report span (.builtinApplied (pathText path))
    return .prim p
  | none =>
    match ← resolve? path with
    | none =>
      report span (.unresolvedType (pathText path))
      return .unknown
    | some decl =>
      match (← declOf decl).kind with
      | .genericParam g =>
        unless isBare do report span (.parameterApplied (pathText path))
        return .param g
      | .struct _ | .variant _ | .interface _ | .union _ | .typeAlias _ =>
        linkDeclared host usage id span decl linkArgs
      | .var _ | .parameter _ | .function _ | .space _ =>
        report span (.notType (pathText path))
        return .unknown

mutual
def linkType (host : Option DeclId) (usage : TypeUse) : TypeExpr → LinkM Ty
  | .missing id => throw (.missing id.ref)
  | .node id span (.named path args) =>
    linkNamed host usage id span path args.isEmpty (linkTypes host usage args)
  | .node _ _ (.pointer inner) => return .pointer (← linkType host usage inner)
  | .node _ _ (.reference inner) => return .reference (← linkType host usage inner)
  | .node _ _ (.array elem len) => return .array (← linkType host usage elem) len
  | .node _ _ (.function params ret) => do
    let params ← linkTypes host usage params
    let ret ← linkType host usage ret
    return .function params ret
def linkTypes (host : Option DeclId) (usage : TypeUse) : List TypeExpr → LinkM (List Ty)
  | [] => return []
  | t :: ts => do
    let t ← linkType host usage t
    let ts ← linkTypes host usage ts
    return t :: ts
end

def linkTypeAt (host : Option DeclId) (usage : TypeUse) (id : TypeExprId) : LinkM Ty := do
  linkType host usage ((← read).trees.typeExpr id)

end Link

end Linkage
