import Linkage.Link.TypeExpr

/-!
# Passing values on

A value of an owned type that is passed on leaves the place that the expression names, if it names
one; reading a place that has been left is reported. A literal takes the type of what it is passed
to.

The arguments of a call are all read before any of them moves. Their moves are then made one after
the other, so that a place passed twice is found, and it is reported here unless the read has
reported it already.
-/

namespace Linkage

inductive Access where
  | read
  /-- The expression names a place that is written to or looked into. -/
  | place
  deriving DecidableEq, Repr, Inhabited

/-- What is fixed for the whole of a function body. -/
structure Body where
  /-- The generic declaration whose parameters the body may mention. -/
  host : Option DeclId
  ret : Ty
  deriving DecidableEq, Repr, Inhabited

/-- The place that an expression names: a binding, or a field below one. -/
def Expr.place? (src : Source) (resolved : Table ExprId DeclId) : Expr → Option Place
  | .node id _ (.name _) => binding id
  | .node id _ (.path _) => binding id
  | .node _ _ (.member base field) => (base.place? src resolved).map (·.field field)
  | _ => none
where
  binding (id : ExprId) : Option Place := do
    let decl ← resolved.get? id
    let d ← src.decl? decl
    if d.kind.isValueBinding then some { root := decl } else none

/-- The type as a hint to inference, which only closed types give. -/
def Ty.hint (ty : Ty) : Option Ty := if ty.isOpen then none else some ty

/-- A value passed to something that wants a type of it. -/
structure Argument where
  value : Expr
  ty : Ty
  formal : Ty

namespace Link

def placeOf (e : Expr) : LinkM (Option Place) := do
  return e.place? (← source) (← get).program.resolved

def showPlace (p : Place) : LinkM String := do
  return p.path.foldl (fun out field => out ++ "." ++ field) (← nameOf p.root)

def checkMoved (e : ExprId) (p : Place) (span : Span) : LinkM Unit := do
  let moves := (← get).moves
  note (.read e span p (moves.gone p))
  match moves.movedAt? p with
  | none => return
  | some moved => report span (.movedValue (← showPlace p) moved.text)

/-- Check the place that an expression names, if it is read and names one. -/
def checkRead (e : ExprId) (access : Access) (place : Option Place) (span : Span) : LinkM Unit := do
  match access, place with
  | .read, some p => checkMoved e p span
  | _, _ => return

/-- Pass on a value of the type. The place that is moved out by this is the result. -/
def consume (e : Expr) (ty : Ty) : LinkM (Option Place) := do
  if (← signatures).isOwned ty then
    match ← placeOf e with
    | none => return none
    | some p =>
      modify fun s => { s with moves := s.moves.move p e.span }
      note (.moved p e.span)
      return some p
  else return none

/-- A new value is in the place. -/
def reinit (p : Place) : LinkM Unit := do
  modify fun s => { s with moves := s.moves.reinit p }
  note (.written p)

def satisfies (expected actual : Ty) : LinkM Bool := return (← typeEnv).satisfies expected actual

/-- Report a type that does not fit where another is wanted. -/
def expectType (expected actual : Ty) (span : Span) : LinkM Unit := do
  unless ← satisfies expected actual do
    report span (.mismatch (← showTy expected) (← showTy actual))

/-- The scalar type that a literal takes when it is passed to something of the type. -/
def scalar? : Ty → Option Ty
  | .prim p => some (.prim p)
  | .reference (.prim p) => some (.prim p)
  | _ => none

def settleLiteral (e : Expr) (actual expected : Ty) : LinkM Unit := do
  if actual.isLiteral then
    match scalar? ((← typeEnv).expand expected) with
    | some ty => recordType e.id ty
    | none => return

def isReference : Ty → Bool
  | .reference _ => true
  | _ => false

/-- Report an argument if one before it was moved out of storage that it needs. `place` is the place it
names, if that could still be read when all arguments were, and `left` are the places that the arguments
before it were moved out of. -/
def checkLeft (a : Argument) (place : Option Place) (left : List Place) : LinkM Unit := do
  match place with
  | some p => if left.any (·.overlaps p) then checkMoved a.value.id p a.value.span
  | none => return

/-- Move an argument unless only a reference to it is wanted, and add its place to those that were left. -/
def moveArg (a : Argument) (left : List Place) : LinkM (List Place) := do
  if isReference a.formal then return left
  match ← consume a.value a.ty with
  | some p => return left ++ [p]
  | none => return left

def bindArg (a : Argument) (place : Option Place) (left : List Place) : LinkM (List Place) := do
  expectType a.formal a.ty a.value.span
  settleLiteral a.value a.ty a.formal
  checkLeft a place left
  moveArg a left

def bindArgs (args : List Argument) : LinkM Unit := do
  let src ← source
  let s ← get
  let place (a : Argument) := a.value.place? src s.program.resolved
  note (.passing (args.filterMap fun a => (place a).map fun p => ⟨a.value.id, p, s.moves.gone p⟩))
  let _ ← args.foldlM (fun left a => bindArg a ((place a).filter (!s.moves.gone ·)) left) []

def withActive {α : Type} (decl : DeclId) (index : IterationId) (act : LinkM α) : LinkM α := fun setup s =>
  let (guard, program) := s.program.activate decl index
  let (result, after) := act setup { s with program }
  (result, { after with program := after.program.release guard })

/-- Pass arguments to a copy of a generic declaration. An iteration is active while they are. -/
def bindToInstance (decl : DeclId) (copy : Instance) (args : List Argument) : LinkM Unit :=
  match copy with
  | .iteration index => withActive decl index (bindArgs args)
  | .plain | .dependent _ | .unresolved => bindArgs args

end Link

end Linkage
