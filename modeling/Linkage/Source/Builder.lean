import Linkage.Source.Basic

/-!
# Building source units

A source unit is built step by step. Each step appends nodes, or changes a declaration that is
already there; new nodes receive the span that was set last. The identifiers that a step is given are
stored as they are. Only a step that has to open an existing declaration looks at one, and fails if
the declaration is not there or is of another kind.
-/

namespace Linkage

/-- The kinds of declaration that a step may insist on. -/
inductive DeclSort where
  | function
  | struct
  | variant
  | interface
  | union
  | space
  deriving DecidableEq, Repr, Inhabited

def DeclSort.phrase : DeclSort → String
  | .function => "a function"
  | .struct => "a struct"
  | .variant => "a variant"
  | .interface => "an interface"
  | .union => "a union"
  | .space => "a namespace"

inductive BuildFault where
  | missing (decl : DeclId)
  | wrongSort (decl : DeclId) (wanted : DeclSort)
  | notGeneric (decl : DeclId)
  deriving DecidableEq, Repr, Inhabited

/-- What a fault is called. A declaration that does not exist is not described any further. -/
def BuildFault.message? : BuildFault → Option String
  | .missing _ => none
  | .wrongSort decl wanted => some (decl.text ++ " is not " ++ wanted.phrase)
  | .notGeneric decl => some (decl.text ++ " cannot have generic parameters")

/-- An arm of a switch as it is given to the builder. -/
structure ArmSpec where
  /-- No values make the arm the default one. -/
  values : Option (List ExprId)
  body : BlockId
  /-- A span to be set before the arm is made. It stays in effect. -/
  span : Option Span := none
  /-- Make it a default arm although it has values. -/
  asDefault : Bool := false
  deriving DecidableEq, Repr, Inhabited

inductive BuildStep where
  | setSpan (span : Span)
  | typeExpr (shape : TypeShape TypeExprId)
  | function (name : String)
  | variant (name : String)
  | interface (name : String)
  | union (name : String)
  | space (name : String)
  | typeAlias (name : String) (target : TypeExprId)
  | struct (name : String) (ownership : Ownership)
  | generic (owner : DeclId) (name : String) (bound default : Option TypeExprId)
  | param (func : DeclId) (name : String) (ty : TypeExprId) (implicit : Bool)
  | method (interface : DeclId) (name : String)
  | returns (func : DeclId) (ty : TypeExprId)
  | body (func : DeclId) (block : BlockId)
  | field (struct : DeclId) (name : String) (ty : TypeExprId)
  | implements (struct : DeclId) (interface : TypeExprId)
  | variantCase (variant : DeclId) (name : String) (payload : Option TypeExprId)
  | member (union : DeclId) (ty : TypeExprId)
  | nest (space item : DeclId)
  | expr (shape : ExprShape ExprId TypeExprId)
  /-- A call of a function by name: the name becomes an expression of its own. -/
  | callName (name : String) (typeArgs : List TypeExprId) (args : List ExprId)
  | binding (name : String) (ty : Option TypeExprId) (init : Option ExprId) (isMutable comptime : Bool)
  | assign (target value : ExprId)
  | exprStmt (e : ExprId)
  | ret (value : Option ExprId)
  | ifChain (arms : List (ExprId × BlockId)) (otherwise : Option BlockId)
  | staticIf (cond : ExprId) (body : BlockId) (otherwise : Option BlockId)
  | switch (scrutinee : ExprId) (arms : List ArmSpec)
  | whileLoop (cond : ExprId) (body : BlockId)
  | blockStmt (body : BlockId)
  | block (stmts : List StmtId)
  deriving DecidableEq, Repr, Inhabited

inductive BuildResult where
  | nothing
  | typeExpr (id : TypeExprId)
  | decl (id : DeclId)
  | generic (id : GenericId)
  | expr (id : ExprId)
  | stmt (id : StmtId)
  | block (id : BlockId)
  | binding (stmt : StmtId) (decl : DeclId)
  deriving DecidableEq, Repr, Inhabited

/-- A unit under construction and the span for the nodes to come. -/
structure Builder where
  source : Source := {}
  span : Span := {}
  deriving DecidableEq, Repr, Inhabited

namespace Builder

def nextDecl (b : Builder) : DeclId := NodeId.next b.source.decls

def addDecl (b : Builder) (name : String) (parent : Option DeclId) (kind : DeclKind) : Builder :=
  { b with source.decls := b.source.decls ++ [{ name, span := b.span, parent, kind }] }

/-- Append a declaration and list it among the top-level items. -/
def addItem (b : Builder) (name : String) (kind : DeclKind) : BuildResult × Builder :=
  let added := b.addDecl name none kind
  (.decl b.nextDecl, { added with source.items := added.source.items ++ [b.nextDecl] })

def addTypeExpr (b : Builder) (shape : TypeShape TypeExprId) : BuildResult × Builder :=
  (.typeExpr (NodeId.next b.source.typeExprs),
    { b with source.typeExprs := b.source.typeExprs ++ [{ span := b.span, shape }] })

def addExpr (b : Builder) (shape : ExprShape ExprId TypeExprId) : ExprId × Builder :=
  (NodeId.next b.source.exprs, { b with source.exprs := b.source.exprs ++ [{ span := b.span, shape }] })

def addStmt (b : Builder) (shape : StmtShape ExprId BlockId) : StmtId × Builder :=
  (NodeId.next b.source.stmts, { b with source.stmts := b.source.stmts ++ [{ span := b.span, shape }] })

def addPlainStmt (b : Builder) (shape : StmtShape ExprId BlockId) : BuildResult × Builder :=
  let (id, b) := b.addStmt shape
  (.stmt id, b)

def addBlock (b : Builder) (stmts : List StmtId) : BuildResult × Builder :=
  (.block (NodeId.next b.source.blocks),
    { b with source.blocks := b.source.blocks ++ [{ span := b.span, stmts }] })

/-- Put another declaration in the place of an existing one. -/
def setDecl (b : Builder) (id : DeclId) (d : Decl) : Builder :=
  { b with source.decls := b.source.decls.set id.index d }

def openDecl (b : Builder) (id : DeclId) : Except BuildFault Decl :=
  match b.source.decl? id with
  | some d => .ok d
  | none => .error (.missing id)

/-- Change the kind of an existing declaration, or fail where the change does not apply to it. -/
def editKind (b : Builder) (id : DeclId) (fault : BuildFault) (edit : DeclKind → Option DeclKind) :
    Except BuildFault Builder := do
  let d ← b.openDecl id
  match edit d.kind with
  | some kind => .ok (b.setDecl id { d with kind })
  | none => .error fault

def editFunction (b : Builder) (id : DeclId) (edit : FunctionDecl → FunctionDecl) :
    Except BuildFault Builder :=
  b.editKind id (.wrongSort id .function) fun
    | .function f => some (.function (edit f))
    | _ => none

def editStruct (b : Builder) (id : DeclId) (edit : StructDecl → StructDecl) :
    Except BuildFault Builder :=
  b.editKind id (.wrongSort id .struct) fun
    | .struct s => some (.struct (edit s))
    | _ => none

def editVariant (b : Builder) (id : DeclId) (edit : VariantDecl → VariantDecl) :
    Except BuildFault Builder :=
  b.editKind id (.wrongSort id .variant) fun
    | .variant v => some (.variant (edit v))
    | _ => none

def editInterface (b : Builder) (id : DeclId) (edit : InterfaceDecl → InterfaceDecl) :
    Except BuildFault Builder :=
  b.editKind id (.wrongSort id .interface) fun
    | .interface i => some (.interface (edit i))
    | _ => none

def editUnion (b : Builder) (id : DeclId) (edit : UnionDecl → UnionDecl) :
    Except BuildFault Builder :=
  b.editKind id (.wrongSort id .union) fun
    | .union u => some (.union (edit u))
    | _ => none

def editSpace (b : Builder) (id : DeclId) (edit : List DeclId → List DeclId) :
    Except BuildFault Builder :=
  b.editKind id (.wrongSort id .space) fun
    | .space members => some (.space (edit members))
    | _ => none

/-- Add a generic parameter. The declaration of its name is made before the owner is opened, and its
index is the number of parameters that the owner had. -/
def addGeneric (b : Builder) (owner : DeclId) (name : String) (bound default : Option TypeExprId) :
    Except BuildFault (BuildResult × Builder) := do
  let id : GenericId := NodeId.next b.source.generics
  let decl := b.nextDecl
  let b := b.addDecl name (some owner) (.genericParam id)
  let index := (← b.openDecl owner).generics.length
  let b ← b.editKind owner (.notGeneric owner) (DeclKind.addGeneric? id)
  let param : GenericParam := { name, span := b.span, bound, default, index, owner, decl }
  .ok (.generic id, { b with source.generics := b.source.generics ++ [param] })

def nest (b : Builder) (space item : DeclId) : Except BuildFault Builder := do
  let b := { b with source.items := b.source.items.filter (· ≠ item) }
  let d ← b.openDecl item
  let b := b.setDecl item { d with parent := some space }
  b.editSpace space (· ++ [item])

/-- Make the arms of a switch in order, setting the spans that they bring along. -/
def makeArms (b : Builder) : List ArmSpec → List (SwitchCase ExprId BlockId) × Builder
  | [] => ([], b)
  | arm :: arms =>
    let b := { b with span := arm.span.getD b.span }
    let case : SwitchCase ExprId BlockId :=
      { span := b.span, values := arm.values.getD [], body := arm.body
        isDefault := arm.values.isNone || arm.asDefault }
    let (cases, b) := b.makeArms arms
    (case :: cases, b)

def silent (b : Builder) : BuildResult × Builder := (.nothing, b)

def step (b : Builder) : BuildStep → Except BuildFault (BuildResult × Builder)
  | .setSpan span => .ok ({ b with span }).silent
  | .typeExpr shape => .ok (b.addTypeExpr shape)
  | .function name => .ok (b.addItem name (.function {}))
  | .variant name => .ok (b.addItem name (.variant {}))
  | .interface name => .ok (b.addItem name (.interface {}))
  | .union name => .ok (b.addItem name (.union {}))
  | .space name => .ok (b.addItem name (.space []))
  | .typeAlias name target => .ok (b.addItem name (.typeAlias { target }))
  | .struct name ownership => .ok (b.addItem name (.struct { ownership }))
  | .generic owner name bound default => b.addGeneric owner name bound default
  | .param func name ty implicit => do
    let id := b.nextDecl
    let b := b.addDecl name (some func) (.parameter { ty, implicit })
    let b ← b.editFunction func fun f => { f with params := f.params ++ [id] }
    .ok (.decl id, b)
  | .method interface name => do
    let id := b.nextDecl
    let b := b.addDecl name (some interface) (.function {})
    let b ← b.editInterface interface fun i => { i with methods := i.methods ++ [id] }
    .ok (.decl id, b)
  | .returns func ty => silent <$> b.editFunction func fun f => { f with ret := some ty }
  | .body func block => silent <$> b.editFunction func fun f => { f with body := some block }
  | .field struct name ty =>
    silent <$> b.editStruct struct fun s => { s with fields := s.fields ++ [{ name, span := b.span, ty }] }
  | .implements struct interface =>
    silent <$> b.editStruct struct fun s => { s with implements := s.implements ++ [interface] }
  | .variantCase variant name payload =>
    silent <$> b.editVariant variant fun v => { v with cases := v.cases ++ [{ name, span := b.span, payload }] }
  | .member union ty => silent <$> b.editUnion union fun u => { u with members := u.members ++ [ty] }
  | .nest space item => silent <$> b.nest space item
  | .expr shape =>
    let (id, b) := b.addExpr shape
    .ok (.expr id, b)
  | .callName name typeArgs args =>
    let (callee, b) := b.addExpr (.name name)
    let (id, b) := b.addExpr (.call callee typeArgs args)
    .ok (.expr id, b)
  | .binding name ty init isMutable comptime =>
    let decl := b.nextDecl
    let b := b.addDecl name none (.var { ty, isMutable, comptime })
    let (stmt, b) := b.addStmt (.binding decl init)
    .ok (.binding stmt decl, b)
  | .assign target value => .ok (b.addPlainStmt (.assign target value))
  | .exprStmt e => .ok (b.addPlainStmt (.expr e))
  | .ret value => .ok (b.addPlainStmt (.ret value))
  | .ifChain arms otherwise => .ok (b.addPlainStmt (.ifChain arms otherwise))
  | .staticIf cond body otherwise => .ok (b.addPlainStmt (.staticIf cond body otherwise))
  | .switch scrutinee arms =>
    let (cases, b) := b.makeArms arms
    .ok (b.addPlainStmt (.switch scrutinee cases))
  | .whileLoop cond body => .ok (b.addPlainStmt (.whileLoop cond body))
  | .blockStmt body => .ok (b.addPlainStmt (.block body))
  | .block stmts => .ok (b.addBlock stmts)

/-- Carry out steps in order. A fault comes with the number of steps done before it. -/
def run (b : Builder) : List BuildStep → Except (Nat × BuildFault) (List BuildResult × Builder)
  | [] => .ok ([], b)
  | s :: steps =>
    match b.step s with
    | .error fault => .error (0, fault)
    | .ok (result, b) =>
      match b.run steps with
      | .error (done, fault) => .error (done + 1, fault)
      | .ok (results, b) => .ok (result :: results, b)

end Builder

end Linkage
