import Linkage.Constant.Fold
import Linkage.History
import Linkage.Link.Fault
import Linkage.Link.Problem
import Linkage.Program.Query
import Linkage.Registry.Propagation
import Linkage.Scope

/-!
# The state of linking

Linking reads a source unit and its options and works on a program that it completes step by step. A
fault ends linking but not the state: what was reported before it stays reported. Frames are opened
around an action and closed when the action is over, however it ends.
-/

namespace Linkage

/-- How an expression is evaluated while linking. -/
abbrev Evaluator := FoldEnv → Expr → Folded

namespace Evaluator

def folding : Evaluator := fun env e => e.fold env

def silent : Evaluator := fun _ _ => .ok none

end Evaluator

structure Setup where
  source : Source
  options : Options := {}
  evaluate : Evaluator := Evaluator.folding

/-- A generic argument that was held against the bound of its parameter. -/
structure BoundCheck where
  generics : List GenericId
  args : List Ty
  param : GenericId
  arg : Ty
  seen : Signatures
  /-- What was reported, if the argument violates the bound. -/
  reported : Option Diagnostic
  deriving Inhabited

structure LinkState where
  program : Program := {}
  /-- The declarations for which a refused iteration was reported. -/
  refused : List DeclId := []
  reports : List Diagnostic := []
  /-- The bounds that were checked with reports on, in order. -/
  checks : List BoundCheck := []
  /-- The expressions that were linked, each as often as it was, the last one in front. -/
  linked : List ExprId := []
  scopes : ScopeStack := {}
  spaces : Namespaces := {}
  /-- Duplicate functions, which are not linked. -/
  ignored : List DeclId := []
  /-- The functions whose bodies are to be linked, in source order. -/
  bodies : List DeclId := []
  /-- Nothing is reported while set. -/
  quiet : Bool := false
  moves : MoveTracker := {}
  /-- What the bodies linked so far do to places. -/
  history : List Entry := []
  /-- The locals of the open blocks, those of the innermost block in front. -/
  locals : List (List DeclId) := []
  deriving Inhabited

namespace LinkState

def signatures (s : LinkState) : Signatures := s.program.signatures

def env (s : LinkState) : TypeEnv := s.signatures.env

def instances (s : LinkState) : Instances :=
  { registry := s.program.registry, refused := s.refused, reports := s.reports }

def withInstances (s : LinkState) (x : Instances) : LinkState :=
  { s with program.registry := x.registry, refused := x.refused, reports := x.reports }

/-- What names and constants mean to the evaluator at this point. -/
def foldEnv (s : LinkState) : FoldEnv :=
  { resolved := s.program.resolved, constants := s.program.constants }

end LinkState

/-- What linking reads: what it is given, with the trees of the source unit. -/
structure LinkEnv extends Setup where
  trees : Trees

def Setup.linkEnv (setup : Setup) : LinkEnv := { setup with trees := setup.source.trees }

abbrev LinkM := ReaderT LinkEnv (ExceptT Fault (StateM LinkState))

namespace Link

def source : LinkM Source := return (← read).source

/-! ## Looking at nodes -/

def ofLookup {α : Type} : Except NodeRef α → LinkM α
  | .ok a => return a
  | .error node => throw (.missing node)

def ofOption {α : Type} {kind : NodeKind} (id : NodeId kind) : Option α → LinkM α
  | some a => return a
  | none => throw (.missing id.ref)

def sliceTo {α : Type} (l : List α) (n : Nat) : LinkM (List α) :=
  if n ≤ l.length then return l.take n else throw (.outOfRange n l.length)

def sliceFrom {α : Type} (l : List α) (n : Nat) : LinkM (List α) :=
  if n ≤ l.length then return l.drop n else throw (.outOfRange n l.length)

def declOf (id : DeclId) : LinkM Decl := do ofOption id ((← source).decl? id)

def genericOf (id : GenericId) : LinkM GenericParam := do ofOption id ((← source).generic? id)

def nameOf (id : DeclId) : LinkM String := return (← declOf id).name

def showTy (ty : Ty) : LinkM String := do ofLookup ((← source).showTy ty)

def signatures : LinkM Signatures := return (← get).signatures

def typeEnv : LinkM TypeEnv := return (← get).env

/-! ## Reports -/

def report (span : Span) (p : Problem) : LinkM Unit :=
  modify fun s => if s.quiet then s else { s with reports := s.reports ++ [p.diagnostic span] }

/-- Note that a bound was checked, and report it if it is violated. -/
def noteCheck (c : BoundCheck) : LinkM Unit :=
  modify fun s =>
    if s.quiet then s else { s with checks := s.checks ++ [c], reports := s.reports ++ c.reported.toList }

def quietly {α : Type} (act : LinkM α) : LinkM α := fun setup s =>
  let (result, after) := act setup { s with quiet := true }
  (result, { after with quiet := s.quiet })

/-! ## The record of places -/

def note (e : Event) : LinkM Unit := modify fun s => { s with history := s.history ++ [.event e] }

def mark (m : Mark) : LinkM Unit := modify fun s => { s with history := s.history ++ [.mark m] }

/-! ## Frames -/

def withFrame {α : Type} (frame : Frame) (act : LinkM α) : LinkM α := fun setup s =>
  let (result, after) := act setup { s with scopes := s.scopes.push frame }
  (result, { after with scopes := after.scopes.pop })

/-- Run the action with several frames open, the first of them outermost. -/
def withFrames {α : Type} : List Frame → LinkM α → LinkM α
  | [], act => act
  | frame :: frames, act => withFrame frame (withFrames frames act)

def declareLocal (name : String) (decl : DeclId) : LinkM Unit :=
  modify fun s => { s with scopes := s.scopes.declare name decl }

/-- Bind a name at the top level or among the members of a namespace. -/
def declareIn (space : Option DeclId) (name : String) (decl : DeclId) : LinkM Unit :=
  match space with
  | none => declareLocal name decl
  | some space => modify fun s => { s with spaces := s.spaces.declare space name decl }

/-- The namespaces around a declaration, innermost first. -/
def spacesAround (decl : DeclId) : LinkM (List DeclId) := do
  let _ ← declOf decl
  let around ← ((← source).ancestors decl).mapM fun d => do
    return if (← declOf d).kind.isSpace then [d] else []
  return around.flatten

/-- Run the action with the members of every namespace around the declaration visible. -/
def inNamespaces {α : Type} (decl : DeclId) (act : LinkM α) : LinkM α := do
  let around ← spacesAround decl
  let spaces := (← get).spaces
  withFrames (around.reverse.map fun space => (spaces.frame? space).getD {}) act

/-- The interface that a method belongs to. -/
def interfaceOf (d : Decl) : LinkM (Option DeclId) := do
  match d.parent with
  | none => return none
  | some parent => return if (← declOf parent).kind.isInterface then some parent else none

/-- The generic declaration whose parameters are visible inside a declaration: itself, or the
interface that a method belongs to. -/
def genericHost (decl : DeclId) : LinkM (Option DeclId) := do
  let d ← declOf decl
  if d.isGeneric then return some decl
  match ← interfaceOf d with
  | none => return none
  | some interface => return if (← declOf interface).isGeneric then some interface else none

/-- The names of the generic parameters visible inside a declaration. Its own stand before those of
the interface it belongs to. -/
def genericFrame (decl : DeclId) : LinkM Frame := do
  let d ← declOf decl
  let outer ← match ← interfaceOf d with
    | none => pure []
    | some interface => pure (← declOf interface).generics
  let params ← (outer ++ d.generics).mapM genericOf
  return params.foldl (fun frame g => frame.insert g.name g.decl) {}

/-! ## Resolution -/

end Link

/-- Follow the segments of a path down from a declaration. Every segment names a member of a
namespace. -/
def Namespaces.descend (spaces : Namespaces) (src : Source) (decl : DeclId) :
    List String → Except NodeRef (Option DeclId)
  | [] => .ok (some decl)
  | segment :: rest =>
    match src.decl? decl with
    | none => .error decl.ref
    | some d =>
      if d.kind.isSpace then
        match spaces.find? decl segment with
        | some member => spaces.descend src member rest
        | none => .ok none
      else .ok none

/-- What a path means: its first segment is looked up from the innermost frame outward. -/
def LinkState.resolve? (s : LinkState) (src : Source) : List String → Except NodeRef (Option DeclId)
  | [] => .ok none
  | first :: rest =>
    match s.scopes.find? first with
    | none => .ok none
    | some decl => s.spaces.descend src decl rest

namespace Link

def resolve? (path : List String) : LinkM (Option DeclId) := do
  ofLookup ((← get).resolve? (← source) path)

def pathText (path : List String) : String := "::".intercalate path

/-! ## Generic uses -/

def onInstances {α : Type} (f : TypeEnv → Limits → Instances → α × Instances) : LinkM α := do
  let limits := (← read).options.limits
  modifyGet fun s =>
    let (a, x) := f s.env limits s.instances
    (a, s.withInstances x)

/-- Select the copy of a generic declaration for the arguments: an iteration if they are closed, and
a subscription to the host if they mention its parameters. -/
def useGeneric (host : Option DeclId) (decl : DeclId) (args : List Ty) (span : Span) : LinkM Instance := do
  if args.any (·.hasUnknown) then return .unresolved
  if args.any (·.isOpen) then
    match host with
    | none => return .unresolved
    | some host =>
      let hostParams := (← declOf host).generics
      let s : Subscription := { host, hostParams, target := decl, template := args, span }
      return .dependent (← onInstances fun env limits x => x.subscribe env limits s)
  match ← onInstances fun env limits x => x.instantiate env limits decl args span with
  | some index => return .iteration index
  | none => return .unresolved

/-! ## Recording -/

def onSignatures (f : Signatures → Signatures) : LinkM Unit :=
  modify fun s => { s with program.signatures := f s.program.signatures }

def recordResolved (e : ExprId) (decl : DeclId) : LinkM Unit :=
  modify fun s => { s with program.resolved := s.program.resolved.insert e decl }

def recordType (e : ExprId) (ty : Ty) : LinkM Unit :=
  modify fun s => { s with program.exprTypes := s.program.exprTypes.insert e ty }

def recordLinked (e : ExprId) (ty : Ty) : LinkM Unit := do
  recordType e ty
  modify fun s => { s with linked := e :: s.linked }

def recordUsage (site : UsageSite) (decl : DeclId) (copy : Instance) : LinkM Unit :=
  modify fun s => { s with program.usages := s.program.usages.insert site { decl, copy } }

def recordDeclType (decl : DeclId) (ty : Ty) : LinkM Unit :=
  onSignatures fun sigs => { sigs with declTypes := sigs.declTypes.insert decl ty }

end Link

end Linkage
