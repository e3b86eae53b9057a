import Linkage.Link.TypeExpr

/-!
# Declarations and their signatures

All names are bound before any annotation is linked, so that signatures may refer to each other in
any order. Then come, for all declarations one after the other, the generic parameters, the targets
of aliases, what the type relations need to know of unions and structs, and last the signatures of
functions, structs and variants.

Two functions of one name and frame are overloads unless their parameter types agree. Of two that
agree the second is a duplicate: it is reported and ignored, and the name stays with the first. This
is settled before the signatures are linked.
-/

namespace Linkage

/-- A function bound to a name that another function of the same frame had. -/
structure Redeclaration where
  space : Option DeclId
  first : DeclId
  second : DeclId
  deriving DecidableEq, Repr, Inhabited

/-- The declarations of the source unit that have signatures, in source order: items, members of
namespaces and methods of interfaces. -/
def Source.ownersOf (src : Source) (decl : DeclId) : List DeclId :=
  match src.decl? decl with
  | some { kind := .interface i, .. } => decl :: i.methods
  | _ => [decl]

mutual
def Item.owners (src : Source) : Item → List DeclId
  | .decl id => src.ownersOf id
  | .space _ members => Item.ownersAll src members
def Item.ownersAll (src : Source) : List Item → List DeclId
  | [] => []
  | item :: items => item.owners src ++ Item.ownersAll src items
end

namespace Link

/-! ## Names -/

def declareName (space : Option DeclId) (id : DeclId) : LinkM (List Redeclaration) := do
  let d ← declOf id
  let s ← get
  let previous := match space with
    | none => s.scopes.findInnermost? d.name
    | some space => s.spaces.find? space d.name
  declareIn space d.name id
  match previous with
  | none => return []
  | some first =>
    let overloads := (← declOf first).kind.isFunction && d.kind.isFunction
    return if overloads then [{ space, first, second := id }] else []

mutual
def declareItem (space : Option DeclId) : Item → LinkM (List Redeclaration)
  | .decl id => declareName space id
  | .space id members => do
    let found ← declareName space id
    let more ← declareItems (some id) members
    return found ++ more
def declareItems (space : Option DeclId) : List Item → LinkM (List Redeclaration)
  | [] => return []
  | item :: items => do
    let found ← declareItem space item
    let more ← declareItems space items
    return found ++ more
end

/-! ## Generic parameters, aliases and declared types -/

/-- Run the action with the generic parameters of the declaration visible. The action is given the
declaration whose parameters they are. -/
def inGenerics {α : Type} (decl : DeclId) (act : Option DeclId → LinkM α) : LinkM α := do
  let host ← genericHost decl
  let frame ← genericFrame decl
  withFrame frame (act host)

def recordGenerics (decl : DeclId) : LinkM Unit := do
  let generics := (← declOf decl).generics
  unless generics.isEmpty do
    generics.forM fun g => do
      let index := (← genericOf g).index
      onSignatures fun sigs => { sigs with params := sigs.params.insert g { owner := decl, index } }
    onSignatures fun sigs => { sigs with generics := sigs.generics.insert decl generics }

def linkGenericParam (host : Option DeclId) (g : GenericId) : LinkM Unit := do
  let param ← genericOf g
  match param.bound with
  | none => pure ()
  | some bound =>
    let ty ← linkTypeAt host .mention bound
    onSignatures fun sigs => { sigs with bounds := sigs.bounds.insert g ty }
  match param.default with
  | none => pure ()
  | some default =>
    let ty ← linkTypeAt host .mention default
    onSignatures fun sigs => { sigs with defaults := sigs.defaults.insert g ty }

def linkGenericParams (decl : DeclId) : LinkM Unit := do
  let generics := (← declOf decl).generics
  unless generics.isEmpty do
    inGenerics decl fun host => generics.forM (linkGenericParam host)

def linkAlias (decl : DeclId) : LinkM Unit := do
  match (← declOf decl).kind with
  | .typeAlias a =>
    inGenerics decl fun host => do
      let target ← linkTypeAt host .mention a.target
      onSignatures fun sigs => { sigs with aliasTargets := sigs.aliasTargets.insert decl target }
  | _ => return

/-- The interface that an annotation in a list of interfaces names. -/
def linkInterface (host : Option DeclId) (id : TypeExprId) : LinkM (List DeclId) := do
  let ty ← linkTypeAt host .mention id
  let isInterface ← match ty with
    | .linked target _ => pure (← declOf target).kind.isInterface
    | _ => pure false
  match ty, isInterface with
  | .linked target _, true => return [target]
  | .unknown, _ => return []
  | _, _ =>
    let node ← ofOption id ((← source).typeExpr? id)
    report node.span (.notInterface (← showTy ty))
    return []

/-- The function in scope that a struct names as its destructor. -/
def resolveDestructor (struct : DeclId) (name : String) : LinkM (Option DeclId) := do
  let isFunction ← match (← get).scopes.find? name with
    | some found => pure <| if (← declOf found).kind.isFunction then some found else none
    | none => pure none
  if isFunction.isNone then
    let d ← declOf struct
    report d.span (.noDestructor name d.name)
  return isFunction

def linkOwnership (decl : DeclId) : Ownership → LinkM Unit
  | .copy => return
  | .owned name => do
    let destructor ← match name with
      | none => pure none
      | some name => resolveDestructor decl name
    onSignatures fun sigs => { sigs with disposals := sigs.disposals.insert decl (.owned destructor) }

/-- What the type relations need to know: the members of a union, and the interfaces and the
ownership of a struct. -/
def linkTypeFacts (decl : DeclId) : LinkM Unit := inGenerics decl fun host => do
  match (← declOf decl).kind with
  | .union u =>
    let members ← u.members.mapM (linkTypeAt host .use)
    onSignatures fun sigs => { sigs with unionMembers := sigs.unionMembers.insert decl members }
  | .struct s =>
    let interfaces := (← s.implements.mapM (linkInterface host)).flatten
    unless interfaces.isEmpty do
      onSignatures fun sigs => { sigs with implements := sigs.implements.insert decl interfaces }
    linkOwnership decl s.ownership
  | _ => return

/-! ## Duplicate functions -/

/-- The types of the parameters that a caller passes arguments for. Nothing is used or reported
here, since the signature is still to be linked. -/
def mentionedParams (decl : DeclId) : LinkM (List Ty) := do
  match (← declOf decl).kind with
  | .function f =>
    inNamespaces decl <| inGenerics decl fun host => quietly do
      let types ← f.params.mapM fun param => do
        match (← declOf param).kind with
        | .parameter p => if p.implicit then return [] else return [← linkTypeAt host .mention p.ty]
        | _ => return []
      return types.flatten
  | _ => return []

/-- Settle one redeclaration. The table leads from a duplicate to the function kept in its place. -/
def settleRedeclaration (kept : Table DeclId DeclId) (r : Redeclaration) : LinkM (Table DeclId DeclId) := do
  let first := (kept.get? r.first).getD r.first
  let firstParams ← mentionedParams first
  let secondParams ← mentionedParams r.second
  if (← typeEnv).allSame firstParams secondParams then
    let d ← declOf r.second
    report d.span (.duplicateFunction d.name)
    modify fun s => { s with ignored := s.ignored ++ [r.second] }
    declareIn r.space d.name first
    return kept.insert r.second first
  else return kept

/-! ## Signatures -/

def linkParam (host : Option DeclId) (param : DeclId) : LinkM ParamSig := do
  match (← declOf param).kind with
  | .parameter p =>
    let ty ← linkTypeAt host .use p.ty
    recordDeclType param ty
    return { decl := param, ty, implicit := p.implicit }
  | _ => throw (.notParameter param)

def linkOptional (host : Option DeclId) (absent : Ty) : Option TypeExprId → LinkM Ty
  | some id => linkTypeAt host .use id
  | none => return absent

def linkSignatureKind (decl : DeclId) (host : Option DeclId) : DeclKind → LinkM Unit
  | .function f => do
    let params ← f.params.mapM (linkParam host)
    let ret ← linkOptional host .void f.ret
    onSignatures fun sigs => { sigs with functions := sigs.functions.insert decl { params, ret } }
  | .struct s => do
    let fields ← s.fields.mapM fun f => return (f.name, ← linkTypeAt host .use f.ty)
    onSignatures fun sigs => { sigs with fields := sigs.fields.insert decl fields }
  | .variant v => do
    let cases ← v.cases.mapM fun c => return (c.name, ← c.payload.mapM (linkTypeAt host .use))
    onSignatures fun sigs => { sigs with cases := sigs.cases.insert decl cases }
  | .var v => do recordDeclType decl (← linkOptional host .unknown v.ty)
  | .parameter _ => throw (.notItem decl)
  | .interface _ | .union _ | .typeAlias _ | .genericParam _ | .space _ => return

/-- Link the signature of a declaration, and note the function if it has a body. -/
def linkSignature (decl : DeclId) : LinkM Unit := do
  let kind := (← declOf decl).kind
  inGenerics decl fun host => linkSignatureKind decl host kind
  if (kind.function?.bind (·.body)).isSome then
    modify fun s => { s with bodies := s.bodies ++ [decl] }

def declareTypes : LinkM Unit := do
  let src ← source
  let items := src.itemTrees
  let redeclared ← declareItems none items
  let owners := Item.ownersAll src items
  owners.forM recordGenerics
  owners.forM fun decl => inNamespaces decl (linkGenericParams decl)
  owners.forM fun decl => inNamespaces decl (linkAlias decl)
  owners.forM fun decl => inNamespaces decl (linkTypeFacts decl)
  let _ ← redeclared.foldlM settleRedeclaration {}

def linkSignatures : LinkM Unit := do
  let src ← source
  (Item.ownersAll src src.itemTrees).forM fun decl => do
    unless (← get).ignored.contains decl do
      inNamespaces decl (linkSignature decl)

def declareAll : LinkM Unit := do
  declareTypes
  linkSignatures

end Link

end Linkage
