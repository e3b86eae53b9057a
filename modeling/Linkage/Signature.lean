import Linkage.Inference
import Linkage.Table

/-!
# Signatures

What is known of declarations once their annotations are linked. Types of a generic declaration are
kept open over its own parameters and are closed over arguments on the way out. The signatures are
the type environment in which everything else is checked.
-/

namespace Linkage

structure ParamSig where
  decl : DeclId
  ty : Ty
  implicit : Bool
  deriving DecidableEq, Repr, Inhabited

structure FunctionSig where
  params : List ParamSig
  ret : Ty
  deriving DecidableEq, Repr, Inhabited

namespace FunctionSig

/-- The types of the parameters that the caller passes an argument for. -/
def explicitTypes (sig : FunctionSig) : List Ty := (sig.params.filter (!·.implicit)).map (·.ty)

def asTy (sig : FunctionSig) : Ty := .function sig.explicitTypes sig.ret

end FunctionSig

/-- How values of a declared type leave their scope. -/
inductive Disposal where
  | copy
  /-- Owned, with the destructor if there is one that could be resolved. -/
  | owned (destructor : Option DeclId)
  deriving DecidableEq, Repr, Inhabited

def Disposal.isOwned : Disposal → Bool
  | .copy => false
  | .owned _ => true

structure ParamInfo where
  owner : DeclId
  index : Nat
  deriving DecidableEq, Repr, Inhabited

structure Signatures where
  generics : Table DeclId (List GenericId) := {}
  params : Table GenericId ParamInfo := {}
  bounds : Table GenericId Ty := {}
  defaults : Table GenericId Ty := {}
  /-- The types of parameters and local variables. -/
  declTypes : Table DeclId Ty := {}
  functions : Table DeclId FunctionSig := {}
  fields : Table DeclId (List (String × Ty)) := {}
  cases : Table DeclId (List (String × Option Ty)) := {}
  unionMembers : Table DeclId (List Ty) := {}
  aliasTargets : Table DeclId Ty := {}
  implements : Table DeclId (List DeclId) := {}
  disposals : Table DeclId Disposal := {}
  deriving Repr, Inhabited

namespace Signatures

/-- The generic parameters of a declaration, none if it is not generic. -/
def genericsOf (sigs : Signatures) (decl : DeclId) : List GenericId := (sigs.generics.get? decl).getD []

def aliasTarget? (sigs : Signatures) (decl : DeclId) (args : List Ty) : Option Ty :=
  (sigs.aliasTargets.get? decl).map (·.subst (sigs.genericsOf decl) args)

def unionMembers? (sigs : Signatures) (decl : DeclId) (args : List Ty) : Option (List Ty) :=
  (sigs.unionMembers.get? decl).map (Ty.substAll · (sigs.genericsOf decl) args)

def isImplementing (sigs : Signatures) (decl interface : DeclId) : Bool :=
  ((sigs.implements.get? decl).getD []).contains interface

def env (sigs : Signatures) : TypeEnv where
  aliasTarget := sigs.aliasTarget?
  unionMembers := sigs.unionMembers?
  implements := sigs.isImplementing

/-- The bound of a parameter, closed over all arguments, if the argument violates it. An argument that is
open or not known violates no bound. -/
def violatedBound? (sigs : Signatures) (generics : List GenericId) (args : List Ty) (g : GenericId) (arg : Ty) :
    Option Ty := do
  let bound ← sigs.bounds.get? g
  if arg.isOpen || arg.hasUnknown then none
  else
    let bound := bound.subst generics args
    if sigs.env.satisfiesBound bound arg then none else some bound

/-- The type of a field of a struct, closed over the arguments. -/
def fieldType? (sigs : Signatures) (decl : DeclId) (args : List Ty) (name : String) : Option Ty := do
  let fields ← sigs.fields.get? decl
  let ty ← fields.lookup name
  some (ty.subst (sigs.genericsOf decl) args)

def disposalOf (sigs : Signatures) (decl : DeclId) : Disposal := (sigs.disposals.get? decl).getD .copy

/-- How a value of the type leaves its scope. Only declared types can be owned; a generic parameter
counts as a copy. -/
def disposal (sigs : Signatures) (ty : Ty) : Disposal :=
  match sigs.env.expand ty with
  | .linked decl _ => sigs.disposalOf decl
  | _ => .copy

def isOwned (sigs : Signatures) (ty : Ty) : Bool := (sigs.disposal ty).isOwned

def defaultsOf (sigs : Signatures) (decl : DeclId) : List (Option Ty) :=
  (sigs.genericsOf decl).map sigs.defaults.get?

def callSignature? (sigs : Signatures) (decl : DeclId) : Option GenericSignature :=
  (sigs.functions.get? decl).map fun func =>
    { params := sigs.genericsOf decl
      defaults := sigs.defaultsOf decl
      formals := func.params.map fun p => { ty := p.ty, implicit := p.implicit }
      ret := some func.ret }

/-- A struct literal as inference sees it: the fields that were supplied are the formals, and the
struct itself is the result. -/
def constructSignature (sigs : Signatures) (decl : DeclId) (supplied : List Ty) : GenericSignature :=
  { params := sigs.genericsOf decl
    defaults := sigs.defaultsOf decl
    formals := supplied.map fun ty => { ty }
    ret := some (.linked decl ((sigs.genericsOf decl).map .param)) }

end Signatures

end Linkage
