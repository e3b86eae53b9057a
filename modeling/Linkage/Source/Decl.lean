import Linkage.NodeId
import Linkage.Span

/-!
# Declarations

Every entity that a name can stand for is a declaration. A declaration may be generic, in which case
it lists its generic parameters in order; each parameter has a declaration of its own that makes its
name visible.
-/

namespace Linkage

inductive Ownership where
  /-- Reads copy, and nothing is tracked. -/
  | copy
  /-- Passing the value on by value moves it out of its place. The destructor, if one is named, is
  due when the value leaves its scope. -/
  | owned (destructor : Option String)
  deriving DecidableEq, Repr, Inhabited

structure FunctionDecl where
  generics : List GenericId := []
  params : List DeclId := []
  ret : Option TypeExprId := none
  /-- A signature without a body has none. -/
  body : Option BlockId := none
  deriving DecidableEq, Repr, Inhabited

structure FieldDecl where
  name : String
  span : Span
  ty : TypeExprId
  deriving DecidableEq, Repr, Inhabited

structure StructDecl where
  generics : List GenericId := []
  fields : List FieldDecl := []
  ownership : Ownership
  /-- The interfaces that the struct says it implements. -/
  implements : List TypeExprId := []
  deriving DecidableEq, Repr, Inhabited

structure VariantCase where
  name : String
  span : Span
  payload : Option TypeExprId
  deriving DecidableEq, Repr, Inhabited

structure VariantDecl where
  generics : List GenericId := []
  cases : List VariantCase := []
  deriving DecidableEq, Repr, Inhabited

structure InterfaceDecl where
  generics : List GenericId := []
  /-- Function declarations without bodies. -/
  methods : List DeclId := []
  deriving DecidableEq, Repr, Inhabited

structure UnionDecl where
  generics : List GenericId := []
  members : List TypeExprId := []
  deriving DecidableEq, Repr, Inhabited

structure AliasDecl where
  generics : List GenericId := []
  target : TypeExprId
  deriving DecidableEq, Repr, Inhabited

structure VariableDecl where
  ty : Option TypeExprId
  isMutable : Bool
  /-- The initializer is evaluated while linking, if it can be. -/
  comptime : Bool
  deriving DecidableEq, Repr, Inhabited

structure ParameterDecl where
  ty : TypeExprId
  /-- The compiler supplies the argument. -/
  implicit : Bool
  deriving DecidableEq, Repr, Inhabited

inductive DeclKind where
  | var (v : VariableDecl)
  | parameter (p : ParameterDecl)
  | function (f : FunctionDecl)
  | struct (s : StructDecl)
  | variant (v : VariantDecl)
  | interface (i : InterfaceDecl)
  | union (u : UnionDecl)
  | typeAlias (a : AliasDecl)
  | genericParam (generic : GenericId)
  | space (members : List DeclId)
  deriving DecidableEq, Repr, Inhabited

namespace DeclKind

def generics : DeclKind → List GenericId
  | .function f => f.generics
  | .struct s => s.generics
  | .variant v => v.generics
  | .interface i => i.generics
  | .union u => u.generics
  | .typeAlias a => a.generics
  | .var _ => []
  | .parameter _ => []
  | .genericParam _ => []
  | .space _ => []

/-- Append a generic parameter, where the kind can have any. -/
def addGeneric? (g : GenericId) : DeclKind → Option DeclKind
  | .function f => some (.function { f with generics := f.generics ++ [g] })
  | .struct s => some (.struct { s with generics := s.generics ++ [g] })
  | .variant v => some (.variant { v with generics := v.generics ++ [g] })
  | .interface i => some (.interface { i with generics := i.generics ++ [g] })
  | .union u => some (.union { u with generics := u.generics ++ [g] })
  | .typeAlias a => some (.typeAlias { a with generics := a.generics ++ [g] })
  | .var _ => none
  | .parameter _ => none
  | .genericParam _ => none
  | .space _ => none

theorem generics_of_addGeneric? {g : GenericId} {k k' : DeclKind} (h : k.addGeneric? g = some k') :
    k'.generics = k.generics ++ [g] := by
  cases k <;> simp only [addGeneric?, Option.some.injEq, reduceCtorEq] at h <;> subst h <;> rfl

def isType : DeclKind → Bool
  | .struct _ | .variant _ | .interface _ | .union _ | .typeAlias _ | .genericParam _ => true
  | _ => false

/-- The declaration holds a value in a body. -/
def isValueBinding : DeclKind → Bool
  | .var _ | .parameter _ => true
  | _ => false

def isInterface : DeclKind → Bool
  | .interface _ => true
  | _ => false

def isSpace : DeclKind → Bool
  | .space _ => true
  | _ => false

def function? : DeclKind → Option FunctionDecl
  | .function f => some f
  | _ => none

def isFunction (k : DeclKind) : Bool := k.function?.isSome

def word : DeclKind → String
  | .var _ => "variable"
  | .parameter _ => "parameter"
  | .function _ => "function"
  | .struct _ => "struct"
  | .variant _ => "variant"
  | .interface _ => "interface"
  | .union _ => "union"
  | .typeAlias _ => "alias"
  | .genericParam _ => "generic"
  | .space _ => "namespace"

end DeclKind

structure Decl where
  name : String
  span : Span
  /-- What the declaration stands in: a function for parameters, a namespace for members, an
  interface for methods, the owner for generic parameters. -/
  parent : Option DeclId
  kind : DeclKind
  deriving DecidableEq, Repr, Inhabited

namespace Decl

def generics (d : Decl) : List GenericId := d.kind.generics

def isGeneric (d : Decl) : Bool := !d.generics.isEmpty

end Decl

structure GenericParam where
  name : String
  span : Span
  /-- What an argument must satisfy. -/
  bound : Option TypeExprId
  default : Option TypeExprId
  /-- The position in the owner's list of parameters. -/
  index : Nat
  owner : DeclId
  /-- The declaration that makes the name visible. -/
  decl : DeclId
  deriving DecidableEq, Repr, Inhabited

end Linkage
