import Linkage.Ty.Basic

/-!
# Relations between types

Two types are the same when they agree once aliases are looked through. A type satisfies another
when a value of it may stand where the other is expected: beyond sameness, literals fit scalars,
integers and floats widen, a reference accepts the value it would borrow, a union accepts what one
of its members accepts, and the unknown type goes with everything.

What the relations need to know about declarations comes from a type environment. An alias may lead
back to itself, so a comparison is carried out within a number of levels and may be left unsettled;
`TypeEnv.reach` is the number of levels below the first after which a comparison gives up and counts
as failed.
-/

namespace Linkage

namespace Primitive

/-- A literal of the kind can be given the scalar type. -/
def accepts : Primitive → LiteralKind → Bool
  | .int _ _, .int => true
  | .float _, .int => true
  | .float _, .float => true
  | .str, .str => true
  | _, _ => false

/-- A scalar of type `p` can stand where `q` is expected. An unsigned integer fits a signed one that
is strictly wider. -/
def widensTo (p q : Primitive) : Bool :=
  match p, q with
  | .int m s, .int n t => (s == t && decide (m ≤ n)) || (!s && t && decide (m < n))
  | .float m, .float n => decide (m ≤ n)
  | p, q => p == q

end Primitive

/-- The facts about declared types that the relations consult. -/
structure TypeEnv where
  /-- What an alias stands for, closed over its arguments. -/
  aliasTarget : DeclId → List Ty → Option Ty := fun _ _ => none
  /-- The members of a union, closed over its arguments. -/
  unionMembers : DeclId → List Ty → Option (List Ty) := fun _ _ => none
  /-- The declaration says that it implements the interface. -/
  implements : DeclId → DeclId → Bool := fun _ _ => false
  /-- The number of nested levels below the first that a comparison looks through. -/
  reach : Nat := 1000000

namespace TypeEnv

/-- One step through the alias at the head of the type, if there is one. -/
def unalias (env : TypeEnv) : Ty → Option Ty
  | .linked decl args => env.aliasTarget decl args
  | _ => none

/-- Look through aliases at the head of the type, at most `n` of them. -/
def expandWithin (env : TypeEnv) : Nat → Ty → Ty
  | 0, t => t
  | n + 1, t =>
    match env.unalias t with
    | some target => env.expandWithin n target
    | none => t

/-- Alias chains longer than this are taken for cyclic and looked through no further. -/
def maxAliasDepth : Nat := 32

def expand (env : TypeEnv) (t : Ty) : Ty := env.expandWithin maxAliasDepth t

/-- Compare lists of types pairwise. -/
def pairwise (compare : Ty → Ty → Option Bool) (as bs : List Ty) : Option Bool :=
  if as.length = bs.length then (as.zip bs).allM fun p => compare p.1 p.2 else some false

/-- Compare the heads of two expanded types, and what lies below them by `compare`. -/
def sameHeads (lenient : Bool) (compare : Ty → Ty → Option Bool) : Ty → Ty → Option Bool
  | .unknown, _ => some lenient
  | _, .unknown => some lenient
  | .linked d as, .linked e bs => if d = e then pairwise compare as bs else some false
  | .pointer a, .pointer b => compare a b
  | .reference a, .reference b => compare a b
  | .array a m, .array b n => if m = n then compare a b else some false
  | .function as a, .function bs b => do
    if ← pairwise compare as bs then compare a b else return false
  | _, _ => some false

/-- Sameness up to aliases, settled within `n` levels if at all. A lenient comparison lets the
unknown type agree with every type. -/
def sameWithin (env : TypeEnv) (lenient : Bool) : Nat → Ty → Ty → Option Bool
  | 0, _, _ => none
  | n + 1, a, b =>
    if a = b then some true
    else
      let a := env.expand a
      let b := env.expand b
      if a = b then some true else sameHeads lenient (env.sameWithin lenient n) a b

/-- The two types are the same up to aliases. -/
def same (env : TypeEnv) (a b : Ty) : Bool := env.sameWithin false (env.reach + 1) a b == some true

/-- The two lists are as long as each other and the same type by type. -/
def allSame (env : TypeEnv) (as bs : List Ty) : Bool :=
  as.length == bs.length && (as.zip bs).all fun p => env.same p.1 p.2

/-- Whether a value of type `actual` may stand where `expected` is required, settled within `n`
levels if at all. -/
def satisfiesWithin (env : TypeEnv) : Nat → Ty → Ty → Option Bool
  | 0, _, _ => none
  | n + 1, expected, actual => do
    if ← env.sameWithin true (n + 1) expected actual then return true
    match env.expand expected, env.expand actual with
    | .unknown, _ => return true
    | _, .unknown => return true
    | .prim e, .literal kind => return e.accepts kind
    | .prim e, .prim a => return a.widensTo e
    | .reference _, .reference _ => return false
    | .reference inner, actual => env.satisfiesWithin n inner actual
    | .linked decl args, actual =>
      match env.unionMembers decl args with
      | some members => members.anyM (env.satisfiesWithin n · actual)
      | none => return false
    | _, _ => return false

/-- A value of type `actual` may stand where `expected` is required. -/
def satisfies (env : TypeEnv) (expected actual : Ty) : Bool :=
  env.satisfiesWithin (env.reach + 1) expected actual == some true

/-- The argument meets the bound of a generic parameter: it satisfies the bound as a type, or it
names a declaration that implements the bound as an interface. -/
def satisfiesBound (env : TypeEnv) (bound arg : Ty) : Bool :=
  env.satisfies bound arg ||
    match env.expand bound, env.expand arg with
    | .linked interface _, .linked decl _ => env.implements decl interface
    | _, _ => false

/-- An environment without aliases, unions or interfaces. -/
def empty : TypeEnv := {}

end TypeEnv

end Linkage
