import Linkage.NodeId

/-!
# Linked types

A linked type names declarations and generic parameters by identifier, not by spelling. Inside a
generic declaration types stay open: they mention the parameters of the declaration, and an
iteration closes them by substitution. The unknown type stands where an error left no type to put.
-/

namespace Linkage

/-- The builtin scalar types. Widths are in bits. -/
inductive Primitive where
  | void
  | bool
  | int (bits : Nat) (signed : Bool)
  | float (bits : Nat)
  | str
  deriving DecidableEq, Repr, Inhabited

namespace Primitive

/-- The builtin types that source code can name. -/
def ofName? : String → Option Primitive
  | "void" => some .void
  | "bool" => some .bool
  | "str" => some .str
  | "int" => some (.int 64 true)
  | "i64" => some (.int 64 true)
  | "i8" => some (.int 8 true)
  | "i16" => some (.int 16 true)
  | "i32" => some (.int 32 true)
  | "u8" => some (.int 8 false)
  | "u16" => some (.int 16 false)
  | "u32" => some (.int 32 false)
  | "u64" => some (.int 64 false)
  | "float" => some (.float 64)
  | "f64" => some (.float 64)
  | "f32" => some (.float 32)
  | _ => none

/-- The signed integer and the float of 64 bits are written by their short names. -/
def text : Primitive → String
  | .void => "void"
  | .bool => "bool"
  | .str => "str"
  | .int 64 true => "int"
  | .int bits true => "i" ++ bits.repr
  | .int bits false => "u" ++ bits.repr
  | .float 64 => "float"
  | .float bits => "f" ++ bits.repr

end Primitive

/-- The kinds of literal that have no type of their own until they meet an expected one. -/
inductive LiteralKind where
  | int
  | float
  | str
  deriving DecidableEq, Repr, Inhabited

inductive Ty where
  | prim (p : Primitive)
  | literal (kind : LiteralKind)
  /-- A generic parameter of some declaration. -/
  | param (generic : GenericId)
  /-- A declared type with its generic arguments. -/
  | linked (decl : DeclId) (args : List Ty)
  | pointer (inner : Ty)
  | reference (inner : Ty)
  | array (elem : Ty) (len : Option Nat)
  | function (params : List Ty) (ret : Ty)
  /-- The placeholder an error leaves behind. -/
  | unknown
  deriving Repr, Inhabited

namespace Ty

abbrev void : Ty := .prim .void
abbrev bool : Ty := .prim .bool
abbrev int : Ty := .prim (.int 64 true)
abbrev float : Ty := .prim (.float 64)
abbrev str : Ty := .prim .str

/-- Induction on types, with the hypothesis for every argument and every parameter. -/
@[elab_as_elim]
theorem inductionOn {motive : Ty → Prop} (prim : ∀ p, motive (.prim p))
    (literal : ∀ kind, motive (.literal kind)) (param : ∀ g, motive (.param g))
    (linked : ∀ decl args, (∀ a ∈ args, motive a) → motive (.linked decl args))
    (pointer : ∀ inner, motive inner → motive (.pointer inner))
    (reference : ∀ inner, motive inner → motive (.reference inner))
    (array : ∀ elem len, motive elem → motive (.array elem len))
    (function : ∀ params ret, (∀ p ∈ params, motive p) → motive ret → motive (.function params ret))
    (unknown : motive .unknown) (t : Ty) : motive t :=
  @Ty.rec motive (fun ts => ∀ t ∈ ts, motive t)
    prim literal param linked pointer reference array function unknown (by simp)
    (fun _ _ hhead htail => by simpa using ⟨hhead, htail⟩) t

mutual
/-- Structural equality, as a test. -/
protected def beq : Ty → Ty → Bool
  | .prim p, .prim q => p == q
  | .literal k, .literal l => k == l
  | .param g, .param h => g == h
  | .linked d as, .linked e bs => d == e && Ty.beqAll as bs
  | .pointer a, .pointer b => Ty.beq a b
  | .reference a, .reference b => Ty.beq a b
  | .array a m, .array b n => m == n && Ty.beq a b
  | .function as a, .function bs b => Ty.beqAll as bs && Ty.beq a b
  | .unknown, .unknown => true
  | _, _ => false
protected def beqAll : List Ty → List Ty → Bool
  | [], [] => true
  | a :: as, b :: bs => Ty.beq a b && Ty.beqAll as bs
  | _, _ => false
end

mutual
theorem eq_of_beq : ∀ {a b : Ty}, Ty.beq a b = true → a = b
  | .prim _, b, h => by cases b <;> simp_all [Ty.beq]
  | .literal _, b, h => by cases b <;> simp_all [Ty.beq]
  | .param _, b, h => by cases b <;> simp_all [Ty.beq]
  | .linked _ as, b, h => by
    cases b <;> simp_all [Ty.beq]
    exact eq_of_beqAll h.2
  | .pointer a, b, h => by
    cases b <;> simp_all [Ty.beq]
    exact eq_of_beq h
  | .reference a, b, h => by
    cases b <;> simp_all [Ty.beq]
    exact eq_of_beq h
  | .array a _, b, h => by
    cases b <;> simp_all [Ty.beq]
    exact eq_of_beq h.2
  | .function as a, b, h => by
    cases b <;> simp_all [Ty.beq]
    exact ⟨eq_of_beqAll h.1, eq_of_beq h.2⟩
  | .unknown, b, h => by cases b <;> simp_all [Ty.beq]
theorem eq_of_beqAll : ∀ {as bs : List Ty}, Ty.beqAll as bs = true → as = bs
  | [], bs, h => by cases bs <;> simp_all [Ty.beqAll]
  | a :: as, bs, h => by
    cases bs <;> simp_all [Ty.beqAll]
    exact ⟨eq_of_beq h.1, eq_of_beqAll h.2⟩
end

mutual
theorem beq_refl : ∀ a : Ty, Ty.beq a a = true
  | .prim _ => by simp [Ty.beq]
  | .literal _ => by simp [Ty.beq]
  | .param _ => by simp [Ty.beq]
  | .linked _ as => by simp [Ty.beq, beqAll_refl as]
  | .pointer a => by simp [Ty.beq, beq_refl a]
  | .reference a => by simp [Ty.beq, beq_refl a]
  | .array a _ => by simp [Ty.beq, beq_refl a]
  | .function as a => by simp [Ty.beq, beqAll_refl as, beq_refl a]
  | .unknown => by simp [Ty.beq]
theorem beqAll_refl : ∀ as : List Ty, Ty.beqAll as as = true
  | [] => by simp [Ty.beqAll]
  | a :: as => by simp [Ty.beqAll, beq_refl a, beqAll_refl as]
end

instance : DecidableEq Ty := fun a b =>
  if h : Ty.beq a b = true then .isTrue (eq_of_beq h)
  else .isFalse fun e => h (e ▸ beq_refl a)

mutual
/-- Every mention of a generic parameter, from left to right. -/
def occurrences : Ty → List GenericId
  | .param g => [g]
  | .linked _ args => occurrencesAll args
  | .pointer inner => occurrences inner
  | .reference inner => occurrences inner
  | .array elem _ => occurrences elem
  | .function params ret => occurrencesAll params ++ occurrences ret
  | .prim _ => []
  | .literal _ => []
  | .unknown => []
def occurrencesAll : List Ty → List GenericId
  | [] => []
  | t :: ts => occurrences t ++ occurrencesAll ts
end

/-- The generic parameters that the types mention, in the order in which they are first seen. -/
def paramsOfAll (ts : List Ty) : List GenericId := (occurrencesAll ts).eraseDups

def params (t : Ty) : List GenericId := t.occurrences.eraseDups

/-- The type mentions a generic parameter. -/
def isOpen (t : Ty) : Bool := !t.occurrences.isEmpty

mutual
/-- The unknown type stands somewhere in the type. -/
def hasUnknown : Ty → Bool
  | .unknown => true
  | .linked _ args => hasUnknownAny args
  | .pointer inner => hasUnknown inner
  | .reference inner => hasUnknown inner
  | .array elem _ => hasUnknown elem
  | .function params ret => hasUnknownAny params || hasUnknown ret
  | .prim _ => false
  | .literal _ => false
  | .param _ => false
def hasUnknownAny : List Ty → Bool
  | [] => false
  | t :: ts => hasUnknown t || hasUnknownAny ts
end

theorem occurrencesAll_eq (ts : List Ty) : occurrencesAll ts = ts.flatMap occurrences := by
  induction ts with
  | nil => rfl
  | cons t ts ih => simp [occurrencesAll, ih]

theorem hasUnknownAny_eq (ts : List Ty) : hasUnknownAny ts = ts.any hasUnknown := by
  induction ts with
  | nil => rfl
  | cons t ts ih => simp [hasUnknownAny, ih]

/-- The type a literal takes when nothing more specific is expected of it. -/
def concrete : Ty → Ty
  | .literal .int => int
  | .literal .float => float
  | .literal .str => str
  | t => t

def isLiteral : Ty → Bool
  | .literal _ => true
  | _ => false

end Ty

end Linkage
