import Linkage.Ty.Relation
import Linkage.Ty.Subst

/-!
# Inference of generic arguments

Each generic parameter of a callee has a slot, seeded with the default of its parameter. Written
arguments take the leading slots; then the types of the formal parameters are laid over the types of
the arguments, and the result type over the expected type, and a slot that is still empty takes the
type that stands where its parameter stands.

A slot that is empty at the end is unresolved and holds the unknown type. A default may mention
other parameters and is closed over what they were given; one that mentions an empty slot is
unresolved too.
-/

namespace Linkage

structure Formal where
  ty : Ty
  /-- A parameter that the compiler supplies takes no part in inference. -/
  implicit : Bool := false
  deriving DecidableEq, Repr, Inhabited

structure GenericSignature where
  params : List GenericId
  defaults : List (Option Ty)
  formals : List Formal
  ret : Option Ty
  deriving DecidableEq, Repr, Inhabited

structure CallSite where
  /-- The types of the arguments for the formals that are not implicit. -/
  argTypes : List Ty
  /-- The type that the surroundings want of the result. -/
  expected : Option Ty
  deriving DecidableEq, Repr, Inhabited

structure Inferred where
  args : List Ty
  /-- The parameters for which there was nothing to go by, in declaration order. -/
  unresolved : List GenericId
  deriving DecidableEq, Repr, Inhabited

def Inferred.isComplete (r : Inferred) : Bool := r.unresolved.isEmpty

abbrev Slots := List (Option Ty)

namespace Slots

/-- Fill the slot of `g` if it is a parameter and its slot is empty. -/
def fill (params : List GenericId) (g : GenericId) (t : Ty) (slots : Slots) : Slots :=
  match params.idxOf? g with
  | none => slots
  | some i =>
    match slots[i]? with
    | some none => slots.set i (some t)
    | _ => slots

@[simp] theorem length_fill (params : List GenericId) (g : GenericId) (t : Ty) (slots : Slots) :
    (slots.fill params g t).length = slots.length := by
  unfold fill
  split
  · rfl
  · split <;> simp

mutual
/-- Lay the formal type over the actual one and fill the slots of the parameters met on the way. An
alias is looked through where the formal names a declared type, and a reference also matches the
value that it would borrow. -/
def matchShape (env : TypeEnv) (params : List GenericId) (formal actual : Ty) (slots : Slots) : Slots :=
  if actual = .unknown then slots
  else
    match formal with
    | .param g => slots.fill params g actual.concrete
    | .linked decl args =>
      match env.expand actual with
      | .linked actualDecl actualArgs =>
        if actualDecl = decl ∧ actualArgs.length = args.length then
          matchShapes env params args actualArgs slots
        else slots
      | _ => slots
    | .pointer inner =>
      match actual with
      | .pointer actualInner => matchShape env params inner actualInner slots
      | _ => slots
    | .reference inner =>
      match actual with
      | .reference actualInner => matchShape env params inner actualInner slots
      | _ => matchShape env params inner actual slots
    | .array elem _ =>
      match actual with
      | .array actualElem _ => matchShape env params elem actualElem slots
      | _ => slots
    | .function formals ret =>
      match actual with
      | .function actuals actualRet =>
        if actuals.length = formals.length then
          matchShape env params ret actualRet (matchShapes env params formals actuals slots)
        else slots
      | _ => slots
    | .prim _ => slots
    | .literal _ => slots
    | .unknown => slots
/-- Lay formal types over actual ones from left to right, as far as both lists go. -/
def matchShapes (env : TypeEnv) (params : List GenericId) (formals actuals : List Ty) (slots : Slots) :
    Slots :=
  match formals with
  | [] => slots
  | formal :: formals =>
    match actuals with
    | [] => slots
    | actual :: actuals =>
      matchShapes env params formals actuals (matchShape env params formal actual slots)
end

end Slots

namespace GenericSignature

/-- The formals that the caller passes an argument for. -/
def explicitTypes (sig : GenericSignature) : List Ty :=
  (sig.formals.filter (!·.implicit)).map (·.ty)

def seeds (sig : GenericSignature) : Slots :=
  sig.params.mapIdx fun i _ => sig.defaults[i]?.join

/-- The seeds with the written arguments in the leading slots. -/
def start (sig : GenericSignature) (written : List Ty) : Slots :=
  (written.map some).take sig.params.length ++ sig.seeds.drop written.length

/-- The slots after everything known at the call has been laid over the signature. -/
def matched (sig : GenericSignature) (env : TypeEnv) (written : List Ty) (site : CallSite) : Slots :=
  let slots := Slots.matchShapes env sig.params sig.explicitTypes site.argTypes (sig.start written)
  match sig.ret, site.expected with
  | some ret, some expected => Slots.matchShape env sig.params ret expected slots
  | _, _ => slots

/-- The slots hold a default from this position on, where they are seeded. -/
def isDefault (sig : GenericSignature) (written : List Ty) (i : Nat) : Bool :=
  decide (written.length ≤ i) && (sig.seeds[i]?.join).isSome

/-- The argument for the parameter at position `i`, if there is one. -/
def settle (sig : GenericSignature) (written : List Ty) (slots : Slots) (i : Nat) (slot : Option Ty) :
    Option Ty :=
  let filled := (slots.zip sig.params).map fun (slot, p) => slot.getD (.param p)
  let unfilled := (slots.zip sig.params).filterMap fun (slot, p) => if slot.isNone then some p else none
  match slot with
  | none => none
  | some t =>
    if sig.isDefault written i then
      let closed := t.subst sig.params filled
      if closed.occurrences.any unfilled.contains then none else some closed
    else some t

def infer (sig : GenericSignature) (env : TypeEnv) (written : List Ty) (site : CallSite) : Inferred :=
  let slots := sig.matched env written site
  let settled := slots.mapIdx (sig.settle written slots)
  { args := settled.map (·.getD .unknown)
    unresolved := (settled.zip sig.params).filterMap fun (arg, p) => if arg.isNone then some p else none }

end GenericSignature

end Linkage
