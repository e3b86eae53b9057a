import Linkage.Ty.Basic

/-!
# Substitution

An iteration closes the types of its declaration by putting its arguments in the places of the
generic parameters at the same positions. A parameter that is not listed, or has no argument, stays
as it is.
-/

namespace Linkage

namespace Ty

/-- The argument at the position of the first parameter that is `g`. -/
def argFor (params : List GenericId) (args : List Ty) (g : GenericId) : Option Ty :=
  (params.idxOf? g).bind (args[·]?)

mutual
/-- Replace every generic parameter for which `σ` has a type. -/
def replace (σ : GenericId → Option Ty) : Ty → Ty
  | .param g => (σ g).getD (.param g)
  | .linked decl args => .linked decl (replaceAll σ args)
  | .pointer inner => .pointer (replace σ inner)
  | .reference inner => .reference (replace σ inner)
  | .array elem len => .array (replace σ elem) len
  | .function params ret => .function (replaceAll σ params) (replace σ ret)
  | .prim p => .prim p
  | .literal kind => .literal kind
  | .unknown => .unknown
def replaceAll (σ : GenericId → Option Ty) : List Ty → List Ty
  | [] => []
  | t :: ts => replace σ t :: replaceAll σ ts
end

theorem replaceAll_eq (σ : GenericId → Option Ty) (ts : List Ty) :
    replaceAll σ ts = ts.map (replace σ) := by
  induction ts with
  | nil => rfl
  | cons t ts ih => simp [replaceAll, ih]

/-- Close the type over the arguments. A type that has nothing to replace is handed back at once. -/
def subst (t : Ty) (params : List GenericId) (args : List Ty) : Ty :=
  if params.isEmpty || !t.isOpen then t else t.replace (argFor params args)

def substAll (ts : List Ty) (params : List GenericId) (args : List Ty) : List Ty :=
  ts.map (·.subst params args)

@[simp] theorem length_substAll (ts : List Ty) (params : List GenericId) (args : List Ty) :
    (substAll ts params args).length = ts.length := by
  simp [substAll]

end Ty

end Linkage
