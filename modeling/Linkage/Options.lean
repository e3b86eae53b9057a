/-!
# Link options

A record gives settings by name, and one that is not known is passed over. A list gives them by
position, and one entry too many is not passed over. A setting that is not given keeps its default.
Anything else that does not fit makes the whole value unreadable.
-/

namespace Linkage

/-- How moves made inside branch arms affect the code after the branch. -/
inductive BranchPolicy where
  /-- Every place goes back to its state before the branch. -/
  | restore
  /-- A place that every arm of an exhaustive branch moved stays moved. -/
  | intersect
  deriving DecidableEq, Repr, Inhabited

namespace BranchPolicy

def name : BranchPolicy → String
  | .restore => "restore-pre-branch"
  | .intersect => "intersection"

def ofName? : String → Option BranchPolicy
  | "restore-pre-branch" => some .restore
  | "intersection" => some .intersect
  | _ => none

theorem ofName?_name (p : BranchPolicy) : ofName? p.name = some p := by
  cases p <;> rfl

end BranchPolicy

structure Limits where
  /-- The most propagation steps between an iteration and one that source code asked for. -/
  maxDepth : Nat := 64
  /-- The most iterations of a single declaration. -/
  maxPerDecl : Nat := 4096
  deriving DecidableEq, Repr, Inhabited

structure Options where
  limits : Limits := {}
  branchMoves : BranchPolicy := .restore
  deriving DecidableEq, Repr, Inhabited

/-- A value as a settings file writes it. Fractional numbers set nothing here, so they are not kept. -/
inductive Setting where
  | nothing
  | flag (value : Bool)
  | whole (value : Int)
  | fraction
  | text (value : String)
  | list (items : List Setting)
  | record (fields : List (String × Setting))
  deriving Inhabited

namespace Setting

/-- Limits are unsigned numbers of 32 bits. -/
def limit? : Setting → Option Nat
  | .whole n => if 0 ≤ n ∧ n < 0x100000000 then some n.toNat else none
  | _ => none

/-- A rule is given by its name, or by a record whose only field has that name and is empty. -/
def policy? : Setting → Option BranchPolicy
  | .text name => BranchPolicy.ofName? name
  | .record [(name, .nothing)] => BranchPolicy.ofName? name
  | _ => none

/-- A setting read by `read`, or the default where it is not given. -/
def givenOr {α : Type} (default : α) (read : Setting → Option α) : Option Setting → Option α
  | none => some default
  | some value => read value

def ofGiven? (depth count policy : Option Setting) : Option Options := do
  let maxDepth ← givenOr ({} : Limits).maxDepth limit? depth
  let maxPerDecl ← givenOr ({} : Limits).maxPerDecl limit? count
  let branchMoves ← givenOr ({} : Options).branchMoves policy? policy
  some { limits := { maxDepth, maxPerDecl }, branchMoves }

/-- Read link options. No value at all stands for the defaults. -/
def options? : Setting → Option Options
  | .nothing => some {}
  | .record fields =>
    ofGiven? (fields.lookup "max_instantiation_depth") (fields.lookup "max_iterations_per_decl")
      (fields.lookup "branch_moves")
  | .list items => if items.length ≤ 3 then ofGiven? items[0]? items[1]? items[2]? else none
  | _ => none

end Setting

end Linkage
