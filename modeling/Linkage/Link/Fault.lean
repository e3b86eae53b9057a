import Linkage.Source.Validation

/-!
# Faults

Mistakes in source code are reported and never stop linking. What stops it is a source unit that is
not well formed: it fails validation, or a declaration stands where another kind belongs. Faults of
the last two sorts, a look at a node that is not there or past the end of a list, can only come up in
a unit that was not validated.
-/

namespace Linkage

inductive Fault where
  | malformed (m : Malformed)
  /-- A function lists the declaration among its parameters. -/
  | notParameter (decl : DeclId)
  /-- The declaration cannot stand at the top level or in a namespace. -/
  | notItem (decl : DeclId)
  | noBody (decl : DeclId)
  | missing (node : NodeRef)
  /-- A part of a list was asked for that reaches past its end. -/
  | outOfRange (index length : Nat)
  deriving DecidableEq, Repr, Inhabited

def Fault.message : Fault → String
  | .malformed m => "malformed AST: " ++ m.text
  | .notParameter decl => decl.text ++ " is not a parameter"
  | .notItem decl => decl.text ++ " is not a item"
  | .noBody decl => decl.text ++ " is not a function with a body"
  | .missing node => node.kind.label ++ node.index.repr ++ " does not exist"
  | .outOfRange index length => "index " ++ index.repr ++ " out of range for length " ++ length.repr

end Linkage
