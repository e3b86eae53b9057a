import Linkage.Program.Basic
import Linkage.Source.Display
import Linkage.Text.Lines

/-!
# Queries

Types inside a generic declaration are recorded open. A query closes them over the iterations that
are selected, which are either the active ones or those of a given context. The same selection tells
which iteration a call refers to that depends on its surroundings.
-/

namespace Linkage

namespace Program

abbrev Selection := DeclId → Option IterationId

def active (p : Program) : Selection := p.registry.activeOf?

/-- The argument that the selected iteration has for a generic parameter. -/
def argument? (p : Program) (selected : Selection) (g : GenericId) : Option Ty := do
  let info ← p.signatures.params.get? g
  let index ← selected info.owner
  let iteration ← p.registry.iteration? info.owner index
  iteration.args[info.index]?

/-- Replace every generic parameter whose owner has a selected iteration. -/
def close (p : Program) (selected : Selection) (ty : Ty) : Ty :=
  let found := ty.params.filterMap fun g => (p.argument? selected g).map (g, ·)
  ty.subst (found.map (·.1)) (found.map (·.2))

def typeUnder? (p : Program) (selected : Selection) (e : ExprId) : Option Ty :=
  (p.exprTypes.get? e).map (p.close selected)

def knownType? (p : Program) (e : ExprId) : Option Ty := p.typeUnder? p.active e

def knownTypeIn? (p : Program) (e : ExprId) (c : Context) : Option Ty := p.typeUnder? c.iterationOf? e

/-- The type of a parameter or a local variable, closed over the active iterations. -/
def typeOfDecl? (p : Program) (decl : DeclId) : Option Ty :=
  (p.signatures.declTypes.get? decl).map (p.close p.active)

def usage? (p : Program) (site : UsageSite) : Option Usage := p.usages.get? site

def callTarget? (p : Program) (e : ExprId) : Option DeclId := (p.usage? (.expr e)).map (·.decl)

/-- The iteration that a use refers to under a selection. -/
def iterationUnder? (p : Program) (selected : Selection) (u : Usage) : Option IterationId :=
  match u.copy with
  | .iteration index => some index
  | .dependent id => do
    let s ← p.registry.subscription? id
    let host ← selected s.host
    p.registry.mapped? id host
  | .plain => none
  | .unresolved => none

def callIteration? (p : Program) (e : ExprId) : Option IterationId :=
  (p.usage? (.expr e)).bind (p.iterationUnder? p.active)

def callIterationIn? (p : Program) (e : ExprId) (c : Context) : Option IterationId :=
  (p.usage? (.expr e)).bind (p.iterationUnder? c.iterationOf?)

def iterationArgs? (p : Program) (decl : DeclId) (index : IterationId) : Option (List Ty) :=
  (p.registry.iteration? decl index).map (·.args)

/-- The iterations of a declaration, and those still to be made for pending notices. -/
def totalIterations (p : Program) (decl : DeclId) : Nat := p.registry.total p.signatures.env decl

def dropsAt (p : Program) (block : BlockId) : List ScheduledDrop := (p.drops.get? block).getD []

def activate (p : Program) (decl : DeclId) (index : IterationId) : Registry.Guard × Program :=
  let (guard, registry) := p.registry.activate decl index
  (guard, { p with registry })

def release (p : Program) (guard : Registry.Guard) : Program :=
  { p with registry := p.registry.release guard }

/-- All iterations by declaration, and for each declaration in the order of their creation. -/
def allIterations (p : Program) : List Iteration := p.registry.entries.flatMap p.registry.iterationsOf

/-- The text about an iteration. The depth is shown if the iteration was not asked for directly. -/
def iterationText (src : Source) (it : Iteration) : Except NodeRef String := do
  let name ← src.declName it.decl
  let args ← src.showTys it.args
  let depth := if it.depth = 0 then "" else " depth=" ++ it.depth.repr
  return name ++ " " ++ it.index.text ++ " <" ++ ", ".intercalate args ++ ">" ++ depth

/-- The texts about all iterations, one below the other, as lines. A name with a line feed in it takes
more than one. -/
def iterationLines (p : Program) (src : Source) : Except NodeRef (List String) := do
  let texts ← p.allIterations.mapM (iterationText src)
  return texts.flatMap Text.lines

end Program

end Linkage
