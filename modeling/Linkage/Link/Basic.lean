import Linkage.Link.Declare
import Linkage.Link.Stmt

/-!
# Linking a source unit

Linking validates the unit, links its declarations, and then its function bodies. No body is looked
at before all signatures are linked, so a body may use any declaration of the unit.
-/

namespace Linkage

/-- A part of the work that can be asked for on its own. -/
inductive LinkPhase where
  | declare
  | bodies
  deriving DecidableEq, Repr, Inhabited

/-- A linked program, or the fault that ended linking, with all that was reported, the expressions that
were linked, each as often as it was, and what the bodies do to places. -/
structure Outcome where
  result : Except Fault Program
  reports : List Diagnostic
  linked : List ExprId
  history : List Entry

namespace Link

def validated : LinkM Unit := do
  match (← source).validate with
  | .ok _ => return
  | .error m => throw (.malformed m)

def phase : LinkPhase → LinkM Unit
  | .declare => declareAll
  | .bodies => linkBodies

/-- Validate the unit and go through the phases, up to the first fault. -/
def phases (setup : Setup) (steps : List LinkPhase) : Outcome :=
  let work : LinkM Unit := do
    validated
    steps.forM phase
  match work setup.linkEnv {} with
  | (.ok _, s) =>
    { result := .ok s.program, reports := s.reports, linked := s.linked, history := s.history }
  | (.error fault, s) =>
    { result := .error fault, reports := s.reports, linked := s.linked, history := s.history }

end Link

def Setup.link (setup : Setup) : Outcome := Link.phases setup [.declare, .bodies]

/-- Link a source unit with constant folding. -/
def Source.link (src : Source) (options : Options) : Outcome := ({ source := src, options } : Setup).link

end Linkage
