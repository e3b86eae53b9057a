import Linkage.Moves

/-!
# What a body does to places

While a body is linked, a record is kept of what it does to places, in the order in which linking comes across it.
Statements that run only under some condition are linked like all others. Marks in the record tell where a construct
with arms begins, where its conditions and its arms end, and whether one of the arms always runs.
-/

namespace Linkage

/-- An argument that names a place, which is gone or not when the arguments are passed on. -/
structure PassedPlace where
  value : ExprId
  place : Place
  gone : Bool
  deriving DecidableEq, Repr, Inhabited

inductive Event where
  /-- The expression reads the place. It is gone if some part of what it needs has been moved out. -/
  | read (e : ExprId) (span : Span) (p : Place) (gone : Bool)
  /-- All arguments have been linked, and what they name is passed on now. -/
  | passing (args : List PassedPlace)
  | moved (p : Place) (span : Span)
  | written (p : Place)
  | returned
  deriving DecidableEq, Repr, Inhabited

inductive Mark where
  | fork
  | loop
  /-- A condition has been evaluated on which it depends whether an arm runs. -/
  | test
  | arm
  /-- The construct ends. It is exhaustive when one of its arms always runs. -/
  | join (exhaustive : Bool)
  deriving DecidableEq, Repr, Inhabited

inductive Entry where
  | event (e : Event)
  | mark (m : Mark)
  deriving DecidableEq, Repr, Inhabited

end Linkage
