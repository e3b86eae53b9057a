import Linkage.NodeId
import Linkage.Options
import Linkage.Span

/-!
# Moved places

A place is a local binding, or a path of fields below one. Moving a place out makes it and
everything below it unusable; a read conflicts with every moved place above or below it. Writing a
place makes it and everything below it usable again.

The arms of a branch all start from the same state. What an arm moved is set aside when it ends, and
what stays moved after the branch is settled by the branch policy when the branch is closed.
-/

namespace Linkage

structure Place where
  root : DeclId
  path : List String := []
  deriving DecidableEq, Repr, Inhabited

namespace Place

def field (p : Place) (name : String) : Place := { p with path := p.path ++ [name] }

def isWhole (p : Place) : Bool := p.path.isEmpty

/-- The place is `q` or lies below it. -/
def within (p q : Place) : Bool := p.root == q.root && q.path.isPrefixOf p.path

/-- The two places share storage. -/
def overlaps (p q : Place) : Bool := p.within q || q.within p

def text (p : Place) : String := p.path.foldl (fun out name => out ++ "." ++ name) p.root.text

@[simp] theorem within_refl (p : Place) : p.within p = true := by
  simp [within]

theorem overlaps_comm (p q : Place) : p.overlaps q = q.overlaps p := by
  simp [overlaps, Bool.or_comm]

end Place

structure MovedPlace where
  place : Place
  span : Span
  deriving DecidableEq, Repr, Inhabited

structure ArmMoves where
  places : List MovedPlace
  deriving DecidableEq, Repr, Inhabited

namespace ArmMoves

def wholes (arm : ArmMoves) : List DeclId :=
  (arm.places.filter (·.place.isWhole)).map (·.place.root)

/-- The places moved out of a binding that is otherwise still there. -/
def parts (arm : ArmMoves) : List Place :=
  (arm.places.filter (!·.place.isWhole)).map (·.place)

/-- The arm moved the place, or something above it. -/
def covers (arm : ArmMoves) (p : Place) : Bool := arm.places.any fun moved => p.within moved.place

end ArmMoves

/-- A branch that is still open: the state before it, and the arms that have ended. -/
structure Branch where
  before : List MovedPlace
  arms : List ArmMoves := []
  deriving DecidableEq, Repr, Inhabited

structure MoveTracker where
  policy : BranchPolicy := .restore
  moved : List MovedPlace := []
  deriving DecidableEq, Repr, Inhabited

namespace MoveTracker

/-- Nothing below a newly moved place is kept beside it. -/
def move (t : MoveTracker) (p : Place) (span : Span) : MoveTracker :=
  { t with moved := t.moved.filter (!·.place.within p) ++ [⟨p, span⟩] }

def reinit (t : MoveTracker) (p : Place) : MoveTracker :=
  { t with moved := t.moved.filter (!·.place.within p) }

/-- Where the value was moved that a read of the place would need, if it is gone. -/
def movedAt? (t : MoveTracker) (p : Place) : Option Span :=
  (t.moved.find? (·.place.overlaps p)).map (·.span)

/-- A read of the place would find that it, or some part of what it needs, is gone. -/
def gone (t : MoveTracker) (p : Place) : Bool := (t.movedAt? p).isSome

/-- Some part of the binding has been moved out. -/
def movedFrom (t : MoveTracker) (root : DeclId) : Bool := t.moved.any (·.place.root == root)

def restore (t : MoveTracker) (moved : List MovedPlace) : MoveTracker := { t with moved }

def beginBranch (t : MoveTracker) : Branch := { before := t.moved }

/-- Set aside what the arm moved, and start the next one from the state before the branch. -/
def endArm (t : MoveTracker) (b : Branch) : MoveTracker × Branch :=
  let arm : ArmMoves := ⟨t.moved.filter fun moved => !b.before.contains moved⟩
  (t.restore b.before, { b with arms := b.arms ++ [arm] })

/-- Move the place unless some part of what it needs is gone already. -/
def moveFresh (t : MoveTracker) (moved : MovedPlace) : MoveTracker :=
  if (t.movedAt? moved.place).isNone then t.move moved.place moved.span else t

/-- The places that every arm covers, in the order of the arms that list them. -/
def common (b : Branch) : List MovedPlace :=
  (b.arms.flatMap (·.places)).filter fun moved => b.arms.all (·.covers moved.place)

/-- Close the branch. It is exhaustive when one of its arms always runs. -/
def endBranch (t : MoveTracker) (b : Branch) (exhaustive : Bool) : MoveTracker :=
  let t := t.restore b.before
  if t.policy == .intersect && exhaustive then (common b).foldl moveFresh t else t

@[simp] theorem moved_reinit (t : MoveTracker) (p : Place) :
    (t.reinit p).moved = t.moved.filter (!·.place.within p) := rfl

@[simp] theorem moved_move (t : MoveTracker) (p : Place) (span : Span) :
    (t.move p span).moved = t.moved.filter (!·.place.within p) ++ [⟨p, span⟩] := rfl

theorem movedAt?_isSome (t : MoveTracker) (p : Place) :
    (t.movedAt? p).isSome = t.moved.any (·.place.overlaps p) := by
  simp only [movedAt?, Option.isSome_map]
  exact List.isSome_find?

end MoveTracker

end Linkage
