import Linkage.Constant.Basic
import Linkage.Source.Tree
import Linkage.Table

/-!
# Constant folding

The value of an expression, where literals, operators and references to constants are enough to
tell it. Operands are evaluated from left to right, and the logical operators look at their second
operand only if the first does not decide. An expression without a value folds to nothing; a look
at a node that does not exist is a failure of its own.
-/

namespace Linkage

namespace UnaryOp

def fold? : UnaryOp → Constant → Option Constant
  | .not, .bool b => some (.bool !b)
  | .neg, .int n => Constant.ofInt? (-n)
  | .neg, .float x => some (.float x.neg)
  | _, _ => none

end UnaryOp

namespace BinaryOp

/-- What a comparison says of the order of its operands. -/
def holds : BinaryOp → Ordering → Bool
  | .eq, o => o.isEq
  | .ne, o => o.isNe
  | .lt, o => o.isLT
  | .le, o => o.isLE
  | .gt, o => o.isGT
  | _, o => o.isGE

/-- The value that the first operand alone decides. -/
def shortCircuit? : BinaryOp → Constant → Option Constant
  | .and, .bool false => some (.bool false)
  | .or, .bool true => some (.bool true)
  | _, _ => none

def fold? (op : BinaryOp) (a b : Constant) : Option Constant :=
  if op.isComparison then (a.order? b).map (.bool <| op.holds ·)
  else
    match op, a, b with
    | .and, .bool a, .bool b => some (.bool (a && b))
    | .or, .bool a, .bool b => some (.bool (a || b))
    | .add, .int a, .int b => Constant.ofInt? (a + b)
    | .sub, .int a, .int b => Constant.ofInt? (a - b)
    | .mul, .int a, .int b => Constant.ofInt? (a * b)
    | .div, .int a, .int b => Constant.divInt? a b
    | .rem, .int a, .int b => Constant.remInt? a b
    | .add, .float a, .float b => some (.float (a.add b))
    | .sub, .float a, .float b => some (.float (a.sub b))
    | .mul, .float a, .float b => some (.float (a.mul b))
    | .div, .float a, .float b => some (.float (a.div b))
    | .add, .str a, .str b => some (.str (a ++ b))
    | _, _, _ => none

end BinaryOp

/-- What folding knows of names: what they resolved to, and which declarations are constants. -/
structure FoldEnv where
  resolved : Table ExprId DeclId := {}
  constants : Table DeclId Constant := {}

namespace FoldEnv

def lookup? (env : FoldEnv) (e : ExprId) : Option Constant :=
  (env.resolved.get? e).bind env.constants.get?

end FoldEnv

/-- A value, nothing, or the first missing expression that was looked at. -/
abbrev Folded := Except ExprId (Option Constant)

namespace Expr

def fold (env : FoldEnv) : Expr → Folded
  | .missing id => .error id
  | .node _ _ (.intLit n) => .ok (some (.int n))
  | .node _ _ (.floatLit x) => .ok (some (.float x))
  | .node _ _ (.boolLit b) => .ok (some (.bool b))
  | .node _ _ (.strLit s) => .ok (some (.str s))
  | .node id _ (.name _) => .ok (env.lookup? id)
  | .node id _ (.path _) => .ok (env.lookup? id)
  | .node _ _ (.unary op operand) => do
    match ← operand.fold env with
    | none => return none
    | some a => return op.fold? a
  | .node _ _ (.binary op lhs rhs) => do
    match ← lhs.fold env with
    | none => return none
    | some a =>
      match op.shortCircuit? a with
      | some value => return some value
      | none =>
        match ← rhs.fold env with
        | none => return none
        | some b => return op.fold? a b
  | .node _ _ (.call _ _ _) => .ok none
  | .node _ _ (.construct _ _) => .ok none
  | .node _ _ (.member _ _) => .ok none
  | .node _ _ (.addressOf _) => .ok none

end Expr

end Linkage
