import Linkage.Binary64
import Linkage.Decimal.Shortest
import Linkage.Text.Quoted

/-!
# Constants

The values that can be computed while linking. Whole numbers are those of 64 bits: an operation
whose result would leave that range has no value. Operands of different kinds go together only in
comparisons between whole numbers and doubles.
-/

namespace Linkage

inductive Constant where
  | int (n : Int)
  | float (x : Binary64)
  | bool (b : Bool)
  | str (s : String)
  deriving DecidableEq, Repr, Inhabited

namespace Constant

def bool? : Constant → Option Bool
  | .bool b => some b
  | _ => none

def text : Constant → String
  | .int n => n.repr
  | .float x => Decimal.ofBinary64 x
  | .bool b => if b then "true" else "false"
  | .str s => Text.quote s

def minInt : Int := -0x8000000000000000
def maxInt : Int := 0x7fffffffffffffff

/-- A whole number, if it has 64 bits. -/
def ofInt? (n : Int) : Option Constant := if minInt ≤ n ∧ n ≤ maxInt then some (.int n) else none

/-- Division truncates. The remainder of the least number by `-1` has no value, like the quotient. -/
def divInt? (a b : Int) : Option Constant := if b = 0 then none else ofInt? (a.tdiv b)

def remInt? (a b : Int) : Option Constant :=
  if b = 0 ∨ (a = minInt ∧ b = -1) then none else ofInt? (a.tmod b)

def toBinary64 (n : Int) : Binary64 := Binary64.ofInt64 (Int64.ofInt n)

/-- Texts are ordered by their code points. -/
def order? : Constant → Constant → Option Ordering
  | .int a, .int b => some (compare a b)
  | .float a, .float b => a.order? b
  | .int a, .float b => (toBinary64 a).order? b
  | .float a, .int b => a.order? (toBinary64 b)
  | .bool a, .bool b => some (compare a b)
  | .str a, .str b => some (compare a b)
  | _, _ => none

end Constant

end Linkage
