/-!
# Double precision numbers

A binary64 is given by its bits, so that two of them are equal exactly when they are the same
number in the same representation. Arithmetic and comparison go through the machine's doubles.
-/

namespace Linkage

structure Binary64 where
  bits : UInt64
  deriving DecidableEq, Repr, Inhabited

namespace Binary64

def ofFloat (x : Float) : Binary64 := ⟨x.toBits⟩

def toFloat (x : Binary64) : Float := Float.ofBits x.bits

/-- The nearest double to a whole number of 64 bits, a half going to the even neighbour. -/
def ofInt64 (n : Int64) : Binary64 := ofFloat n.toFloat

def neg (x : Binary64) : Binary64 := ofFloat (-x.toFloat)
def add (x y : Binary64) : Binary64 := ofFloat (x.toFloat + y.toFloat)
def sub (x y : Binary64) : Binary64 := ofFloat (x.toFloat - y.toFloat)
def mul (x y : Binary64) : Binary64 := ofFloat (x.toFloat * y.toFloat)
def div (x y : Binary64) : Binary64 := ofFloat (x.toFloat / y.toFloat)

/-- The order of two numbers. A value that is not a number has no order with any other. -/
def order? (x y : Binary64) : Option Ordering :=
  if x.toFloat < y.toFloat then some .lt
  else if x.toFloat == y.toFloat then some .eq
  else if y.toFloat < x.toFloat then some .gt
  else none

def signBit (x : Binary64) : Bool := x.bits >>> 63 == 1

def exponentBits (x : Binary64) : Nat := ((x.bits >>> 52) &&& 0x7ff).toNat

def fractionBits (x : Binary64) : Nat := (x.bits &&& 0xfffffffffffff).toNat

def isNaN (x : Binary64) : Bool := x.exponentBits == 0x7ff && x.fractionBits != 0

def isInfinite (x : Binary64) : Bool := x.exponentBits == 0x7ff && x.fractionBits == 0

end Binary64

end Linkage
