import Linkage.Binary64

/-!
# Shortest decimals

The decimal text of a double is made of the fewest digits that still round to it, and of those the
nearest to its value. All arithmetic is exact: a positive double is `m * 2 ^ q`, the reals that
round to it reach halfway to its neighbours, and a decimal with `n` digits is tested on the grid of
all such decimals next to the value.
-/

namespace Linkage.Decimal

/-- A positive double as a whole number of quarter units `2 ^ exp`, with the ends of the interval of
reals that round to it. The ends belong to the interval if the double's mantissa is even. -/
structure Rounding where
  lower : Nat
  value : Nat
  upper : Nat
  exp : Int
  closed : Bool
  deriving DecidableEq, Repr, Inhabited

/-- The interval of a double given by its exponent and fraction fields. The gap below a power of two
is half the gap above it. -/
def Rounding.ofFields (exponent fraction : Nat) : Rounding :=
  let mantissa := if exponent = 0 then fraction else fraction + 0x10000000000000
  let unit : Int := (max exponent 1 : Nat) - 1075
  let gap := if fraction = 0 ∧ 1 < exponent then 1 else 2
  { lower := 4 * mantissa - gap, value := 4 * mantissa, upper := 4 * mantissa + 2
    exp := unit - 2, closed := mantissa % 2 == 0 }

/-- The digits `0.d₁d₂… * 10 ^ point`, as one number. -/
structure Digits where
  digits : Nat
  point : Int
  deriving DecidableEq, Repr, Inhabited

namespace Rounding

/-- The position of the decimal point: `10 ^ (point - 1) ≤ value < 10 ^ point`. -/
def point (r : Rounding) : Int :=
  let num := r.value * Nat.pow 2 r.exp.toNat
  let den := Nat.pow 2 (-r.exp).toNat
  if den ≤ num then (Nat.toDigits 10 (num / den)).length
  else
    match (List.range 400).find? fun j => decide (den ≤ num * Nat.pow 10 j) with
    | some j => 1 - (j : Int)
    | none => 0

/-- The decimal with `n` digits that rounds to the double and is nearest to it, if there is one. -/
def atLength (r : Rounding) (n : Nat) : Option Nat :=
  let up := Nat.pow 2 r.exp.toNat * Nat.pow 10 (n - r.point).toNat
  let down := Nat.pow 2 (-r.exp).toNat * Nat.pow 10 (r.point - n).toNat
  let inside (c : Nat) : Bool :=
    if r.closed then decide (r.lower * up ≤ c * down) && decide (c * down ≤ r.upper * up)
    else decide (r.lower * up < c * down) && decide (c * down < r.upper * up)
  let below := r.value * up / down
  let rest := r.value * up % down
  match inside below, inside (below + 1) with
  | true, true => some (if 2 * rest < down then below else below + 1)
  | true, false => some below
  | false, true => some (below + 1)
  | false, false => none

/-- The fewest digits that round to the double; seventeen are always enough. The upper neighbour on a
grid may be the power of ten above it, which has one digit more than was asked for. -/
def shortest (r : Rounding) : Digits :=
  match (List.range 17).findSome? fun n => (r.atLength (n + 1)).map (n + 1, ·) with
  | some (n, found) => ⟨found, r.point + ((Nat.toDigits 10 found).length - n : Int)⟩
  | none => ⟨0, r.point⟩

end Rounding

/-- Write the digits without an exponent and without zeros at the end of a fraction. -/
def Digits.positional (d : Digits) : String :=
  let text := ((Nat.toDigits 10 d.digits).reverse.dropWhile (· = '0')).reverse
  if d.point ≤ 0 then
    String.ofList ('0' :: '.' :: List.replicate (-d.point).toNat '0' ++ text)
  else
    let whole := d.point.toNat
    if text.length ≤ whole then String.ofList (text ++ List.replicate (whole - text.length) '0')
    else String.ofList (text.take whole ++ '.' :: text.drop whole)

/-- The decimal text of a double. Zero keeps its sign, and a whole number has no point. -/
def ofBinary64 (x : Binary64) : String :=
  if x.isNaN then "NaN"
  else
    let sign := if x.signBit then "-" else ""
    if x.isInfinite then sign ++ "inf"
    else if x.exponentBits = 0 ∧ x.fractionBits = 0 then sign ++ "0"
    else sign ++ (Rounding.ofFields x.exponentBits x.fractionBits).shortest.positional

end Linkage.Decimal
