import EntitySchema.Number.Double

/-! The fewest decimal digits that name a double. For each number of digits
the two decimals next to the value are tried, in exact arithmetic, and the
first number of digits with a decimal that reads back as the same double wins;
of two such decimals the nearer one is taken. -/
namespace EntitySchema.Number

/-- The decimal `0.d₁d₂…dₙ · 10 ^ point`, where `d₁…dₙ` are the digits of
`digits` and the last of them is not zero. -/
structure Decimal where
  digits : Nat
  point : Int
  deriving DecidableEq, Repr

namespace Double

/-- The decimals that read back as `mantissa · 2 ^ exponent`, as bounds in
quarters of a unit in the last place. The neighbour below a power of two is
nearer than the one above. -/
structure Neighbourhood where
  low : Nat
  middle : Nat
  high : Nat
  closed : Bool

/-- What rounds to a finite number. A bound itself does so when the mantissa
is even, since halves go to the even neighbour. -/
def neighbourhood (mantissa : Nat) (exponent : Int) : Neighbourhood :=
  let narrow := mantissa == mantissaBound / 2 && leastExponent < exponent
  { low := if narrow then 4 * mantissa - 1 else 4 * mantissa - 2
    middle := 4 * mantissa
    high := 4 * mantissa + 2
    closed := mantissa % 2 == 0 }

/-- The fraction `quarters · 2 ^ (exponent - 2) / 10 ^ place` over one
denominator, so that multiples of it can be compared with integers. -/
def gridScale (exponent place : Int) : Nat × Nat :=
  let binary := exponent - 2
  (twoTo binary.toNat * tenTo (-place).toNat, twoTo (-binary).toNat * tenTo place.toNat)

/-- The power of ten just above a positive fraction: the least `p` with
`num / den < 10 ^ p`. -/
def pointOf (num den : Nat) : Int :=
  if den ≤ num then digitCount (num / den)
  else
    let below := digitCount (den / num)
    if den ≤ num * tenTo (below - 1) then 2 - (below : Int) else 1 - (below : Int)

/-- Does `candidate` on the grid of scale `num / den` read back? -/
def Neighbourhood.admits (hood : Neighbourhood) (num den candidate : Nat) : Bool :=
  let here := candidate * den
  if hood.closed then hood.low * num ≤ here && here ≤ hood.high * num
  else hood.low * num < here && here < hood.high * num

/-- The decimal of the grid to write, when one of the two next to the value
reads back. At equal distance the even one is taken. -/
def Neighbourhood.pick (hood : Neighbourhood) (num den : Nat) : Option Nat :=
  let value := hood.middle * num
  let below := value / den
  let above := below + 1
  match hood.admits num den below, hood.admits num den above with
  | true, true =>
    let up := above * den - value
    let down := value - below * den
    if down < up then some below
    else if up < down then some above
    else if below % 2 = 0 then some below else some above
  | true, false => some below
  | false, true => some above
  | false, false => none

/-- Without the zeros at the end of its digits. -/
def dropZeros : Nat → Nat → Nat
  | 0, n => n
  | fuel + 1, n => if n != 0 && n % 10 == 0 then dropZeros fuel (n / 10) else n

/-- Tries grids of more and more digits; seventeen always suffice. -/
def shortestFrom (hood : Neighbourhood) (exponent point : Int) : Nat → Nat → Decimal
  | 0, _ => ⟨0, 0⟩
  | tries + 1, count =>
    let place := point - count
    let scale := gridScale exponent place
    match hood.pick scale.1 scale.2 with
    | some digits => ⟨dropZeros (digitCount digits) digits, digitCount digits + place⟩
    | none => shortestFrom hood exponent point tries (count + 1)

/-- The shortest decimal of `mantissa · 2 ^ exponent`, the mantissa not zero. -/
def shortest (mantissa : Nat) (exponent : Int) : Decimal :=
  let hood := neighbourhood mantissa exponent
  let scale := gridScale exponent 0
  shortestFrom hood exponent (pointOf (hood.middle * scale.1) scale.2) 17 1

end Double

/-- How a decimal is laid out, and what the numbers without one are called. -/
structure Layout where
  /-- Positional notation is used for points above this one … -/
  least : Int
  /-- … and up to this one; other numbers carry an exponent. -/
  greatest : Int
  /-- At least this many digits in an exponent. -/
  exponentWidth : Nat
  nan : String
  infinity : String
  deriving DecidableEq, Repr

namespace Layout

/-- An exponent with its sign and at least `width` digits. -/
def renderExponent (width : Nat) (exponent : Int) : String :=
  let digits := toString exponent.natAbs
  (if exponent < 0 then "e-" else "e+") ++
    String.ofList (List.replicate (width - digits.length) '0') ++ digits

/-- A decimal without a sign. An integral one keeps `.0`, so that it is never
taken for an integer. -/
def renderDecimal (layout : Layout) (decimal : Decimal) : String :=
  let digits := toString decimal.digits
  let count := digits.length
  let zeros (n : Int) := String.ofList (List.replicate n.toNat '0')
  let first (n : Int) := String.ofList (digits.toList.take n.toNat)
  let after (n : Int) := String.ofList (digits.toList.drop n.toNat)
  let point := decimal.point
  if point ≤ layout.least || layout.greatest < point then
    first 1 ++ (if count = 1 then "" else "." ++ after 1) ++
      renderExponent layout.exponentWidth (point - 1)
  else if point ≤ 0 then "0." ++ zeros (-point) ++ digits
  else if (count : Int) ≤ point then digits ++ zeros (point - count) ++ ".0"
  else first point ++ "." ++ after point

/-- The text of a double. -/
def render (layout : Layout) : Double → String
  | .nan => layout.nan
  | .infinite negative => (if negative then "-" else "") ++ layout.infinity
  | .finite negative mantissa exponent _ =>
    (if negative then "-" else "") ++
      (if mantissa = 0 then "0.0"
      else layout.renderDecimal (Double.shortest mantissa exponent))

end Layout
end EntitySchema.Number
