/-! Double-precision numbers as exact integers. A finite number is a mantissa
times a power of two, kept in the one form its format allows, so two of them
are the same number with the same sign exactly when they are equal here. A
decimal text is read by rounding its exact value to the nearest double. -/
namespace EntitySchema.Number

/-- A power of two. -/
def twoTo (n : Nat) : Nat := Nat.pow 2 n

/-- A power of ten. -/
def tenTo (n : Nat) : Nat := Nat.pow 10 n

/-- Mantissas stay below this bound. -/
def mantissaBound : Nat := twoTo 53

/-- The exponent of the smallest numbers, zero among them. -/
def leastExponent : Int := -1074

/-- The exponent of the largest finite numbers. -/
def greatestExponent : Int := 971

/-- The one form of a finite number: its mantissa has full length, unless the
exponent is the least one. -/
def IsCanonical (mantissa : Nat) (exponent : Int) : Prop :=
  mantissa < mantissaBound ∧ leastExponent ≤ exponent ∧ exponent ≤ greatestExponent ∧
    (mantissaBound ≤ 2 * mantissa ∨ exponent = leastExponent)

instance (mantissa : Nat) (exponent : Int) : Decidable (IsCanonical mantissa exponent) :=
  inferInstanceAs (Decidable (_ ∧ _ ∧ _ ∧ (_ ∨ _)))

/-- A double. A finite one stands for `mantissa · 2 ^ exponent`. -/
inductive Double where
  | nan
  | infinite (negative : Bool)
  | finite (negative : Bool) (mantissa : Nat) (exponent : Int)
      (canonical : IsCanonical mantissa exponent)
  deriving DecidableEq, Repr, Inhabited

namespace Double

/-- Zero, which keeps its sign. -/
def zero (negative : Bool) : Double :=
  .finite negative 0 leastExponent (by decide)

/-- The quotient rounded to the nearest integer, a half going to the even one. -/
def roundQuotient (num den : Nat) : Nat :=
  let low := num / den
  let twice := 2 * (num % den)
  if twice < den then low
  else if den < twice then low + 1
  else if low % 2 = 0 then low
  else low + 1

/-- `num / den · 2 ^ (-exponent)` as a fraction of naturals. -/
def scaleDown (num den : Nat) (exponent : Int) : Nat × Nat :=
  if exponent < 0 then (num * twoTo exponent.natAbs, den) else (num, den * twoTo exponent.natAbs)

/-- The number of a rounded mantissa. A mantissa that was rounded up to the
bound takes the next exponent, and what is too large for any is infinite. -/
def ofRounded (negative : Bool) (mantissa : Nat) (exponent : Int) : Double :=
  let carried := mantissa == mantissaBound
  let mantissa := if carried then mantissaBound / 2 else mantissa
  let exponent := if carried then exponent + 1 else exponent
  if canonical : IsCanonical mantissa exponent then
    .finite negative mantissa exponent canonical
  else .infinite negative

/-- The exponent at which a positive fraction has a mantissa of full length,
or the least exponent when the fraction is too small for that. -/
def exponentOf (num den : Nat) : Int :=
  let guess : Int := (num.log2 : Int) - (den.log2 : Int) - 52
  let scaled := scaleDown num den guess
  let exact := if scaled.1 < scaled.2 * (mantissaBound / 2) then guess - 1 else guess
  max leastExponent exact

/-- The double nearest to a fraction. -/
def ofFraction (negative : Bool) (num den : Nat) : Double :=
  if num = 0 then zero negative
  else
    let exponent := exponentOf num den
    let scaled := scaleDown num den exponent
    ofRounded negative (roundQuotient scaled.1 scaled.2) exponent

/-- How many digits a number has in base ten. -/
def digitCount (n : Nat) : Nat := (Nat.toDigits 10 n).length

/-- The double nearest to `digits · 10 ^ exponent`. Numbers beyond every double
are settled first, so a huge exponent is never expanded. -/
def ofDecimal (negative : Bool) (digits : Nat) (exponent : Int) : Double :=
  if digits = 0 then zero negative
  else
    let magnitude := (digitCount digits : Int) + exponent
    if 310 < magnitude then .infinite negative
    else if magnitude < -330 then zero negative
    else if exponent < 0 then ofFraction negative digits (tenTo exponent.natAbs)
    else ofFraction negative (digits * tenTo exponent.natAbs) 1

/-- Strictly above zero; no comparison holds of a NaN. -/
def isPositive : Double → Bool
  | .nan => false
  | .infinite negative => !negative
  | .finite negative mantissa _ _ => !negative && mantissa != 0

/-- Zero of either sign. -/
def isZero : Double → Bool
  | .finite _ mantissa _ _ => mantissa == 0
  | _ => false

end Double
end EntitySchema.Number
