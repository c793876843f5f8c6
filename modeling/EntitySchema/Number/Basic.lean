import EntitySchema.Number.Shortest

/-! Numbers of a document: integers of any size and doubles. The two kinds are
kept apart, because `1` and `1.0` are written differently. -/
namespace EntitySchema

open Number

/-- A number as a document spells it. -/
inductive Num where
  | int (value : Int)
  | float (value : Double)
  deriving DecidableEq, Repr, Inhabited

namespace Num

instance (n : Nat) : OfNat Num n := ⟨.int n⟩

instance : OfScientific Num where
  ofScientific digits negativeExponent exponent :=
    .float (Double.ofDecimal false digits
      (if negativeExponent then -(exponent : Int) else exponent))

/-- The number with its sign turned, zero included. -/
def neg : Num → Num
  | .int value => .int (-value)
  | .float .nan => .float .nan
  | .float (.infinite negative) => .float (.infinite !negative)
  | .float (.finite negative mantissa exponent canonical) =>
    .float (.finite (!negative) mantissa exponent canonical)

instance : Neg Num := ⟨neg⟩

/-- Strictly above zero. -/
def isPositive : Num → Bool
  | .int value => 0 < value
  | .float value => value.isPositive

/-- Zero, of either kind and sign. -/
def isZero : Num → Bool
  | .int value => value == 0
  | .float value => value.isZero

/-- Integers in full, doubles as `layout` has them. -/
def render (layout : Layout) : Num → String
  | .int value => toString value
  | .float value => layout.render value

end Num

namespace Number

/-- Integers of more digits than this are not read. -/
def digitLimit : Nat := 4300

/-- What is said of an integer text with too many digits. -/
def digitLimitMessage (digits : Nat) : String :=
  "Exceeds the limit (" ++ toString digitLimit ++
    " digits) for integer string conversion: value has " ++ toString digits ++
    " digits; use sys.set_int_max_str_digits() to increase the limit"

end Number
end EntitySchema
