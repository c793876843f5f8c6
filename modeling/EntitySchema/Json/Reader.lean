import EntitySchema.Json.Basic
import EntitySchema.Text.Digits
import EntitySchema.Text.Encoding

/-! Documents from text. The reader takes the characters from the front and
hands on the rest; a fault keeps the rest at which it was found, so its line
and column follow from how much of the text was read. -/
namespace EntitySchema.Json

open Number

/-- What is wrong with a text. -/
inductive Reader.Reason where
  | value
  | key
  | colon
  | comma
  | extra
  | unterminated
  | control
  | escape
  | unicodeEscape
  | digits (count : Nat)
  deriving DecidableEq, Repr

/-- A fault and the text from its place on. -/
structure Reader.Fault where
  reason : Reader.Reason
  rest : List Char
  deriving DecidableEq, Repr

namespace Reader

/-- The outcome of reading one thing from the front of a text. -/
abbrev Step (α : Type) := Except Fault (α × List Char)

/-- The four characters that may stand between values. -/
def isSpace (c : Char) : Bool :=
  c == ' ' || c == '\t' || c == '\n' || c == '\r'

/-- The text from its first character that is not a space. -/
def skip (s : List Char) : List Char :=
  s.dropWhile isSpace

/-- The value of a hexadecimal digit. -/
def hexValue? (c : Char) : Option Nat :=
  let n := c.toNat
  if '0'.toNat ≤ n && n ≤ '9'.toNat then some (n - '0'.toNat)
  else if 'a'.toNat ≤ n && n ≤ 'f'.toNat then some (n - 'a'.toNat + 10)
  else if 'A'.toNat ≤ n && n ≤ 'F'.toNat then some (n - 'A'.toNat + 10)
  else none

/-- The number four hexadecimal digits spell. -/
def hexValue4? (a b c d : Char) : Option Nat := do
  let a ← hexValue? a
  let b ← hexValue? b
  let c ← hexValue? c
  let d ← hexValue? d
  pure (((a * 16 + b) * 16 + c) * 16 + d)

/-- The character a one-letter escape stands for. -/
def simpleEscape? (c : Char) : Option Char :=
  if c = '"' || c = '\\' || c = '/' then some c
  else if c = 'b' then some '\x08'
  else if c = 'f' then some '\x0c'
  else if c = 'n' then some '\n'
  else if c = 'r' then some '\r'
  else if c = 't' then some '\t'
  else none

/-- The second half of a surrogate pair at the front of a text. It counts only
when the text goes on after it; a second half that is no low surrogate stays
unread, and a malformed one is a fault of its own. -/
def lowSurrogate (s : List Char) : Except Fault (Option Nat) :=
  match s with
  | '\\' :: 'u' :: a :: b :: c :: d :: _ :: _ =>
    match hexValue4? a b c d with
    | none => .error ⟨.unicodeEscape, s.drop 1⟩
    | some n => .ok (if Text.isLowSurrogate n then some n else none)
  | _ => .ok none

/-- The character of a numbered escape whose digits start at `s`, and how much
of `s` it takes. `start` is the text from the letter `u` on. -/
def unicodeEscape (start s : List Char) : Except Fault (Char × Nat) :=
  match s with
  | a :: b :: c :: d :: next :: rest =>
    match hexValue4? a b c d with
    | none => .error ⟨.unicodeEscape, start⟩
    | some high =>
      if Text.isHighSurrogate high then
        match lowSurrogate (next :: rest) with
        | .error fault => .error fault
        | .ok (some low) => .ok (Text.joinSurrogates high low, 10)
        | .ok none => .ok (Text.charOf high, 4)
      else .ok (Text.charOf high, 4)
  | _ => .error ⟨.unicodeEscape, start⟩

/-- The rest of a string after its opening quote. `opening` is the text from
that quote on, `left` characters belong to the escape read last, and `done`
holds the characters so far, back to front. -/
def stringBody (opening : List Char) (left : Nat) (done : List Char) : List Char → Step String
  | [] => .error ⟨.unterminated, opening⟩
  | c :: rest =>
    match left with
    | left + 1 => stringBody opening left done rest
    | 0 =>
      if c = '"' then .ok (String.ofList done.reverse, rest)
      else if c = '\\' then
        match rest with
        | [] => .error ⟨.unterminated, opening⟩
        | letter :: digits =>
          if letter = 'u' then
            match unicodeEscape rest digits with
            | .error fault => .error fault
            | .ok (found, length) => stringBody opening (length + 1) (found :: done) rest
          else
            match simpleEscape? letter with
            | none => .error ⟨.escape, c :: rest⟩
            | some found => stringBody opening 1 (found :: done) rest
      else if c.toNat < 0x20 then .error ⟨.control, c :: rest⟩
      else stringBody opening 0 (c :: done) rest

/-- An ASCII digit. -/
def isDigit (c : Char) : Bool := '0' ≤ c && c ≤ '9'

/-- The number a run of ASCII digits spells. -/
def digitsValue (digits : List Char) : Nat :=
  Text.ofDigits (digits.map fun c => c.toNat - '0'.toNat)

/-- The digits before the point: a single zero or a run that starts with
another digit. -/
def integerPart? (s : List Char) : Option (List Char × List Char) :=
  match s with
  | [] => none
  | c :: rest =>
    if c = '0' then some ([c], rest)
    else if isDigit c then some (s.takeWhile isDigit, s.dropWhile isDigit)
    else none

/-- The digits after a point, when a point and a digit follow. -/
def fractionPart (s : List Char) : List Char × List Char :=
  match s with
  | '.' :: rest =>
    let digits := rest.takeWhile isDigit
    if digits.isEmpty then ([], s) else (digits, rest.dropWhile isDigit)
  | _ => ([], s)

/-- The exponent, when its mark and at least one digit follow. -/
def exponentPart (s : List Char) : Option Int × List Char :=
  match s with
  | mark :: rest =>
    if mark = 'e' || mark = 'E' then
      let negative := rest.head? == some '-'
      let digits := if negative || rest.head? == some '+' then rest.drop 1 else rest
      let run := digits.takeWhile isDigit
      if run.isEmpty then (none, s)
      else
        let n : Int := digitsValue run
        (some (if negative then -n else n), digits.dropWhile isDigit)
    else (none, s)
  | [] => (none, s)

/-- A number. It is an integer unless a fraction or an exponent was read. -/
def number (s : List Char) : Step Json :=
  let negative := s.head? == some '-'
  match integerPart? (if negative then s.drop 1 else s) with
  | none => .error ⟨.value, s⟩
  | some (whole, afterWhole) =>
    let (fraction, afterFraction) := fractionPart afterWhole
    let (exponent, rest) := exponentPart afterFraction
    if fraction.isEmpty && exponent.isNone then
      if digitLimit < whole.length then .error ⟨.digits whole.length, s⟩
      else
        let n : Int := digitsValue whole
        .ok (.num (.int (if negative then -n else n)), rest)
    else
      .ok (.num (.float (Double.ofDecimal negative (digitsValue (whole ++ fraction))
        (exponent.getD 0 - fraction.length))), rest)

/-- The words that stand for a value. -/
def words : List (List Char × Json) :=
  [("null".toList, .null), ("true".toList, .bool true), ("false".toList, .bool false),
   ("NaN".toList, .num (.float .nan)), ("Infinity".toList, .num (.float (.infinite false))),
   ("-Infinity".toList, .num (.float (.infinite true)))]

/-- A word or a number. -/
def scalar (s : List Char) : Step Json :=
  match words.find? fun word => word.1.isPrefixOf s with
  | some (word, value) => .ok (value, s.drop word.length)
  | none => number s

mutual

/-- A value at the front of a text. The fuel bounds how often values, items and
fields are entered; twice the length of the text suffices. -/
def value : Nat → List Char → Step Json
  | 0, s => .error ⟨.value, s⟩
  | fuel + 1, s =>
    match s with
    | '"' :: rest =>
      match stringBody s 0 [] rest with
      | .error fault => .error fault
      | .ok (text, rest) => .ok (.str text, rest)
    | '[' :: rest =>
      match skip rest with
      | ']' :: rest => .ok (.arr [], rest)
      | inner =>
        match items fuel [] inner with
        | .error fault => .error fault
        | .ok (found, rest) => .ok (.arr found, rest)
    | '\x7b' :: rest =>
      match skip rest with
      | '\x7d' :: rest => .ok (.obj [], rest)
      | inner =>
        match fields fuel [] inner with
        | .error fault => .error fault
        | .ok (found, rest) => .ok (.obj found, rest)
    | _ => scalar s

/-- The items of an array from one of them on, up to the closing bracket;
`done` holds those before it, back to front. -/
def items : Nat → List Json → List Char → Step (List Json)
  | 0, _, s => .error ⟨.value, s⟩
  | fuel + 1, done, s =>
    match value fuel s with
    | .error fault => .error fault
    | .ok (item, rest) =>
      match skip rest with
      | ']' :: rest => .ok ((item :: done).reverse, rest)
      | ',' :: rest => items fuel (item :: done) (skip rest)
      | other => .error ⟨.comma, other⟩

/-- The fields of an object from one of them on, up to the closing brace. A
name that comes again keeps its first place and takes its last value. -/
def fields : Nat → List (String × Json) → List Char → Step (List (String × Json))
  | 0, _, s => .error ⟨.value, s⟩
  | fuel + 1, done, s =>
    match s with
    | '"' :: rest =>
      match stringBody s 0 [] rest with
      | .error fault => .error fault
      | .ok (name, rest) =>
        match skip rest with
        | ':' :: rest =>
          match value fuel (skip rest) with
          | .error fault => .error fault
          | .ok (found, rest) =>
            match skip rest with
            | '\x7d' :: rest => .ok (Entries.put name found done, rest)
            | ',' :: rest => fields fuel (Entries.put name found done) (skip rest)
            | other => .error ⟨.comma, other⟩
        | other => .error ⟨.colon, other⟩
    | _ => .error ⟨.key, s⟩

end

/-- A whole text as one value, with blanks around it. -/
def document (s : List Char) : Except Fault Json :=
  match value (2 * s.length + 2) (skip s) with
  | .error fault => .error fault
  | .ok (found, rest) =>
    match skip rest with
    | [] => .ok found
    | extra => .error ⟨.extra, extra⟩

/-- The words for a reason. -/
def Reason.message : Reason → String
  | .value => "Expecting value"
  | .key => "Expecting property name enclosed in double quotes"
  | .colon => "Expecting ':' delimiter"
  | .comma => "Expecting ',' delimiter"
  | .extra => "Extra data"
  | .unterminated => "Unterminated string starting at"
  | .control => "Invalid control character at"
  | .escape => "Invalid \\escape"
  | .unicodeEscape => "Invalid \\uXXXX escape"
  | .digits count => digitLimitMessage count

/-- A fault with its line, column and place in the text. An integer of too many
digits is reported without a place. -/
def Fault.message (fault : Fault) (s : List Char) : String :=
  match fault.reason with
  | .digits count => digitLimitMessage count
  | reason =>
    let place := s.length - fault.rest.length
    let before := s.take place
    let line := before.count '\n' + 1
    let column := (before.reverse.takeWhile (· != '\n')).length + 1
    reason.message ++ ": line " ++ toString line ++ " column " ++ toString column ++
      " (char " ++ toString place ++ ")"

end Reader

/-- The value a text spells, or what is wrong with it. -/
def parse (s : String) : Except String Json :=
  let chars := s.toList
  (Reader.document chars).mapError (·.message chars)

/-- The value stored in a file, or what is wrong with its bytes or its text. -/
def ofBytes (bytes : List UInt8) : Except String Json :=
  match Text.decode bytes with
  | .error fault => .error fault.message
  | .ok chars => (Reader.document chars).mapError (·.message chars)

end EntitySchema.Json
