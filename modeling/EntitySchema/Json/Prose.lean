import EntitySchema.Json.Printer
import EntitySchema.Text.Printable

/-! A value as it stands in running text. Titles, descriptions and references
ought to be strings, and a string is then taken as it is; any other value is
spelled out, with the strings inside it quoted. -/
namespace EntitySchema.Json

open Number

/-- Doubles are laid out as in documents, apart from the names of the three
that no document can spell. -/
def proseLayout : Layout :=
  { numberLayout with nan := "nan", infinity := "inf" }

/-- Lower-case hexadecimal digits, padded with zeros to a width. -/
def hexPadded (width n : Nat) : List Char :=
  let digits := Nat.toDigits 16 n
  List.replicate (width - digits.length) '0' ++ digits

/-- How one character stands between the quotes `quote`. Characters without a
visible form are spelled by number, in the shortest of three widths. -/
def proseChar (quote : Char) (c : Char) : List Char :=
  let n := c.toNat
  if c = quote || c = '\\' then ['\\', c]
  else if c = '\n' then ['\\', 'n']
  else if c = '\r' then ['\\', 'r']
  else if c = '\t' then ['\\', 't']
  else if 0x20 ≤ n && n < 0x7F then [c]
  else if n < 0x80 then '\\' :: 'x' :: hexPadded 2 n
  else if Text.isPrintable c then [c]
  else if n < 0x100 then '\\' :: 'x' :: hexPadded 2 n
  else if n < 0x10000 then '\\' :: 'u' :: hexPadded 4 n
  else '\\' :: 'U' :: hexPadded 8 n

/-- A quoted string. Single quotes are used unless the string holds one and no
double quote. -/
def proseString (s : String) : String :=
  let chars := s.toList
  let quote := if chars.contains '\'' && !chars.contains '"' then '"' else '\''
  String.ofList (quote :: chars.flatMap (proseChar quote) ++ [quote])

mutual

/-- A value inside a list or an object. -/
def proseItem : Json → String
  | .null => "None"
  | .bool value => if value then "True" else "False"
  | .num value => value.render proseLayout
  | .str value => proseString value
  | .arr items => "[" ++ ", ".intercalate (proseItems items) ++ "]"
  | .obj fields => "\x7b" ++ ", ".intercalate (proseFields fields) ++ "\x7d"

/-- Items spelled out. -/
def proseItems : List Json → List String
  | [] => []
  | item :: rest => proseItem item :: proseItems rest

/-- Fields spelled out. -/
def proseFields : List (String × Json) → List String
  | [] => []
  | (name, value) :: rest => (proseString name ++ ": " ++ proseItem value) :: proseFields rest

end

/-- A value in running text: a string as it is, anything else spelled out. -/
def prose : Json → String
  | .str value => value
  | other => proseItem other

end EntitySchema.Json
