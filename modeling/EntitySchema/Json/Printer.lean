import EntitySchema.Json.Basic

/-! Documents as text. The compact form goes into literals and comments; the
indented form is what a command prints. Strings escape what the format demands
and, where the output is to be ASCII, every character beyond it. -/
namespace EntitySchema.Json

open Number

/-- Doubles take positional notation from four zeros after the point up to
sixteen digits before it. -/
def numberLayout : Layout :=
  { least := -4, greatest := 16, exponentWidth := 2, nan := "NaN", infinity := "Infinity" }

/-- Four lower-case hexadecimal digits. -/
def hex4 (n : Nat) : List Char :=
  let digits := Nat.toDigits 16 n
  List.replicate (4 - digits.length) '0' ++ digits

/-- The escape of a character by number, in two units beyond the first plane. -/
def numberEscape (c : Char) : List Char :=
  let n := c.toNat
  if n < 0x10000 then '\\' :: 'u' :: hex4 n
  else
    '\\' :: 'u' :: hex4 (0xD800 + (n - 0x10000) / 1024) ++
      '\\' :: 'u' :: hex4 (0xDC00 + (n - 0x10000) % 1024)

/-- How one character stands inside a string. -/
def escapeChar (ascii : Bool) (c : Char) : List Char :=
  if c = '"' then ['\\', '"']
  else if c = '\\' then ['\\', '\\']
  else if c = '\n' then ['\\', 'n']
  else if c = '\r' then ['\\', 'r']
  else if c = '\t' then ['\\', 't']
  else if c = '\x08' then ['\\', 'b']
  else if c = '\x0c' then ['\\', 'f']
  else if c.toNat < 0x20 || (ascii && 0x7F ≤ c.toNat) then numberEscape c
  else [c]

/-- A string between quotes. -/
def renderString (ascii : Bool) (s : String) : String :=
  "\"" ++ String.ofList (s.toList.flatMap (escapeChar ascii)) ++ "\""

mutual

/-- A document on one line, without blanks. -/
def render : Json → String
  | .null => "null"
  | .bool value => if value then "true" else "false"
  | .num value => value.render numberLayout
  | .str value => renderString false value
  | .arr items => "[" ++ ",".intercalate (renderItems items) ++ "]"
  | .obj fields => "\x7b" ++ ",".intercalate (renderFields fields) ++ "\x7d"

/-- The texts of items. -/
def renderItems : List Json → List String
  | [] => []
  | item :: rest => render item :: renderItems rest

/-- The texts of fields, a colon after each name. -/
def renderFields : List (String × Json) → List String
  | [] => []
  | (name, value) :: rest => (renderString false name ++ ":" ++ render value) :: renderFields rest

end

/-- Lines between brackets, each two blanks deeper than `margin`; nothing at
all between the brackets when there are none. -/
def block (margin opening closing : String) (lines : List String) : String :=
  if lines.isEmpty then opening ++ closing
  else
    let inner := "\n" ++ margin ++ "  "
    opening ++ inner ++ ("," ++ inner).intercalate lines ++ "\n" ++ margin ++ closing

mutual

/-- A document over several lines in ASCII, with `margin` before each line but
the first. -/
def renderIndented (margin : String) : Json → String
  | .null => "null"
  | .bool value => if value then "true" else "false"
  | .num value => value.render numberLayout
  | .str value => renderString true value
  | .arr items => block margin "[" "]" (indentItems (margin ++ "  ") items)
  | .obj fields => block margin "\x7b" "\x7d" (indentFields (margin ++ "  ") fields)

/-- The texts of items, for lines with a margin. -/
def indentItems (margin : String) : List Json → List String
  | [] => []
  | item :: rest => renderIndented margin item :: indentItems margin rest

/-- The texts of fields, for lines with a margin. -/
def indentFields (margin : String) : List (String × Json) → List String
  | [] => []
  | (name, value) :: rest =>
    (renderString true name ++ ": " ++ renderIndented margin value) :: indentFields margin rest

end

end EntitySchema.Json
