/-! Blank characters and line breaks of plain text. Documentation is cut into
lines here before it goes into a comment, and a reference made of blanks alone
counts as empty. Both classes are the Unicode ones, so a no-break space is
blank and a line separator ends a line. -/
namespace EntitySchema.Text

/-- Unicode white space, together with the four information separators. A
zero-width space and a byte order mark are not blank. -/
def isBlank (c : Char) : Bool :=
  let n := c.toNat
  (9 ≤ n && n ≤ 13) || (28 ≤ n && n ≤ 32) || n == 0x85 || n == 0xA0 || n == 0x1680 ||
    (0x2000 ≤ n && n ≤ 0x200A) || n == 0x2028 || n == 0x2029 || n == 0x202F ||
    n == 0x205F || n == 0x3000

/-- The text without the blanks at its end. -/
def trimEnd (s : List Char) : List Char :=
  (s.reverse.dropWhile isBlank).reverse

/-- Characters that end a line. A carriage return followed by a line feed is
one ending, which `splitLines` sees to. -/
def endsLine (c : Char) : Bool :=
  let n := c.toNat
  (10 ≤ n && n ≤ 13) || (28 ≤ n && n ≤ 30) || n == 0x85 || n == 0x2028 || n == 0x2029

/-- Lines of a text, `current` holding the line under way back to front. The
last line counts only when it is not empty, so a final ending opens none. -/
def splitLinesFrom (current : List Char) : List Char → List (List Char)
  | [] => if current.isEmpty then [] else [current.reverse]
  | '\r' :: '\n' :: rest => current.reverse :: splitLinesFrom [] rest
  | c :: rest =>
    if endsLine c then current.reverse :: splitLinesFrom [] rest
    else splitLinesFrom (c :: current) rest

/-- The lines of a text, without their endings. -/
def splitLines (s : List Char) : List (List Char) :=
  splitLinesFrom [] s

private theorem splitLinesFrom_filled {current s : List Char} (filled : current ≠ [] ∨ s ≠ []) :
    splitLinesFrom current s ≠ [] := by
  fun_induction splitLinesFrom current s with
  | case1 current empty => simp_all
  | case2 current begun => simp
  | case3 current rest => simp
  | case4 current c rest _ ends => simp
  | case5 current c rest _ within ih => exact ih (.inl (List.cons_ne_nil c current))

/-- A text with any character in it has a line, be the character a line break. -/
theorem splitLines_filled {s : List Char} (filled : s ≠ []) : splitLines s ≠ [] :=
  splitLinesFrom_filled (.inr filled)

end EntitySchema.Text
