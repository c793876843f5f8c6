/-! Bytes of a text file. A document may be stored as UTF-8, UTF-16 or UTF-32;
which of them is found from a byte order mark or, without one, from where the
first bytes are zero, as every document starts with an ASCII character. A byte
sequence that stands for no text is reported with its place. -/
namespace EntitySchema.Text

/-- Which byte of a unit comes first. -/
inductive ByteOrder where
  | little
  | big
  deriving DecidableEq, Repr

/-- A way of storing characters as bytes. -/
inductive Encoding where
  | utf8
  | utf16 (order : ByteOrder)
  | utf32 (order : ByteOrder)
  deriving DecidableEq, Repr

/-- What is wrong with a byte sequence. -/
inductive Decode.Reason where
  | startByte
  | continuationByte
  | endOfData
  | truncated
  | outOfRange
  deriving DecidableEq, Repr

/-- The `length` bytes from place `first` on stand for no character; `byte` is
the first of them. -/
structure Decode.Fault where
  encoding : Encoding
  reason : Decode.Reason
  first : Nat
  length : Nat
  byte : UInt8
  deriving DecidableEq, Repr

/-- Stands in for half of a surrogate pair, which is no character. -/
def replacement : Char := '\uFFFD'

/-- The character of a code point, with `replacement` for a lone surrogate. -/
def charOf (n : Nat) : Char :=
  if n.isValidChar then Char.ofNat n else replacement

namespace Encoding

/-- The name used in messages. -/
def name : Encoding → String
  | .utf8 => "utf-8"
  | .utf16 .little => "utf-16-le"
  | .utf16 .big => "utf-16-be"
  | .utf32 .little => "utf-32-le"
  | .utf32 .big => "utf-32-be"

/-- The bytes that mark an encoding at the start of a file. -/
def mark : Encoding → List UInt8
  | .utf8 => [0xEF, 0xBB, 0xBF]
  | .utf16 .little => [0xFF, 0xFE]
  | .utf16 .big => [0xFE, 0xFF]
  | .utf32 .little => [0xFF, 0xFE, 0x00, 0x00]
  | .utf32 .big => [0x00, 0x00, 0xFE, 0xFF]

end Encoding

/-- A continuation byte of UTF-8. -/
def isTail (b : UInt8) : Bool := 0x80 ≤ b && b ≤ 0xBF

/-- May `second` follow `first` in a sequence of three bytes? Overlong forms
are excluded; surrogates are let through. -/
def isSecondOfThree (first second : UInt8) : Bool :=
  isTail second && (first != 0xE0 || 0xA0 ≤ second)

/-- May `second` follow `first` in a sequence of four bytes? Overlong forms and
numbers beyond the last code point are excluded. -/
def isSecondOfFour (first second : UInt8) : Bool :=
  isTail second && (first != 0xF0 || 0x90 ≤ second) && (first != 0xF4 || second ≤ 0x8F)

/-- The payload of a continuation byte. -/
def tailBits (b : UInt8) : Nat := b.toNat % 64

/-- A three-byte sequence, or how many of its bytes are at fault. A surrogate
counts only when all three bytes are there. -/
def readThree (first : UInt8) : List UInt8 → Except (Decode.Reason × Nat) Char
  | [] => .error (.endOfData, 1)
  | [second] =>
    if isSecondOfThree first second && (first != 0xED || second ≤ 0x9F) then
      .error (.endOfData, 2)
    else .error (.continuationByte, 1)
  | second :: third :: _ =>
    if !isSecondOfThree first second then .error (.continuationByte, 1)
    else if isTail third then
      .ok (charOf ((first.toNat % 16) * 4096 + tailBits second * 64 + tailBits third))
    else if first == 0xED && 0xA0 ≤ second then .error (.continuationByte, 1)
    else .error (.continuationByte, 2)

/-- A four-byte sequence, or how many of its bytes are at fault. -/
def readFour (first : UInt8) : List UInt8 → Except (Decode.Reason × Nat) Char
  | [] => .error (.endOfData, 1)
  | [second] =>
    if isSecondOfFour first second then .error (.endOfData, 2) else .error (.continuationByte, 1)
  | [second, third] =>
    if !isSecondOfFour first second then .error (.continuationByte, 1)
    else if isTail third then .error (.endOfData, 3)
    else .error (.continuationByte, 2)
  | second :: third :: fourth :: _ =>
    if !isSecondOfFour first second then .error (.continuationByte, 1)
    else if !isTail third then .error (.continuationByte, 2)
    else if !isTail fourth then .error (.continuationByte, 3)
    else
      .ok (charOf ((first.toNat % 8) * 262144 + tailBits second * 4096 +
        tailBits third * 64 + tailBits fourth))

/-- A two-byte sequence, or how many of its bytes are at fault. -/
def readTwo (first : UInt8) : List UInt8 → Except (Decode.Reason × Nat) Char
  | [] => .error (.endOfData, 1)
  | second :: _ =>
    if isTail second then .ok (charOf ((first.toNat % 32) * 64 + tailBits second))
    else .error (.continuationByte, 1)

/-- The first character of UTF-8 bytes and how many bytes follow its first,
or the reason and length of a fault there. -/
def readUtf8 (first : UInt8) (rest : List UInt8) :
    Except (Decode.Reason × Nat) (Char × Nat) :=
  if first < 0x80 then .ok (charOf first.toNat, 0)
  else if first < 0xC2 then .error (.startByte, 1)
  else if first < 0xE0 then (readTwo first rest).map (·, 1)
  else if first < 0xF0 then (readThree first rest).map (·, 2)
  else if first < 0xF5 then (readFour first rest).map (·, 3)
  else .error (.startByte, 1)

/-- Decodes UTF-8 from byte `position` on. `skip` bytes belong to the character
read last, and `done` holds the characters so far, back to front. -/
def decodeUtf8 (position skip : Nat) (done : List Char) :
    List UInt8 → Except Decode.Fault (List Char)
  | [] => .ok done.reverse
  | first :: rest =>
    match skip with
    | skip + 1 => decodeUtf8 (position + 1) skip done rest
    | 0 =>
      match readUtf8 first rest with
      | .ok (c, more) => decodeUtf8 (position + 1) more (c :: done) rest
      | .error (reason, length) => .error ⟨.utf8, reason, position, length, first⟩

/-- The number two bytes spell. -/
def unit16 (order : ByteOrder) (a b : UInt8) : Nat :=
  match order with
  | .little => b.toNat * 256 + a.toNat
  | .big => a.toNat * 256 + b.toNat

/-- The number four bytes spell. -/
def unit32 (order : ByteOrder) (a b c d : UInt8) : Nat :=
  match order with
  | .little => unit16 .little c d * 65536 + unit16 .little a b
  | .big => unit16 .big a b * 65536 + unit16 .big c d

/-- The first half of a surrogate pair. -/
def isHighSurrogate (n : Nat) : Bool := 0xD800 ≤ n && n < 0xDC00

/-- The second half of a surrogate pair. -/
def isLowSurrogate (n : Nat) : Bool := 0xDC00 ≤ n && n < 0xE000

/-- The character a surrogate pair stands for. -/
def joinSurrogates (high low : Nat) : Char :=
  charOf (0x10000 + (high - 0xD800) * 1024 + (low - 0xDC00))

/-- UTF-16 units of a byte sequence from `position` on, in pairs of bytes. -/
def units16 (order : ByteOrder) (position : Nat) (done : List Nat) :
    List UInt8 → Except Decode.Fault (List Nat)
  | [] => .ok done.reverse
  | [a] => .error ⟨.utf16 order, .truncated, position, 1, a⟩
  | a :: b :: rest => units16 order (position + 2) (unit16 order a b :: done) rest

/-- Characters of UTF-16 units, surrogate pairs joined. -/
def charsOfUnits (done : List Char) : List Nat → List Char
  | [] => done.reverse
  | [n] => (charOf n :: done).reverse
  | n :: m :: rest =>
    if isHighSurrogate n && isLowSurrogate m then charsOfUnits (joinSurrogates n m :: done) rest
    else charsOfUnits (charOf n :: done) (m :: rest)

/-- Decodes UTF-16 from byte `position` on. -/
def decodeUtf16 (order : ByteOrder) (position : Nat) (bytes : List UInt8) :
    Except Decode.Fault (List Char) :=
  (units16 order position [] bytes).map (charsOfUnits [])

/-- Decodes UTF-32 from byte `position` on. -/
def decodeUtf32 (order : ByteOrder) (position : Nat) (done : List Char) :
    List UInt8 → Except Decode.Fault (List Char)
  | [] => .ok done.reverse
  | a :: b :: c :: d :: rest =>
    let n := unit32 order a b c d
    if n < 0x110000 then decodeUtf32 order (position + 4) (charOf n :: done) rest
    else .error ⟨.utf32 order, .outOfRange, position, 4, a⟩
  | a :: short => .error ⟨.utf32 order, .truncated, position, short.length + 1, a⟩

namespace Encoding

/-- The characters of bytes in a known encoding, the first byte standing at
`position` of its file. -/
def decodeFrom (encoding : Encoding) (position : Nat) (bytes : List UInt8) :
    Except Decode.Fault (List Char) :=
  match encoding with
  | .utf8 => decodeUtf8 position 0 [] bytes
  | .utf16 order => decodeUtf16 order position bytes
  | .utf32 order => decodeUtf32 order position [] bytes

/-- The bytes of one character in UTF-8. -/
def utf8Bytes (c : Char) : List UInt8 :=
  let n := c.toNat
  let tail (bits : Nat) : UInt8 := UInt8.ofNat (0x80 + bits % 64)
  if n < 0x80 then [UInt8.ofNat n]
  else if n < 0x800 then [UInt8.ofNat (0xC0 + n / 64), tail n]
  else if n < 0x10000 then [UInt8.ofNat (0xE0 + n / 4096), tail (n / 64), tail n]
  else [UInt8.ofNat (0xF0 + n / 262144), tail (n / 4096), tail (n / 64), tail n]

/-- A unit of two bytes. -/
def bytes16 (order : ByteOrder) (n : Nat) : List UInt8 :=
  match order with
  | .little => [UInt8.ofNat (n % 256), UInt8.ofNat (n / 256)]
  | .big => [UInt8.ofNat (n / 256), UInt8.ofNat (n % 256)]

/-- The bytes of one character in UTF-16. -/
def utf16Bytes (order : ByteOrder) (c : Char) : List UInt8 :=
  let n := c.toNat
  if n < 0x10000 then bytes16 order n
  else
    bytes16 order (0xD800 + (n - 0x10000) / 1024) ++
      bytes16 order (0xDC00 + (n - 0x10000) % 1024)

/-- The bytes of one character in UTF-32. -/
def utf32Bytes (order : ByteOrder) (c : Char) : List UInt8 :=
  let n := c.toNat
  match order with
  | .little => bytes16 .little (n % 65536) ++ bytes16 .little (n / 65536)
  | .big => bytes16 .big (n / 65536) ++ bytes16 .big (n % 65536)

/-- The bytes of a text, without a byte order mark. -/
def encode (encoding : Encoding) (s : List Char) : List UInt8 :=
  match encoding with
  | .utf8 => s.flatMap utf8Bytes
  | .utf16 order => s.flatMap (utf16Bytes order)
  | .utf32 order => s.flatMap (utf32Bytes order)

/-- The encoding a byte order mark names. The four-byte marks go first, since
one of them starts with a two-byte mark. -/
def ofMark? (bytes : List UInt8) : Option Encoding :=
  [.utf32 .big, .utf32 .little, .utf16 .big, .utf16 .little, .utf8].find?
    fun encoding => encoding.mark.isPrefixOf bytes

/-- The encoding of bytes without a mark, from which of the first are zero. -/
def ofZeros : List UInt8 → Encoding
  | a :: b :: c :: d :: _ =>
    if a == 0 then (if b == 0 then .utf32 .big else .utf16 .big)
    else if b == 0 then (if c == 0 && d == 0 then .utf32 .little else .utf16 .little)
    else .utf8
  | [a, b] =>
    if a == 0 then .utf16 .big else if b == 0 then .utf16 .little else .utf8
  | _ => .utf8

end Encoding

/-- The characters of a file. Places in a fault count from the start of the
file, except that a UTF-8 mark is taken off before counting. -/
def decode (bytes : List UInt8) : Except Decode.Fault (List Char) :=
  match Encoding.ofMark? bytes with
  | some encoding =>
    let length := encoding.mark.length
    encoding.decodeFrom (if encoding = .utf8 then 0 else length) (bytes.drop length)
  | none => (Encoding.ofZeros bytes).decodeFrom 0 bytes

namespace Decode

/-- The words for what is wrong. -/
def Reason.message : Reason → String
  | .startByte => "invalid start byte"
  | .continuationByte => "invalid continuation byte"
  | .endOfData => "unexpected end of data"
  | .truncated => "truncated data"
  | .outOfRange => "code point not in range(0x110000)"

/-- Two lower-case hexadecimal digits. -/
def hexByte (b : UInt8) : String :=
  let digits := Nat.toDigits 16 b.toNat
  String.ofList (List.replicate (2 - digits.length) '0' ++ digits)

/-- What is said of bytes that stand for no text. A single byte is shown, more
of them by their places alone. -/
def Fault.message (fault : Fault) : String :=
  let place :=
    if fault.length = 1 then
      "byte 0x" ++ hexByte fault.byte ++ " in position " ++ toString fault.first
    else
      "bytes in position " ++ toString fault.first ++ "-" ++
        toString (fault.first + fault.length - 1)
  "'" ++ fault.encoding.name ++ "' codec can't decode " ++ place ++ ": " ++ fault.reason.message

end Decode
end EntitySchema.Text
