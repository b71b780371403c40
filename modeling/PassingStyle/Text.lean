/-!
# Texts as byte strings

Program texts, file contents and messages are strings of bytes. Positions in
them count bytes, and nothing forces the bytes to be the encoding of
characters: a reader that is given a broken text has to report exactly the
bytes it skipped. The type is therefore a plain list of bytes, and a string
literal stands for its encoding.
-/

namespace PassingStyle

/-- **A text** is a string of bytes. -/
abbrev Text := List UInt8

namespace Text

/-- The encoding of a string, character by character. -/
def ofString (s : String) : Text :=
  s.toList.flatMap String.utf8EncodeChar

/-- A string literal may be written wherever a text is expected. -/
instance : Coe String Text := ⟨ofString⟩

/-- The byte of an ASCII character. -/
abbrev byte (c : Char) : UInt8 := c.toUInt8

/-- The decimal digits of a number, most significant first. -/
def ofNat (n : Nat) : Text :=
  (Nat.toDigits 10 n).map Char.toUInt8

/-- The decimal digits of an integer, after a minus sign if it is negative. -/
def ofInt : Int → Text
  | .ofNat n => ofNat n
  | .negSucc n => byte '-' :: ofNat (n + 1)

/-- The last `width` hexadecimal digits of a number, in lower case. -/
def hex (width n : Nat) : Text :=
  match width with
  | 0 => []
  | w + 1 => hex w (n / 16) ++ [(Nat.digitChar (n % 16)).toUInt8]

/-- The texts of a list, one after the other with `sep` between neighbours. -/
def join (sep : Text) (parts : List Text) : Text :=
  sep.intercalate parts

/-- `b` is one of the digits `0` to `9`. -/
def isDigit (b : UInt8) : Bool :=
  byte '0' ≤ b && b ≤ byte '9'

/-- The number that a string of decimal digits denotes. -/
def digitsValue (digits : Text) : Nat :=
  digits.foldl (fun n b => 10 * n + (b - byte '0').toNat) 0

/-- The text with its ASCII letters in lower case. -/
def lower (t : Text) : Text :=
  t.map fun b => if byte 'A' ≤ b && b ≤ byte 'Z' then b + 32 else b

/-- The text begins with `head`. -/
def startsWith (t head : Text) : Bool :=
  head.isPrefixOf t

/-- The text after `head`, if it begins with that. -/
def dropHead? (t head : Text) : Option Text :=
  if head.isPrefixOf t then some (t.drop head.length) else none

/-- The order of texts byte by byte, in which a text comes after its own
beginnings. -/
def le (a b : Text) : Bool :=
  decide (a ≤ b)

/-- The texts in ascending order. -/
def sorted (ts : List Text) : List Text :=
  ts.mergeSort le

end Text

end PassingStyle
