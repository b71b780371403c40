import PassingStyle.Text.Glyph
import PassingStyle.Text.Printable

/-!
# Quoted texts

A text inside a message is written between double quotes, with escapes for
whatever a reader could not see or could take for the closing quote. The form
of each escape depends on the glyph alone, so a quoted text is the
concatenation of its escaped glyphs.

The module also holds the trimming of white space at both ends, which needs
the same view of a text as a sequence of glyphs.
-/

namespace PassingStyle

open Printable Text

/-- The letter of the escape that stands for a control character, if it has
one. -/
def Glyph.escapeLetter? : Nat → Option Char
  | 7 => some 'a'
  | 8 => some 'b'
  | 9 => some 't'
  | 10 => some 'n'
  | 11 => some 'v'
  | 12 => some 'f'
  | 13 => some 'r'
  | _ => none

/-- A glyph as a quoted text shows it. -/
def Glyph.escaped : Glyph → Text
  | .stray b => "\\x" ++ hex 2 b.toNat
  | .char c =>
    if c = '"' ∨ c = '\\' then [byte '\\', c.toUInt8]
    else if isPrintable c then String.utf8EncodeChar c
    else
      match escapeLetter? c.toNat with
      | some l => [byte '\\', l.toUInt8]
      | none =>
        if c.toNat < 0x80 then "\\x" ++ hex 2 c.toNat
        else if c.toNat < 0x10000 then "\\u" ++ hex 4 c.toNat
        else "\\U" ++ hex 8 c.toNat

namespace Text

/-- **The quoted form of a text.** -/
def quoted (t : Text) : Text :=
  byte '"' :: t.glyphs.flatMap Glyph.escaped ++ [byte '"']

/-- A glyph that trimming removes. -/
def isBlankGlyph : Glyph → Bool
  | .char c => isBlank c
  | .stray _ => false

/-- The text without the white space at its two ends. -/
def trim (t : Text) : Text :=
  ofGlyphs (((t.glyphs.dropWhile isBlankGlyph).reverse.dropWhile isBlankGlyph).reverse)

end Text

end PassingStyle
