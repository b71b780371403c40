import PassingStyle.Text

/-!
# The characters of a text

A text read as characters is a sequence of glyphs: a character where the bytes
are its well-formed encoding, and a stray byte where they are not. Reading
never fails and never loses a byte, since a byte that starts no well-formed
encoding is a glyph of its own and reading goes on with the next one.
-/

namespace PassingStyle

/-- **A glyph** is one encoded character or one byte that belongs to none. -/
inductive Glyph where
  /-- A character, from its well-formed encoding. -/
  | char (c : Char)
  /-- A byte that starts no well-formed encoding. -/
  | stray (b : UInt8)
  deriving DecidableEq, Repr

namespace Glyph

/-- The bytes that a glyph stands for. -/
def bytes : Glyph → Text
  | char c => String.utf8EncodeChar c
  | stray b => [b]

/-- The glyph as a character: a stray byte becomes the replacement character. -/
def mended : Glyph → Glyph
  | stray _ => char (Char.ofNat 0xfffd)
  | g => g

/-- A byte that may continue an encoding. -/
def isTail (b : UInt8) : Bool :=
  0x80 ≤ b && b ≤ 0xbf

/-- The six low bits that a continuing byte carries. -/
def tailBits (b : UInt8) : Nat :=
  b.toNat % 64

/-- `b` may follow `a` at the start of an encoding of three bytes: overlong
forms and surrogates are excluded. -/
def opensThree (a b : UInt8) : Bool :=
  0xe0 ≤ a && a ≤ 0xef && isTail b && (a != 0xe0 || 0xa0 ≤ b) && (a != 0xed || b ≤ 0x9f)

/-- `b` may follow `a` at the start of an encoding of four bytes: overlong
forms and values above the last code point are excluded. -/
def opensFour (a b : UInt8) : Bool :=
  0xf0 ≤ a && a ≤ 0xf4 && isTail b && (a != 0xf0 || 0x90 ≤ b) && (a != 0xf4 || b ≤ 0x8f)

end Glyph

namespace Text

open Glyph

/-- **The glyphs of a text**, from left to right. -/
def glyphs : Text → List Glyph
  | [] => []
  | a :: rest =>
    if a < 0x80 then
      .char (Char.ofNat a.toNat) :: glyphs rest
    else
      match rest with
      | [] => [.stray a]
      | b :: rest₂ =>
        if 0xc2 ≤ a && a ≤ 0xdf && isTail b then
          .char (Char.ofNat (a.toNat % 32 * 64 + tailBits b)) :: glyphs rest₂
        else
          match rest₂ with
          | [] => .stray a :: glyphs (b :: [])
          | c :: rest₃ =>
            if opensThree a b && isTail c then
              .char (Char.ofNat ((a.toNat % 16 * 64 + tailBits b) * 64 + tailBits c))
                :: glyphs rest₃
            else
              match rest₃ with
              | [] => .stray a :: glyphs (b :: c :: [])
              | d :: rest₄ =>
                if opensFour a b && isTail c && isTail d then
                  .char (Char.ofNat
                    (((a.toNat % 8 * 64 + tailBits b) * 64 + tailBits c) * 64 + tailBits d))
                    :: glyphs rest₄
                else
                  .stray a :: glyphs (b :: c :: d :: rest₄)

/-- The bytes of a sequence of glyphs. -/
def ofGlyphs (gs : List Glyph) : Text :=
  gs.flatMap Glyph.bytes

/-- Every byte of the text belongs to an encoded character. -/
def isWellFormed (t : Text) : Bool :=
  t.glyphs.all fun
    | .char _ => true
    | .stray _ => false

/-- The text with the replacement character in place of every stray byte. -/
def mended (t : Text) : Text :=
  ofGlyphs (t.glyphs.map Glyph.mended)

/-- The characters of the text, stray bytes left out. -/
def toString (t : Text) : String :=
  String.ofList (t.glyphs.filterMap fun
    | .char c => some c
    | .stray _ => none)

end Text

end PassingStyle
