import PassingStyle.Text.Glyph

/-!
# Keys of a journal

A journal has a small alphabet for the names of its fields: capital letters,
digits and the underscore. A key is brought into it by turning letters into
capitals and everything foreign into an underscore, glyph by glyph.
-/

namespace PassingStyle

open Text

namespace JournalKey

/-- The capital of a letter, as far as it is one of the letters A to Z: besides
the small letters, the dotless i and the long s have such a capital. -/
def capital (c : Char) : Char :=
  if 'a' ≤ c ∧ c ≤ 'z' then Char.ofNat (c.toNat - 32)
  else if c.toNat = 0x131 then 'I'
  else if c.toNat = 0x17f then 'S'
  else c

/-- The character belongs to the alphabet. -/
def isAllowed (c : Char) : Bool :=
  ('A' ≤ c && c ≤ 'Z') || ('0' ≤ c && c ≤ '9')

/-- What a glyph becomes. -/
def letter : Glyph → UInt8
  | .stray _ => byte '_'
  | .char c => if isAllowed (capital c) then (capital c).toUInt8 else byte '_'

end JournalKey

/-- **The key of a field** in a journal. -/
def journalKey (t : Text) : Text :=
  t.glyphs.map JournalKey.letter

end PassingStyle
