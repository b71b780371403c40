import PassingStyle.Text.Quoted

/-!
# Log records

A record says what happened: how important it is, a message, and named values.
It is written as one line of `key=value` pairs, in which a key or a value is
quoted where it could be taken for something else.
-/

namespace PassingStyle

open Text Printable

/-- **The importance of a record**; four named levels, and any integer between
and beyond them. -/
structure Level where
  /-- The rank of the level, zero for ordinary information. -/
  rank : Int
  deriving DecidableEq, Repr

namespace Level

/-- Details of the work. -/
def debug : Level := ⟨-4⟩

/-- Ordinary information. -/
def info : Level := ⟨0⟩

/-- Something unexpected that the work survived. -/
def warn : Level := ⟨4⟩

/-- The work failed. -/
def error : Level := ⟨8⟩

/-- The name of a named level, with the distance to another rank. -/
def offset (name : Text) (distance : Int) : Text :=
  if distance = 0 then name
  else name ++ (if 0 < distance then [byte '+'] else []) ++ ofInt distance

/-- The text of a level: the nearest named level below it and the distance to
that, or the distance to the lowest named level. -/
def print (l : Level) : Text :=
  if l.rank < 0 then offset "DEBUG" (l.rank + 4)
  else if l.rank < 4 then offset "INFO" l.rank
  else if l.rank < 8 then offset "WARN" (l.rank - 4)
  else offset "ERROR" (l.rank - 8)

end Level

/-- A named value. -/
abbrev Attribute := Text × Text

/-- **A log record.** -/
structure Record where
  /-- How important it is. -/
  level : Level
  /-- What happened. -/
  message : Text
  /-- What it happened to. -/
  attributes : List Attribute := []
  deriving DecidableEq, Repr

/-- A glyph that does not stand in a line as it is. -/
def Glyph.needsQuotes : Glyph → Bool
  | .stray _ => true
  | .char c =>
    if c.toNat < 0x80 then c.toNat ≤ 0x20 || c == '"' || c == '='
    else c.toNat == 0xfffd || isBlank c || !isPrintable c

namespace Record

/-- The text cannot stand in a line as it is. -/
def needsQuotes (t : Text) : Bool :=
  t.isEmpty || t.glyphs.any Glyph.needsQuotes

/-- A text as it stands in a line. -/
def field (t : Text) : Text :=
  if needsQuotes t then t.quoted else t

/-- The key of a value inside named groups. -/
def key (groups : Text) (name : Text) : Text :=
  if groups.isEmpty then field name
  else if needsQuotes groups || needsQuotes name then (groups ++ name).quoted
  else groups ++ name

/-- A named value, after the blank that separates it from what comes before. -/
def pair (groups : Text) (a : Attribute) : Text :=
  byte ' ' :: key groups a.1 ++ "=" ++ field a.2

/-- **The line of a record.** The attributes in `before` come first; the
record's own lie inside the groups. -/
def line (before : Text) (groups : Text) (r : Record) : Text :=
  "level=" ++ field r.level.print ++ " msg=" ++ field r.message ++ before
    ++ r.attributes.flatMap (pair groups) ++ "\n"

end Record

end PassingStyle
