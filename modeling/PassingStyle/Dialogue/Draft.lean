import PassingStyle.Text.Glyph

/-!
# A line while it is typed

Whatever is given in place of a user is taken for the keys that the user hits. Most
keys put a character into the line, to the left of the cursor; the control keys move
the cursor, take parts of the line away or end the line. A key that can do nothing
rings a bell.

What was cut out last can be put in again, also into a later line.
-/

namespace PassingStyle

open Text

/-- **A line while it is typed**, which the cursor divides. -/
structure Draft where
  /-- What is to the left of the cursor, backwards. -/
  before : List Glyph := []
  /-- What is to the right of the cursor. -/
  after : List Glyph := []
  /-- What was cut out last. -/
  cut : List Glyph := []
  deriving DecidableEq, Repr

/-- **What a key leads to.** -/
inductive Keystroke where
  /-- The typing goes on. -/
  | typing (draft : Draft)
  /-- The terminal writes something, and the typing goes on. -/
  | signal (text : Text) (draft : Draft)
  /-- The line is done. -/
  | entered
  /-- The user interrupts. -/
  | interrupted
  /-- There will be no more lines. -/
  | ended
  deriving DecidableEq, Repr

namespace Draft

/-- The glyphs of the line. -/
def glyphs (d : Draft) : List Glyph :=
  d.before.reverse ++ d.after

/-- The text of the line. -/
def text (d : Draft) : Text :=
  ofGlyphs d.glyphs

/-- There is nothing in the line. -/
def isEmpty (d : Draft) : Bool :=
  d.before.isEmpty && d.after.isEmpty

/-- An empty line, which takes the place of this one. -/
def next (d : Draft) : Draft :=
  { cut := d.cut }

/-- The sound of a bell. -/
def bell : Text := [0x07]

/-- The code that brings the cursor of a terminal to the upper left. -/
def home : Text := "\x1b[H"

/-! ## Editing -/

/-- A glyph is put in. -/
def type (g : Glyph) (d : Draft) : Draft :=
  { d with before := g :: d.before }

/-- The cursor goes to the start of the line. -/
def toStart (d : Draft) : Draft :=
  { d with before := [], after := d.glyphs }

/-- The cursor goes to the end of the line. -/
def toEnd (d : Draft) : Draft :=
  { d with before := d.glyphs.reverse, after := [] }

/-- The cursor goes to the left. -/
def left (d : Draft) : Draft :=
  match d.before with
  | [] => d
  | g :: gs => { d with before := gs, after := g :: d.after }

/-- The cursor goes to the right. -/
def right (d : Draft) : Draft :=
  match d.after with
  | [] => d
  | g :: gs => { d with before := g :: d.before, after := gs }

/-- What is to the right of the cursor is cut out. -/
def cutAfter (d : Draft) : Draft :=
  { d with after := [], cut := d.after }

/-- What is to the left of the cursor is cut out. -/
def cutBefore (d : Draft) : Draft :=
  if d.before.isEmpty then d else { d with before := [], cut := d.before.reverse }

/-- What was cut out last is put in. -/
def paste (d : Draft) : Draft :=
  { d with before := d.cut.reverse ++ d.before }

/-- The glyph belongs to a word. -/
def isOfWord : Glyph → Bool
  | .char c => c.isAlphanum
  | .stray _ => false

/-- How many glyphs, backwards from the cursor, there are up to the start of a word
that something else comes before. -/
def wordLength? : List Glyph → Option Nat
  | g :: g' :: gs =>
    if isOfWord g && !isOfWord g' then some 1 else (wordLength? (g' :: gs)).map (· + 1)
  | _ => none

/-- The word to the left of the cursor is cut out. If the line starts with that word,
the whole line is dropped. -/
def cutWord (d : Draft) : Draft :=
  if d.before.isEmpty then d
  else
    match wordLength? d.before with
    | some n => { d with before := d.before.drop n, cut := (d.before.take n).reverse }
    | none => d.next

/-- The two glyphs at the cursor change places; at the end of the line, the last
two. -/
def swap (d : Draft) : Draft :=
  match d.before, d.after with
  | a :: before, b :: after => { d with before := a :: b :: before, after }
  | a :: b :: before, [] => { d with before := b :: a :: before }
  | [], a :: b :: after => { d with before := [a, b], after }
  | [], [a] => { d with before := [a], after := [] }
  | _, _ => d

/-! ## Keys -/

/-- The glyph to the left of the cursor is taken away. -/
def eraseLeft (d : Draft) : Keystroke :=
  if d.isEmpty then .signal bell d else .typing { d with before := d.before.drop 1 }

/-- The glyph to the right of the cursor is taken away; in an empty line, this is the
end of the input. -/
def eraseRight (d : Draft) : Keystroke :=
  if d.isEmpty then .ended
  else if d.after.isEmpty then .signal bell d
  else .typing { d with after := d.after.drop 1 }

/-- The line is done; an empty one is the end of the input. -/
def finish (d : Draft) : Keystroke :=
  if d.isEmpty then .ended else .entered

/-- **What a key does**, by the number of its character. -/
def press (g : Glyph) (d : Draft) : Keystroke :=
  match g.mended with
  | .stray b => .typing (d.type (.stray b))
  | .char c =>
    match c.toNat with
    | 0 => d.finish
    | 1 => .typing d.toStart
    | 2 => .typing d.left
    | 3 => .interrupted
    | 4 => d.eraseRight
    | 5 => .typing d.toEnd
    | 6 => .typing d.right
    | 7 => .typing d
    | 8 | 127 => d.eraseLeft
    | 9 => .signal bell d
    | 10 | 13 => .entered
    | 11 => .typing d.cutAfter
    | 12 => .signal home d
    | 20 => .typing d.swap
    | 21 => .typing d.cutBefore
    | 23 => .typing d.cutWord
    | 25 => .typing d.paste
    | _ => .typing (d.type (.char c))

end Draft

end PassingStyle
