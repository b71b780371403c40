import PassingStyle.Text.Lowercase

/-!
# Misspelled names

The distance of two texts is the least number of bytes that have to be inserted,
removed or replaced to turn one into the other. It is computed row by row: the row
of a text holds its distances to all beginnings of the other text.

A name is taken for a misspelling of another one if fewer than half of its bytes
are wrong, case and underscores aside.
-/

namespace PassingStyle

namespace Text

/-- The rest of the row that follows `row` when the text grows by `b`; `left` is
the entry before it. -/
def nextRow (b : UInt8) : Text → List Nat → Nat → List Nat
  | c :: cs, diagonal :: above :: row, left =>
    let here := min (min (left + 1) (above + 1)) (diagonal + if b = c then 0 else 1)
    here :: nextRow b cs (above :: row) here
  | _, _, _ => []

/-- The row that follows when the text grows by `b`. -/
def growRow (target : Text) (row : List Nat) (b : UInt8) : List Nat :=
  let first := row.headD 0 + 1
  first :: nextRow b target row first

/-- **The distance of two texts.** -/
def distance (t target : Text) : Nat :=
  (t.foldl (growRow target) (List.range (target.length + 1))).getLastD 0

/-- A name as far as its spelling matters: small letters, and no underscores. -/
def folded (name : Text) : Text :=
  lowercase (name.filter (· != byte '_'))

/-- `name` could be meant for `candidate`. -/
def isMisspelled (name candidate : Text) : Bool :=
  distance (folded name) (folded candidate) < ((folded name).length + 1) / 2

end Text

end PassingStyle
