import PassingStyle.Config.Mark

/-!
# Paths into documents

A path says where in a document a value is. It names the fields that lead to the
value, from the outside in, with dots between them: `a.b` is the field `b` of the
field `a`. A name that is no word is written as a string, and an element of a list
is given by its place, in brackets or, at the start of a path, without them:
`a."b c"`, `a[0]`, `a["b"]`, `0`. The empty path leads to the whole document.

Words that start with an underscore are private names, which no path can mention.
Words that start with a hash sign are allowed, but documents have no such fields.
A path that makes no sense leads nowhere in a way of its own: it is not the same as
a path to a value that is missing.
-/

namespace PassingStyle

open Text

/-- **A step of a path.** -/
inductive PathStep where
  /-- To the field of an object. -/
  | field (name : Text)
  /-- To an element of a list. -/
  | item (place : Nat)
  /-- To a name that documents do not have. -/
  | elsewhere
  deriving DecidableEq, Repr

namespace Document

/-- The value that one step leads to. -/
def follow : PathStep → Document → Option Document
  | .field name, object fields => fields.lookup name
  | .item place, list items => items[place]?
  | _, _ => none

/-- **The value that a path leads to.** -/
def select (d : Document) : List PathStep → Option Document
  | [] => some d
  | step :: steps => (d.follow step).bind fun v => v.select steps

end Document

namespace Path

open Document (Mark)

/-- The step to a name. -/
def named? (name : Text) : Option PathStep :=
  if name.head? = some (byte '_') then none
  else if name.head? = some (byte '#') then some .elsewhere
  else some (.field name)

/-- The largest place that can be given. -/
def lastPlace : Nat := Nat.pow 2 28 - 2

/-- The step to a place. -/
def placed? : Document → Option PathStep
  | .int n => if n.toNat ≤ lastPlace then some (.item n.toNat) else none
  | _ => none

/-- The words that stand for values, and are no names at the start of a path. -/
def constants : List Text := ["null", "true", "false"]

/-- The first step of a path. -/
def first? : Mark → Option PathStep
  | .word name => if constants.contains name then none else named? name
  | .number n => placed? n
  | .string s => some (.field s)
  | _ => none

/-- The steps after the first one; the end of a line may follow the last one. -/
def rest? : List Mark → Option (List PathStep)
  | [] => some []
  | [.lineEnd] => some []
  | .dot :: .word name :: more =>
    match named? name with
    | some step => (rest? more).map (step :: ·)
    | none => none
  | .dot :: .string s :: more =>
    if s.isEmpty then none else (rest? more).map (.field s :: ·)
  | .openList :: .number n :: .closeList :: more =>
    match placed? n with
    | some step => (rest? more).map (step :: ·)
    | none => none
  | .openList :: .string s :: .closeList :: more => (rest? more).map (.field s :: ·)
  | _ => none

/-- **The steps of a path**; nothing if the path makes no sense. -/
def parse? (path : Text) : Option (List PathStep) :=
  if path.isEmpty then some []
  else
    match Mark.read? path with
    | some (m :: marks) =>
      match first? m with
      | some step => (rest? marks).map (step :: ·)
      | none => none
    | _ => none

end Path

end PassingStyle
