import PassingStyle.Sexp

/-!
# Patterns

A pattern describes the shape of an expression and names parts of it. Inside a
list, a *rest* takes all elements that are left, so that nothing after it is
looked at; anywhere else it matches nothing. A name that occurs twice keeps the
last part it was given.

Patterns can be written as expressions: `_` is a wildcard, `$x` names an
expression, `..x` names a rest, and every other atom stands for itself. A rest
written that way has to come last. A pattern put together by hand may hold
anything, even a missing pattern, on which matching comes to a halt as soon as it
has to look at it.
-/

namespace PassingStyle

open Text

/-- **A pattern.** -/
inductive Pattern where
  /-- Matches any expression. -/
  | wildcard
  /-- Matches any expression and names it. -/
  | capture (name : Text)
  /-- Matches the elements of a list that are left and names their list. -/
  | rest (name : Text)
  /-- Matches the expressions equal to this one. -/
  | literal (value : Sexp)
  /-- Matches a list element by element. -/
  | seq (items : List Pattern)
  /-- No pattern at all. -/
  | absent
  deriving Repr

instance : Inhabited Pattern := ⟨.absent⟩

/-- The parts of an expression that a match has named. -/
abbrev Bindings := List (Text × Sexp)

namespace Bindings

/-- The bindings with one name set anew. -/
def put (b : Bindings) (name : Text) (value : Sexp) : Bindings :=
  (name, value) :: b.filter fun entry => entry.1 != name

/-- The bindings in ascending order of their names. -/
def sorted (b : Bindings) : Bindings :=
  b.mergeSort fun x y => x.1.le y.1

end Bindings

/-- **Why an expression is no pattern, or a pattern cannot be matched.** -/
inductive PatternError where
  /-- A rest is followed by more elements of its list. -/
  | restNotLast (rest whole : Sexp)
  /-- There is no expression to take for a pattern. -/
  | noExpression
  /-- Matching came to a missing pattern. -/
  | noPattern

/-- What is reported about a pattern error. -/
def PatternError.message : PatternError → Text
  | .restNotLast rest whole => "rest capture " ++ rest.print ++ " must be last in " ++ whole.print
  | .noExpression => "nil pattern"
  | .noPattern => "unknown pattern <nil>"

namespace Pattern

/-- The pattern that a symbol denotes. -/
def ofSymbol (s : Text) : Pattern :=
  if s = "_" then wildcard
  else
    match s.dropHead? "$", s.dropHead? ".." with
    | some (b :: name), _ => capture (b :: name)
    | _, some (b :: name) => rest (b :: name)
    | _, _ => literal (.symbol s)

/-- The pattern is a rest. -/
def isRest : Pattern → Bool
  | rest _ => true
  | _ => false

mutual

/-- **The pattern that an expression denotes.** -/
def ofSexp : Sexp → Except PatternError Pattern
  | .absent => .error .noExpression
  | .symbol s => .ok (ofSymbol s)
  | .list xs => return seq (← ofSexps (.list xs) xs)
  | e => .ok (literal e)

/-- The patterns of the elements of the list `whole`. -/
def ofSexps (whole : Sexp) : List Sexp → Except PatternError (List Pattern)
  | [] => .ok []
  | x :: xs => do
    let p ← ofSexp x
    if p.isRest && !xs.isEmpty then throw (.restNotLast x whole)
    return p :: (← ofSexps whole xs)

end

mutual

/-- Matching one expression, given the bindings made so far. -/
def bind (e : Sexp) : Pattern → Bindings → Except PatternError (Option Bindings)
  | wildcard, b => .ok (some b)
  | capture name, b => .ok (some (b.put name e))
  | rest _, _ => .ok none
  | literal value, b => .ok (if value.equal e then some b else none)
  | seq ps, b =>
    match e with
    | .list items => bindSeq items ps b
    | _ => .ok none
  | absent, _ => .error .noPattern

/-- Matching the elements of a list, given the bindings made so far. -/
def bindSeq : List Sexp → List Pattern → Bindings → Except PatternError (Option Bindings)
  | items, rest name :: _, b => .ok (some (b.put name (.list items)))
  | [], [], b => .ok (some b)
  | [], _ :: _, _ => .ok none
  | _ :: _, [], _ => .ok none
  | x :: xs, p :: ps, b => do
    match ← bind x p b with
    | none => return none
    | some b => bindSeq xs ps b

end

/-- **Matching**: the named parts of the expression if it has the shape of the
pattern. -/
def run (p : Pattern) (e : Sexp) : Except PatternError (Option Bindings) :=
  bind e p []

end Pattern

end PassingStyle
