import PassingStyle.Script.Value

/-!
# Comparing values

Values of one type are equal if they have the same content, and numbers of both
kinds are equal if they are the same number. Numbers, strings, truth values, lists
and tuples also have an order, the latter two that of a dictionary; a set is below
another one if it is a part of it. No other values have an order.

Values can be nested, and a comparison that goes too deep is given up.
-/

namespace PassingStyle

open Text

/-- **Why a function has no answer.** -/
inductive Objection where
  /-- The function objects. -/
  | complaint (message : Text)
  /-- The function would have to look at a place without a value. -/
  | hole
  deriving DecidableEq, Repr

/-- The two sides on which a value can be of another one. -/
inductive Side where
  /-- Before it. -/
  | below
  /-- After it. -/
  | above
  deriving DecidableEq, Repr

/-- The sign that stands for a side. -/
def Side.sign : Side → Text
  | below => "<"
  | above => ">"

/-- The outcome of a comparison lies on this side. -/
def Side.holds (side : Side) (o : Ordering) : Bool :=
  match side with
  | below => o == .lt
  | above => o == .gt

namespace Value

/-- How many values a comparison goes into each other at most. -/
def comparisonDepth : Nat := 10

/-- A comparison that goes too deep. -/
def tooDeep : Objection := .complaint "comparison exceeded maximum recursion depth"

/-- The number that a value is. -/
def number? : Value → Option Number
  | int n => some (.ofInt n)
  | float x => some x
  | _ => Option.none

/-- Lists of one length are equal if their elements are. -/
def listsEqual (equal : Value → Value → Except Objection Bool) :
    List Value → List Value → Except Objection Bool
  | x :: xs, y :: ys => do if ← equal x y then listsEqual equal xs ys else return false
  | _, _ => .ok true

/-- Every key of the first dictionary has the same content in the second. -/
def entriesEqual (equal : Value → Value → Except Objection Bool) (others : List (Value × Value)) :
    List (Value × Value) → Except Objection Bool
  | [] => .ok true
  | (key, content) :: rest =>
    match others.find? fun entry => sameKey entry.1 key with
    | Option.none => .ok false
    | some (_, other) => do
      if ← equal content other then entriesEqual equal others rest else return false

/-- Every element of the first set is one of the second. -/
def isPart (items others : List Value) : Bool :=
  items.all fun item => others.any fun other => sameKey other item

/-- Ranges are equal if they have the same elements. -/
def rangesEqual (start stop step start' stop' step' : Int) : Bool :=
  let n := rangeLength start stop step
  n == rangeLength start' stop' step' &&
    (n == 0 || (start == start' && (n == 1 || step == step')))

/-- **Equality of values**, to a depth. -/
def equalTo : Nat → Value → Value → Except Objection Bool
  | 0, _, _ => .error tooDeep
  | depth + 1, x, y =>
    match x, y with
    | hole, hole => .ok true
    | hole, _ | _, hole => .error .hole
    | none, none => .ok true
    | bool a, bool b => .ok (a == b)
    | string s, string t => .ok (s == t)
    | bytes s, bytes t => .ok (s == t)
    | list xs, list ys | tuple xs, tuple ys =>
      if xs.length = ys.length then listsEqual (equalTo depth) xs ys else .ok false
    | dict xs, dict ys =>
      if xs.length = ys.length then entriesEqual (equalTo depth) ys xs else .ok false
    | set xs, set ys => .ok (xs.length == ys.length && isPart xs ys)
    | range a b c, range a' b' c' => .ok (rangesEqual a b c a' b' c')
    | builtin f, builtin g => .ok (f == g)
    | x, y =>
      match x.number?, y.number? with
      | some m, some n => .ok (m.order n == .eq)
      | _, _ => .ok false

/-- Lists are compared by the first elements in which they differ, or else by their
lengths. -/
def listsOn (side : Side) (equal compare : Value → Value → Except Objection Bool) :
    List Value → List Value → Except Objection Bool
  | x :: xs, y :: ys => do
    if ← equal x y then listsOn side equal compare xs ys else compare x y
  | xs, ys => .ok (side.holds (Ord.compare xs.length ys.length))

/-- **The first value is on this side of the second**, to a depth. -/
def isOnTo (side : Side) : Nat → Value → Value → Except Objection Bool
  | 0, _, _ => .error tooDeep
  | depth + 1, x, y =>
    match x, y with
    | hole, _ | _, hole => .error .hole
    | bool a, bool b => .ok (side.holds (compare a b))
    | string s, string t | bytes s, bytes t =>
      .ok (side.holds (if s = t then .eq else if Text.le s t then .lt else .gt))
    | list xs, list ys | tuple xs, tuple ys =>
      listsOn side (equalTo depth) (isOnTo side depth) xs ys
    | set xs, set ys =>
      match side with
      | .below => .ok (xs.length < ys.length && isPart xs ys)
      | .above => .ok (ys.length < xs.length && isPart ys xs)
    | x, y =>
      match x.number?, y.number? with
      | some m, some n => .ok (side.holds (m.order n))
      | _, _ => .error (.complaint
          (x.typeName ++ " " ++ side.sign ++ " " ++ y.typeName ++ " not implemented"))

/-- **The first value is on this side of the second.** -/
def isOn (side : Side) (x y : Value) : Except Objection Bool :=
  isOnTo side comparisonDepth x y

/-! ## Sorting -/

/-- A value moves from the end of a sorted list, given backwards, to its place. It
stops at a value that it cannot be compared with, which is reported. -/
def settle (less : Value × Value → Value × Value → Except Objection Bool) (x : Value × Value) :
    List (Value × Value) → List (Value × Value) × Option Objection
  | [] => ([x], Option.none)
  | y :: ys =>
    match less x y with
    | .ok true =>
      let (settled, e) := settle less x ys
      (y :: settled, e)
    | .ok false => (x :: y :: ys, Option.none)
    | .error e => (x :: y :: ys, some e)

/-- **Values in the order of their keys**, those with equal keys as they come. Of
several pairs that cannot be compared the last one is reported. -/
def sortByKey (descending : Bool) (items : List (Value × Value)) : Except Objection (List Value) :=
  let less (x y : Value × Value) : Except Objection Bool :=
    if descending then isOn .below y.1 x.1 else isOn .below x.1 y.1
  let (sorted, error) := items.foldl (fun (sofar, error) x =>
    let (sofar, e) := settle less x sofar
    (sofar, e.or error)) ([], Option.none)
  match error with
  | some e => .error e
  | Option.none => .ok (sorted.reverse.map (·.2))

end Value

end PassingStyle
