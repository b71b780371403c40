import PassingStyle.Text

/-!
# Configuration documents

A configuration file holds one value: a scalar, a list, or an object whose fields
are named. A name that is given twice does not replace the first value. The two
values are *unified*: scalars have to be equal, lists are unified element by
element, and objects are merged field by field. A document in which two values do
not unify is no document at all.

Numbers written with a fraction or an exponent are of another kind than integers,
and no integer unifies with them. Such a number has a place for its point only
within wide bounds. Beyond them its digits are all that is left of it, and if even
the exponent is too large to be read, nothing is left but its sign.
-/

namespace PassingStyle

open Text

/-- **A value of a configuration document.** -/
inductive Document where
  /-- The value that stands for nothing. -/
  | null
  /-- A truth value. -/
  | bool (value : Bool)
  /-- An integer. -/
  | int (value : Int)
  /-- The fraction `coefficient · 10^exponent`, with a coefficient that ends in no
  zero. -/
  | fraction (coefficient : Int) (exponent : Int)
  /-- A fraction whose exponent is too large to be read. -/
  | immense (negative : Bool)
  /-- A string. -/
  | string (text : Text)
  /-- A list. -/
  | list (items : List Document)
  /-- An object, in the order in which its fields were first given. -/
  | object (fields : List (Text × Document))
  deriving Repr

namespace Document

instance : Inhabited Document := ⟨null⟩

/-! ## Unification -/

/-- The fields with one of them set anew. -/
def setField (fields : List (Text × Document)) (name : Text) (value : Document) :
    List (Text × Document) :=
  fields.map fun field => if field.1 = name then (name, value) else field

mutual

/-- **The value that two values agree on**, if there is one. -/
def unify (a : Document) : Document → Option Document
  | null =>
    match a with
    | null => some null
    | _ => none
  | bool y =>
    match a with
    | bool x => if x = y then some a else none
    | _ => none
  | int y =>
    match a with
    | int x => if x = y then some a else none
    | _ => none
  | fraction c e =>
    match a with
    | fraction b d => if b = c ∧ d = e then some a else none
    | _ => none
  | immense t =>
    match a with
    | immense s => if s = t then some a else none
    | _ => none
  | string t =>
    match a with
    | string s => if s = t then some a else none
    | _ => none
  | list ys =>
    match a with
    | list xs => (unifyItems xs ys).map list
    | _ => none
  | object fields =>
    match a with
    | object known => (addFields known fields).map object
    | _ => none

/-- Lists agree if they have the same length and their elements do. -/
def unifyItems : List Document → List Document → Option (List Document)
  | xs, [] => if xs.isEmpty then some [] else none
  | xs, y :: ys =>
    match xs with
    | [] => none
    | x :: xs =>
      match unify x y with
      | none => none
      | some v => (unifyItems xs ys).map (v :: ·)

/-- **The fields of an object with more fields added**, each unified with what is
there already. -/
def addFields (known : List (Text × Document)) :
    List (Text × Document) → Option (List (Text × Document))
  | [] => some known
  | (name, value) :: rest =>
    match known.lookup name with
    | none => addFields (known ++ [(name, value)]) rest
    | some before =>
      match unify before value with
      | none => none
      | some v => addFields (setField known name v) rest

end

/-- The value that a group of values agrees on when one more joins it. -/
def join (group : Option Document) (v : Document) : Option Document :=
  match group with
  | none => some v
  | some w => w.unify v

end Document

end PassingStyle
