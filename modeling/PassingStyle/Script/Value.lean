import PassingStyle.Reader

/-!
# Values of scripts

A script works with values of its own: numbers of two kinds, strings, lists and a
few more. An expression becomes a value, and a value an expression, so that a
script can look into programs and put new ones together.

Symbols and string literals both become strings. A string literal keeps its
quotes, and a string that is enclosed in quotes is taken for a literal, which
keeps the two apart as long as no symbol is spelled like a literal. A number
becomes an integer if it is one and is small enough for every integer near it to
be a number. The empty list atom and the absent expression both become the value
that stands for nothing.

Keys of dictionaries and elements of sets are told apart by what they denote, so an
integer and a fraction of the same size are one key. Values that a script could
still change are no keys.
-/

namespace PassingStyle

open Text

/-- The functions that look at values only. -/
inductive Standard where
  /-- The absolute value of a number. -/
  | magnitude
  /-- Whether all elements count as true. -/
  | allOf
  /-- Whether some element counts as true. -/
  | anyOf
  /-- Whether a value counts as true. -/
  | toBool
  /-- A string of bytes, from a string or from the numbers of its bytes. -/
  | toBytes
  /-- The character with a number, as a string. -/
  | toCharacter
  /-- A dictionary, from pairs and keyword arguments. -/
  | toDict
  /-- A fraction, from a number or its spelling. -/
  | toFloat
  /-- A list of elements. -/
  | toList
  /-- A set of elements. -/
  | toSet
  /-- The text of a value, where a string is its own text. -/
  | toText
  /-- A tuple of elements. -/
  | toTuple
  /-- An integer, from a number or its spelling. -/
  | toInteger
  /-- A number that depends on the content of a string only. -/
  | hash
  /-- The number of elements. -/
  | length
  /-- The elements with their numbers. -/
  | numbered
  /-- The number of a character. -/
  | codePoint
  /-- A range of integers. -/
  | range
  /-- The elements, the last one first. -/
  | reversed
  /-- The text of a value as a script would spell it. -/
  | spelling
  /-- The name of the type of a value. -/
  | typeName
  /-- The elements of several values side by side. -/
  | zip
  deriving DecidableEq, Repr

namespace Standard

/-- The name of a function. -/
def name : Standard → Text
  | magnitude => "abs"
  | allOf => "all"
  | anyOf => "any"
  | toBool => "bool"
  | toBytes => "bytes"
  | toCharacter => "chr"
  | toDict => "dict"
  | toFloat => "float"
  | toList => "list"
  | toSet => "set"
  | toText => "str"
  | toTuple => "tuple"
  | toInteger => "int"
  | hash => "hash"
  | length => "len"
  | numbered => "enumerate"
  | codePoint => "ord"
  | range => "range"
  | reversed => "reversed"
  | spelling => "repr"
  | typeName => "type"
  | zip => "zip"

/-- All of them. -/
def functions : List Standard :=
  [magnitude, allOf, anyOf, toBool, toBytes, toCharacter, toDict, toFloat, toList, toSet, toText,
   toTuple, toInteger, hash, length, numbered, codePoint, range, reversed, spelling, typeName, zip]

end Standard

/-- **The functions that a runner offers** its scripts. -/
inductive Offered where
  /-- Reads the first expression of a text. -/
  | read
  /-- Prints an expression. -/
  | display
  /-- Converts an expression. -/
  | transform
  /-- Reads a text and prints it again. -/
  | normalize
  deriving DecidableEq, Repr

namespace Offered

/-- The name of a function. -/
def name : Offered → Text
  | read => "read"
  | display => "show"
  | transform => "transform"
  | normalize => "normalize"

/-- All of them. -/
def functions : List Offered :=
  [read, display, transform, normalize]

end Offered

/-- The functions that every script can name. -/
inductive Builtin where
  /-- Is offered by what runs the script. -/
  | offered (function : Offered)
  /-- Writes a line. -/
  | print
  /-- Ends the script with a failure. -/
  | fail
  /-- Finds the greatest element. -/
  | greatest
  /-- Finds the least element. -/
  | least
  /-- Puts elements in order. -/
  | sorted
  /-- Looks at values only. -/
  | standard (function : Standard)
  /-- Would look at the methods of values, of which scripts make no use. -/
  | inspection (name : Text)
  deriving DecidableEq, Repr

namespace Builtin

/-- The name of a function. -/
def name : Builtin → Text
  | offered function => function.name
  | print => "print"
  | fail => "fail"
  | greatest => "max"
  | least => "min"
  | sorted => "sorted"
  | standard function => function.name
  | inspection name => name

/-- All functions. -/
def all : List Builtin :=
  Offered.functions.map offered ++
    [print, fail, greatest, least, sorted, inspection "dir", inspection "getattr",
     inspection "hasattr"] ++
    Standard.functions.map standard

end Builtin

/-- **A value of a script.** -/
inductive Value where
  /-- The value that stands for nothing. -/
  | none
  /-- A truth value. -/
  | bool (value : Bool)
  /-- An integer of any size. -/
  | int (value : Int)
  /-- A binary fraction. -/
  | float (value : Number)
  /-- A string. -/
  | string (text : Text)
  /-- A string of bytes. -/
  | bytes (content : Text)
  /-- A list. -/
  | list (items : List Value)
  /-- A tuple. -/
  | tuple (items : List Value)
  /-- A dictionary, in the order of its entries. -/
  | dict (entries : List (Value × Value))
  /-- A set, in the order of its elements. -/
  | set (items : List Value)
  /-- The integers from `start` to before `stop` in steps. -/
  | range (start stop step : Int)
  /-- A function. -/
  | builtin (function : Builtin)
  /-- A place without a value, at which nothing may look. -/
  | hole
  deriving Repr

/-- The values that names are bound to. -/
abbrev Names := List (Text × Value)

namespace Value

instance : Inhabited Value := ⟨none⟩

/-- The name of the type of a value. -/
def typeName : Value → Text
  | none => "NoneType"
  | bool _ => "bool"
  | int _ => "int"
  | float _ => "float"
  | string _ => "string"
  | bytes _ => "bytes"
  | list _ => "list"
  | tuple _ => "tuple"
  | dict _ => "dict"
  | set _ => "set"
  | range _ _ _ => "range"
  | builtin _ => "builtin_function_or_method"
  | hole => []

/-! ## Expressions as values -/

/-- The integers below this bound are all numbers. -/
def exactBound : Nat := Nat.pow 2 53

/-- The value of a number: an integer if it is a small one. -/
def ofNumber (x : Number) : Value :=
  match x.toInt? with
  | some n => if n.natAbs < exactBound then int n else float x
  | Option.none => float x

mutual

/-- **The value of an expression**; a dot has none. -/
def ofSexp? : Sexp → Option Value
  | .absent => some none
  | .symbol s => some (string s)
  | .number x => some (ofNumber x)
  | .str s => some (string (Sexp.str s).print)
  | .bool b => some (bool b)
  | .nil => some none
  | .dot => Option.none
  | .list items => (ofSexps? items).map list

/-- The values of several expressions. -/
def ofSexps? : List Sexp → Option (List Value)
  | [] => some []
  | e :: es =>
    match ofSexp? e with
    | Option.none => Option.none
    | some v => (ofSexps? es).map (v :: ·)

end

/-! ## Values as expressions -/

end Value

/-- **Why a value is no expression.** -/
inductive ValueError where
  /-- The empty string is the name of no symbol. -/
  | emptySymbol
  /-- The integer has more than 64 bits. -/
  | outOfRange (value : Int)
  /-- No value of this type is an expression. -/
  | notExpression (type : Text)
  /-- There is no value to look at. -/
  | hole
  deriving DecidableEq, Repr

/-- The message of an error. -/
def ValueError.message : ValueError → Text
  | emptySymbol => "empty symbol"
  | outOfRange n => "integer out of range: " ++ ofInt n
  | notExpression type => "cannot convert starlark " ++ type ++ " to an expression"
  | hole => "no value"

namespace Value

/-- The expression of a string: a literal if it is enclosed in quotes, and a
symbol otherwise. -/
def stringToSexp (s : Text) : Except ValueError Sexp :=
  if 2 ≤ s.length ∧ s.head? = some (byte '"') ∧ s.getLast? = some (byte '"') then
    .ok (.str (s.drop 1).dropLast)
  else if s.isEmpty then .error .emptySymbol
  else .ok (.symbol s)

/-- The expression of an integer of at most 64 bits. -/
def intToSexp (n : Int) : Except ValueError Sexp :=
  if fitsSigned 64 n then .ok (.number (Format.double.ofInt n))
  else .error (.outOfRange n)

/-- The number of integers in a range. -/
def rangeLength (start stop step : Int) : Nat :=
  if 0 < step then ((stop - start + step - 1) / step).toNat
  else if step < 0 then ((start - stop - step - 1) / -step).toNat
  else 0

/-- The integers of a range. -/
def rangeItems (start stop step : Int) : List Int :=
  (List.range (rangeLength start stop step)).map fun (i : Nat) => start + step * (i : Nat)

mutual

/-- **The expression of a value.** A tuple and a range are lists as well. -/
def toSexp : Value → Except ValueError Sexp
  | none => .ok .nil
  | bool b => .ok (.bool b)
  | int n => intToSexp n
  | float x => .ok (.number x)
  | string s => stringToSexp s
  | list items => (toSexps items).map .list
  | tuple items => (toSexps items).map .list
  | range start stop step => ((rangeItems start stop step).mapM intToSexp).map .list
  | bytes _ => .error (.notExpression "bytes")
  | dict _ => .error (.notExpression "dict")
  | set _ => .error (.notExpression "set")
  | builtin b => .error (.notExpression (typeName (builtin b)))
  | hole => .error .hole

/-- The expressions of several values, up to the first that has none. -/
def toSexps : List Value → Except ValueError (List Sexp)
  | [] => .ok []
  | v :: vs =>
    match toSexp v with
    | .error e => .error e
    | .ok e => (toSexps vs).map (e :: ·)

end

/-! ## The text of a value -/

/-- The text of a fraction, which is never that of an integer. -/
def floatText : Number → Text
  | .nan => "nan"
  | .infinite negative => if negative then "-inf" else "+inf"
  | x =>
    let t := x.printCompact .double
    if t.contains (byte '.') || t.contains (byte 'e') then t else t ++ ".0"

/-- The text of a range, shortened where the usual start and step are meant. -/
def rangeText (start stop step : Int) : Text :=
  let numbers :=
    if step ≠ 1 then [start, stop, step] else if start ≠ 0 then [start, stop] else [stop]
  "range(" ++ join ", " (numbers.map ofInt) ++ ")"

mutual

/-- **The text of a value** as a script would spell it. A place without a value has
a text too, although no script can spell it. -/
def repr : Value → Text
  | none => "None"
  | bool true => "True"
  | bool false => "False"
  | int n => ofInt n
  | float x => floatText x
  | string s => s.quoted
  | bytes s => byte 'b' :: s.quoted
  | list items => "[" ++ join ", " (reprs items) ++ "]"
  | tuple items =>
    "(" ++ join ", " (reprs items) ++ (if items.length = 1 then "," else "" : Text) ++ ")"
  | dict entries => "\x7b" ++ join ", " (reprEntries entries) ++ "\x7d"
  | set items => "set([" ++ join ", " (reprs items) ++ "])"
  | range start stop step => rangeText start stop step
  | builtin b => "<built-in function " ++ b.name ++ ">"
  | hole => "<nil>"

/-- The texts of several values. -/
def reprs : List Value → List Text
  | [] => []
  | v :: vs => repr v :: reprs vs

/-- The texts of the entries of a dictionary. -/
def reprEntries : List (Value × Value) → List Text
  | [] => []
  | (k, v) :: rest => (repr k ++ ": " ++ repr v) :: reprEntries rest

end

/-- The text of a value in a message: a string as it is, anything else as a script
would spell it. -/
def shown : Value → Text
  | string s => s
  | v => v.repr

/-- The text of a value in a printed line: also a string of bytes is printed as it
is. -/
def printed : Value → Text
  | bytes s => s
  | v => v.shown

/-! ## Whole values -/

mutual

/-- **The value is whole**: it has no place without a value. -/
def isWhole : Value → Bool
  | list items => areWhole items
  | tuple items => areWhole items
  | dict entries => areWholeEntries entries
  | set items => areWhole items
  | hole => false
  | _ => true

/-- Several values are whole. -/
def areWhole : List Value → Bool
  | [] => true
  | v :: vs => isWhole v && areWhole vs

/-- The entries of a dictionary are whole. -/
def areWholeEntries : List (Value × Value) → Bool
  | [] => true
  | (k, v) :: rest => isWhole k && isWhole v && areWholeEntries rest

end

/-! ## Keys -/

mutual

/-- **What keeps a value from being a key**: the value itself, or an element of a
tuple. -/
def notKey? : Value → Option Value
  | list items => some (list items)
  | dict entries => some (dict entries)
  | set items => some (set items)
  | range start stop step => some (range start stop step)
  | hole => some hole
  | tuple items => notKeyIn? items
  | _ => Option.none

/-- The first value that is no key. -/
def notKeyIn? : List Value → Option Value
  | [] => Option.none
  | v :: vs =>
    match notKey? v with
    | some part => some part
    | Option.none => notKeyIn? vs

end

/-- What is said of a value that is no key. -/
def notKeyText : Value → Text
  | range _ _ _ => "unhashable: range"
  | v => "unhashable type: " ++ v.typeName

/-- Equality of fractions as keys: what is no number is the same key as itself. -/
def sameFraction (x y : Number) : Bool :=
  x.same y || (x == .nan && y == .nan)

mutual

/-- **Equality of keys.** An integer and a fraction are the same key if they are the
same number. -/
def sameKey : Value → Value → Bool
  | none, none => true
  | bool a, bool b => a == b
  | int m, int n => m == n
  | int m, float y => y.toInt? == some m
  | float x, int n => x.toInt? == some n
  | float x, float y => sameFraction x y
  | string s, string t => s == t
  | bytes s, bytes t => s == t
  | tuple xs, tuple ys => sameKeys xs ys
  | builtin f, builtin g => f == g
  | _, _ => false

/-- Equality of keys, one by one. -/
def sameKeys : List Value → List Value → Bool
  | [], [] => true
  | x :: xs, y :: ys => sameKey x y && sameKeys xs ys
  | _, _ => false

end

/-- A dictionary has the key. -/
def hasKey (entries : List (Value × Value)) (key : Value) : Bool :=
  entries.any fun entry => sameKey entry.1 key

/-- **The entries of a dictionary with a new content for a key**, which keeps its
place if it is there already. -/
def putEntry (entries : List (Value × Value)) (key content : Value) : List (Value × Value) :=
  if hasKey entries key then
    entries.map fun entry => if sameKey entry.1 key then (entry.1, content) else entry
  else entries ++ [(key, content)]

/-- **The elements of a set with one more**, unless it is there already. -/
def addElement (items : List Value) (v : Value) : List Value :=
  if items.any fun item => sameKey item v then items else items ++ [v]

/-! ## Syntax errors as values -/

/-- A dictionary with names for keys. -/
def table (entries : List (Text × Value)) : Value :=
  dict (entries.map fun (name, v) => (string name, v))

/-- The value of a range of positions. -/
def ofSpan (s : Span) : Value :=
  table [("Start", int s.start), ("End", int s.stop)]

/-- The value of a fault: what there is to know beyond its kind. -/
def ofFault : SyntaxFault → Value
  | .gap g => table [("Text", string g.text), ("Span", ofSpan g.span)]
  | .numberRange e =>
    table [("Func", string "ParseFloat"), ("Num", string e.text), ("Err", table [])]
  | _ => table []

/-- **What a script is told about a text that cannot be read.** -/
def ofSyntaxError (e : SyntaxError) : Value :=
  table [("Err", ofFault e.fault), ("Span", ofSpan e.span), ("Text", string e.text),
    ("Incomplete", bool e.incomplete)]

end Value

end PassingStyle
