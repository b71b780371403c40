import PassingStyle.Number.Literal
import PassingStyle.Script.Arguments

/-!
# Functions that look at values only

Besides the functions that read and convert programs a script has some that take
values apart and put them together. They have no effect, so each of them is a
function from its arguments to an answer.

A value that has elements is a list, a tuple, a range, a set, or a dictionary, whose
elements are its keys. A string has a length but no elements.
-/

namespace PassingStyle

open Text

namespace Value

/-- **The elements of a value**, if it has any. -/
def elements? : Value → Option (List Value)
  | list items | tuple items | set items => some items
  | dict entries => some (entries.map (·.1))
  | range start stop step => some ((rangeItems start stop step).map int)
  | _ => Option.none

/-- The elements of a value that was accepted for its elements. -/
def elements (v : Value) : List Value :=
  v.elements?.getD []

/-- The length of a value, if it has one. -/
def length? : Value → Option Nat
  | string s | bytes s => some s.length
  | range start stop step => some (rangeLength start stop step)
  | v => v.elements?.map List.length

/-- **The value counts as true**: it is not zero, and not empty. -/
def truth : Value → Except Objection Bool
  | none => .ok false
  | bool b => .ok b
  | int n => .ok (n ≠ 0)
  | float x => .ok (!x.same (.ofInt 0))
  | builtin _ => .ok true
  | hole => .error .hole
  | v => .ok (v.length? ≠ some 0)

/-- The integer that a value was accepted for. -/
def integer : Value → Int
  | int n => n
  | _ => 0

/-! ## Sets and dictionaries -/

/-- A value can be a key. -/
def asKey (v : Value) : Except Objection Unit :=
  match v.notKey? with
  | Option.none => .ok ()
  | some hole => .error .hole
  | some part => object part.notKeyText

/-- The elements of a set, of which equal ones are kept once. -/
def setOf (items : List Value) : Except Objection (List Value) :=
  items.foldlM (fun sofar v => do
    v.asKey
    return addElement sofar v) []

/-- The key and the content that an element of a value stands for. -/
def pairOf (place : Nat) (v : Value) : Except Objection (Value × Value) :=
  let complain (what : Text) : Except Objection (Value × Value) :=
    object ("dictionary update sequence element #" ++ ofNat place ++ what)
  match v, v.elements? with
  | hole, _ => .error .hole
  | v, Option.none => complain (" is not iterable (" ++ v.typeName ++ ")")
  | _, some [key, content] => .ok (key, content)
  | _, some items => complain (" has length " ++ ofNat items.length ++ ", want 2")

/-- A dictionary with the entries of a value. Entries are added one by one, so the
first fault counts. -/
def dictOf (v : Value) : Except Objection (List (Value × Value)) :=
  let put (sofar : List (Value × Value)) (entry : Value × Value) :
      Except Objection (List (Value × Value)) := do
    entry.1.asKey
    return putEntry sofar entry.1 entry.2
  match v with
  | dict entries => .ok entries
  | hole => .error .hole
  | v =>
    match v.elements? with
    | Option.none => object ("got " ++ v.typeName ++ ", want iterable")
    | some items => items.zipIdx.foldlM (fun sofar (item, place) => do
        put sofar (← pairOf place item)) []

/-! ## Numbers -/

/-- The value of a digit in some base. -/
def digitIn? (base : Nat) (b : UInt8) : Option Nat :=
  let value? : Option Nat :=
    if isDigit b then some (b - byte '0').toNat
    else if byte 'a' ≤ b && b ≤ byte 'z' then some (b - byte 'a' + 10).toNat
    else if byte 'A' ≤ b && b ≤ byte 'Z' then some (b - byte 'A' + 10).toNat
    else Option.none
  value?.filter (· < base)

/-- The number that digits denote in some base. -/
def digitsIn? (base : Nat) (t : Text) : Option Nat :=
  if t.isEmpty then Option.none
  else t.foldlM (fun n b => (digitIn? base b).map (base * n + ·)) 0

/-- The base that a mark in front of digits announces. -/
def markedBase? (t : Text) : Option Nat :=
  if t.length ≤ 2 then Option.none
  else if lower (t.take 2) = "0o" then some 8
  else if lower (t.take 2) = "0x" then some 16
  else if lower (t.take 2) = "0b" then some 2
  else Option.none

/-- A spelled-out number without a sign. In base zero the text itself announces its
base, and a number in base ten may not start with a zero. -/
def naturalIn? (base : Nat) (t : Text) : Option Nat :=
  match markedBase? t with
  | some marked =>
    if base = 0 ∨ base = marked then digitsIn? marked (t.drop 2)
    else digitsIn? base t
  | Option.none =>
    if base ≠ 0 then digitsIn? base t
    else if 1 < t.length ∧ t.head? = some (byte '0') then
      if t.all (· == byte '0') then some 0 else Option.none
    else digitsIn? 10 t

/-- **The integer that a text spells** in some base. -/
def integerIn? (base : Nat) (t : Text) : Option Int :=
  let (negative, digits) := Literal.splitSign t
  (naturalIn? base digits).map fun n => if negative then -(n : Int) else n

/-- The base that a value stands for. -/
def baseOf : Value → Except Objection Nat
  | int n =>
    if ¬ fitsSigned 32 n then object "int: for base, got int, want int"
    else if n ≠ 0 ∧ (n < 2 ∨ 36 < n) then
      object "int: base must be an integer >= 2 && <= 36"
    else .ok n.toNat
  | hole => .error .hole
  | v => object ("int: for base, got " ++ v.typeName ++ ", want int")

/-- An integer from a value, where the spelling of one may be in another base. -/
def toInteger (v : Value) (base : Option Value) : Except Objection Value := do
  match v, base with
  | string s, base =>
    let b ← match base with
      | some b => baseOf b
      | Option.none => .ok 10
    match integerIn? b s with
    | some n => return int n
    | Option.none => object ("int: invalid literal with base " ++ ofNat b ++ ": " ++ s)
  | hole, _ => .error .hole
  | _, some _ => object "int: can't convert non-string with explicit base"
  | bool b, _ => return int (if b then 1 else 0)
  | int n, _ => return int n
  | float .nan, _ => object "int: cannot convert float NaN to integer"
  | float (.infinite _), _ => object "int: cannot convert float infinity to integer"
  | float x, _ => return int (x.truncate?.getD 0)
  | v, _ => object ("int: cannot convert " ++ v.typeName ++ " to int")

/-- The names of what is no number, which may have a sign here. -/
def signedNan (t : Text) : Bool :=
  lower (Literal.splitSign t).2 = "nan"

/-- A fraction from the text that spells it. -/
def fractionOf (t : Text) : Except Objection Value :=
  if t.isEmpty then object "float: empty string"
  else if signedNan t then .ok (float .nan)
  else
    match Literal.fraction .double t with
    | .ok x => .ok (float x)
    | .error .outOfRange => object "floating-point number too large"
    | .error .malformed => object ("invalid float literal: " ++ t)

/-- A fraction from a value. -/
def toFraction : Value → Except Objection Value
  | bool b => .ok (float (.ofInt (if b then 1 else 0)))
  | int n =>
    match Format.double.ofInt n with
    | .infinite _ => object "int too large to convert to float"
    | x => .ok (float x)
  | float x => .ok (float x)
  | string s => fractionOf s
  | hole => .error .hole
  | v => object ("float got " ++ v.typeName ++ ", want number or string")

/-- The absolute value of a number. -/
def magnitude : Value → Except Objection Value
  | int n => .ok (int n.natAbs)
  | float x => .ok (float (x.withSign false))
  | hole => .error .hole
  | v => object ("got " ++ v.typeName ++ ", want int or float")

/-! ## Strings -/

/-- The character with a number. -/
def character : Value → Except Objection Value
  | int n =>
    if ¬ fitsSigned 32 n then object ("chr: " ++ ofInt n ++ " out of range")
    else if n < 0 then
      object ("chr: Unicode code point " ++ ofInt n ++ " out of range (<0)")
    else if 0x10ffff < n then
      object ("chr: Unicode code point U+" ++
        (Nat.toDigits 16 n.toNat).map (fun c => c.toUpper.toUInt8) ++
        " out of range (>0x10FFFF)")
    else
      let c := if n.toNat.isValidChar then Char.ofNat n.toNat else Char.ofNat 0xfffd
      .ok (string (String.utf8EncodeChar c))
  | hole => .error .hole
  | v => object ("chr: got " ++ v.typeName ++ ", want int")

/-- The number of the only character of a string, or of the only byte of a string of
bytes. -/
def codePoint : Value → Except Objection Value
  | string s =>
    match s.mended.glyphs with
    | [.char c] => .ok (int c.toNat)
    | gs => object ("ord: string encodes " ++ ofNat gs.length ++ " Unicode code points, want 1")
  | bytes [b] => .ok (int b.toNat)
  | bytes s => object ("ord: bytes has length " ++ ofNat s.length ++ ", want 1")
  | hole => .error .hole
  | v => object ("ord: got " ++ v.typeName ++ ", want string or bytes")

/-- A string of bytes from a value. -/
def toBytes : Value → Except Objection Value
  | bytes s => .ok (bytes s)
  | string s => .ok (bytes s.mended)
  | hole => .error .hole
  | v =>
    match v.elements? with
    | some items => do
      items.zipIdx.forM fun (item, place) =>
        prefaced ("bytes: at index " ++ ofNat place ++ ", ") ((Want.unsigned 8).accept item)
      return bytes (items.map fun item => item.integer.toNat.toUInt8)
    | Option.none =>
      object ("bytes: got " ++ v.typeName ++ ", want string, bytes, or iterable of ints")

/-- The text of a value, where strings are their own texts. -/
def text : Value → Text
  | string s => s
  | bytes s => s.mended
  | v => v.repr

/-- A number for a string, from its characters. -/
def stringHash (s : Text) : Int :=
  let sum : UInt32 := s.mended.glyphs.foldl (fun h g =>
    match g with
    | .char c => 31 * h + c.val
    | .stray b => 31 * h + b.toUInt32) 0
  Int.bmod sum.toNat (Nat.pow 2 32)

/-- A number for a string of bytes, which mixes in one byte after the other. -/
def bytesHash (s : Text) : Nat :=
  (s.foldl (fun (h : UInt32) b => (h ^^^ b.toUInt32) * 16777619) 2166136261).toNat

/-- A number that depends on the content of a string only. -/
def hash : Value → Except Objection Value
  | string s => .ok (int (stringHash s))
  | bytes s => .ok (int (bytesHash s))
  | hole => .error .hole
  | v => object ("hash: got " ++ v.typeName ++ ", want string or bytes")

/-! ## Elements -/

/-- The first elements of several lists, then the second ones, and so on, as long as
none of them is at its end. -/
def sideBySide (columns : List (List Value)) : List Value :=
  match (columns.map List.length).min? with
  | Option.none => []
  | some rows => (List.range rows).map fun i => tuple (columns.map fun c => c.getD i none)

/-- The elements of several values side by side. -/
def zip (arguments : List Value) : Except Objection Value := do
  let columns ← arguments.zipIdx.mapM fun (v, place) =>
    match v, v.elements? with
    | _, some items => .ok items
    | hole, _ => .error .hole
    | v, Option.none =>
      object ("zip: argument #" ++ ofNat (place + 1) ++ " is not iterable: " ++ v.typeName)
  return list (sideBySide columns)

/-- A range, from one number to three. -/
def rangeOf : List Value → Except Objection Value
  | [stop] => .ok (range 0 stop.integer 1)
  | [start, stop] => .ok (range start.integer stop.integer 1)
  | start :: stop :: step :: _ =>
    if step.integer = 0 then object "range: step argument must not be zero"
    else .ok (range start.integer stop.integer step.integer)
  | [] => .ok (range 0 0 1)

/-- Elements with their numbers. -/
def numbered (start : Int) (items : List Value) : Value :=
  list (items.zipIdx.map fun (item, i) => tuple [int (start + i), item])

end Value

/-! ## The functions -/

/-- The elements of the only argument, or none if that is missing. -/
def optionalElements (function : Text) (arguments : List Value) (keywords : Names) :
    Except Objection (List Value) := do
  placed function 0 [.iterable] arguments keywords
  return (arguments.head?.map Value.elements).getD []

/-- The complaint about too many arguments, whose number stands between two texts. -/
def tooMany (front : Text) (arguments : List Value) (back : Text) : Except Objection α :=
  object (front ++ ofNat arguments.length ++ " arguments" ++ back)

/-- **The answer of a function** to its arguments. -/
def Standard.apply (function : Standard) (arguments : List Value) (keywords : Names) :
    Except Objection Value := do
  let f := function.name
  let front : Text := f ++ ": "
  match function with
  | .magnitude => (← onlyPlaced f .anything arguments keywords).magnitude
  | .allOf =>
    let items := (← onlyPlaced f .iterable arguments keywords).elements
    return .bool (← items.allM Value.truth)
  | .anyOf =>
    let items := (← onlyPlaced f .iterable arguments keywords).elements
    return .bool (← items.anyM Value.truth)
  | .toBool =>
    placed f 0 [.anything] arguments keywords
    return .bool (← (arguments.headD (.bool false)).truth)
  | .toBytes => (← onlyArgument f "exactly 1" arguments keywords).toBytes
  | .toCharacter => (← onlyArgument f "1" arguments keywords).character
  | .toDict =>
    let entries ← match arguments with
      | [] => .ok []
      | [v] => prefaced front v.dictOf
      | _ => tooMany (front ++ "got ") arguments ", want at most 1"
    return .dict (keywords.foldl (fun sofar (k, v) => Value.putEntry sofar (.string k) v) entries)
  | .toFloat =>
    if !keywords.isEmpty then object (f ++ " does not accept keyword arguments")
    match arguments with
    | [] => return .float (.ofInt 0)
    | [v] => v.toFraction
    | _ => tooMany (f ++ " got ") arguments ", wants 1"
  | .toList => return .list (← optionalElements f arguments keywords)
  | .toSet =>
    let items ← optionalElements f arguments keywords
    return .set (← prefaced front (Value.setOf items))
  | .toTuple => return .tuple (← optionalElements f arguments keywords)
  | .toText => return .string (← onlyArgument f "exactly 1" arguments keywords).text
  | .toInteger =>
    match ← Slot.assign f [⟨"x", .anything, false, none⟩, ⟨"base", .anything, true, none⟩]
        arguments keywords with
    | some v :: base :: _ => v.toInteger base
    | _ => return .int 0
  | .hash => (← onlyPlaced f .anything arguments keywords).hash
  | .length =>
    let v ← onlyPlaced f .anything arguments keywords
    match v, v.length? with
    | _, some n => return .int n
    | .hole, _ => .error .hole
    | v, none => object (f ++ ": value of type " ++ v.typeName ++ " has no len")
  | .numbered =>
    placed f 1 [.iterable, .signed 64] arguments keywords
    return Value.numbered ((arguments.drop 1).headD .none).integer (arguments.headD .none).elements
  | .codePoint => (← onlyArgument f "1" arguments keywords).codePoint
  | .range =>
    placed f 1 [.signed 64, .signed 64, .signed 64] arguments keywords
    Value.rangeOf arguments
  | .reversed => return .list (← onlyPlaced f .iterable arguments keywords).elements.reverse
  | .spelling => return .string (← onlyPlaced f .anything arguments keywords).repr
  | .typeName =>
    match ← onlyArgument f "exactly 1" arguments keywords with
    | .hole => .error .hole
    | v => return .string v.typeName
  | .zip =>
    if !keywords.isEmpty then object (f ++ " does not accept keyword arguments")
    Value.zip arguments

end PassingStyle
