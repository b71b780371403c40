import PassingStyle.Number.Decimal
import PassingStyle.Number.Literal

/-!
# Parameters of a command

A command takes its arguments from the words that follow its name, one word for
each parameter. The type of a parameter says how its word is read. An *optional*
parameter is content with no word at all, and then has the zero value of the type
it is made of.

A truth value is never refused: the words for yes are few, and everything else
means no.
-/

namespace PassingStyle

open Text

/-- The size of an integer. -/
inductive Width where
  /-- As large as a machine word, which has 64 bits. -/
  | word
  /-- As many bits as given. -/
  | exactly (bits : Nat)
  deriving DecidableEq, Repr

namespace Width

/-- The number of bits. -/
def bits : Width → Nat
  | word => 64
  | exactly n => n

/-- The size as it ends the name of a type. -/
def print : Width → Text
  | word => []
  | exactly n => ofNat n

end Width

/-- **The type of a parameter.** -/
inductive Parameter where
  /-- A truth value. -/
  | bool
  /-- A text, which is the word as it is. -/
  | text
  /-- An integer. -/
  | signed (width : Width)
  /-- An integer that is not negative. -/
  | unsigned (width : Width)
  /-- A fraction of 32 bits. -/
  | single
  /-- A fraction of 64 bits. -/
  | double
  /-- A complex number, as which no word can be read. -/
  | complex
  /-- A list, as which no word can be read. -/
  | list (type : Parameter)
  /-- A parameter that may be left out. -/
  | optional (type : Parameter)
  deriving DecidableEq, Repr

/-- **An argument**: the value of a parameter. -/
inductive Argument where
  /-- A truth value. -/
  | bool (value : Bool)
  /-- A text. -/
  | text (value : Text)
  /-- An integer. -/
  | int (value : Int)
  /-- A fraction, with the format it was read in. -/
  | fraction (format : Format) (value : Number)
  /-- The complex number zero, the only one there is. -/
  | complexZero
  /-- The empty list, the only one there is. -/
  | emptyList
  /-- The value of an optional parameter. -/
  | given (value : Argument)
  /-- No value at all. -/
  | none
  deriving DecidableEq, Repr

/-- **Why a parameter has no value.** -/
inductive ArgumentError where
  /-- There is no word for it. -/
  | missing (type : Parameter)
  /-- The word spells no value of its type. -/
  | unreadable (type : Parameter) (word : Text) (cause : LiteralError)
  /-- No word can be read as its type. -/
  | unsupported (type : Parameter)
  /-- The word is a value of a parameter that is optional twice over, and there is
  no place to keep it. -/
  | nested
  deriving DecidableEq, Repr

namespace Parameter

/-- The name of a type. -/
def print : Parameter → Text
  | bool => "bool"
  | text => "string"
  | signed w => "int" ++ w.print
  | unsigned w => "uint" ++ w.print
  | single => "float32"
  | double => "float64"
  | complex => "complex128"
  | list t => "[]" ++ t.print
  | optional t => byte '*' :: t.print

/-- The value that a parameter has before any word was read for it. -/
def zero : Parameter → Argument
  | bool => .bool false
  | text => .text []
  | signed _ | unsigned _ => .int 0
  | single => .fraction .single (.finite false 0 0)
  | double => .fraction .double (.finite false 0 0)
  | complex => .complexZero
  | list _ => .emptyList
  | optional _ => .none

/-- The parameter may be left out. -/
def isOptional : Parameter → Bool
  | optional _ => true
  | _ => false

/-- The words for yes, in any case of letters. -/
def yes : List Text := ["true", "t", "yes", "y", "1"]

/-- The value of a parameter, from its word. -/
def read (word : Text) : Parameter → Except ArgumentError Argument
  | bool => .ok (.bool (yes.contains (lower word)))
  | text => .ok (.text word)
  | signed w =>
    match Literal.signed w.bits word with
    | .ok n => .ok (.int n)
    | .error e => .error (.unreadable (signed w) word e)
  | unsigned w =>
    match Literal.unsigned w.bits word with
    | .ok n => .ok (.int n)
    | .error e => .error (.unreadable (unsigned w) word e)
  | single =>
    match Literal.fraction .single word with
    | .ok x => .ok (.fraction .single x)
    | .error e => .error (.unreadable single word e)
  | double =>
    match Literal.fraction .double word with
    | .ok x => .ok (.fraction .double x)
    | .error e => .error (.unreadable double word e)
  | optional t =>
    match t.read word with
    | .ok v => if t.isOptional then .error .nested else .ok (.given v)
    | .error e => .error e
  | complex => .error (.unsupported complex)
  | list t => .error (.unsupported (list t))

/-- **The value of a parameter**, from the words that are left. -/
def take (type : Parameter) : List Text → Except ArgumentError Argument
  | word :: _ => type.read word
  | [] =>
    match type with
    | optional t => .ok (.given t.zero)
    | _ => .error (.missing type)

/-- **The values of several parameters**, one word for each while there are
words. -/
def takeAll : List Parameter → List Text → Except ArgumentError (List Argument)
  | [], _ => .ok []
  | type :: types, words =>
    match type.take words with
    | .error e => .error e
    | .ok v => (takeAll types words.tail).map (v :: ·)

end Parameter

namespace ArgumentError

/-- What a number of this type is called, and the reading that refused it. -/
def reading : Parameter → Text × Text
  | .unsigned _ => ("unsigned int", "ParseUint")
  | .single | .double => ("float", "ParseFloat")
  | _ => ("int", "ParseInt")

/-- The message of an error. -/
def message : ArgumentError → Text
  | missing type => "expecting argument of type " ++ type.print ++ ", got nothing"
  | unreadable type word cause =>
    let (what, how) := reading type
    "convert " ++ word ++ " to " ++ what ++ ": strconv." ++ how ++ ": parsing "
      ++ word.quoted ++ ": " ++ cause.message
  | unsupported type => "unsupported type: " ++ type.print
  | nested => "reflect.Value.Addr of unaddressable value"

end ArgumentError

end PassingStyle
