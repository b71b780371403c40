import PassingStyle.Script.Order
import PassingStyle.Text.Distance

/-!
# Arguments of functions

A function takes its arguments by place, or by place and by keyword. In the second
case every parameter is a slot with a name, and a keyword that is none of the names
is refused, with a hint if it looks like a misspelled one.
-/

namespace PassingStyle

open Text

/-- A function objects. -/
def object (message : Text) : Except Objection α :=
  .error (.complaint message)

/-- Something that goes wrong is reported with a text in front. -/
def prefaced (front : Text) : Except Objection α → Except Objection α
  | .error (.complaint message) => .error (.complaint (front ++ message))
  | result => result

/-- **What a function wants of an argument.** -/
inductive Want where
  /-- Any value. -/
  | anything
  /-- A string. -/
  | string
  /-- A truth value. -/
  | bool
  /-- An integer that fits into some bits, one of which is for its sign. -/
  | signed (bits : Nat)
  /-- A natural number that fits into some bits. -/
  | unsigned (bits : Nat)
  /-- A value with elements. -/
  | iterable
  /-- A function. -/
  | callable
  deriving DecidableEq, Repr

namespace Want

/-- The name of what is wanted. -/
def name : Want → Text
  | anything => []
  | string => "string"
  | bool => "bool"
  | signed _ | unsigned _ => "int"
  | iterable => "iterable"
  | callable => "callable"

/-- An integer that does not fit. -/
def outOfRange (n : Int) (kind : Text) (bits : Nat) : Except Objection Unit :=
  object (ofInt n ++ " out of range (want value in " ++ kind ++ " " ++ ofNat bits ++ "-bit range)")

/-- **The value is what is wanted.** -/
def accept (want : Want) (v : Value) : Except Objection Unit :=
  match want, v with
  | anything, _ | string, .string _ | bool, .bool _ | callable, .builtin _ => .ok ()
  | signed bits, .int n => if fitsSigned bits n then .ok () else outOfRange n "signed" bits
  | unsigned bits, .int n =>
    if 0 ≤ n ∧ n < Nat.pow 2 bits then .ok () else outOfRange n "unsigned" bits
  | iterable, .list _ | iterable, .tuple _ | iterable, .dict _ | iterable, .set _ => .ok ()
  | iterable, .range _ _ _ => .ok ()
  | _, .hole => .error .hole
  | want, v => object ("got " ++ v.typeName ++ ", want " ++ want.name)

end Want

/-! ## By place -/

/-- Arguments that come one after the other are what is wanted. -/
def acceptPlaced (function : Text) : Nat → List Want → List Value → Except Objection Unit
  | n, want :: wants, v :: vs => do
    prefaced (function ++ ": for parameter " ++ ofNat n ++ ": ") (want.accept v)
    acceptPlaced function (n + 1) wants vs
  | _, _, _ => .ok ()

/-- **Arguments by place only**, of which the last ones may be missing. -/
def placed (function : Text) (least : Nat) (wants : List Want) (arguments : List Value)
    (keywords : Names) : Except Objection Unit := do
  let got := arguments.length
  let most := wants.length
  if !keywords.isEmpty then object (function ++ ": unexpected keyword arguments")
  if got < least then
    object (function ++ ": got " ++ ofNat got ++ " arguments, want " ++
      (if least < most then "at least " else "" : Text) ++ ofNat least)
  if most < got then
    object (function ++ ": got " ++ ofNat got ++ " arguments, want " ++
      (if least < most then "at most " else "" : Text) ++ ofNat most)
  acceptPlaced function 1 wants arguments

/-- The only argument of a function that takes it by place. -/
def onlyPlaced (function : Text) (want : Want) (arguments : List Value) (keywords : Names) :
    Except Objection Value := do
  placed function 1 [want] arguments keywords
  return arguments.headD .none

/-- The only argument of a function that says in words of its own that it takes no
others. -/
def onlyArgument (function count : Text) (arguments : List Value) (keywords : Names) :
    Except Objection Value :=
  if !keywords.isEmpty then object (function ++ " does not accept keyword arguments")
  else
    match arguments with
    | [v] => .ok v
    | _ => object (function ++ ": got " ++ ofNat arguments.length ++ " arguments, want " ++ count)

/-! ## By place or by keyword -/

/-- **A parameter with a name**, and the argument that it got so far. -/
structure Slot where
  /-- The name. -/
  name : Text
  /-- What its argument has to be. -/
  want : Want := .anything
  /-- The argument may be missing. -/
  optional : Bool := false
  /-- The argument. -/
  content : Option Value := none

namespace Slot

/-- The name that is most likely meant by a keyword: the nearest one, if it is near
enough. -/
def meant? (keyword : Text) (names : List Text) : Option Text :=
  let distanceTo (name : Text) : Nat := distance (folded keyword) (folded name)
  (names.filter keyword.isMisspelled).foldl (fun best name =>
    match best with
    | none => some name
    | some b => if distanceTo name < distanceTo b then some name else some b) none

/-- The complaint about a keyword that is no name of a parameter. -/
def unexpected (function keyword : Text) (names : List Text) : Text :=
  function ++ ": unexpected keyword argument " ++ keyword.quoted ++
    match meant? keyword names with
    | some name => " (did you mean " ++ name ++ "?)"
    | none => []

/-- A slot takes its argument; the parameter is shown under a name. -/
def fill (function shownName : Text) (v : Value) (slot : Slot) : Except Objection Slot := do
  prefaced (function ++ ": for parameter " ++ shownName ++ ": ") (slot.want.accept v)
  return { slot with content := some v }

/-- The arguments by place go into the first slots. -/
def fillPlaced (function : Text) : List Slot → List Value → Except Objection (List Slot)
  | slot :: slots, v :: vs => do
    let filled ← slot.fill function slot.name v
    return filled :: (← fillPlaced function slots vs)
  | slots, _ => .ok slots

/-- An argument by keyword goes into the slot of that name. -/
def fillNamed (function keyword : Text) (v : Value) (names : List Text) :
    List Slot → Except Objection (List Slot)
  | [] => object (unexpected function keyword names)
  | slot :: slots =>
    if slot.name ≠ keyword then do return slot :: (← fillNamed function keyword v names slots)
    else if slot.content.isSome then
      object (function ++ ": got multiple values for keyword argument " ++ keyword.quoted)
    else do return (← slot.fill function keyword.quoted v) :: slots

/-- **The arguments in the order of the slots**, where optional ones may be
missing. -/
def assign (function : Text) (slots : List Slot) (arguments : List Value) (keywords : Names) :
    Except Objection (List (Option Value)) := do
  if slots.length < arguments.length then
    object (function ++ ": got " ++ ofNat arguments.length ++ " arguments, want at most " ++
      ofNat slots.length)
  let slots ← fillPlaced function slots arguments
  let slots ← keywords.foldlM (fun slots (keyword, v) =>
    fillNamed function keyword v (slots.map (·.name)) slots) slots
  match slots.find? fun slot => !slot.optional && slot.content.isNone with
  | some slot => object (function ++ ": missing argument for " ++ slot.name)
  | none => return slots.map (·.content)

end Slot

end PassingStyle
