import PassingStyle.Number
import PassingStyle.Text.Quoted

/-!
# Number literals

The spellings under which a number may be given on a command line: decimal
integers with bounds on their size, decimal and hexadecimal fractions, and the
names of the values that are not finite. A literal is refused either because
no number is spelled that way or because the number does not fit. In a fraction,
underscores may separate digits.
-/

namespace PassingStyle

open Text

/-- **Why a literal is refused.** -/
inductive LiteralError where
  /-- The text spells no number. -/
  | malformed
  /-- The number that the text spells does not fit. -/
  | outOfRange
  deriving DecidableEq, Repr

/-- What a refusal says about the literal. -/
def LiteralError.message : LiteralError → Text
  | .malformed => "invalid syntax"
  | .outOfRange => "value out of range"

namespace Literal

/-- A sign in front of a literal, and what follows it. -/
def splitSign : Text → Bool × Text
  | [] => (false, [])
  | b :: rest =>
    if b = byte '-' then (true, rest)
    else if b = byte '+' then (false, rest)
    else (false, b :: rest)

/-- The number that the digits of a text continue, as long as it stays below the
bound. Digits are read one by one, so a number that has become too large is not
looked at any further. -/
def digitsBelow (bound n : Nat) : Text → Except LiteralError Nat
  | [] => .ok n
  | b :: rest =>
    if isDigit b then
      let m := 10 * n + (b - byte '0').toNat
      if m < bound then digitsBelow bound m rest else .error .outOfRange
    else .error .malformed

/-- **An unsigned integer** of `bits` bits. -/
def unsigned (bits : Nat) (t : Text) : Except LiteralError Nat :=
  if t.isEmpty then .error .malformed else digitsBelow (Nat.pow 2 bits) 0 t

/-- **A signed integer** of `bits` bits. -/
def signed (bits : Nat) (t : Text) : Except LiteralError Int :=
  let (negative, digits) := splitSign t
  match unsigned bits digits with
  | .error e => .error e
  | .ok n =>
    let value : Int := if negative then -(n : Int) else n
    if fitsSigned bits value then .ok value else .error .outOfRange

/-! ## Fractions -/

/-- The value of a digit in base ten or sixteen. -/
def digit? (hexadecimal : Bool) (b : UInt8) : Option Nat :=
  if isDigit b then some (b - byte '0').toNat
  else if hexadecimal && byte 'a' ≤ b && b ≤ byte 'f' then some (b - byte 'a' + 10).toNat
  else if hexadecimal && byte 'A' ≤ b && b ≤ byte 'F' then some (b - byte 'A' + 10).toNat
  else none

/-- The longest run of digits and separators at the start of a text, and the
rest. -/
def spanDigits (hexadecimal : Bool) (t : Text) : Text × Text :=
  t.span fun b => (digit? hexadecimal b).isSome || b == byte '_'

/-- The digits of a run, separators left out. -/
def runDigits (hexadecimal : Bool) (run : Text) : List Nat :=
  run.filterMap (digit? hexadecimal)

/-- The number that a run of digits denotes. -/
def runValue (hexadecimal : Bool) (run : Text) : Nat :=
  (runDigits hexadecimal run).foldl (fun n d => (if hexadecimal then 16 else 10) * n + d) 0

/-- Every separator stands between two digits; `before` says whether a digit
comes right before the text. -/
def separated (hexadecimal before : Bool) : Text → Bool
  | [] => true
  | b :: rest =>
    if b = byte '_' then
      before && (rest.head?.any fun c => (digit? hexadecimal c).isSome)
        && separated hexadecimal false rest
    else separated hexadecimal (digit? hexadecimal b).isSome rest

/-- The exponent that digits denote. It has grown beyond all bounds when it has
five digits, and the digits after them are not looked at. -/
def exponentSize (digits : List Nat) : Nat :=
  digits.foldl (fun n d => if n < 10000 then 10 * n + d else n) 0

/-- The exponent at the end of a literal: a mark, a sign and digits. -/
def exponent? (mark : UInt8) (t : Text) : Option Int :=
  match t with
  | [] => none
  | b :: rest =>
    if lower [b] ≠ [mark] then none
    else
      let (negative, digits) := splitSign rest
      let (run, after) := spanDigits false digits
      if (digits.head?.any isDigit) && after.isEmpty then
        let size := exponentSize (runDigits false run)
        some (if negative then -(size : Int) else size)
      else none

/-- The digits before and after the point of a fraction, and what follows
them. -/
def splitPoint (hexadecimal : Bool) (t : Text) : Text × Text × Text :=
  let (whole, rest) := spanDigits hexadecimal t
  match rest with
  | [] => (whole, [], [])
  | b :: after =>
    if b = byte '.' then
      let (fraction, rest) := spanDigits hexadecimal after
      (whole, fraction, rest)
    else (whole, [], rest)

/-- A fraction written in base ten: the coefficient and the power of ten. -/
def decimal? (t : Text) : Option (Nat × Int) :=
  let (whole, fraction, rest) := splitPoint false t
  if (runDigits false (whole ++ fraction)).isEmpty || !separated false false t then none
  else
    let exponent := if rest.isEmpty then some 0 else exponent? (byte 'e') rest
    exponent.map fun e =>
      (runValue false (whole ++ fraction), e - ((runDigits false fraction).length : Int))

/-- A fraction written in base sixteen, after its mark: the coefficient and
the power of two. The exponent may not be left out. -/
def hexadecimal? (t : Text) : Option (Nat × Int) :=
  let (whole, fraction, rest) := splitPoint true t
  if (runDigits true (whole ++ fraction)).isEmpty || !separated true true t then none
  else
    (exponent? (byte 'p') rest).map fun e =>
      (runValue true (whole ++ fraction), e - 4 * ((runDigits true fraction).length : Int))

/-- The names of the values that are not finite, in any case of letters. Only
an infinite value may have a sign. -/
def named? (t : Text) : Option Number :=
  let (negative, name) := splitSign t
  if lower name = "inf" ∨ lower name = "infinity" then some (.infinite negative)
  else if lower t = "nan" then some .nan
  else none

/-- **A fraction in a format.** -/
def fraction (f : Format) (t : Text) : Except LiteralError Number :=
  match named? t with
  | some x => .ok x
  | none =>
    let (negative, magnitude) := splitSign t
    let value? : Option (Option Number) :=
      if magnitude.length > 2 && lower (magnitude.take 2) == "0x" then
        (hexadecimal? (magnitude.drop 2)).map fun (c, e) =>
          let q := Format.scaleDown 2 c 1 (-e)
          f.round? negative q.1 q.2
      else (decimal? magnitude).map fun (c, e) => f.ofDecimal? negative c e
    match value? with
    | none => .error .malformed
    | some none => .error .outOfRange
    | some (some x) => .ok x

end Literal

end PassingStyle
