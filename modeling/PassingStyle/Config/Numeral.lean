import PassingStyle.Config.Document
import PassingStyle.Number.Literal

/-!
# Numbers in documents

A number is written in base ten, as an integer or as a fraction with a point, an
exponent, or both; an integer can also be written in base sixteen, eight or two
after a mark. Single underscores may separate digits. An integer of base ten has no
needless zeros in front, and may end in a letter that multiplies it: `K` is a
thousand, `Ki` is 1024, and `M`, `G`, `T` and `P` are the next powers.

A fraction keeps its value as long as its point stays within wide bounds. Beyond
them the point is lost, and an exponent of more than 32 bits takes the digits with
it.
-/

namespace PassingStyle

open Text

namespace Document

/-- The fraction `c · 10^e` without zeros at the end of its coefficient. -/
def ofScaled (c : Nat) (e : Int) : Document :=
  if c = 0 then .fraction 0 0
  else
    let zeros := ((ofNat c).reverse.takeWhile (· == byte '0')).length
    .fraction (c / Nat.pow 10 zeros : Nat) (e + zeros)

/-- The number with its sign changed. -/
def negated : Document → Document
  | .int n => .int (-n)
  | .fraction c e => .fraction (-c) e
  | .immense negative => .immense (!negative)
  | d => d

end Document

namespace Numeral

/-- The largest distance between the point and the first digit of a fraction. -/
def widest : Int := 100000

/-- The size lies within the bounds of exponents. -/
def isNarrow (e : Int) : Bool :=
  -widest ≤ e && e ≤ widest

/-- **A fraction in its place**: the digits `c`, of which `places` come after the
point, with the point moved by `moved`. Out of bounds the point is lost. -/
def placed (c places : Nat) (moved : Int) : Document :=
  let e := moved - places
  let top := e + (ofNat c).length - 1
  if isNarrow moved && isNarrow places && isNarrow top then .ofScaled c e else .ofScaled c 0

/-- The digits without their separators; nothing if a separator does not stand
right after a digit and right before another one. -/
def unseparated? (isDigit : UInt8 → Bool) (t : Text) : Option Text :=
  let digits := t.filter (· != byte '_')
  let isApart := (byte '_' :: t).zip (t ++ [byte '_']) |>.all fun (a, b) =>
    isDigit a || isDigit b
  if digits.all isDigit && isApart && t.head? != some (byte '_')
      && t.getLast? != some (byte '_') then some digits
  else none

/-- Digits of base ten, at least one. -/
def digits? (t : Text) : Option Text :=
  match unseparated? isDigit t with
  | some [] => none
  | found => found

/-- The factors by which a letter multiplies, in thousands. -/
def multipliers : List UInt8 := [byte 'K', byte 'M', byte 'G', byte 'T', byte 'P']

/-- The factor at the end of an integer, and the digits before it. -/
def splitFactor (t : Text) : Nat × Text :=
  let (base, letters) := match t.reverse with
    | b :: rest => if b = byte 'i' then (1024, rest) else (1000, b :: rest)
    | [] => (1000, [])
  match letters with
  | [] => (1, t)
  | b :: rest =>
    match multipliers.idxOf? b with
    | some i => (Nat.pow base (i + 1), rest.reverse)
    | none => (1, t)

/-- An integer of base ten. -/
def integer? (t : Text) : Option Document :=
  let (factor, digits) := splitFactor t
  match digits? digits with
  | none => none
  | some ds =>
    if 1 < ds.length ∧ ds.head? = some (byte '0') then none
    else some (.int (digitsValue ds * factor : Nat))

/-- An integer of another base, after its mark. -/
def inBase? (base : Nat) (t : Text) : Option Document :=
  let digit? (b : UInt8) : Option Nat := (Literal.digit? true b).filter (· < base)
  match unseparated? (fun b => (digit? b).isSome) t with
  | none | some [] => none
  | some ds => some (.int ((ds.filterMap digit?).foldl (fun n d => base * n + d) 0 : Nat))

/-- The exponent of a fraction: a mark, a sign and digits. -/
def exponent? : Text → Option Int
  | [] => none
  | b :: rest =>
    if lower [b] = "e" then
      let (negative, digits) := Literal.splitSign rest
      (digits? digits).map fun ds =>
        if negative then -(digitsValue ds : Int) else digitsValue ds
    else none

/-- Digits of base ten, possibly none. -/
def places? (t : Text) : Option Text :=
  if t.isEmpty then some [] else digits? t

/-- A fraction: digits on at least one side of a point, or digits and an
exponent. -/
def fraction? (t : Text) : Option Document :=
  let isPart (b : UInt8) : Bool := isDigit b || b == byte '_'
  let (whole, rest) := t.span isPart
  let (places, rest) := match rest with
    | b :: after => if b = byte '.' then after.span isPart else ([], rest)
    | [] => ([], [])
  match places? whole, places? places with
  | some w, some p =>
    if w.isEmpty && p.isEmpty then none
    else if rest.isEmpty then some (placed (digitsValue (w ++ p)) p.length 0)
    else (exponent? rest).map fun moved =>
      if fitsSigned 32 moved then placed (digitsValue (w ++ p)) p.length moved
      else .immense false
  | _, _ => none

/-- **The number that a numeral stands for.** -/
def parse? (t : Text) : Option Document :=
  match t.dropHead? "0x", t.dropHead? "0o", t.dropHead? "0b" with
  | some digits, _, _ => inBase? 16 digits
  | _, some digits, _ => inBase? 8 digits
  | _, _, some digits => inBase? 2 digits
  | _, _, _ =>
    match integer? t with
    | some n => some n
    | none => if t.contains (byte '.') || (lower t).contains (byte 'e') then fraction? t else none

end Numeral

end PassingStyle
