import PassingStyle.Number
import PassingStyle.Text

/-!
# Shortest decimals

A number is printed with the fewest decimal digits that read back as the same
number. Of the decimals with that many digits the one nearest to the number is
taken, and between two that are equally near the one with an even last digit.

The search follows the statement: for one digit, two digits and so on, the two
neighbours of the number on the grid of decimals with that many digits are read
back, and the first grid with a hit decides. Every binary number has a finite
decimal expansion, which is what is left if no short grid has a hit.

How the digits are laid out – positionally, or with an exponent – is a choice
of the text they appear in, and the two layouts stand at the end of the module.
-/

namespace PassingStyle

/-- **A decimal**: `digits` after the point, moved by `point` places; that is
`0.d₁d₂… · 10^point`. -/
structure Decimal where
  /-- The significant digits, without zeros at either end. -/
  digits : Text
  /-- The place of the decimal point, counted from the first digit. -/
  point : Int
  deriving DecidableEq, Repr

namespace Decimal

/-- The decimal `c · 10^k`. -/
def ofScaled (c : Nat) (k : Int) : Decimal :=
  if c = 0 then ⟨[], 0⟩
  else
    let all := Text.ofNat c
    ⟨(all.reverse.dropWhile (· == Text.byte '0')).reverse, k + all.length⟩

/-- The number of decimal digits before the point of the positive fraction
`n / d`; zero or less if it is below one, by the zeros that follow the
point. -/
def magnitude (n d : Nat) : Int :=
  if d ≤ n then (Text.ofNat (n / d)).length
  else
    let q := (d - 1) / n
    1 - ((Text.ofNat q).length : Int)

/-- The coefficient on the grid of multiples of `10^k` that reads back as `x`
and is nearest to it, if one does. The number is the fraction `n / d`. -/
def onGrid? (f : Format) (x : Number) (n d : Nat) (k : Int) : Option Nat :=
  let q := Format.scaleDown 10 n d k
  let below := q.1 / q.2
  let rest := q.1 % q.2
  let reads (c : Nat) : Bool := f.ofDecimal? false c k == some x
  if rest = 0 then
    if reads below then some below else none
  else
    match reads below, reads (below + 1) with
    | false, false => none
    | true, false => some below
    | false, true => some (below + 1)
    | true, true =>
      some (if 2 * rest < q.2 then below
        else if q.2 < 2 * rest then below + 1
        else below + below % 2)

/-- **The shortest decimal** that reads back in the format as `m · 2^e`. -/
def shortest (f : Format) (m : Nat) (e : Int) : Decimal :=
  if m = 0 then ⟨[], 0⟩
  else
    let q := Format.scaleDown 2 m 1 (-e)
    let size := magnitude q.1 q.2
    let found := (List.range 17).findSome? fun i =>
      let k := size - (i + 1 : Nat)
      (onGrid? f (.finite false m e) q.1 q.2 k).map fun c => ofScaled c k
    found.getD (if 0 ≤ e then ofScaled (m * Nat.pow 2 e.toNat) 0
      else ofScaled (m * Nat.pow 5 (-e).toNat) e)

/-- The decimal written positionally: no exponent, zeros wherever a place has
no digit. -/
def positional (d : Decimal) : Text :=
  let zeros (n : Nat) : Text := List.replicate n (Text.byte '0')
  let whole :=
    if d.point ≤ 0 then zeros 1
    else d.digits.take d.point.toNat ++ zeros (d.point.toNat - d.digits.length)
  let fraction := zeros (-d.point).toNat ++ d.digits.drop d.point.toNat
  if fraction.isEmpty ∨ d.digits.isEmpty then whole
  else whole ++ [Text.byte '.'] ++ fraction

/-- The decimal written with one digit before the point and an exponent of at
least two digits, which always has a sign. -/
def scientific (d : Decimal) : Text :=
  let exponent := d.point - 1
  let sign : Text := if exponent < 0 then "-" else "+"
  let size := Text.ofNat exponent.natAbs
  let padded := if size.length < 2 then Text.byte '0' :: size else size
  let fraction := d.digits.drop 1
  d.digits.take 1 ++ (if fraction.isEmpty then [] else Text.byte '.' :: fraction)
    ++ "e" ++ sign ++ padded

/-- The decimal written positionally if its first digit stands less than six
places before the point and at most four after it, and with an exponent
otherwise. -/
def compact (d : Decimal) : Text :=
  if d.point - 1 < -4 ∨ 6 ≤ d.point - 1 then d.scientific else d.positional

end Decimal

namespace Number

/-- The text of a number, given how a decimal is laid out. -/
def render (f : Format) (layout : Decimal → Text) : Number → Text
  | nan => "NaN"
  | infinite negative => if negative then "-Inf" else "+Inf"
  | finite negative m e =>
    (if negative then "-" else "" : Text) ++ layout (Decimal.shortest f m e)

/-- The text of a number in printed programs. -/
def print : Number → Text :=
  render .double Decimal.positional

/-- The text of a number where the layout depends on its size. -/
def printCompact (f : Format) : Number → Text :=
  render f Decimal.compact

end Number

end PassingStyle
