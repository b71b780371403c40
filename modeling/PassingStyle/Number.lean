/-!
# Binary numbers

Numbers are binary floating-point values: a sign, a mantissa and an exponent
of two, or one of the values that are no number at all. The mantissa and the
exponent are plain integers, so a value can be compared, rounded and printed
by exact integer arithmetic, and statements about it need no model of a
machine.

A *format* bounds the mantissa and the exponent. Rounding a fraction into a
format goes to the nearest value, and from the middle between two neighbours
to the one whose mantissa is even.
-/

namespace PassingStyle

/-- **A number**: `finite s m e` is `m · 2^e`, negated if `s` is set. -/
inductive Number where
  /-- No number. -/
  | nan
  /-- Above or below every finite value. -/
  | infinite (negative : Bool)
  /-- The value `mantissa · 2^exponent` with a sign, which zero has as well. -/
  | finite (negative : Bool) (mantissa : Nat) (exponent : Int)
  deriving DecidableEq, Repr

/-- The integer can be written with `bits` bits, one of which is for its
sign. -/
def fitsSigned (bits : Nat) (n : Int) : Bool :=
  -(Nat.pow 2 (bits - 1) : Int) ≤ n && n < (Nat.pow 2 (bits - 1) : Int)

namespace Number

/-- **Equality of values**: no number equals itself, and the two zeros are
equal. -/
def same : Number → Number → Bool
  | infinite s, infinite t => s == t
  | finite s m e, finite t n f => (m == 0 && n == 0) || (s == t && m == n && e == f)
  | _, _ => false

/-- The value with its sign replaced. -/
def withSign (negative : Bool) : Number → Number
  | nan => nan
  | infinite _ => infinite negative
  | finite _ m e => finite negative m e

/-- `x` is below zero, or is the zero that carries a minus sign. -/
def isNegative : Number → Bool
  | nan => false
  | infinite s => s
  | finite s _ _ => s

/-- The integer that a finite value is, if it is one. -/
def toInt? : Number → Option Int
  | finite s m e =>
    let magnitude : Option Nat :=
      if 0 ≤ e then some (m * Nat.pow 2 e.toNat)
      else if m % Nat.pow 2 (-e).toNat = 0 then some (m / Nat.pow 2 (-e).toNat)
      else none
    magnitude.map fun n => if s then -(n : Int) else n
  | _ => none

/-- A finite value without what stands after its point. -/
def truncate? : Number → Option Int
  | finite s m e =>
    let magnitude := if 0 ≤ e then m * Nat.pow 2 e.toNat else m / Nat.pow 2 (-e).toNat
    some (if s then -(magnitude : Int) else magnitude)
  | _ => none

/-- The number that an integer is, whatever its size. -/
def ofInt (n : Int) : Number :=
  finite (n < 0) n.natAbs 0

/-- A finite value as a multiple of `2^k`, where `k` is at most its exponent. -/
def multiple (k : Int) (negative : Bool) (mantissa : Nat) (exponent : Int) : Int :=
  let n := mantissa * Nat.pow 2 (exponent - k).toNat
  if negative then -(n : Int) else n

/-- **The order of values**, in which what is no number comes after all others. -/
def order : Number → Number → Ordering
  | nan, nan => .eq
  | nan, _ => .gt
  | _, nan => .lt
  | infinite s, infinite t => compare (!s) (!t)
  | infinite s, finite _ _ _ => if s then .lt else .gt
  | finite _ _ _, infinite t => if t then .gt else .lt
  | finite s m e, finite t n f =>
    let k := min e f
    compare (multiple k s m e) (multiple k t n f)

end Number

/-- **A format of binary numbers**: mantissas have at most `precision` bits,
and exponents lie between `least` and `greatest`. -/
structure Format where
  /-- The number of bits of a mantissa. -/
  precision : Nat
  /-- The exponent of the smallest values. -/
  least : Int
  /-- The exponent of the largest values. -/
  greatest : Int
  deriving DecidableEq, Repr

namespace Format

/-- Numbers of 64 bits. -/
def double : Format := ⟨53, -1074, 971⟩

/-- Numbers of 32 bits. -/
def single : Format := ⟨24, -149, 104⟩

/-- The integer nearest to `n / d`; the even one from the middle. -/
def roundDiv (n d : Nat) : Nat :=
  let q := n / d
  let r := n % d
  if 2 * r < d then q else if d < 2 * r then q + 1 else q + q % 2

/-- The fraction `n / d` divided by `b^e`, as a fraction again. -/
def scaleDown (b : Nat) (n d : Nat) (e : Int) : Nat × Nat :=
  if 0 ≤ e then (n, d * Nat.pow b e.toNat) else (n * Nat.pow b (-e).toNat, d)

/-- The exponent with which a positive fraction `n / d` is written in the
format: the smallest one that leaves the mantissa `precision` bits. -/
def exponentOf (f : Format) (n d : Nat) : Int :=
  let e : Int := n.log2 - d.log2 - f.precision
  let q := scaleDown 2 n d e
  max f.least (if q.1 / q.2 < Nat.pow 2 f.precision then e else e + 1)

/-- **Rounding into a format**: the value of the format nearest to the
fraction `n / d`, or nothing if it lies beyond the largest one. -/
def round? (f : Format) (negative : Bool) (n d : Nat) : Option Number :=
  if n = 0 then some (.finite negative 0 0)
  else
    let e := f.exponentOf n d
    let q := scaleDown 2 n d e
    let m := roundDiv q.1 q.2
    let (m, e) := if m = Nat.pow 2 f.precision then (Nat.pow 2 (f.precision - 1), e + 1) else (m, e)
    if m = 0 then some (.finite negative 0 0)
    else if f.greatest < e then none
    else some (.finite negative m e)

/-- The value nearest to `c · 10^k`. -/
def ofDecimal? (f : Format) (negative : Bool) (c : Nat) (k : Int) : Option Number :=
  let q := scaleDown 10 c 1 (-k)
  f.round? negative q.1 q.2

/-- The value nearest to an integer; beyond the largest value, an infinite
one. -/
def ofInt (f : Format) (i : Int) : Number :=
  (f.round? (i < 0) i.natAbs 1).getD (.infinite (i < 0))

end Format

end PassingStyle
