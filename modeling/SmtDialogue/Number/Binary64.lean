/-!
# Double-precision numbers

A finite double-precision number is a sign and `m · 2^q` with `m < 2^53`; besides
these there are the two infinities and a value that is no number. The only
operations needed are rounding an exact quotient to the nearest finite number,
ties to the even mantissa, cutting a number to an integer, and comparing it with
one. All of it is exact arithmetic on naturals, so nothing depends on a
floating-point unit.
-/

namespace SmtDialogue

/-- A double-precision number. -/
inductive Binary64 where
  /-- The number `± mantissa · 2^exponent`. -/
  | finite (negative : Bool) (mantissa : Nat) (exponent : Int)
  /-- Too large in absolute value for any finite number. -/
  | infinite (negative : Bool)
  /-- No number at all. -/
  | nan
deriving DecidableEq, Repr

namespace Binary64

/-- A quotient rounded to the nearest natural, a tie going to the even
neighbour. -/
def roundDiv (num den : Nat) : Nat :=
  let q := num / den
  let r := num % den
  if 2 * r < den then q
  else if den < 2 * r then q + 1
  else if q % 2 == 0 then q else q + 1

/-- The largest `e` with `2^e ≤ num / den`, for positive `num` and `den`. -/
def floorLog2 (num den : Nat) : Int :=
  let e : Int := (num.log2 : Int) - den.log2
  if num * Nat.pow 2 (-e).toNat < den * Nat.pow 2 e.toNat then e - 1 else e

/-- The number nearest to `± num / den`. Mantissas have 53 bits, fewer only at
the least exponent `-1074`. -/
def ofQuotient (negative : Bool) (num den : Nat) : Binary64 :=
  if num == 0 then finite negative 0 (-1074)
  else
    let q := max (floorLog2 num den - 52) (-1074)
    let m := roundDiv (num * Nat.pow 2 (-q).toNat) (den * Nat.pow 2 q.toNat)
    let (m, q) := if m == Nat.pow 2 53 then (Nat.pow 2 52, q + 1) else (m, q)
    if q > 971 then infinite negative else finite negative m q

/-- The number nearest to `± digits · 10^exponent`. Far outside the range of
finite numbers no power of ten need be computed: a decimal that is positive and
whole in units of `10^401` is infinite, and one below `10^-400` is zero. -/
def ofDecimal (negative : Bool) (digits : Nat) (exponent : Int) : Binary64 :=
  if digits == 0 then finite negative 0 (-1074)
  else if 400 < exponent then infinite negative
  else if exponent + digits.log2 < -400 then finite negative 0 (-1074)
  else ofQuotient negative (digits * Nat.pow 10 exponent.toNat) (Nat.pow 10 (-exponent).toNat)

/-- The number nearest to an integer. -/
def ofInt (n : Int) : Binary64 :=
  ofQuotient (n < 0) n.natAbs 1

/-- The product with a natural number, rounded. -/
def scale (x : Binary64) (k : Nat) : Binary64 :=
  match x with
  | finite negative m q => ofQuotient negative (m * k * Nat.pow 2 q.toNat) (Nat.pow 2 (-q).toNat)
  | infinite negative => if k == 0 then nan else infinite negative
  | nan => nan

/-- The number without its fractional part; only a finite one has any
other. -/
def truncate? : Binary64 → Option Int
  | finite negative m q =>
    let n : Nat := m * Nat.pow 2 q.toNat / Nat.pow 2 (-q).toNat
    some (if negative then -(n : Int) else n)
  | infinite _ | nan => none

/-- Whether the number is a finite one. -/
def isFinite : Binary64 → Bool
  | finite .. => true
  | infinite _ | nan => false

/-- Whether the number is above a natural number. -/
def exceeds (x : Binary64) (n : Nat) : Bool :=
  match x with
  | finite negative m q => !negative && n * Nat.pow 2 (-q).toNat < m * Nat.pow 2 q.toNat
  | infinite negative => !negative
  | nan => false

/-- Whether the number is zero, of either sign. -/
def isZero : Binary64 → Bool
  | finite _ m _ => m == 0
  | infinite _ | nan => false

/-- Whether the number is the given integer. -/
def isInt (x : Binary64) (n : Int) : Bool :=
  match x with
  | finite negative m q =>
    let signed : Int := if negative then -(m : Int) else m
    signed * Nat.pow 2 q.toNat == n * Nat.pow 2 (-q).toNat
  | infinite _ | nan => false

/-- Whether two numbers are the same point of the line; the two zeros are, and
what is no number is no point. -/
def sameNumber (x y : Binary64) : Bool :=
  x != nan && (x == y || (x.isZero && y.isZero))

end Binary64

end SmtDialogue
