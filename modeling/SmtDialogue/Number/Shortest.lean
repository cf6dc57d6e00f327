import SmtDialogue.Number.Binary64

/-!
# The shortest text of a double-precision number

A double-precision number is written with the fewest decimal digits that read
back to it, and of those decimals with the nearest. The digits are found by
trial: for one digit, two, and so on up to seventeen, the two neighbours of the
number on the grid of that many digits are tested against the interval of reals
that round to the number. If any point of a grid lies in the interval, then one
of these two does.

The layout is a separate decision, kept in one record: positional up to
sixteen places before the point and down to four zeros after it, and otherwise
with an exponent of at least two digits.
-/

namespace SmtDialogue.Binary64

/-- A positive decimal `digits · 10^exponent`. -/
structure Decimal where
  /-- The significant digits as one number. -/
  digits : Nat
  /-- The power of ten of the last digit. -/
  exponent : Int
deriving DecidableEq, Repr

/-- A positive rational as numerator and denominator. -/
abbrev Ratio := Nat × Nat

/-- The number `n · 2^a · 10^b` as a quotient. -/
def ratio (n : Nat) (a b : Int) : Ratio :=
  (n * Nat.pow 2 a.toNat * Nat.pow 10 b.toNat, Nat.pow 2 (-a).toNat * Nat.pow 10 (-b).toNat)

/-- Whether one quotient is at most another. -/
def Ratio.le (x y : Ratio) : Bool :=
  x.1 * y.2 ≤ y.1 * x.2

/-- Whether one quotient is below another. -/
def Ratio.lt (x y : Ratio) : Bool :=
  x.1 * y.2 < y.1 * x.2

/-- Whether a decimal rounds to `m · 2^q`: it lies between the midpoints to the
two neighbours, which count when `m` is even. Below a power of two the
neighbour is only half as far. -/
def Decimal.roundsTo (d : Decimal) (m : Nat) (q : Int) : Bool :=
  let below := if m == Nat.pow 2 52 && q > -1074 then 1 else 2
  let lower := ratio (4 * m - below) (q - 2) 0
  let upper := ratio (4 * m + 2) (q - 2) 0
  let value := ratio d.digits 0 d.exponent
  if m % 2 == 0 then lower.le value && value.le upper else lower.lt value && value.lt upper

/-- The decimal with the last digit at `10^place` that lies nearest to
`m · 2^q` among those that round to it; of two equally near ones the even
one. -/
def nearestAt (m : Nat) (q place : Int) : Option Decimal :=
  let (num, den) := ratio m q (-place)
  let floor : Decimal := ⟨num / den, place⟩
  let ceil : Decimal := ⟨num / den + 1, place⟩
  let rest := 2 * (num % den)
  let first := rest < den || (rest == den && floor.digits % 2 == 0)
  let (near, far) := if first then (floor, ceil) else (ceil, floor)
  [near, far].find? fun d => d.digits != 0 && d.roundsTo m q

/-- The number of decimal digits before the point of `m · 2^q`, counted
negatively when it starts with zeros after the point: the largest `k` with
`10^(k-1) ≤ m · 2^q`, searched upwards from `k`. -/
def magnitude (m : Nat) (q : Int) : Nat → Int → Int
  | 0, k => k
  | fuel + 1, k =>
    if (ratio 1 0 k).le (ratio m q 0) then magnitude m q fuel (k + 1) else k

/-- A decimal without trailing zeros. -/
def Decimal.strip : Nat → Decimal → Decimal
  | 0, d => d
  | fuel + 1, d =>
    if d.digits % 10 == 0 && d.digits != 0 then strip fuel ⟨d.digits / 10, d.exponent + 1⟩ else d

/-- The shortest decimal that reads back to `m · 2^q`, for positive `m`. -/
def shortest (m : Nat) (q : Int) : Decimal :=
  let k := magnitude m q 640 (-325)
  let found := (List.range 17).findSome? fun n => nearestAt m q (k - (n + 1 : Nat))
  (found.getD ⟨m, 0⟩).strip 17

/-- How a number is laid out. -/
structure Layout where
  /-- The most places before the point in positional form. -/
  maxPlaces : Int
  /-- The most zeros after the point in positional form. -/
  maxZeros : Int
  /-- The least number of digits of an exponent. -/
  exponentDigits : Nat

/-- Numbers have at most sixteen places before the point and four zeros minus
one after it, and an exponent has two digits at least. -/
def layout : Layout := ⟨16, 3, 2⟩

/-- A natural number with leading zeros up to a least width. -/
def padded (width n : Nat) : String :=
  let s := toString n
  String.ofList (List.replicate (width - s.length) '0') ++ s

/-- A positive decimal in the given layout. -/
def Layout.text (l : Layout) (d : Decimal) : String :=
  let ds := (toString d.digits).toList
  let point : Int := ds.length + d.exponent
  if -l.maxZeros ≤ point && point ≤ l.maxPlaces then
    if point ≤ 0 then
      "0." ++ String.ofList (List.replicate (-point).toNat '0' ++ ds)
    else
      let full := ds ++ List.replicate (point.toNat - ds.length) '0'
      let fraction := full.drop point.toNat
      String.ofList (full.take point.toNat) ++ "." ++
        (if fraction.isEmpty then "0" else String.ofList fraction)
  else
    let e := point - 1
    let lead := match ds with
      | [] => ""
      | [c] => String.ofList [c]
      | c :: rest => String.ofList (c :: '.' :: rest)
    lead ++ "e" ++ (if e < 0 then "-" else "+") ++ padded l.exponentDigits e.natAbs

/-- The text of a number. -/
def text : Binary64 → String
  | nan => "nan"
  | infinite negative => if negative then "-inf" else "inf"
  | finite negative m q =>
    (if negative then "-" else "") ++ (if m == 0 then "0.0" else layout.text (shortest m q))

end SmtDialogue.Binary64
