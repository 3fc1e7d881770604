import VendorCss.Text

/-!
# The shortest decimal of a double

A finite double is `m · 2 ^ q` with natural numbers on one side of zero. Its printed form is the decimal with the fewest
digits among those that lie in the interval of the reals that round to it, and of these the nearest one. For one digit,
two digits and so on the two neighbours of the value on that decimal grid are tried in exact arithmetic; seventeen
digits always succeed. The form is positional, without exponent and without a fraction that is zero.
-/

namespace VendorCss.Decimal

/-- A positive dyadic number `mantissa · 2 ^ (exponent - bias)`; `even` says whether an end of its interval rounds to
it, and `edge` whether the gap below is half the gap above. -/
structure Dyadic where
  mantissa : Nat
  exponent : Nat
  bias : Nat
  edge : Bool
  deriving Repr, DecidableEq

/-- The fields of a finite double without its sign. -/
def Dyadic.ofBits (bits : Nat) : Dyadic :=
  let fraction := bits % 0x10000000000000
  let power := bits / 0x10000000000000 % 0x800
  if power = 0 then ⟨fraction, 0, 1074, false⟩
  else ⟨fraction + 0x10000000000000, power - 1, 1074, fraction == 0 && power > 1⟩

/-- Four times the value as a quotient of naturals: the numerator of a multiple `k / 4` of the mantissa's unit is `k`
times the first number, over the second. -/
def Dyadic.quarterUnit (d : Dyadic) : Nat × Nat :=
  if d.bias ≤ d.exponent then (Nat.pow 2 (d.exponent - d.bias), 4) else (1, 4 * Nat.pow 2 (d.bias - d.exponent))

/-- The number of decimal digits of a natural number; one for zero. -/
def digitCount (n : Nat) : Nat := (Nat.repr n).length

/-- How many times, at most `fuel`, the quotient `num / den` has to be multiplied by ten to reach 1. -/
def stepsToOne : (fuel num den : Nat) → Nat
  | 0, _, _ => 0
  | fuel + 1, num, den => if den ≤ num then 0 else stepsToOne fuel (10 * num) den + 1

/-- The power of ten of the leading digit of `num / den`. -/
def leadingPower (num den : Nat) : Int :=
  if den ≤ num then (digitCount (num / den) : Int) - 1 else -(stepsToOne 400 num den : Int)

/-- A decimal `digits · 10 ^ power`. -/
structure Scaled where
  digits : Nat
  power : Int
  deriving Repr, DecidableEq

/-- The decimal as a quotient of naturals. -/
def Scaled.quotient (s : Scaled) : Nat × Nat :=
  if 0 ≤ s.power then (s.digits * Nat.pow 10 s.power.toNat, 1) else (s.digits, Nat.pow 10 (-s.power).toNat)

/-- `a / b < c / d` for quotients of naturals. -/
def less (x y : Nat × Nat) : Bool := x.1 * y.2 < y.1 * x.2

/-- The distance of two quotients. -/
def distance (x y : Nat × Nat) : Nat × Nat :=
  ((x.1 * y.2 - y.1 * x.2) + (y.1 * x.2 - x.1 * y.2), x.2 * y.2)

/-- The decimal rounds to the number. -/
def Dyadic.admits (d : Dyadic) (s : Scaled) : Bool :=
  let (unit, den) := d.quarterUnit
  let low := ((4 * d.mantissa - if d.edge then 1 else 2) * unit, den)
  let high := ((4 * d.mantissa + 2) * unit, den)
  let x := s.quotient
  if d.mantissa % 2 = 0 then !less x low && !less high x else less low x && less x high

/-- The value as a quotient. -/
def Dyadic.value (d : Dyadic) : Nat × Nat :=
  let (unit, den) := d.quarterUnit
  (4 * d.mantissa * unit, den)

/-- The neighbour of the value on the grid of multiples of `10 ^ power` that rounds to it; of two the nearer, and of two
equally near the greater. -/
def Dyadic.onGrid? (d : Dyadic) (power : Int) : Option Scaled :=
  let (num, den) := d.value
  let below := if 0 ≤ power then num / (den * Nat.pow 10 power.toNat) else num * Nat.pow 10 (-power).toNat / den
  let low : Scaled := ⟨below, power⟩
  let high : Scaled := ⟨below + 1, power⟩
  match d.admits low, d.admits high with
  | true, true =>
    some (if less (distance low.quotient d.value) (distance high.quotient d.value) then low else high)
  | true, false => some low
  | false, true => some high
  | false, false => none

/-- The first grid with a hit, from `n` digits less than the leading power on. -/
def Dyadic.search (d : Dyadic) (leading : Int) : (fuel n : Nat) → Scaled
  | 0, n => ⟨0, leading - n⟩
  | fuel + 1, n =>
    match d.onGrid? (leading - n) with
    | some s => s
    | none => search d leading fuel (n + 1)

/-- The decimal with the fewest digits that reads back. -/
def Dyadic.shortest (d : Dyadic) : Scaled := d.search (leadingPower d.value.1 d.value.2) 18 0

/-- The digits of a natural number. -/
def digitsOf (n : Nat) : Text := (Nat.repr n).toList

/-- A text without the zeros at its end. -/
def dropZeros (t : Text) : Text := (t.reverse.dropWhile (· == '0')).reverse

/-- Positional notation, with no zero at the end of a fraction. -/
def Scaled.render (s : Scaled) : Text :=
  if 0 ≤ s.power then digitsOf (s.digits * Nat.pow 10 s.power.toNat)
  else
    let places := (-s.power).toNat
    let fraction := digitsOf (s.digits % Nat.pow 10 places)
    let fraction := dropZeros (List.replicate (places - fraction.length) '0' ++ fraction)
    digitsOf (s.digits / Nat.pow 10 places) ++ if fraction.isEmpty then [] else '.' :: fraction

/-- A double in positional notation with the fewest digits that read back. -/
def ofFloat (x : Float) : Text :=
  let bits := x.toBits.toNat
  let size := bits % 0x8000000000000000
  let sign : Text := if 0x8000000000000000 ≤ bits then "-" else []
  if 0x7FF0000000000000 < size then "NaN"
  else if size = 0x7FF0000000000000 then sign ++ "inf"
  else if size = 0 then sign ++ "0"
  else sign ++ (Dyadic.ofBits size).shortest.render

end VendorCss.Decimal
