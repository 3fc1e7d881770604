import VendorCss.Decimal.Shortest

/-!
# Remainders of doubles

The remainder of a finite double by a whole number, whose sign is that of the double, is a double again; so it is taken
in exact arithmetic and nothing is rounded. Infinities and what is no number have no remainder.
-/

namespace VendorCss.Decimal

/-- The remainder of a dyadic number by `n`. -/
def Dyadic.remainder (d : Dyadic) (n : Nat) : Float :=
  if d.bias ≤ d.exponent then Float.ofNat (d.mantissa * Nat.pow 2 (d.exponent - d.bias) % n)
  else
    let places := d.bias - d.exponent
    Float.scaleB (Float.ofNat (d.mantissa % (n * Nat.pow 2 places))) (-(places : Int))

/-- The remainder of a double by a positive number, with the sign of the double. -/
def remainder (x : Float) (n : Nat) : Float :=
  let bits := x.toBits.toNat
  let size := bits % 0x8000000000000000
  if 0x7FF0000000000000 ≤ size then Float.ofBits 0x7FF8000000000000
  else
    let r := (Dyadic.ofBits size).remainder n
    if 0x8000000000000000 ≤ bits then -r else r

/-- The remainder brought between zero and `n`. -/
def wrapped (x : Float) (n : Nat) : Float :=
  let r := remainder x n
  if r < 0 then r + Float.ofNat n else r

/-- A double rounded to three places, a half away from zero. -/
def roundThousandths (x : Float) : Float := (x * 1000).round / 1000

end VendorCss.Decimal
