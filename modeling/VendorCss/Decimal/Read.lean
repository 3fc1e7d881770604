import VendorCss.Text

/-!
# Reading numbers

Whole numbers are decimal digits with at most one sign, and must fit a given range. A double is an optional sign before
digits with at most one point, a digit at least, and an optional exponent; or a name of infinity or of no number, in
letters of any case. The value is the double nearest to the decimal.
-/

namespace VendorCss.Decimal

/-- The number that digits spell. -/
def natOfDigits (t : Text) : Nat := t.foldl (fun n c => 10 * n + (c.toNat - 48)) 0

/-- The number that a text of digits alone, at least one, spells. -/
def digits? (t : Text) : Option Nat := if !t.isEmpty && t.all isAsciiDigit then some (natOfDigits t) else none

/-- A natural number below `limit`; a plus sign may stand before it. -/
def natBelow? (limit : Nat) (t : Text) : Option Nat :=
  let t := match t with | '+' :: t => t | t => t
  (digits? t).filter (· < limit)

/-- A count of 32 bits. -/
def nat32? (t : Text) : Option Nat := natBelow? 0x100000000 t

/-- A count of 64 bits. -/
def nat64? (t : Text) : Option Nat := natBelow? 0x10000000000000000 t

/-- An integer of 64 bits with an optional sign. -/
def int64? (t : Text) : Option Int :=
  match t with
  | '-' :: t => ((digits? t).filter (· ≤ 0x8000000000000000)).map fun n => -(n : Int)
  | t => (natBelow? 0x8000000000000000 t).map Int.ofNat

/-- The double nearest to `mantissa · 10 ^ power`. Powers far outside the range of doubles are settled without
computing them. -/
def nearest (mantissa : Nat) (power : Int) : Float :=
  if mantissa = 0 then 0
  else
    let leading := power + (Nat.repr mantissa).length
    if 310 < leading then Float.ofBits 0x7FF0000000000000
    else if leading < -330 then 0
    else if 0 ≤ power then Float.ofScientific mantissa false power.toNat
    else Float.ofScientific mantissa true (-power).toNat

/-- The exponent that a text spells after its letter. -/
def exponent? (t : Text) : Option Int :=
  match t with
  | '-' :: t => (digits? t).map fun n => -(n : Int)
  | '+' :: t => (digits? t).map Int.ofNat
  | t => (digits? t).map Int.ofNat

/-- A decimal as it is written, without sign. -/
structure Numeral where
  /-- The digits before the point. -/
  whole : Text
  /-- The digits after the point. -/
  fraction : Text
  exponent : Int
  deriving DecidableEq, Repr

/-- The parts of a decimal, which has a digit at least. -/
def Numeral.ofText? (t : Text) : Option Numeral :=
  let whole := t.takeWhile isAsciiDigit
  let rest := t.drop whole.length
  let (fraction, rest) :=
    match rest with
    | '.' :: rest => let ds := rest.takeWhile isAsciiDigit; (ds, rest.drop ds.length)
    | rest => ([], rest)
  if whole.isEmpty && fraction.isEmpty then none
  else
    match rest with
    | [] => some ⟨whole, fraction, 0⟩
    | e :: rest => if e = 'e' || e = 'E' then (exponent? rest).map fun n => ⟨whole, fraction, n⟩ else none

/-- The double nearest to a decimal. -/
def Numeral.toFloat (n : Numeral) : Float :=
  nearest (natOfDigits (n.whole ++ n.fraction)) (n.exponent - n.fraction.length)

/-- A double without sign. -/
def unsignedFloat? (t : Text) : Option Float :=
  let name := t.lowercaseAscii
  if name = "inf" || name = "infinity" then some (Float.ofBits 0x7FF0000000000000)
  else if name = "nan" then some (Float.ofBits 0x7FF8000000000000)
  else (Numeral.ofText? t).map Numeral.toFloat

/-- A double. -/
def float? (t : Text) : Option Float :=
  match t with
  | '-' :: t => (unsignedFloat? t).map fun x => -x
  | '+' :: t => unsignedFloat? t
  | t => unsignedFloat? t

end VendorCss.Decimal
