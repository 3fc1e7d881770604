import VendorCss.Decimal.Read
import VendorCss.Json

/-!
# Limits of JSON values

A config file is held to limits that the JSON grammar does not set: values are nested at most 127 deep, every string and
key is a text, and every number is in range.

The range is that of doubles. A number is measured as a significand of 64 bits times a power of ten: the digits before
the point are taken as long as they fit, then those after it, and a digit before the point that is left out counts in
the power only. The product is rounded in doubles, so a number close to the end of the range may be found outside.
-/

namespace VendorCss.Json

/-- The deepest nesting of arrays and objects. -/
def depthLimit : Nat := 127

mutual

/-- How deep arrays and objects are nested. -/
def depth : Json → Nat
  | array es => depthAll es + 1
  | object ms => depthMembers ms + 1
  | _ => 0

def depthAll : List Json → Nat
  | [] => 0
  | j :: js => Nat.max (depth j) (depthAll js)

def depthMembers : List (Text × Json) → Nat
  | [] => 0
  | (_, j) :: ms => Nat.max (depth j) (depthMembers ms)

end

/-! ## Numbers -/

/-- The first number that is too great for a significand. -/
def significandLimit : Nat := 0x10000000000000000

/-- A significand with the first of some digits that fit after it, and how many do not. -/
def takeDigits : (significand : Nat) → Text → Nat × Nat
  | n, [] => (n, 0)
  | n, c :: ds =>
    let next := 10 * n + (c.toNat - 48)
    if next < significandLimit then takeDigits next ds else (n, ds.length + 1)

/-- The greatest power of ten that is a double. -/
def powerLimit : Int := 308

/-- A significand times a power of ten stays within the range of doubles. -/
def productInRange (significand : Nat) (power : Int) : Bool :=
  significand = 0 || power < 0 ||
    (power ≤ powerLimit && (Float.ofNat significand * Decimal.nearest 1 power).isFinite)

/-- A decimal is in range. -/
def numeralInRange (n : Decimal.Numeral) : Bool :=
  let (significand, leftOut) := takeDigits 0 n.whole
  let (significand, unread) := takeDigits significand n.fraction
  productInRange significand (n.exponent + leftOut - (n.fraction.length - unread))

/-- A number is in range, whatever its sign. -/
def isInRange (literal : Text) : Bool :=
  let unsigned := match literal with | '-' :: t => t | t => t
  (Decimal.Numeral.ofText? unsigned).any numeralInRange

/-! ## All limits -/

mutual

/-- Every string and key is a text, and every number in range. -/
def isPlain : Json → Bool
  | number literal => isInRange literal
  | unpaired => false
  | array es => allPlain es
  | object ms => membersPlain ms
  | null | bool _ | string _ => true

def allPlain : List Json → Bool
  | [] => true
  | j :: js => isPlain j && allPlain js

def membersPlain : List (Text × Json) → Bool
  | [] => true
  | (_, j) :: ms => isPlain j && membersPlain ms

end

/-- The value keeps to the limits. -/
def isModest (j : Json) : Bool := j.depth ≤ depthLimit && j.isPlain

end VendorCss.Json
