import VendorCss.Css.Separated
import VendorCss.Decimal.Read
import VendorCss.Decimal.Shortest
import VendorCss.Text.Case
import VendorCss.Text.Classes

/-!
# How vendors spell resolutions

A media query for a `min-resolution` or `max-resolution` was written by vendors as one for the ratio of device pixels to
the pixels of CSS, of which there are 96 to the inch. Opera read the ratio as a fraction, all others as a decimal.

`addQueries` puts the queries of vendors before each query of a list, and `dropQueries` takes the outdated ones away.
-/

namespace VendorCss.Resolution

/-! ## Ratios -/

/-- A fraction exact to six decimals, in lowest terms. -/
def fraction (ratio : Float) : Text :=
  let scale := 1000000
  let numerator := (ratio * Float.ofNat scale).round.toUInt64.toNat
  let divisor := Nat.max 1 (Nat.gcd numerator scale)
  (Nat.repr (numerator / divisor)).toList ++ '/' :: (Nat.repr (scale / divisor)).toList

/-- A decimal rounded to ten places. -/
def decimal (ratio : Float) : Text := Decimal.ofFloat ((ratio * 1e10).round / 1e10)

/-- The units of resolutions. -/
inductive DotUnit
  /-- Dots in one pixel. -/
  | perPixel
  | perInch
  | perCentimetre
  deriving DecidableEq, Repr

/-- The unit that a text starts with, and what follows it; letters match in any case. -/
def unitAt? (t : Text) : Option (DotUnit × Text) :=
  let units : List (Text × DotUnit) :=
    [("dppx", .perPixel), ("dpcm", .perCentimetre), ("dpi", .perInch), ("x", .perPixel)]
  units.findSome? fun (word, unit) => (Text.dropStartFolded? word t).map (unit, ·)

/-- The ratio of a number of dots. -/
def DotUnit.ratio (dots : Float) : DotUnit → Float
  | perPixel => dots
  | perInch => dots / 96
  | perCentimetre => dots * 2.54 / 96

/-! ## Queries -/

/-- The property of a vendor for a bound, `min` or `max`. -/
def ratioName (vendor bound : Text) : Text :=
  if vendor = "-moz-" then bound ++ "--moz-device-pixel-ratio" else vendor ++ bound ++ "-device-pixel-ratio"

/-- The number at the start of a text, as written: digits with at most one point, a digit last. -/
def numberAt? (t : Text) : Option (Text × Text) :=
  let whole := t.takeWhile isDigit
  match t.drop whole.length with
  | '.' :: rest =>
    let places := rest.takeWhile isDigit
    if places.isEmpty then none else some (whole ++ '.' :: places, rest.drop places.length)
  | rest => if whole.isEmpty then none else some (whole, rest)

/-- What stands at the start of a query for a resolution. -/
structure Bound where
  /-- `min` or `max`, as written. -/
  bound : Text
  /-- The colon with the blanks around it. -/
  colon : Text
  ratio : Float

/-- The bound on the resolution that a text starts with, and what follows it. A number in digits other than those of
ASCII counts as zero. -/
def boundAt? (t : Text) : Option (Bound × Text) := do
  let rest ← ((["min-resolution", "max-resolution"] : List Text).findSome? fun name => Text.dropStartFolded? name t)
  let afterColon ← Text.dropStart? ":" rest.trimStart
  let colon := Text.leadingBlanks rest ++ ':' :: Text.leadingBlanks afterColon
  let (number, rest) ← numberAt? afterColon.trimStart
  let (unit, rest) ← unitAt? rest
  pure (⟨t.take 3, colon, unit.ratio ((Decimal.float? number).getD 0)⟩, rest)

/-- A bound in the words of a vendor. -/
def Bound.render (b : Bound) (vendor : Text) : Text :=
  ratioName vendor b.bound ++ b.colon ++ if vendor = "-o-" then fraction b.ratio else decimal b.ratio

/-- A query with every bound on the resolution in the words of a vendor. -/
def forVendor (query vendor : Text) : Text :=
  Text.substitute (fun _ t => (boundAt? t).map fun (b, rest) => (t.length - rest.length, b.render vendor)) query

/-- A query speaks of a resolution. -/
def isBounded (query : Text) : Bool := query.contains "min-resolution" || query.contains "max-resolution"

/-! ## Lists of queries -/

/-- The first comma of some params with the blanks after it, which stands between their queries. -/
def separator (params : Text) : Text :=
  match Text.splitFirst "," params with
  | some (_, after) => ',' :: Text.leadingBlanks after
  | none => ", "

/-- Some params with their queries changed. -/
def mapQueries (f : List Text → List Text) (params : Text) : Text :=
  Text.join (separator params) (f (Separated.byComma params))

/-- Params with the queries of vendors before each query for a resolution. -/
def addQueries (vendors : List Text) : Text → Text :=
  mapQueries fun queries =>
    Text.distinct (queries.flatMap fun query =>
      if isBounded query then vendors.map (forVendor query) ++ [query] else [query])

/-- Params without the queries that speak to any of some vendors. -/
def dropQueries (vendors : List Text) : Text → Text :=
  let names := vendors.flatMap fun vendor => [ratioName vendor "min", ratioName vendor "max"]
  mapQueries fun queries => queries.filter fun query => names.all fun name => !query.contains name

end VendorCss.Resolution
