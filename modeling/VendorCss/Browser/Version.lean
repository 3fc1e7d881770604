import VendorCss.Decimal.Read

/-!
# Browser versions

A version is a text such as `17.4`, `4.2-4.3` or `all`. Its number is made of the major and minor component of its first
part, so `4.4.3-4.4.4` counts as 4.4; a version without a number counts as zero where versions are put in order.

A target is one version of one browser. Targets are ordered by the name of the browser, then by number, then by the text
of the version. Numbers are never negative, so their order is that of the bits of the doubles.
-/

namespace VendorCss

/-- The number of a version, if it has one. -/
def versionNumber? (version : Text) : Option Float :=
  let first := (Text.pieces '-' version).headD []
  match Text.pieces '.' first with
  | major :: minor :: _ => Decimal.float? (major ++ '.' :: minor)
  | [major] => Decimal.float? major
  | [] => none

/-- The place of a version among the numbers. -/
def versionRank (version : Text) : Nat := ((versionNumber? version).getD 0).toBits.toNat

/-- One version of one browser. -/
structure Target where
  name : Text
  version : Text
  deriving DecidableEq, Repr, Inhabited

namespace Target

/-- `name version`. -/
def render (t : Target) : Text := t.name ++ ' ' :: t.version

/-- A target with the rank of its version. -/
structure Ranked where
  rank : Nat
  target : Target

def ranked (t : Target) : Ranked := ⟨versionRank t.version, t⟩

/-- The order by name, then rank, then text. -/
def Ranked.notAfter (s t : Ranked) : Bool :=
  Text.before s.target.name t.target.name ||
    (s.target.name == t.target.name &&
      (s.rank < t.rank || (s.rank == t.rank && Text.notAfter s.target.version t.target.version)))

/-- Neighbours that are equal count once. -/
def dedup : List Target → List Target
  | [] => []
  | [t] => [t]
  | s :: t :: ts => if s = t then dedup (t :: ts) else s :: dedup (t :: ts)

/-- The targets in order, repeats kept. -/
def arrange (ts : List Target) : List Target := ((ts.map ranked).mergeSort Ranked.notAfter).map Ranked.target

/-- The targets in order, each once. -/
def sort (ts : List Target) : List Target := dedup (arrange ts)

end Target

end VendorCss
