import VendorCss.Browser.Selection
import VendorCss.Options
import VendorCss.Vendor

/-!
# Prefix plans

A plan says for each name of the capability table which prefixes the selected browsers need and which prefixes, needed
by none of them, are outdated. A prefix is a vendor, with the note of the table where it has one.

For one feature, `Feature.wanted` are the prefixes of its selected targets and `Feature.known` all that it ever had,
mistakes included. A name is planned to be added when some prefix is wanted; whatever is known and not wanted is planned
to be removed.
-/

namespace VendorCss

/-- A name with the prefixes planned for it. -/
structure PlannedFeature where
  record : FeatureRecord
  prefixes : List Text
  deriving Repr, Inhabited

/-- What to add and what to remove, both in the order of the table. -/
structure PrefixPlan where
  add : List PlannedFeature
  remove : List PlannedFeature
  deriving Repr, Inhabited

namespace Feature

/-- The prefixes that selected targets need, longest vendor first; without the draft of 2009 where it is not wanted. -/
def wanted (f : Feature) (selection : Selection) (options : Options) : List Text :=
  let selected := f.support.filter fun s => selection.contains s.target
  let prefixes := Vendor.sort (Text.distinct (selected.map Support.spelling))
  if options.flexbox = .no2009 then prefixes.filter fun p => !Text.contains p "2009" else prefixes

/-- All prefixes that the feature ever had: vendors, mistakes, and vendors with their notes. -/
def known (f : Feature) : List Text :=
  let noted := f.support.filter fun s => s.note.isSome
  Text.distinct (f.support.map Support.vendor ++ f.mistakes ++ noted.map Support.spelling)

/-- The prefixes to add and those to remove; a name is not planned where there is no list. -/
def planned (f : Feature) (selection : Selection) (options : Options) : Option (List Text) × Option (List Text) :=
  let wanted := f.wanted selection options
  let known := f.known
  if wanted.isEmpty then (none, some known)
  else
    (some wanted,
      if wanted.length < known.length then some (known.filter fun p => !wanted.contains p) else none)

end Feature

namespace PrefixPlan

/-- The names of a feature with their prefixes. -/
def ofFeature (f : Feature) : Option (List Text) → List PlannedFeature
  | some prefixes => f.records.map fun r => ⟨r, prefixes⟩
  | none => []

/-- The plan of a table for the selected browsers. -/
def compile (table : CapabilityTable) (selection : Selection) (options : Options) : PrefixPlan :=
  let planned := table.features.map fun f => (f, f.planned selection options)
  { add := planned.flatMap fun (f, add, _) => ofFeature f add,
    remove := planned.flatMap fun (f, _, remove) => ofFeature f remove }

/-- The plan adds nothing. -/
def addsNothing (p : PrefixPlan) : Bool := p.add.isEmpty

end PrefixPlan

end VendorCss
