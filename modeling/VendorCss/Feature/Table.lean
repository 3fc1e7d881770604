import VendorCss.Browser.Agent

/-!
# Capabilities

A feature is a group of names that needed a vendor prefix in the same browsers: properties, values of some properties,
selectors or at-rules. For each feature the table lists the targets that needed the prefix, some with a note such as
`2009` that tells which syntax they understood. The table also lists the targets that understand `@supports`.

A document writes the targets as entries `NAME VERSIONS NOTE`; the versions are one version, or a range `4..20` that
stands for the known versions between the bounds. Entries of unknown browsers are passed over.
-/

namespace VendorCss

/-- How a feature shows up in a stylesheet. -/
inductive FeatureKind
  | property
  /-- A keyword or function in the values of some properties. -/
  | value
  | selector
  | atRule
  deriving DecidableEq, Repr, Inhabited

/-- A target that needed a prefix: the vendor prefix it understands, and a note on the syntax. -/
structure Support where
  target : Target
  vendor : Text
  note : Option Text
  deriving DecidableEq, Repr, Inhabited

/-- A feature as a document lists it. -/
structure FeatureEntry where
  feature : Text
  names : List Text
  browsers : List Text
  mistakes : List Text := []
  props : Option (List Text) := none
  selector : Bool := false
  deriving Repr, Inhabited

/-- Names that share their support. -/
structure Feature where
  name : Text
  /-- The names as written in CSS: `flex`, `::placeholder`, `@keyframes`. -/
  names : List Text
  support : List Support
  /-- The properties that a value feature applies to; `*` means every property. -/
  props : Option (List Text)
  /-- Vendor prefixes that never existed but are found in stylesheets. -/
  mistakes : List Text
  /-- The names, unless they are those of at-rules, are selectors. -/
  selector : Bool
  deriving Repr, Inhabited

/-- One name with its kind and its feature. -/
structure FeatureRecord where
  name : Text
  kind : FeatureKind
  feature : Feature
  deriving Repr, Inhabited

/-- The features in order, and the targets that understand `@supports`. -/
structure CapabilityTable where
  features : List Feature
  featureQueries : List Target
  deriving Repr, Inhabited

/-- Why a capability table was refused. -/
inductive CapabilityError
  /-- An entry without versions. -/
  | badEntry (entry : Text)
  /-- An entry whose range has a bound that is no number. -/
  | badRange (entry : Text)
  | listedTwice (name : Text)
  /-- The document is not a capability table. -/
  | notTable
  deriving DecidableEq, Repr

def CapabilityError.message : CapabilityError → Text
  | .badEntry entry => "malformed capability data: bad browser entry " ++ quoted entry
  | .badRange entry => "malformed capability data: bad version range in " ++ quoted entry
  | .listedTwice name => "malformed capability data: " ++ quoted name ++ " is listed twice"
  | .notTable => "malformed capability JSON"

namespace Support

/-- `browser version`, with the note after it. -/
def render (s : Support) : Text :=
  match s.note with
  | some note => s.target.render ++ ' ' :: note
  | none => s.target.render

/-- The vendor prefix, with the note after it. -/
def spelling (s : Support) : Text :=
  match s.note with
  | some note => s.vendor ++ ' ' :: note
  | none => s.vendor

end Support

namespace Feature

/-- The kind of one of its names. -/
def kindOf (f : Feature) (name : Text) : FeatureKind :=
  if name.head? = some '@' then .atRule
  else if f.selector then .selector
  else if f.props.isSome then .value
  else .property

/-- Its names with their kinds. -/
def records (f : Feature) : List FeatureRecord := f.names.map fun name => ⟨name, f.kindOf name, f⟩

end Feature

/-! ## Reading entries -/

/-- The versions of an agent that the versions of an entry stand for. -/
def matchedVersions (a : Agent) (versions entry : Text) : Except CapabilityError (List Text) :=
  match Text.splitFirst ".." versions with
  | none => .ok (a.versions.filter (· == versions))
  | some (low, high) =>
    match versionNumber? low, versionNumber? high with
    | some low, some high => .ok (a.versions.filter fun v => (versionNumber? v).any fun x => low ≤ x && x ≤ high)
    | _, _ => .error (.badRange entry)

/-- The support that an entry stands for. -/
def expandEntry (agents : AgentTable) (entry : Text) : Except CapabilityError (List Support) :=
  match Text.words entry with
  | name :: versions :: rest =>
    match agents.get? name with
    | none => .ok []
    | some a =>
      (matchedVersions a versions entry).map fun matched =>
        matched.map fun version => ⟨⟨name, version⟩, a.vendorOf version, rest.head?⟩
  | _ => .error (.badEntry entry)

/-- The support that entries stand for, in order. -/
def expandEntries (agents : AgentTable) (entries : List Text) : Except CapabilityError (List Support) :=
  (entries.mapM (expandEntry agents)).map List.flatten

namespace FeatureEntry

/-- The first name that stands among `known` or earlier in the list. -/
def repeated? (known : List Text) : List Text → Option Text
  | [] => none
  | name :: names => if known.contains name then some name else repeated? (name :: known) names

/-- The feature with its entries expanded; `known` are the names of the features before it. -/
def expand (agents : AgentTable) (known : List Text) (e : FeatureEntry) : Except CapabilityError Feature := do
  let support ← expandEntries agents e.browsers
  match repeated? known e.names with
  | some name => throw (.listedTwice name)
  | none =>
    pure { name := e.feature, names := e.names, support, props := e.props, mistakes := e.mistakes,
           selector := e.selector }

/-- The features of some entries, in order; no name is listed twice. -/
def expandAll (agents : AgentTable) : (known : List Text) → List FeatureEntry → Except CapabilityError (List Feature)
  | _, [] => .ok []
  | known, e :: es => do
    let feature ← e.expand agents known
    let rest ← expandAll agents (e.names ++ known) es
    pure (feature :: rest)

/-- An entry read from a document. -/
def ofJson? (j : Json) : Option FeatureEntry := do
  match ← j.fields? ["feature", "names", "browsers", "mistakes", "props", "selector"] with
  | [feature, names, browsers, mistakes, props, selector] =>
    pure { feature := ← Json.required Json.text? feature, names := ← Json.required Json.texts? names,
           browsers := ← Json.required Json.texts? browsers, mistakes := ← Json.withDefault [] Json.texts? mistakes,
           props := ← Json.withDefault none (Json.nullable Json.texts?) props,
           selector := ← Json.withDefault false Json.bool? selector }
  | _ => none

end FeatureEntry

namespace CapabilityTable

/-- The table of some entries, whose browsers are those of `agents`. -/
def ofEntries (agents : AgentTable) (queries : List Text) (es : List FeatureEntry) :
    Except CapabilityError CapabilityTable := do
  let features ← FeatureEntry.expandAll agents [] es
  let queries ← expandEntries agents queries
  pure ⟨features, queries.map Support.target⟩

/-- The table that a document describes. -/
def ofJson (agents : AgentTable) (j : Json) : Except CapabilityError CapabilityTable :=
  let entries : Option (List Text × List FeatureEntry) := do
    match ← j.fields? ["feature_queries", "features"] with
    | [queries, features] =>
      let queries ← Json.required Json.texts? queries
      let features ← Json.required Json.elements? features
      pure (queries, ← features.mapM FeatureEntry.ofJson?)
    | _ => none
  match entries with
  | some (queries, es) => ofEntries agents queries es
  | none => .error .notTable

/-- The table that the text of a document describes. -/
def ofText (agents : AgentTable) (t : Text) : Except CapabilityError CapabilityTable :=
  match Json.parse? t with
  | some j => ofJson agents j
  | none => .error .notTable

/-- Every name with its kind, in order. -/
def records (table : CapabilityTable) : List FeatureRecord := table.features.flatMap Feature.records

/-- The record of a name. -/
def get? (table : CapabilityTable) (name : Text) : Option FeatureRecord := table.records.find? (·.name == name)

end CapabilityTable

end VendorCss
