import VendorCss.Rules

/-!
# Reports

A report lists the selected browsers, and for each kind of feature the names that get prefixes with their vendors, names
in order. `render` gives it as text for people and `toJson` as a record.
-/

namespace VendorCss

/-- A browser and its selected versions, newest first. -/
structure BrowserGroup where
  name : Text
  versions : List Text
  deriving DecidableEq, Repr, Inhabited

/-- A name and the prefixes that it gets. -/
structure ReportEntry where
  name : Text
  prefixes : List Text
  /-- The prefixes are written only where grids are. -/
  grid : Bool
  deriving DecidableEq, Repr, Inhabited

/-- What rules do. -/
structure Report where
  browsers : List BrowserGroup
  atRules : List ReportEntry
  selectors : List ReportEntry
  properties : List ReportEntry
  values : List ReportEntry
  deriving DecidableEq, Repr, Inhabited

/-! ## Browsers -/

namespace BrowserGroup

/-- Groups with one more version of a browser. -/
def add (name version : Text) : List BrowserGroup → List BrowserGroup
  | [] => [⟨name, [version]⟩]
  | g :: gs => if g.name = name then { g with versions := g.versions ++ [version] } :: gs else g :: add name version gs

/-- Versions with the newest first; those of one number keep their places. -/
def newestFirst (versions : List Text) : List Text :=
  ((versions.map fun v => (versionRank v, v)).mergeSort fun p q => q.1 ≤ p.1).map Prod.snd

/-- The selected targets by the names of their browsers for people. -/
def ofSelection (s : Selection) : List BrowserGroup :=
  let shown (name : Text) : Text := ((s.agents.get? name).map Agent.browser).getD name
  let groups := s.targets.foldl (fun gs t => add (shown t.name) t.version gs) []
  groups.map fun g => { g with versions := newestFirst g.versions }

def toJson (g : BrowserGroup) : Json := .object [("name", .string g.name), ("versions", .ofTexts g.versions)]

/-- The line of a browser. -/
def line (g : BrowserGroup) : Text := "  " ++ g.name ++ ": " ++ Text.join ", " g.versions ++ "\n"

end BrowserGroup

/-! ## Entries -/

namespace ReportEntry

/-- A prefix without the hyphens at both ends, if it has both. -/
def bareVendor (planned : Text) : Text :=
  ((Text.dropStart? "-" planned).bind fun inner => Text.dropEnd? "-" inner).getD planned

/-- The entry of a name. -/
def make (name : Text) (prefixes : List Text) (grid : Bool) : ReportEntry := ⟨name, prefixes.map bareVendor, grid⟩

/-- The order of lists of texts, by the first texts that differ; the shorter first where one starts the other. -/
def listNotAfter : (ss ts : List Text) → Bool
  | [], _ => true
  | _ :: _, [] => false
  | s :: ss, t :: ts => Text.before s t || (s == t && listNotAfter ss ts)

/-- The order by name, then prefixes; what is written only with grids comes last. -/
def notAfter (a b : ReportEntry) : Bool :=
  Text.before a.name b.name ||
    (a.name == b.name &&
      if a.prefixes = b.prefixes then !a.grid || b.grid else listNotAfter a.prefixes b.prefixes)

/-- Entries in order. -/
def sort (es : List ReportEntry) : List ReportEntry := es.mergeSort notAfter

/-- Entries, each at its first place only. -/
def distinct (es : List ReportEntry) : List ReportEntry :=
  es.foldl (fun seen e => if seen.contains e then seen else seen ++ [e]) []

def toJson (e : ReportEntry) : Json :=
  .object [("name", .string e.name), ("prefixes", .ofTexts e.prefixes), ("grid", .bool e.grid)]

/-- The line of a name. -/
def line (e : ReportEntry) : Text :=
  "  " ++ e.name ++ (if e.grid then " *".toList else []) ++ ": " ++ Text.join ", " e.prefixes ++ "\n"

end ReportEntry

/-! ## Reports -/

namespace Report

/-- Planned at-rules of which no later one has the same name but for the `@` before it. -/
def lastByBareName : List PlannedFeature → List PlannedFeature
  | [] => []
  | p :: ps =>
    let hidden := ps.any fun q => Rules.bareName q.record.name == Rules.bareName p.record.name
    if hidden then lastByBareName ps else p :: lastByBareName ps

/-- The report on some rules. -/
def ofRules (r : Rules) : Report :=
  let atRules := (lastByBareName (Rules.plainAtRules r.plan.add)).map fun p =>
    ReportEntry.make p.record.name p.prefixes false
  let resolution := r.resolution.toList.map fun vendors => ReportEntry.make "@resolution" vendors false
  { browsers := BrowserGroup.ofSelection r.selection,
    atRules := ReportEntry.sort (atRules ++ resolution),
    selectors := ReportEntry.sort (r.selectors.map fun v => .make v.name v.prefixes false),
    properties := ReportEntry.sort (r.properties.map fun v => .make v.name v.prefixes (v.name.startsWith "grid-")),
    values :=
      ReportEntry.sort
        (ReportEntry.distinct (r.values.map fun v => .make v.token v.prefixes (v.token.contains "grid"))) }

/-- Some entry is written only where grids are. -/
def hasGrid (r : Report) : Bool := (r.properties ++ r.values).any ReportEntry.grid

/-- Nothing gets a prefix. -/
def isEmpty (r : Report) : Bool :=
  r.atRules.isEmpty && r.selectors.isEmpty && r.properties.isEmpty && r.values.isEmpty

/-- The entries of one kind under their title; nothing if there are none. -/
def renderSection (title : Text) (es : List ReportEntry) : Text :=
  if es.isEmpty then [] else "\n" ++ title ++ ":\n" ++ es.flatMap ReportEntry.line

/-- What is said when some entry is marked. -/
def gridNote : Text := "\n* - Prefixes will be added only on grid: true option.\n"

/-- What is said when nothing gets a prefix. -/
def farewell : Text :=
  "\nAwesome! Your browsers don't require any vendor prefixes.\nNow you can remove Autoprefixer from build steps."

/-- The report for people. -/
def render (r : Report) : Text :=
  if r.browsers.isEmpty then "No browsers selected"
  else
    "Browsers:\n" ++ r.browsers.flatMap BrowserGroup.line ++ renderSection "At-Rules" r.atRules ++
      renderSection "Selectors" r.selectors ++ renderSection "Properties" r.properties ++
      renderSection "Values" r.values ++
      (if r.hasGrid then gridNote else []) ++ if r.isEmpty then farewell else []

/-- The report as a record. -/
def toJson (r : Report) : Json :=
  let entries (es : List ReportEntry) : Json := .array (es.map ReportEntry.toJson)
  .object
    [("browsers", .array (r.browsers.map BrowserGroup.toJson)), ("at_rules", entries r.atRules),
      ("selectors", entries r.selectors), ("properties", entries r.properties), ("values", entries r.values)]

end Report

end VendorCss
