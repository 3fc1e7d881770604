import VendorCss.Browser.Query

/-!
# Browser selections

A selection is the set of targets that a stylesheet is built for, in the order of targets, together with the agents that
they come from.
-/

namespace VendorCss

/-- The targets of a stylesheet. -/
structure Selection where
  agents : AgentTable
  /-- The selected targets in order, each once. -/
  targets : List Target
  /-- Every vendor prefix that some browser uses, longest first. -/
  vendors : List Text := agents.vendors
  deriving Inhabited

namespace Selection

/-- The selection of given targets. -/
def ofTargets (agents : AgentTable) (targets : List Target) : Selection := { agents, targets := Target.sort targets }

/-- The selection that queries describe. -/
def ofQueries (agents : AgentTable) (queries : List Text) : Except BrowserError Selection :=
  (Query.resolve agents queries).map (ofTargets agents)

/-- The selected targets as `name version`. -/
def names (s : Selection) : List Text := s.targets.map Target.render

/-- The target that `name version` stands for; the name ends at the first space. -/
def target? (t : Text) : Option Target := (Text.splitFirst " " t).map fun (name, version) => ⟨name, version⟩

/-- A target is selected. -/
def contains (s : Selection) (t : Target) : Bool := s.targets.contains t

/-- `name version` is selected. -/
def isSelected (s : Selection) (t : Text) : Bool := (target? t).any s.contains

/-- The vendor prefix of a target, if its browser is known. -/
def vendorOf? (s : Selection) (t : Target) : Option Text := (s.agents.get? t.name).map (·.vendorOf t.version)

/-- The text holds some vendor prefix. -/
def holdsVendor (s : Selection) (t : Text) : Bool := s.vendors.any (Text.contains t)

/-- The selection of the targets that pass a test. -/
def filter (s : Selection) (keep : Target → Bool) : Selection := { s with targets := s.targets.filter keep }

end Selection

end VendorCss
