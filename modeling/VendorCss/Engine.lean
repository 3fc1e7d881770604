import VendorCss.Browser.Bundled
import VendorCss.Feature.Bundled
import VendorCss.Prefixing
import VendorCss.Report

/-!
# Engines

An engine holds agents and a capability table and answers calls with options: for the compiled plan, for a processed
stylesheet, for a report. It keeps the plans used last, at most as many as its capacity; a plan is known by the selected
browsers and the other options, written as JSON, so queries that select the same browsers share one.

Every call answers with the engine as it is afterwards. A call that fails leaves the engine as it was.
-/

namespace VendorCss

/-- What a plan is known by: the text of a JSON array of the selected targets and the options without queries. -/
abbrev PlanKey := Text

/-- A plan that an engine keeps. -/
structure CachedPlan where
  key : PlanKey
  /-- How many plans the engine compiled before this one. -/
  serial : Nat
  prefixer : Prefixer

/-- Agents and a table with the plans compiled for them. -/
structure Engine where
  agents : AgentTable
  table : CapabilityTable
  /-- The number of plans kept. -/
  capacity : Nat
  /-- The plans kept, the one used last first. -/
  plans : List CachedPlan := []
  /-- The number of plans compiled so far. -/
  compiled : Nat := 0

namespace Engine

/-- The capacity that stands for none. -/
def defaultCapacity : Nat := 32

/-- An engine without plans. -/
def make (agents : AgentTable) (table : CapabilityTable) (capacity : Nat) : Engine :=
  { agents, table, capacity := if capacity = 0 then defaultCapacity else capacity }

/-- The engine over the bundled data. -/
def bundled : Except PrefixerError Engine := do
  let agents ← AgentTable.bundled.mapError .browser
  let table ← (CapabilityTable.bundled agents).mapError .capability
  pure (make agents table 0)

/-- The browsers that valid options select. -/
def selection (e : Engine) (o : Options) : Except PrefixerError Selection := do
  o.validate.mapError .config
  (Selection.ofQueries e.agents o.browsers).mapError .browser

/-- Options without their queries, fields in the order of the structure. -/
def shape (o : Options) : Json :=
  .object
    [("browsers", .ofTexts []), ("flexbox", o.flexbox.toJson), ("grid", o.grid.toJson), ("supports", .bool o.supports),
      ("cascade", .bool o.cascade), ("add", .bool o.add), ("remove", .bool o.remove)]

/-- The key of options that select some browsers. -/
def keyOf (s : Selection) (o : Options) : PlanKey := Json.compact (.array [.ofTexts s.names, shape o])

/-- The engine with a plan as the one used last; a plan over the capacity goes. -/
def keep (e : Engine) (plan : CachedPlan) : Engine :=
  { e with plans := (plan :: e.plans.filter fun p => p.key != plan.key).take e.capacity }

/-- The plan for a selection: one that is kept, or a new one. -/
def planFor (e : Engine) (s : Selection) (o : Options) : CachedPlan × Engine :=
  let key := keyOf s o
  match e.plans.find? fun p => p.key == key with
  | some plan => (plan, e.keep plan)
  | none =>
    let plan : CachedPlan := ⟨key, e.compiled, Prefixer.compile e.table s o⟩
    (plan, { e.keep plan with compiled := e.compiled + 1 })

/-! ## Calls -/

/-- The plan for options. -/
def plan (e : Engine) (o : Options) : Except PrefixerError (CachedPlan × Engine) :=
  (e.selection o).map fun s => e.planFor s o

/-- A stylesheet processed. -/
def process (e : Engine) (css : Text) (o : Options) : Except PrefixerError (Processed × Engine) :=
  (e.plan o).map fun (plan, e) => (plan.prefixer.processText css, e)

/-- The report on options. -/
def report (e : Engine) (o : Options) : Except PrefixerError (Report × Engine) :=
  (e.plan o).map fun (plan, e) => (Report.ofRules plan.prefixer.rules, e)

/-- The report on options as text. -/
def info (e : Engine) (o : Options) : Except PrefixerError (Text × Engine) :=
  (e.report o).map fun (report, e) => (report.render, e)

/-- The number of plans kept. -/
def cachedPlans (e : Engine) : Nat := e.plans.length

end Engine

end VendorCss
