import VendorCss.Dialect.Resolution
import VendorCss.Pass.Basic

/-!
# Resolutions in media queries

The params of an `@media` rule get the queries of the vendors that its scope allows, and lose those of vendors that no
browser needs.
-/

namespace VendorCss.Pass

/-- The params of an at-rule changed. -/
def editParams (p : Pass) (rule : Nat) (f : Text → Text) : Pass :=
  match p.sheet.atRule? rule with
  | some r => p.edit fun s => s.setParams rule (f r.params)
  | none => p

/-- The pass with the queries of vendors added. In the scope of a vendor only its own are. -/
def addResolutions (p : Pass) (vendors : List Text) (rule : Nat) : Pass :=
  let (scope, p) := p.scope rule
  p.editParams rule (Resolution.addQueries (match scope with | some vendor => [vendor] | none => vendors))

/-- The pass with the queries of outdated vendors taken away. -/
def dropResolutions (p : Pass) (vendors : List Text) (rule : Nat) : Pass :=
  p.editParams rule (Resolution.dropQueries vendors)

end VendorCss.Pass
