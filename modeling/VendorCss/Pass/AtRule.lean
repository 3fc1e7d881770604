import VendorCss.Pass.Basic

/-!
# Variants of at-rules

An at-rule with variants gets a copy before it for each planned prefix, named with the prefix before the name. In the
scope of a vendor only its own prefix is written. Where an at-rule of that name with the same params stands beside it,
no copy is added.
-/

namespace VendorCss.AtRuleVariants

/-- The pass with a copy of an at-rule for a prefix, unless one stands beside it. -/
def addVariant (p : Pass) (rule : Nat) (planned : Text) : Pass :=
  match p.sheet.atRule? rule, p.sheet.parent? rule with
  | some r, some parent =>
    let name := planned ++ r.name
    let present := (p.sheet.children parent).any fun i =>
      (p.sheet.atRule? i).any fun other => other.name == name && other.params == r.params
    if present then p else p.edit fun s => s.cloneBefore rule (·.mapAtRule fun r => { r with name })
  | _, _ => p

/-- The pass with the copies of an at-rule that its scope allows. -/
def process (v : AtRuleVariants) (p : Pass) (rule : Nat) : Pass :=
  let (scope, p) := p.scope rule
  (v.prefixes.filter fun planned => scope.all (· == planned)).foldl (fun p planned => addVariant p rule planned) p

end VendorCss.AtRuleVariants
