import VendorCss.Css.Separated
import VendorCss.Pass.Basic

/-!
# Variants of rules

A rule whose selector uses a name with variants gets a copy before it for each planned prefix in its scope. The copies
stand in the order of the prefixes; where one of the rules directly above is that copy already, none is added.
-/

namespace VendorCss

/-- The rule is outdated: its selector is an outdated spelling, and the rules after it lead to the standard one. -/
def Sheet.isOutdatedRule (s : Sheet) (o : OutdatedSelector) (rule : Nat) : Bool :=
  match s.selector? rule with
  | some selector => o.accepts selector ((s.nextSiblings rule).map s.selector?)
  | none => false

namespace SelectorVariants

/-- The parts of a selector that are spelled anew: of several those with the name in them. -/
def parts (v : SelectorVariants) (selector : Text) : List Text :=
  if selector.contains "," then (Separated.byComma selector).filter fun part => part.contains v.name else [selector]

/-- The selector for a prefix. -/
def spell (v : SelectorVariants) (selector planned : Text) : Text :=
  Text.join ", " ((v.parts selector).map (Selector.rename v.name (v.prefixed planned)))

/-- The selector for every prefix that it may be spelled with. -/
def spellings (v : SelectorVariants) (selector : Text) : List (Text × Text) :=
  (v.possible ++ v.prefixes).map fun planned => (planned, v.spell selector planned)

/-- One of the rules above, nearest first, is the copy for a prefix; all between are copies for others. -/
def standsAbove (spellings : List (Text × Text)) (planned : Text) : (above : List (Option Text)) → Bool
  | [] | none :: _ => false
  | some selector :: above =>
    match spellings.find? fun (_, variant) => variant == selector with
    | none => false
    | some (found, _) => found == planned || standsAbove spellings planned above

/-- The pass with a copy of a rule for a prefix, unless it is there. -/
def addVariant (v : SelectorVariants) (p : Pass) (rule : Nat) (planned : Text) : Pass :=
  match p.sheet.selector? rule with
  | none => p
  | some selector =>
    let spellings := v.spellings selector
    if standsAbove spellings planned ((p.sheet.prevSiblings rule).map p.sheet.selector?) then p
    else
      match spellings.find? fun (known, _) => known == planned with
      | some (_, variant) => p.edit fun s => s.cloneBefore rule (·.mapSelector fun _ => variant)
      | none => p

/-- The pass with the copies of a rule that its scope allows. -/
def process (v : SelectorVariants) (p : Pass) (rule : Nat) : Pass :=
  if (p.sheet.selector? rule).any v.accepts then
    let (scope, p) := p.scope rule
    (v.prefixes.filter (Pass.inScope scope)).foldl (fun p planned => v.addVariant p rule planned) p
  else p

end SelectorVariants

end VendorCss
