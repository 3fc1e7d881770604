import VendorCss.Control
import VendorCss.Pass.Basic

/-!
# Where a pass does nothing

A control comment applies to the block that it stands in and to the blocks inside. Only the first one in a block counts;
a later one raises a warning. A node directly after an `ignore next` is switched off, while what stands inside it is not
told so by it.

* `disabled` tells whether a node is switched off, `gridMode` how grids are treated at a node.
* `skipsDeclaration` and `skipsValue` also take the options for flexbox and grid into account.
-/

namespace VendorCss.Pass

/-- The first comment directly inside a node that passes a test, and the later ones. -/
def switchIn (s : Sheet) (id : Nat) (test : Text → Bool) : Option Text × List Nat :=
  let found := (s.children id).filterMap fun i => (s.comment? i).bind fun t => if test t then some (i, t) else none
  (found.head?.map Prod.snd, found.tail.map Prod.fst)

/-- A comment directly before a node switches it off. -/
def isIgnored (s : Sheet) (id : Nat) : Bool := ((s.prev? id).bind s.comment?).any Control.ignoresNext

/-- A fact about a node learned. -/
def learnDisabled (p : Pass) (id : Nat) (value : Bool) : Pass :=
  { p with memory := { p.memory with disabled := (id, value) :: p.memory.disabled } }

def learnGrid (p : Pass) (id : Nat) (mode : GridMode) : Pass :=
  { p with memory := { p.memory with grid := (id, mode) :: p.memory.grid } }

/-- The warning about a second switch. -/
def secondSwitch : Text :=
  "Second Autoprefixer control comment was ignored. " ++
    "Autoprefixer applies control comment to whole block, not to next rules."

/-- The warning about a second grid switch. -/
def secondGridSwitch : Text :=
  "Second Autoprefixer grid control comment was ignored. " ++
    "Autoprefixer applies control comments to the whole block, not to the next rules."

/-- The first node of a chain that goes up to the root is switched off: by the comment before it, by a comment inside
it, or because the next node of the chain is, unless that one is only ignored itself. -/
def disabledAlong : (chain : List Nat) → Pass → Bool × Pass
  | [], p => (false, p)
  | id :: above, p =>
    match p.memory.disabled.get? id with
    | some known => (known, p)
    | none =>
      if !above.isEmpty && isIgnored p.sheet id then
        let p := p.learnDisabled id true
        (true, { p with memory := { p.memory with ignored := id :: p.memory.ignored } })
      else
        let (switch, later) := switchIn p.sheet id Control.isSwitch
        let p := later.foldl (fun p i => p.warn i secondSwitch) p
        let (value, p) :=
          match switch, above with
          | some comment, _ => (!Control.switchesOn comment, p)
          | none, [] => (false, p)
          | none, parent :: _ =>
            let (inherited, p) := disabledAlong above p
            (inherited && !p.memory.ignored.contains parent, p)
        (value, p.learnDisabled id value)

/-- A node is switched off. -/
def disabled (p : Pass) (id : Nat) : Bool × Pass := disabledAlong (id :: p.sheet.ancestors id) p

/-- The node is an `@supports` rule that asks for automatic placement in grids. -/
def asksForAutoplace (n : Node) : Bool :=
  n.atRule?.any fun (r : AtRule) => r.name = "supports" && r.params.contains "grid" && r.params.contains "auto"

/-- The treatment of grids at the first node of a chain that goes up to the root. -/
def gridModeAlong : (chain : List Nat) → Pass → GridMode × Pass
  | [], p => (p.rules.options.grid, p)
  | id :: above, p =>
    match p.memory.grid.get? id with
    | some known => (known, p)
    | none =>
      let (switch, later) := switchIn p.sheet id Control.isGridSwitch
      let p := later.foldl (fun p i => p.warn i secondGridSwitch) p
      let own := if (p.sheet.node? id).any asksForAutoplace then some .off else switch.map Control.gridModeOf
      let (mode, p) :=
        match own, above with
        | some mode, _ => (mode, p)
        | none, [] => (p.rules.options.grid, p)
        | none, parent :: _ =>
          let (inherited, p) := gridModeAlong above p
          (if p.memory.ignored.contains parent then .off else inherited, p)
      (mode, p.learnGrid id mode)

/-- The treatment of grids at a node. -/
def gridMode (p : Pass) (id : Nat) : GridMode × Pass := gridModeAlong (id :: p.sheet.ancestors id) p

/-- Properties of flexbox that do not have its name. -/
def flexLike : List Text := ["order", "justify-content", "align-items", "align-content"]

/-- A declaration belongs to flexbox. -/
def isFlexProperty (prop : Text) : Bool := prop.contains "flex" || flexLike.contains prop

/-- A declaration belongs to grid. -/
def isGridProperty (prop : Text) : Bool := prop.contains "grid" || prop = "justify-items"

/-- No prefixed copies of a declaration are added. -/
def skipsDeclaration (p : Pass) (decl : Nat) : Bool × Pass :=
  match p.sheet.declaration? decl with
  | none => p.disabled decl
  | some d =>
    let (mode, p) := p.gridMode decl
    if (!mode.isEnabled && isGridProperty d.prop) || (p.rules.options.flexbox = .off && isFlexProperty d.prop) then
      (true, p)
    else p.disabled decl

/-- No copies of a declaration with prefixed values are added. -/
def skipsValue (p : Pass) (decl : Nat) : Bool × Pass :=
  match p.sheet.declaration? decl with
  | none => p.disabled decl
  | some d =>
    let (mode, p) := p.gridMode decl
    let display := d.prop = "display"
    if (!mode.isEnabled && display && d.value.contains "grid") ||
        (p.rules.options.flexbox = .off && display && d.value.contains "flex") || d.prop = "content" then
      (true, p)
    else p.disabled decl

end VendorCss.Pass
