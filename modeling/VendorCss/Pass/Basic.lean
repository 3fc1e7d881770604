import VendorCss.Diagnostic
import VendorCss.Rules
import VendorCss.Text.Classes

/-!
# Passes over a sheet

A pass goes over a sheet with one set of rules. It holds the sheet as changed so far, the diagnostics, and a memory of
what was found out about nodes: such a fact is found out once, and stands however the sheet changes afterwards.

* `scope` is the vendor that a node is already written for, by its own name or selector or by those around it.
* `group` are the neighbours of a declaration that belong to the same property.
-/

namespace VendorCss

/-- Facts about nodes, by their numbers; the fact learned last stands first. -/
abbrev Facts (α : Type) := List (Nat × α)

/-- The fact about a node, if it was learned. -/
def Facts.get? (f : Facts α) (id : Nat) : Option α := (f.find? fun (i, _) => i == id).map Prod.snd

/-- What a pass found out about nodes. -/
structure Memory where
  scope : Facts (Option Text) := []
  disabled : Facts Bool := []
  /-- Nodes that a comment before them switches off. -/
  ignored : List Nat := []
  grid : Facts GridMode := []
  /-- The values of declarations spelled for vendors, by planned prefix, in the order in which they were added. -/
  values : Facts (List (Text × Text)) := []
  /-- The length of the longest prefix written for a declaration. -/
  widest : Facts Nat := []
  deriving Inhabited

/-- A sheet on which rules are being carried out. -/
structure Pass where
  rules : Rules
  sheet : Sheet
  memory : Memory := {}
  /-- In the order in which they were raised. -/
  diagnostics : List Diagnostic := []
  deriving Inhabited

namespace Pass

/-- The pass with another sheet. -/
def withSheet (p : Pass) (sheet : Sheet) : Pass := { p with sheet }

/-- The pass with its sheet changed. -/
def edit (p : Pass) (f : Sheet → Sheet) : Pass := p.withSheet (f p.sheet)

/-! ## Diagnostics -/

/-- A diagnostic about a node. -/
def warnAbout (p : Pass) (id : Nat) (message : Text) (word : Option Text) : Pass :=
  let position := (p.sheet.node? id).bind Node.source
  { p with diagnostics := p.diagnostics ++ [{ message, word, position }] }

/-- A warning about a node. -/
def warn (p : Pass) (id : Nat) (message : Text) : Pass := p.warnAbout id message none

/-- A warning about a word in a node. -/
def warnWord (p : Pass) (id : Nat) (message word : Text) : Pass := p.warnAbout id message (some word)

/-! ## The scope of a node -/

/-- The first vendor prefix directly after a colon. -/
def vendorAfterColon? : Text → Option Text
  | [] => none
  | c :: t =>
    let here :=
      match c, t with
      | ':', '-' :: rest =>
        let word := rest.takeWhile isWordChar
        if !word.isEmpty && (rest.drop word.length).head? = some '-' then some ('-' :: word ++ ['-']) else none
      | _, _ => none
    here.or (vendorAfterColon? t)

/-- The vendor that a node names itself. Where this is `none`, what stands around the node decides; `some none` decides
that there is none. -/
def ownScope (n : Node) : Option (Option Text) :=
  match n.content with
  | .root => some none
  | .declaration d => if d.prop.head? = some '-' then some (some (Vendor.ofName d.prop)) else none
  | .rule selector => if selector.contains ":-" then some (vendorAfterColon? selector) else none
  | .atRule r => if r.name.head? = some '-' then some (some (Vendor.ofName r.name)) else none
  | .comment _ => none

/-- The scope of the first node of a chain that goes up to the root: its own, or that of the next one. Only the vendors
of browsers count. -/
def scopeAlong : (chain : List Nat) → Pass → Option Text × Pass
  | [], p => (none, p)
  | id :: above, p =>
    match p.memory.scope.get? id with
    | some known => (known, p)
    | none =>
      let (found, p) :=
        match (p.sheet.node? id).map ownScope with
        | none => (none, p)
        | some (some own) => (own, p)
        | some none => scopeAlong above p
      let scope := found.filter fun vendor => p.rules.selection.vendors.contains vendor
      (scope, { p with memory := { p.memory with scope := (id, scope) :: p.memory.scope } })

/-- The vendor that a node is already written for, if there is one. -/
def scope (p : Pass) (id : Nat) : Option Text × Pass := scopeAlong (id :: p.sheet.ancestors id) p

/-- A planned prefix may be written in a scope. -/
def inScope (scope : Option Text) (planned : Text) : Bool := scope.all (· == Vendor.vendorPart planned)

/-! ## The group of a declaration -/

/-- The declaration has the standard property itself, and a value without any vendor. -/
def isPlain (r : Rules) (standard : Text) (d : Declaration) : Bool :=
  d.prop == standard && !r.selection.holdsVendor d.value

/-- The members among declarations above, nearest first: those of the property, up to one written plainly. -/
def membersAbove (r : Rules) (standard : Text) : List (Nat × Declaration) → List (Nat × Declaration)
  | [] => []
  | (i, d) :: ds =>
    if isPlain r standard d || PropertyName.standard d.prop != standard then []
    else (i, d) :: membersAbove r standard ds

/-- The members among declarations below, nearest first: those of the property, one written plainly being the last. -/
def membersBelow (r : Rules) (standard : Text) : List (Nat × Declaration) → List (Nat × Declaration)
  | [] => []
  | (i, d) :: ds =>
    if PropertyName.standard d.prop != standard then []
    else if isPlain r standard d then [(i, d)]
    else (i, d) :: membersBelow r standard ds

/-- Nodes that are declarations, with what they say. -/
def declarationsAmong (s : Sheet) (ids : List Nat) : List (Nat × Declaration) :=
  ids.filterMap fun i => (s.declaration? i).map (i, ·)

/-- The declarations above a declaration that belong to its group, nearest first. -/
def groupAbove (p : Pass) (decl : Nat) : List (Nat × Declaration) :=
  match p.sheet.declaration? decl with
  | some d =>
    membersAbove p.rules (PropertyName.standard d.prop) (declarationsAmong p.sheet (p.sheet.prevSiblings decl))
  | none => []

/-- The declarations below a declaration that belong to its group, nearest first. -/
def groupBelow (p : Pass) (decl : Nat) : List (Nat × Declaration) :=
  match p.sheet.declaration? decl with
  | some d =>
    membersBelow p.rules (PropertyName.standard d.prop) (declarationsAmong p.sheet (p.sheet.nextSiblings decl))
  | none => []

/-- Some member of the group of a declaration has a property. -/
def groupHas (p : Pass) (decl : Nat) (prop : Text) : Bool :=
  (p.groupAbove decl).any (fun (_, d) => d.prop == prop) || (p.groupBelow decl).any fun (_, d) => d.prop == prop

/-! ## Neighbours -/

/-- Some declaration beside a declaration, itself included, passes a test; there is none without a parent. -/
def someSibling (p : Pass) (decl : Nat) (test : Declaration → Bool) : Bool :=
  (p.sheet.parent? decl).any fun parent => p.sheet.someDeclaration parent test

/-- Some declaration beside a declaration, itself included, has a property. -/
def hasSibling (p : Pass) (decl : Nat) (prop : Text) : Bool := p.someSibling decl fun d => d.prop == prop

end Pass

end VendorCss
