import VendorCss.Css.Forest

/-!
# Stylesheets

A sheet is the tree of its root, the subtrees that were made or cut out and stand nowhere, and the next free number.
Numbers name nodes: they are given in the order in which nodes are made and never given again. A node is removed when
its number has been given and no run holds it.

The root has the number 0. A node without a parent may have siblings, those that were inserted beside it; so what stands
nowhere is a list of runs.
-/

namespace VendorCss

/-- A stylesheet under edit. -/
structure Sheet where
  /-- The run of the root, then the runs that stand outside the tree. -/
  runs : List Forest
  /-- The number that the next node gets. -/
  next : Nat
  deriving Repr, Inhabited

namespace Sheet

/-- The number of the root. -/
def rootId : Nat := 0

/-- A sheet of a root with children numbered from 1. -/
def ofRoot (root : Node) (kids : Forest) (next : Nat) : Sheet := ⟨[.tree rootId root kids], next⟩

/-- The sheet without any statement. -/
def empty : Sheet := ofRoot .root .nil 1

/-! ## Looking up -/

/-- The node with a number, and its children. -/
def find? (s : Sheet) (id : Nat) : Option (Node × Forest) := s.runs.findSome? (·.find? id)

/-- The node with a number; a removed node is not there. -/
def node? (s : Sheet) (id : Nat) : Option Node := (s.find? id).map Prod.fst

/-- The children of a node as a forest. -/
def kids (s : Sheet) (id : Nat) : Forest :=
  match s.find? id with
  | some (_, k) => k
  | none => .nil

def isRemoved (s : Sheet) (id : Nat) : Bool := (s.find? id).isNone

def declaration? (s : Sheet) (id : Nat) : Option Declaration := (s.node? id).bind Node.declaration?

def selector? (s : Sheet) (id : Nat) : Option Text := (s.node? id).bind Node.selector?

def atRule? (s : Sheet) (id : Nat) : Option AtRule := (s.node? id).bind Node.atRule?

def comment? (s : Sheet) (id : Nat) : Option Text := (s.node? id).bind Node.comment?

def raws? (s : Sheet) (id : Nat) : Option Raws := (s.node? id).map Node.raws

/-- The white space before a node. -/
def before (s : Sheet) (id : Nat) : Text := ((s.raws? id).map Raws.before).getD []

/-! ## Neighbours -/

def parent? (s : Sheet) (id : Nat) : Option Nat := (s.runs.findSome? (·.parentUnder id none)).join

/-- The children of a node, in order. -/
def children (s : Sheet) (id : Nat) : List Nat := (s.kids id).tops

def firstChild? (s : Sheet) (id : Nat) : Option Nat := (s.children id).head?

/-- The run of siblings that a node stands in, itself included. -/
def siblings (s : Sheet) (id : Nat) : List Nat := (s.runs.findSome? (·.runOf? id)).getD []

/-- The position of a node among its siblings; 0 for a removed node. -/
def index (s : Sheet) (id : Nat) : Nat := if s.isRemoved id then 0 else (s.siblings id).idxOf id

/-- The sibling directly before a node. -/
def prev? (s : Sheet) (id : Nat) : Option Nat := ((s.siblings id).takeWhile (· != id)).getLast?

/-- The sibling directly after a node. -/
def next? (s : Sheet) (id : Nat) : Option Nat := ((s.siblings id).dropWhile (· != id)).tail.head?

/-- The siblings after a node, closest first. -/
def nextSiblings (s : Sheet) (id : Nat) : List Nat := ((s.siblings id).dropWhile (· != id)).tail

/-- The siblings before a node, closest first. -/
def prevSiblings (s : Sheet) (id : Nat) : List Nat := ((s.siblings id).takeWhile (· != id)).reverse

/-- The ancestors of a node, closest first. -/
def ancestors (s : Sheet) (id : Nat) : List Nat := (s.runs.findSome? (·.ancestors? id)).getD []

/-- The descendants of a node in document order, without the node. -/
def descendants (s : Sheet) (id : Nat) : List Nat := (s.kids id).ids

/-- The descendants whose node passes a test. -/
def descendantsWhere (s : Sheet) (id : Nat) (keep : Node → Bool) : List Nat :=
  ((s.kids id).nodes.filter (fun (_, n) => keep n)).map Prod.fst

def declarations (s : Sheet) (id : Nat) : List Nat := s.descendantsWhere id Node.isDeclaration

def rules (s : Sheet) (id : Nat) : List Nat := s.descendantsWhere id Node.isRule

def atRules (s : Sheet) (id : Nat) : List Nat := s.descendantsWhere id Node.isAtRule

def comments (s : Sheet) (id : Nat) : List Nat := s.descendantsWhere id Node.isComment

/-- The children of a node that are declarations, with what they say. -/
def childDeclarationsOf (s : Sheet) (id : Nat) : List (Nat × Declaration) :=
  (s.kids id).topNodes.filterMap fun (i, n) => n.declaration?.map (i, ·)

/-- The children of a node that are declarations. -/
def childDeclarations (s : Sheet) (id : Nat) : List Nat := (s.childDeclarationsOf id).map Prod.fst

/-- Some declaration directly below a node passes a test. -/
def someDeclaration (s : Sheet) (id : Nat) (test : Declaration → Bool) : Bool :=
  (s.childDeclarationsOf id).any fun (_, d) => test d

/-- The first declaration of a property directly below a node. -/
def findDeclaration? (s : Sheet) (id : Nat) (prop : Text) : Option Nat :=
  ((s.childDeclarationsOf id).find? fun (_, d) => d.prop == prop).map Prod.fst

/-! ## Editing -/

/-- Every run changed in the same way; a run that loses its last node goes. -/
def mapRuns (f : Forest → Forest) (s : Sheet) : Sheet :=
  { s with runs := (s.runs.map f).filter (fun r => !r.isNil) }

/-- The node with a number changed in place. -/
def modify (s : Sheet) (id : Nat) (f : Node → Node) : Sheet := { s with runs := s.runs.map (·.modify id f) }

def modifyRaws (s : Sheet) (id : Nat) (f : Raws → Raws) : Sheet := s.modify id fun n => { n with raws := f n.raws }

def modifyDeclaration (s : Sheet) (id : Nat) (f : Declaration → Declaration) : Sheet := s.modify id (·.mapDeclaration f)

/-- The white space before a node replaced. -/
def setBefore (s : Sheet) (id : Nat) (before : Text) : Sheet := s.modifyRaws id fun r => { r with before }

/-- The value of a declaration replaced. -/
def setValue (s : Sheet) (id : Nat) (value : Text) : Sheet := s.modifyDeclaration id fun d => { d with value }

/-- The params of an at-rule replaced. -/
def setParams (s : Sheet) (id : Nat) (params : Text) : Sheet := s.modify id (·.mapAtRule fun r => { r with params })

/-- Where a subtree goes. -/
inductive Place
  | before (anchor : Nat)
  | after (anchor : Nat)
  /-- After the last child. -/
  | appended (parent : Nat)
  /-- Before the first child. -/
  | prepended (parent : Nat)
  deriving Repr, DecidableEq

/-- The forest with `new` at a place. -/
def Place.splice (new : Forest) : Place → Forest → Forest
  | .before a => Forest.insertBefore a new
  | .after a => Forest.insertAfter a new
  | .appended p => Forest.appendTo p new
  | .prepended p => Forest.prependTo p new

/-- `new`, which carries its own numbers, put at a place. -/
def splice (s : Sheet) (place : Place) (new : Forest) : Sheet := { s with runs := s.runs.map (place.splice new) }

/-- A new node that stands nowhere. -/
def create (s : Sheet) (node : Node) : Nat × Sheet :=
  (s.next, ⟨s.runs ++ [.tree s.next node .nil], s.next + 1⟩)

/-- A new node at a place. -/
def insert (s : Sheet) (place : Place) (node : Node) : Nat × Sheet :=
  (s.next, { s.splice place (.tree s.next node .nil) with next := s.next + 1 })

/-- Leaves numbered from `next` on. -/
def leaves (next : Nat) : List Node → Forest
  | [] => .nil
  | n :: ns => .cons next n .nil (leaves (next + 1) ns)

/-- A new node with new children at a place. -/
def insertBlock (s : Sheet) (place : Place) (node : Node) (kids : List Node) : Nat × Sheet :=
  (s.next,
    { s.splice place (.tree s.next node (leaves (s.next + 1) kids)) with next := s.next + 1 + kids.length })

/-- A new node directly before another one. -/
def insertBefore (s : Sheet) (anchor : Nat) (node : Node) : Sheet := (s.insert (.before anchor) node).2

/-- A new node directly after another one. -/
def insertAfter (s : Sheet) (anchor : Nat) (node : Node) : Sheet := (s.insert (.after anchor) node).2

/-- The sheet without a node and its descendants; the root stays. -/
def remove (s : Sheet) (id : Nat) : Sheet := if id = rootId then s else s.mapRuns (·.erase id)

/-- The sheet without the children of a node. -/
def removeChildren (s : Sheet) (id : Nat) : Sheet := (s.children id).foldl remove s

/-- The subtree of a node moved to a place outside it. -/
def move (s : Sheet) (place : Place) (id : Nat) : Sheet :=
  match s.find? id with
  | some (node, kids) => (s.mapRuns (·.erase id)).splice place (.tree id node kids)
  | none => s

/-- A copy of a node with its descendants, its top changed by `edit`, and the first number after it. -/
def copyOf? (s : Sheet) (id : Nat) (edit : Node → Node) : Option (Forest × Nat) :=
  (s.find? id).map fun (node, kids) => (Forest.tree id (edit node) kids).renumber s.next

/-- A copy that stands nowhere, and its number. -/
def clone? (s : Sheet) (id : Nat) : Option (Nat × Sheet) :=
  (s.copyOf? id fun n => n).map fun (copy, next) => (s.next, ⟨s.runs ++ [copy], next⟩)

/-- A copy directly before the node. -/
def cloneBefore? (s : Sheet) (id : Nat) (edit : Node → Node) : Option (Nat × Sheet) :=
  (s.copyOf? id edit).map fun (copy, next) => (s.next, { s.splice (.before id) copy with next })

/-- A copy directly after the node. -/
def cloneAfter? (s : Sheet) (id : Nat) (edit : Node → Node) : Option (Nat × Sheet) :=
  (s.copyOf? id edit).map fun (copy, next) => (s.next, { s.splice (.after id) copy with next })

/-- The sheet with a copy before the node; a removed node has none. -/
def cloneBefore (s : Sheet) (id : Nat) (edit : Node → Node) : Sheet := ((s.cloneBefore? id edit).map Prod.snd).getD s

/-! ## Printing -/

/-- The text of a node with its children, as it stands alone. -/
def renderNode (s : Sheet) (id : Nat) : Text :=
  match s.find? id with
  | some (node, kids) => node.render (kids.render node.raws.semicolon) false
  | none => []

/-- The text of the sheet. -/
def render (s : Sheet) : Text := s.renderNode rootId

/-- The text of a node without the white space before it. -/
def renderTrimmed (s : Sheet) (id : Nat) : Text :=
  let text := s.renderNode id
  (Text.dropStart? (s.before id) text).getD text

end Sheet

end VendorCss
