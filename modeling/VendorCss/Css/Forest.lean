import VendorCss.Css.Node

/-!
# Forests

A forest is a run of sibling nodes, each with a number, its children (a forest again) and the siblings after it. One
inductive type holds trees and lists of trees, so every operation is one structural recursion. Numbers are looked up in
document order: a node comes before its children, and they come before its next sibling.

* `ids` lists the numbers in document order, `tops` those of the run itself.
* `find?` gives a node and its children, `modify` changes a node in place.
* `insertBefore`, `insertAfter`, `appendTo` and `prependTo` splice a forest in at a named node; `erase` takes a subtree
  out.
* `render` prints a run.
-/

namespace VendorCss

/-- A run of siblings. -/
inductive Forest
  | nil
  | cons (id : Nat) (node : Node) (kids rest : Forest)
  deriving Repr, DecidableEq, Inhabited

namespace Forest

/-- One node with its children. -/
def tree (id : Nat) (node : Node) (kids : Forest) : Forest := cons id node kids nil

/-- One run after the other. -/
def append : Forest → Forest → Forest
  | nil, g => g
  | cons i n k r, g => cons i n k (append r g)

instance : Append Forest := ⟨append⟩

/-- The run has no node. -/
def isNil : Forest → Bool
  | nil => true
  | cons .. => false

/-- All numbers in document order. -/
def ids : Forest → List Nat
  | nil => []
  | cons i _ k r => i :: (ids k ++ ids r)

/-- The numbers of the run itself, in order. -/
def tops : Forest → List Nat
  | nil => []
  | cons i _ _ r => i :: tops r

/-- All numbers with their nodes in document order. -/
def nodes : Forest → List (Nat × Node)
  | nil => []
  | cons i n k r => (i, n) :: (nodes k ++ nodes r)

/-- The nodes of the run itself with their numbers, in order. -/
def topNodes : Forest → List (Nat × Node)
  | nil => []
  | cons i n _ r => (i, n) :: topNodes r

/-- The number of nodes. -/
def size : Forest → Nat
  | nil => 0
  | cons _ _ k r => size k + size r + 1

/-- The node with a number, and its children. -/
def find? (id : Nat) : Forest → Option (Node × Forest)
  | nil => none
  | cons i n k r => if i = id then some (n, k) else (find? id k).or (find? id r)

/-- The parent of a node, where `above` is the parent of the run: `none` if the node is not here. -/
def parentUnder (id : Nat) (above : Option Nat) : Forest → Option (Option Nat)
  | nil => none
  | cons i _ k r => if i = id then some above else (parentUnder id (some i) k).or (parentUnder id above r)

/-- The numbers from a node's parent upwards. -/
def ancestors? (id : Nat) : Forest → Option (List Nat)
  | nil => none
  | cons i _ k r =>
    if i = id then some []
    else ((ancestors? id k).map (· ++ [i])).or (ancestors? id r)

/-- The run that a node stands in. -/
def runOf? (id : Nat) : Forest → Option (List Nat)
  | nil => none
  | f@(cons _ _ k r) =>
    if f.tops.contains id then some f.tops else (runOf? id k).or (below id r)
where
  /-- The run of a node that stands below a run. -/
  below (id : Nat) : Forest → Option (List Nat)
    | nil => none
    | cons _ _ k r => (if k.tops.contains id then some k.tops else below id k).or (below id r)

/-- The node with a number changed in place. -/
def modify (id : Nat) (f : Node → Node) : Forest → Forest
  | nil => nil
  | cons i n k r => if i = id then cons i (f n) k r else cons i n (modify id f k) (modify id f r)

/-- `new` directly before a node. -/
def insertBefore (id : Nat) (new : Forest) : Forest → Forest
  | nil => nil
  | cons i n k r =>
    if i = id then new ++ cons i n k r else cons i n (insertBefore id new k) (insertBefore id new r)

/-- `new` directly after a node and its children. -/
def insertAfter (id : Nat) (new : Forest) : Forest → Forest
  | nil => nil
  | cons i n k r =>
    if i = id then cons i n k (new ++ r) else cons i n (insertAfter id new k) (insertAfter id new r)

/-- `new` after the last child of a node. -/
def appendTo (id : Nat) (new : Forest) : Forest → Forest
  | nil => nil
  | cons i n k r =>
    if i = id then cons i n (k ++ new) r else cons i n (appendTo id new k) (appendTo id new r)

/-- `new` before the first child of a node. -/
def prependTo (id : Nat) (new : Forest) : Forest → Forest
  | nil => nil
  | cons i n k r =>
    if i = id then cons i n (new ++ k) r else cons i n (prependTo id new k) (prependTo id new r)

/-- The forest without a node and its descendants. -/
def erase (id : Nat) : Forest → Forest
  | nil => nil
  | cons i n k r => if i = id then r else cons i n (erase id k) (erase id r)

/-- The forest with numbers from `next` on, in document order, and the first number not given. -/
def renumber (next : Nat) : Forest → Forest × Nat
  | nil => (nil, next)
  | cons _ n k r =>
    let (k', next') := renumber (next + 1) k
    let (r', last) := renumber next' r
    (cons next n k' r', last)

/-- Some node of the run is not a comment. -/
def hasStatement : Forest → Bool
  | nil => false
  | cons _ n _ r => !n.isComment || hasStatement r

/-- The text of a run. A statement that another one follows ends with a semicolon, the last one if `trailing`. -/
def render (trailing : Bool) : Forest → Text
  | nil => []
  | cons _ n k r => n.render (render n.raws.semicolon k) (trailing || hasStatement r) ++ render trailing r

end Forest

end VendorCss
