import VendorCss.Text

/-!
# Conditions

The params of an `@supports` rule are runs of text and groups in parentheses. `ofText` reads them and `renderAll` prints
them; a parenthesis that closes nothing is text, and a group that is left open ends with the params.

A group that holds a declaration, or the operand of `selector`, is a leaf: `normalize` turns what it holds into one run
of text, which `leaf?` finds. `unwrap` takes away parentheses that hold nothing but parentheses.
-/

namespace VendorCss

/-- A run of text or a group in parentheses. -/
inductive ConditionPiece
  | text (t : Text)
  | group (pieces : List ConditionPiece)
  deriving Repr, Inhabited

namespace ConditionPiece

/-! ## Printing -/

mutual

/-- The text of a piece. -/
def render : ConditionPiece → Text
  | text t => t
  | group ps => '(' :: renderAll ps ++ [')']

/-- The text of pieces one after the other. -/
def renderAll : List ConditionPiece → Text
  | [] => []
  | p :: ps => render p ++ renderAll ps

end

/-! ## Reading -/

/-- The state of the reader between two characters. -/
structure Reader where
  /-- The text after the last parenthesis. -/
  run : Text := []
  /-- The pieces before it in the innermost open group, the last one first. -/
  items : List ConditionPiece := []
  /-- The pieces before each open group, innermost first, the last one first. -/
  outer : List (List ConditionPiece) := []

/-- The pieces of the innermost open group. -/
def Reader.pieces (r : Reader) : List ConditionPiece := (text r.run :: r.items).reverse

/-- The state after one more character. -/
def Reader.step (r : Reader) (c : Char) : Reader :=
  match c, r.outer with
  | '(', outer => { outer := (text r.run :: r.items) :: outer }
  | ')', before :: outer => { items := group r.pieces :: before, outer }
  | c, _ => { r with run := r.run ++ [c] }

/-- The pieces when the text ends: groups that are open are closed. -/
def close (pieces : List ConditionPiece) : (outer : List (List ConditionPiece)) → List ConditionPiece
  | [] => pieces
  | before :: outer => close (group pieces :: before).reverse outer

/-- The pieces of a text. -/
def ofText (t : Text) : List ConditionPiece :=
  let r := t.foldl Reader.step {}
  close r.pieces r.outer

/-! ## Normal form -/

/-- A run of text that is empty. -/
def isEmpty : ConditionPiece → Bool
  | text t => t.isEmpty
  | group _ => false

/-- What a group holds is one declaration, or the operand of `selector`: its first text that is not empty says so. -/
def isLeafContent (ps : List ConditionPiece) : Bool :=
  match ps.find? fun p => !p.isEmpty with
  | some (text t) => t.contains ":" || t.trim = "selector" || t.trim = "not selector"
  | _ => false

mutual

/-- A piece in which every leaf is one run of text, and no other run is empty. -/
def normalizePiece : ConditionPiece → ConditionPiece
  | text t => text t
  | group ps => if isLeafContent ps then group [text (renderAll ps)] else group (normalize ps)

/-- The same for pieces one after the other. -/
def normalize : List ConditionPiece → List ConditionPiece
  | [] => []
  | p :: ps => if p.isEmpty then normalize ps else normalizePiece p :: normalize ps

end

/-- The text of a group that holds nothing else. -/
def leaf? : ConditionPiece → Option Text
  | group [text t] => some t
  | _ => none

/-- A run of text that holds a word, in letters of any case. -/
def holds (word : Text) : ConditionPiece → Bool
  | text t => Text.contains t.lowercaseAscii word
  | group _ => false

mutual

/-- A piece without the parentheses directly inside parentheses, one pair at each group. -/
def unwrapPiece : ConditionPiece → ConditionPiece
  | text t => text t
  | group [group ps] => group (unwrap ps)
  | group ps => group (unwrap ps)

/-- The same for pieces one after the other. -/
def unwrap : List ConditionPiece → List ConditionPiece
  | [] => []
  | p :: ps => unwrapPiece p :: unwrap ps

end

/-! ## Alternatives -/

mutual

/-- A piece without the leaves that an `or` follows and that `outdated` accepts. -/
def dropAlternativesIn (outdated : Text → Bool) : ConditionPiece → ConditionPiece
  | text t => text t
  | group ps => group (dropAlternatives outdated false ps)

/-- The same for pieces one after the other, the `or` going with its leaf; a leaf after a `not` stays. -/
def dropAlternatives (outdated : Text → Bool) : (negated : Bool) → List ConditionPiece → List ConditionPiece
  | _, [] => []
  | _, [p] => [dropAlternativesIn outdated p]
  | negated, p :: q :: ps =>
    match p.leaf? with
    | some condition =>
      if !negated && q.holds "or" then
        if outdated condition then dropAlternatives outdated negated ps
        else p :: q :: dropAlternatives outdated (q.holds "not") ps
      else p :: dropAlternatives outdated false (q :: ps)
    | none => dropAlternativesIn outdated p :: dropAlternatives outdated (p.holds "not") (q :: ps)

end

/-- Declarations as leaves with `or` between them. -/
def disjunction : List (Text × Text) → List ConditionPiece
  | [] => []
  | [(prop, value)] => [group [text (prop ++ ": " ++ value)]]
  | (prop, value) :: ds => group [text (prop ++ ": " ++ value)] :: text " or " :: disjunction ds

mutual

/-- A piece in which each leaf with several alternatives is the group of them. -/
def addAlternativesIn (alternatives : Text → List (Text × Text)) : ConditionPiece → ConditionPiece
  | text t => text t
  | group [text t] => if 1 < (alternatives t).length then group (disjunction (alternatives t)) else group [text t]
  | group ps => group (addAlternatives alternatives ps)

/-- The same for pieces one after the other. -/
def addAlternatives (alternatives : Text → List (Text × Text)) : List ConditionPiece → List ConditionPiece
  | [] => []
  | p :: ps => addAlternativesIn alternatives p :: addAlternatives alternatives ps

end

end ConditionPiece

end VendorCss
