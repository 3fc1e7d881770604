import VendorCss.Css.Token
import VendorCss.Css.Sheet

/-!
# Reading a stylesheet

The reader goes over the tokens once. It keeps the block that it is in and the blocks around it as frames; a frame holds
the nodes already read, the white space that waits for the next node, and the statement begun. A statement is raw text
up to a semicolon, a block, or the end of its block. Between statements white space and stray semicolons go to the
following node, or to the end of the block; a comment between statements is a node.

Brackets in a statement are skipped to the bracket that closes them, whatever stands inside, and so is the block of a
custom property (`--x: { … }`). What is still open at the end of the text ends there.
-/

namespace VendorCss

/-! ## Statements -/

namespace Statement

/-- A text and the blanks at its end. -/
def splitBlanks (t : Text) : Text × Text := (t.trimEnd, t.trailingBlanks)

/-- A character at which the name of an at-rule ends. -/
def endsName (c : Char) : Bool := isBlank c || c == '(' || c == '{' || c == ';' || c == '"' || c == '\''

/-- The at-rule whose text after the `@` is `t`. -/
def atRule (t : Text) (hasBlock : Bool) : Node :=
  let name : Text := t.takeWhile (fun c => !endsName c)
  let rest : Text := t.dropWhile (fun c => !endsName c)
  { content := .atRule { name, params := rest.trimStart.trimEnd, hasBlock },
    raws := { afterName := rest.leadingBlanks } }

/-- A value and the raw `!important` that it ends with, which is empty if there is none. -/
def splitImportant (t : Text) : Text × Text :=
  let value := t.trimEnd
  match Text.splitLast "!" value with
  | some (head, flag) =>
    if Text.sameIgnoringAsciiCase flag.trimStart "important" then (head.trimEnd, value.drop head.trimEnd.length)
    else (value, [])
  | none => (value, [])

/-- The declaration with the text `t`. A text without a colon is kept as a property without a value. -/
def declaration (t : Text) : Node :=
  match Text.splitFirst ":" t with
  | none => { content := .declaration { prop := t, value := [] } }
  | some (head, tail) =>
    let (value, important) := splitImportant tail.trimStart
    { content := .declaration { prop := head.trimEnd, value, important := !important.isEmpty },
      raws := { between := head.trailingBlanks ++ ':' :: tail.leadingBlanks, important } }

/-- The node of a statement that a semicolon (or, `atEnd`, the end of its block) ends. -/
def node (t : Text) (atEnd : Bool) : Node :=
  match t with
  | '@' :: rest =>
    let (body, between) := splitBlanks rest
    let n := atRule body false
    if atEnd then n else { n with raws := { n.raws with between } }
  | _ => declaration t.trimEnd

/-- The node of a block after the text `t`. -/
def blockNode (t : Text) : Node :=
  let (body, between) := splitBlanks t
  let n : Node :=
    match body with
    | '@' :: rest => atRule rest true
    | _ => { content := .rule body }
  { n with raws := { n.raws with between } }

/-- The text before a block makes the block the value of a custom property. -/
def takesBlock (t : Text) : Bool := t.trimStart.startsWith "--" && t.contains ":"

end Statement

/-! ## Frames -/

/-- A block being read. -/
structure Frame where
  id : Nat
  node : Node
  /-- The children already read. -/
  kids : Forest := .nil
  /-- White space and semicolons that wait for the next node. -/
  pending : Text := []
  /-- The statement begun: its text so far and where it started. -/
  statement : Option (Text × Position) := none
  /-- The last statement ended with a semicolon. -/
  semicolon : Bool := false

namespace Frame

/-- The frame with a new child, which takes the waiting white space. -/
def push (f : Frame) (id : Nat) (node : Node) (source : Position) (kids : Forest) : Frame :=
  let node := { node.withBefore f.pending with source := some source }
  { f with kids := f.kids ++ .tree id node kids, pending := [] }

/-- The frame when its block ends: the statement begun becomes a node numbered `next`, and what waits is the end of the
block. -/
def close (f : Frame) (next : Nat) : Frame × Nat :=
  let (f, next) :=
    match f.statement with
    | some (text, source) =>
      let (body, blanks) := Statement.splitBlanks text
      ({ f.push next (Statement.node body true) source .nil with
          statement := none, pending := blanks, semicolon := false }, next + 1)
    | none => (f, next)
  ({ f with node := { f.node with raws := { f.node.raws with after := f.pending, semicolon := f.semicolon } } }, next)

/-- The closed frame as the last child of the frame around it. -/
def into (f outer : Frame) : Frame := { outer with kids := outer.kids ++ .tree f.id f.node f.kids }

end Frame

/-! ## The reader -/

/-- The state of the reader between two tokens. -/
structure SheetReader where
  position : Position := .start
  /-- The number that the next node gets. -/
  next : Nat
  frame : Frame
  /-- The frames around it, innermost first. -/
  outer : List Frame := []
  /-- The brackets open in the statement, innermost first. -/
  skipping : List Bracket := []

namespace SheetReader

def start : SheetReader := { next := 1, frame := { id := Sheet.rootId, node := .root } }

/-- A token inside brackets: it belongs to the statement, and only the bracket opened last can be closed. -/
def skip (r : SheetReader) (t : Token) : SheetReader :=
  let skipping :=
    match t.kind.opens?, t.kind.closes? with
    | some b, _ => b :: r.skipping
    | none, some b => if r.skipping.head? = some b then r.skipping.tail else r.skipping
    | none, none => r.skipping
  { r with
    skipping,
    frame := { r.frame with statement := r.frame.statement.map fun (text, source) => (text ++ t.text, source) } }

/-- A token of the statement itself, which it starts if there is none. -/
def extend (r : SheetReader) (t : Token) : SheetReader :=
  let frame :=
    match r.frame.statement with
    | some (text, source) => { r.frame with statement := some (text ++ t.text, source) }
    | none => { r.frame with statement := some (t.text, r.position), semicolon := false }
  { r with frame, skipping := t.kind.opens?.toList }

/-- A block starts: of a custom property, or of a new node. -/
def openBlock (r : SheetReader) (t : Token) : SheetReader :=
  let (text, source) := r.frame.statement.getD ([], r.position)
  if Statement.takesBlock text then r.extend t
  else
    let node := { (Statement.blockNode text).withBefore r.frame.pending with source := some source }
    { r with
      next := r.next + 1,
      frame := { id := r.next, node },
      outer := { r.frame with statement := none, pending := [], semicolon := false } :: r.outer }

/-- The state after one more token. -/
def step (r : SheetReader) (t : Token) : SheetReader :=
  let r' :=
    if !r.skipping.isEmpty then r.skip t
    else
      match t.kind, r.frame.statement, r.outer with
      | .blank, none, _ => { r with frame := { r.frame with pending := r.frame.pending ++ t.text } }
      | .comment inside, none, _ =>
        { r with next := r.next + 1, frame := r.frame.push r.next (.comment inside) r.position .nil }
      | .semicolon, none, _ =>
        { r with frame := { r.frame with pending := r.frame.pending ++ t.text, semicolon := true } }
      | .semicolon, some (text, source), _ =>
        let frame := r.frame.push r.next (Statement.node text false) source .nil
        { r with next := r.next + 1, frame := { frame with statement := none, semicolon := true } }
      | .openBracket .curly, _, _ => r.openBlock t
      | .closeBracket .curly, _, outer :: rest =>
        let (frame, next) := r.frame.close r.next
        { r with next, frame := frame.into outer, outer := rest }
      | _, _, _ => r.extend t
  { r' with position := r.position.advance t.text }

/-- Closes every block that is still open. -/
def closeAll (next : Nat) (frame : Frame) : (outer : List Frame) → Frame × Nat
  | [] => frame.close next
  | f :: outer =>
    let (frame, next) := frame.close next
    closeAll next (frame.into f) outer

/-- The sheet when the text ends. -/
def finish (r : SheetReader) : Sheet :=
  let (root, next) := closeAll r.next r.frame r.outer
  .ofRoot root.node root.kids next

end SheetReader

/-- The sheet that a text spells; every text spells one. -/
def Sheet.parse (t : Text) : Sheet := ((tokens t).foldl SheetReader.step .start).finish

end VendorCss
