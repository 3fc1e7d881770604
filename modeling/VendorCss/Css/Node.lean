import VendorCss.Css.Position

/-!
# Nodes

A stylesheet is made of rules, at-rules, declarations and comments. A node keeps, beside what it says, the raw text
around it (`Raws`), so that printing a parsed sheet gives the text back; a node that was made by the library has the
spacing of its constructor and no position.
-/

namespace VendorCss

/-- The raw text around a node. -/
structure Raws where
  /-- White space, and stray semicolons, before the node. -/
  before : Text := []
  /-- In a declaration the text between property and value; in a rule the white space before the block. -/
  between : Text := []
  /-- White space before the end of the block, or of the sheet. -/
  after : Text := []
  /-- White space between the name of an at-rule and its params. -/
  afterName : Text := []
  /-- The `!important` of a declaration with the white space before it. -/
  important : Text := []
  /-- The last statement of the block ends with a semicolon. -/
  semicolon : Bool := false
  deriving DecidableEq, Repr, Inhabited

/-- A declaration: a property and its value, without the `!important`. -/
structure Declaration where
  prop : Text
  value : Text
  important : Bool := false
  deriving DecidableEq, Repr, Inhabited

/-- An at-rule: its name without the `@`, and its params. -/
structure AtRule where
  name : Text
  params : Text
  hasBlock : Bool := true
  deriving DecidableEq, Repr, Inhabited

/-- What a node says. -/
inductive Content
  | root
  | rule (selector : Text)
  | atRule (rule : AtRule)
  | declaration (decl : Declaration)
  | comment (text : Text)
  deriving DecidableEq, Repr, Inhabited

/-- A node of a stylesheet, without its children. -/
structure Node where
  content : Content
  raws : Raws := {}
  /-- Where the node started in the parsed text. -/
  source : Option Position := none
  deriving DecidableEq, Repr, Inhabited

namespace Node

/-! ## Making nodes -/

/-- The node of a whole sheet. -/
def root : Node := { content := .root }

/-- A declaration with `": "` between property and value. -/
def declaration (prop value : Text) : Node :=
  { content := .declaration { prop, value }, raws := { between := ": " } }

/-- A rule with one space before its block. -/
def rule (selector : Text) : Node := { content := .rule selector, raws := { between := " " } }

/-- An at-rule with a block. -/
def atRule (name params : Text) : Node :=
  { content := .atRule { name, params },
    raws := { between := " ", afterName := if params.isEmpty then [] else " " } }

/-- A comment. -/
def comment (text : Text) : Node := { content := .comment text }

/-- The node with other white space before it. -/
def withBefore (n : Node) (before : Text) : Node := { n with raws := { n.raws with before } }

/-! ## Looking at nodes -/

def declaration? (n : Node) : Option Declaration :=
  match n.content with
  | .declaration d => some d
  | _ => none

def atRule? (n : Node) : Option AtRule :=
  match n.content with
  | .atRule r => some r
  | _ => none

def selector? (n : Node) : Option Text :=
  match n.content with
  | .rule s => some s
  | _ => none

def comment? (n : Node) : Option Text :=
  match n.content with
  | .comment t => some t
  | _ => none

def isDeclaration (n : Node) : Bool := n.declaration?.isSome

def isRule (n : Node) : Bool := n.selector?.isSome

def isAtRule (n : Node) : Bool := n.atRule?.isSome

def isComment (n : Node) : Bool := n.comment?.isSome

/-- The root, rules and at-rules with a block hold children. -/
def isContainer (n : Node) : Bool :=
  match n.content with
  | .root | .rule _ => true
  | .atRule r => r.hasBlock
  | .declaration _ | .comment _ => false

/-! ## Changing nodes -/

/-- The node with its declaration changed; other nodes stay. -/
def mapDeclaration (f : Declaration → Declaration) (n : Node) : Node :=
  match n.content with
  | .declaration d => { n with content := .declaration (f d) }
  | _ => n

/-- The node with its at-rule changed; other nodes stay. -/
def mapAtRule (f : AtRule → AtRule) (n : Node) : Node :=
  match n.content with
  | .atRule r => { n with content := .atRule (f r) }
  | _ => n

/-- The node with its selector changed; other nodes stay. -/
def mapSelector (f : Text → Text) (n : Node) : Node :=
  match n.content with
  | .rule s => { n with content := .rule (f s) }
  | _ => n

/-! ## Printing -/

/-- The text of a node around `body`, the printed children; `semicolon` says whether a statement without a block ends
with one. -/
def render (n : Node) (body : Text) (semicolon : Bool) : Text :=
  let close : Text := if semicolon then ";" else []
  match n.content with
  | .root => body ++ n.raws.after
  | .declaration d =>
    let flag : Text := if !d.important then [] else if n.raws.important.isEmpty then " !important" else n.raws.important
    n.raws.before ++ d.prop ++ n.raws.between ++ d.value ++ flag ++ close
  | .rule s => n.raws.before ++ s ++ n.raws.between ++ '{' :: body ++ n.raws.after ++ ['}']
  | .atRule r =>
    n.raws.before ++ '@' :: r.name ++ n.raws.afterName ++ r.params ++ n.raws.between ++
      (if r.hasBlock then '{' :: body ++ n.raws.after ++ ['}'] else close)
  | .comment t => n.raws.before ++ "/*" ++ t ++ "*/"

end Node

end VendorCss
