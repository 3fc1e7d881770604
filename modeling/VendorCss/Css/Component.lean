import VendorCss.Css.Token

/-!
# Component values

A declaration value, or the params of an at-rule, is a list of components: words, runs of white space, dividers (`,` `/`
`:`) with the white space around them, quoted strings, comments, and functions with their arguments. A plain pair of
parentheses is a function without a name. A block in square or curly brackets is part of a word.

`ofText` reads a text into components and `render` prints them. What a text leaves open is closed when it is printed.
-/

namespace VendorCss

/-- A component of a value. -/
inductive Component
  | word (text : Text)
  | space (text : Text)
  | div (text before after : Text)
  /-- A quoted string; the text has no quotes. -/
  | string (quote : Char) (text : Text)
  | comment (text : Text)
  /-- A function; `before` and `after` are the white space inside its parentheses. -/
  | function (name before after : Text) (args : List Component)
  deriving Repr, Inhabited

namespace Component

/-- What the component is known by: the word, the divider, the name of the function. -/
def text : Component → Text
  | word t | space t | div t _ _ | string _ t | comment t => t
  | function name _ _ _ => name

def isWord : Component → Bool
  | word _ => true
  | _ => false

def isSpace : Component → Bool
  | space _ => true
  | _ => false

def isFunction : Component → Bool
  | function .. => true
  | _ => false

/-- A divider of any kind. -/
def isAnyDiv : Component → Bool
  | div .. => true
  | _ => false

/-- A divider with this sign. -/
def isDiv (sign : Text) : Component → Bool
  | div t _ _ => t == sign
  | _ => false

/-- The arguments of a function; other components have none. -/
def args : Component → List Component
  | function _ _ _ args => args
  | _ => []

/-- One space. -/
def oneSpace : Component := space " "

/-- A divider with nothing around it. -/
def bareDiv (sign : Text) : Component := div sign [] []

/-! ## Printing -/

mutual

/-- The text of a component. -/
def render : Component → Text
  | word t | space t => t
  | div t before after => before ++ t ++ after
  | string quote t => quote :: t ++ [quote]
  | comment t => "/*" ++ t ++ "*/"
  | function name before after args => name ++ '(' :: before ++ renderAll args ++ after ++ [')']

/-- The text of components one after the other. -/
def renderAll : List Component → Text
  | [] => []
  | c :: cs => render c ++ renderAll cs

end

/-! ## Reading -/

/-- A list of components in reverse, the last one first. -/
abbrev Reversed := List Component

/-- Text of a word: it goes on with a word that stands last. -/
def pushWord (t : Text) : Reversed → Reversed
  | word s :: cs => word (s ++ t) :: cs
  | cs => word t :: cs

/-- White space: it belongs to a divider that stands last, or joins white space. -/
def pushSpace (t : Text) : Reversed → Reversed
  | div s before after :: cs => if after.isEmpty then div s before t :: cs else space t :: div s before after :: cs
  | space s :: cs => space (s ++ t) :: cs
  | cs => space t :: cs

/-- A divider, which takes the white space before it. -/
def pushDiv (sign : Text) : Reversed → Reversed
  | space s :: cs => div sign s [] :: cs
  | cs => div sign [] [] :: cs

/-- The function with these arguments; white space at their ends goes to the parentheses. -/
def ofArgs (name : Text) (args : List Component) : Component :=
  let (before, args) :=
    match args with
    | space s :: cs => (s, cs)
    | cs => ([], cs)
  match args.reverse with
  | space s :: cs => function name before s cs.reverse
  | _ => function name before [] args

/-- The string with the raw text `t`, quotes included. -/
def ofQuoted (t : Text) : Component :=
  match t with
  | quote :: inside => string quote ((Text.dropEnd? [quote] inside).getD inside)
  | [] => string '"' []

/-- The state of the reader between two tokens. -/
structure Reader where
  /-- The components read so far in the innermost function. -/
  items : Reversed := []
  /-- The functions around it, innermost first: the name, and the components before it. -/
  outer : List (Text × Reversed) := []
  /-- The open brackets of a block that is part of a word, innermost first. -/
  block : List Bracket := []

namespace Reader

/-- A token of a block: it belongs to the word, and only the bracket opened last can be closed. -/
def inBlock (r : Reader) (t : Token) : Reader :=
  let block :=
    match t.kind.opens?, t.kind.closes? with
    | some b, _ => b :: r.block
    | none, some b => if r.block.head? = some b then r.block.tail else r.block
    | none, none => r.block
  { r with block, items := pushWord t.text r.items }

/-- The state after one more token. -/
def step (r : Reader) (t : Token) : Reader :=
  if !r.block.isEmpty then r.inBlock t
  else
    match t.kind, r.outer with
    | .blank, _ => { r with items := pushSpace t.text r.items }
    | .comma, _ | .colon, _ | .slash, _ => { r with items := pushDiv t.text r.items }
    | .comment inside, _ => { r with items := comment inside :: r.items }
    | .string, _ => { r with items := ofQuoted t.text :: r.items }
    | .function name, _ => { r with items := [], outer := (name, r.items) :: r.outer }
    | .openBracket .paren, _ => { r with items := [], outer := ([], r.items) :: r.outer }
    | .openBracket b, _ => { r with items := pushWord t.text r.items, block := [b] }
    | .closeBracket .paren, (name, items) :: rest =>
      { r with items := ofArgs name r.items.reverse :: items, outer := rest }
    | _, _ => { r with items := pushWord t.text r.items }

/-- The components when the text ends: what is open is closed. -/
def finish (items : Reversed) : (outer : List (Text × Reversed)) → List Component
  | [] => items.reverse
  | (name, before) :: outer => finish (ofArgs name items.reverse :: before) outer

end Reader

/-- The components of a text. -/
def ofText (t : Text) : List Component :=
  let r := (tokens t).foldl Reader.step {}
  Reader.finish r.items r.outer

/-! ## Walking -/

/-- The component with other arguments; only a function has any. -/
def withArgs (args : List Component) : Component → Component
  | function name before after _ => function name before after args
  | c => c

mutual

/-- Visits a component and then, if the visit says so, its arguments. A visit may change what the component is known by,
not its arguments. -/
def walk {σ : Type} (visit : σ → Component → σ × Component × Bool) (s : σ) : Component → σ × Component
  | function name before after args =>
    let (s, c, descend) := visit s (function name before after args)
    if descend then
      let (s, args) := walkAll visit s args
      (s, c.withArgs args)
    else (s, c)
  | c =>
    let (s, c, _) := visit s c
    (s, c)

/-- Visits components in order, depth first. -/
def walkAll {σ : Type} (visit : σ → Component → σ × Component × Bool) (s : σ) :
    List Component → σ × List Component
  | [] => (s, [])
  | c :: cs =>
    let (s, c) := walk visit s c
    let (s, cs) := walkAll visit s cs
    (s, c :: cs)

end

/-! ## Groups -/

/-- The components between the top-level commas. -/
def commaGroups : List Component → List (List Component)
  | [] => [[]]
  | c :: cs =>
    if c.isDiv "," then [] :: commaGroups cs
    else
      match commaGroups cs with
      | [] => [[c]]
      | g :: gs => (c :: g) :: gs

end Component

end VendorCss
