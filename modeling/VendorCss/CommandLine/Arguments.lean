import VendorCss.Json.Limits
import VendorCss.Json.Reader
import VendorCss.Options

/-!
# Arguments

The arguments of the command are flags, some of which take the next argument as their value, and at most one input file.
Of a flag that is given twice the later one counts, while queries add up.

The options of a run come from a config file first, then from the flags, and the treatment of grids at last from the
environment, where nothing else sets it.
-/

namespace VendorCss

/-- What the arguments of the command say. -/
structure Arguments where
  /-- The file to read. -/
  input : Option Text := none
  /-- The file to write. -/
  output : Option Text := none
  /-- The file with options. -/
  config : Option Text := none
  browsers : List Text := []
  grid : Option GridMode := none
  flexbox : Option FlexboxMode := none
  supports : Option Bool := none
  cascade : Option Bool := none
  add : Option Bool := none
  remove : Option Bool := none
  info : Bool := false
  json : Bool := false
  help : Bool := false
  deriving DecidableEq, Repr, Inhabited

/-- Why arguments were refused. -/
inductive ArgumentError
  | missingValue (flag : Text)
  | unknownFlexbox (keyword : Text)
  | unknownGrid (keyword : Text)
  | unknownOption (flag : Text)
  | secondInput
  deriving DecidableEq, Repr

def ArgumentError.message : ArgumentError → Text
  | .missingValue flag => flag ++ " needs a value"
  | .unknownFlexbox keyword => "unknown flexbox mode " ++ quoted keyword
  | .unknownGrid keyword => "unknown grid mode " ++ quoted keyword
  | .unknownOption flag => "unknown option " ++ quoted flag
  | .secondInput => "only one input file can be given"

/-- The flexbox mode that a word on the command line stands for. -/
def FlexboxMode.ofKeyword? (t : Text) : Option FlexboxMode :=
  if t = "on" || t = "true" then some .all
  else if t = "off" || t = "false" then some .off
  else if t = "no-2009" then some .no2009
  else none

namespace Arguments

/-! ## Reading -/

/-- A flag that takes a value. -/
inductive ValueFlag
  | browsers | config | output | grid | flexbox
  deriving DecidableEq, Repr

/-- The flag with a value that an argument is. -/
def valueFlag? (argument : Text) : Option ValueFlag :=
  if argument = "-b" || argument = "--browsers" then some .browsers
  else if argument = "-c" || argument = "--config" then some .config
  else if argument = "-o" || argument = "--output" then some .output
  else if argument = "--grid" then some .grid
  else if argument = "--flexbox" then some .flexbox
  else none

/-- The arguments after a flag with its value. -/
def setValue (a : Arguments) (value : Text) : ValueFlag → Except ArgumentError Arguments
  | .browsers => .ok { a with browsers := a.browsers ++ [value] }
  | .config => .ok { a with config := some value }
  | .output => .ok { a with output := some value }
  | .grid =>
    match GridMode.ofKeyword? value with
    | some mode => .ok { a with grid := some mode }
    | none => .error (.unknownGrid value)
  | .flexbox =>
    match FlexboxMode.ofKeyword? value with
    | some mode => .ok { a with flexbox := some mode }
    | none => .error (.unknownFlexbox value)

/-- The arguments after one that takes no value: a flag, or the input file. -/
def setPlain (a : Arguments) (argument : Text) : Except ArgumentError Arguments :=
  if argument = "--no-supports" then .ok { a with supports := some false }
  else if argument = "--no-cascade" then .ok { a with cascade := some false }
  else if argument = "--no-add" then .ok { a with add := some false }
  else if argument = "--no-remove" then .ok { a with remove := some false }
  else if argument = "--info" then .ok { a with info := true }
  else if argument = "--json" then .ok { a with json := true }
  else if argument = "-h" || argument = "--help" then .ok { a with help := true }
  else if argument.head? = some '-' && argument ≠ "-" then .error (.unknownOption argument)
  else if a.input.isSome then .error .secondInput
  else .ok { a with input := some argument }

/-- Arguments with more of them read. -/
def readMore : Arguments → List Text → Except ArgumentError Arguments
  | a, [] => .ok a
  | a, [argument] =>
    match valueFlag? argument with
    | some _ => .error (.missingValue argument)
    | none => a.setPlain argument
  | a, argument :: value :: rest =>
    match valueFlag? argument with
    | some flag =>
      match a.setValue value flag with
      | .ok a => readMore a rest
      | .error e => .error e
    | none =>
      match a.setPlain argument with
      | .ok a => readMore a (value :: rest)
      | .error e => .error e

/-- The arguments of the command, its name left out. -/
def parse (arguments : List Text) : Except ArgumentError Arguments := readMore {} arguments

end Arguments

/-! ## Config files -/

/-- Options from a config file, and whether it sets the treatment of grids. -/
structure Config where
  options : Options := {}
  setsGrid : Bool := false
  deriving DecidableEq, Repr, Inhabited

/-- Why a config file was refused. -/
inductive ConfigFileError
  /-- The file is not JSON. -/
  | malformed
  /-- The file does not describe options. -/
  | invalid (e : OptionsError)
  deriving DecidableEq, Repr

namespace Config

/-- The config that the text of a file describes. -/
def ofText (t : Text) : Except ConfigFileError Config :=
  match (Json.parse? t).filter Json.isModest with
  | none => .error .malformed
  | some j =>
    match Options.ofJson j.collapse with
    | .ok options => .ok { options, setsGrid := (j.get? "grid").isSome }
    | .error e => .error (.invalid e)

end Config

namespace Arguments

/-- The options of a run with a config, where `gridWord` is what the environment says about grids. A word there counts
only if it stands for a treatment that writes grids. -/
def options (a : Arguments) (config : Config) (gridWord : Option Text) : Options :=
  let o := config.options
  let fromVariable := (gridWord.bind GridMode.ofKeyword?).filter GridMode.isEnabled
  { browsers := if a.browsers.isEmpty then o.browsers else a.browsers,
    flexbox := a.flexbox.getD o.flexbox,
    grid := a.grid.getD (if config.setsGrid then o.grid else fromVariable.getD o.grid),
    supports := a.supports.getD o.supports,
    cascade := a.cascade.getD o.cascade,
    add := a.add.getD o.add,
    remove := a.remove.getD o.remove }

end Arguments

end VendorCss
