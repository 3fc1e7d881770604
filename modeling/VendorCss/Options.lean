import VendorCss.Browser.Error
import VendorCss.Feature.Table
import VendorCss.Json.Decode

/-!
# Options

The options say which browsers a stylesheet is for and what is done with it. As JSON they are an object whose fields are
all optional and all known, or an array of the fields in the order of the structure. Options are valid when something is
to be done and some query is given.
-/

namespace VendorCss

/-- The drafts of flexbox that are written. -/
inductive FlexboxMode
  /-- Every draft, the `box-*` names of 2009 included. -/
  | all
  /-- All drafts but that of 2009. -/
  | no2009
  /-- Flexbox is left alone. -/
  | off
  deriving DecidableEq, Repr, Inhabited

/-- How grids are written for browsers with the first draft of grid. -/
inductive GridMode
  | off
  /-- Only what has an explicit place. -/
  | noAutoplace
  /-- Also children without an explicit place. -/
  | autoplace
  deriving DecidableEq, Repr, Inhabited

/-- Everything that shapes a plan and its use. -/
structure Options where
  /-- The queries that select the browsers. -/
  browsers : List Text := ["defaults"]
  flexbox : FlexboxMode := .all
  grid : GridMode := .off
  /-- The conditions of `@supports` are updated. -/
  supports : Bool := true
  /-- The prefixed copies of a declaration are indented so that their values line up. -/
  cascade : Bool := true
  /-- Missing prefixes are added. -/
  add : Bool := true
  /-- Outdated prefixes are removed. -/
  remove : Bool := true
  deriving DecidableEq, Repr, Inhabited

/-- Why JSON is no options value. -/
inductive OptionsError
  | unknownFlexbox (keyword : Text)
  | unknownGrid (keyword : Text)
  /-- A wrong type, an unknown field, or a field too many. -/
  | shape
  deriving DecidableEq, Repr

/-- Why options cannot be used. -/
inductive ConfigError
  | bothPassesOff
  | noQueries
  deriving DecidableEq, Repr

/-- Why a plan or a processed stylesheet could not be had. -/
inductive PrefixerError
  | browser (e : BrowserError)
  | capability (e : CapabilityError)
  | config (e : ConfigError)
  deriving DecidableEq, Repr

def OptionsError.message : OptionsError → Text
  | .unknownFlexbox keyword => "unknown flexbox mode " ++ quoted keyword
  | .unknownGrid keyword => "unknown grid mode " ++ quoted keyword
  | .shape => "malformed options"

def ConfigError.message : ConfigError → Text
  | .bothPassesOff => "invalid options: " ++ quoted "add" ++ " and " ++ quoted "remove" ++ " are both disabled"
  | .noQueries => "invalid options: no browser queries given"

def PrefixerError.message : PrefixerError → Text
  | .browser e => e.message
  | .capability e => e.message
  | .config e => e.message

namespace FlexboxMode

def ofJson : Json → Except OptionsError FlexboxMode
  | .bool true => .ok .all
  | .bool false => .ok .off
  | .string t => if t = "no-2009" then .ok .no2009 else .error (.unknownFlexbox t)
  | _ => .error .shape

def toJson : FlexboxMode → Json
  | .all => .bool true
  | .no2009 => .string "no-2009"
  | .off => .bool false

end FlexboxMode

namespace GridMode

/-- Grids are written at all. -/
def isEnabled : GridMode → Bool
  | .off => false
  | .noAutoplace | .autoplace => true

/-- The mode that a word in a control comment stands for. -/
def ofKeyword? (t : Text) : Option GridMode :=
  if t = "autoplace" then some .autoplace
  else if t = "no-autoplace" || t = "on" then some .noAutoplace
  else if t = "off" then some .off
  else none

def ofJson : Json → Except OptionsError GridMode
  | .bool true => .ok .noAutoplace
  | .bool false => .ok .off
  | .string t =>
    if t = "autoplace" then .ok .autoplace
    else if t = "no-autoplace" then .ok .noAutoplace
    else .error (.unknownGrid t)
  | _ => .error .shape

def toJson : GridMode → Json
  | .off => .bool false
  | .noAutoplace => .string "no-autoplace"
  | .autoplace => .string "autoplace"

end GridMode

namespace Options

/-- The names of the fields, in the order of the structure. -/
def fieldNames : List Text := ["browsers", "flexbox", "grid", "supports", "cascade", "add", "remove"]

/-- The value of a field that has to decode. -/
def decoded (x : Option α) : Except OptionsError α :=
  match x with
  | some x => .ok x
  | none => .error .shape

/-- The options with one field read. -/
def readField (o : Options) (name : Text) (j : Json) : Except OptionsError Options := do
  if name = "browsers" then pure { o with browsers := ← decoded j.texts? }
  else if name = "flexbox" then pure { o with flexbox := ← FlexboxMode.ofJson j }
  else if name = "grid" then pure { o with grid := ← GridMode.ofJson j }
  else if name = "supports" then pure { o with supports := ← decoded j.bool? }
  else if name = "cascade" then pure { o with cascade := ← decoded j.bool? }
  else if name = "add" then pure { o with add := ← decoded j.bool? }
  else if name = "remove" then pure { o with remove := ← decoded j.bool? }
  else throw .shape

/-- The options that fields, read one after the other, describe. -/
def ofFields (fields : List (Text × Json)) : Except OptionsError Options :=
  fields.foldlM (fun o (name, j) => o.readField name j) {}

/-- The options that JSON describes. The members of an object, no two of one name, are read in the order of their names;
the first fault counts. -/
def ofJson : Json → Except OptionsError Options
  | .object ms => ofFields (ms.mergeSort fun p q => Text.notAfter p.1 q.1)
  | .array es => do
    let o ← ofFields (fieldNames.zip es)
    if es.length ≤ fieldNames.length then pure o else throw .shape
  | _ => .error .shape

/-- Something is to be done, for some browsers. -/
def validate (o : Options) : Except ConfigError Unit :=
  if !o.add && !o.remove then .error .bothPassesOff
  else if o.browsers.all fun q => q.trim.isEmpty then .error .noQueries
  else .ok ()

/-- The complete options, members in the order of their names. -/
def toJson (o : Options) : Json :=
  .object
    [("add", .bool o.add), ("browsers", .ofTexts o.browsers), ("cascade", .bool o.cascade),
      ("flexbox", o.flexbox.toJson), ("grid", o.grid.toJson), ("remove", .bool o.remove),
      ("supports", .bool o.supports)]

end Options

end VendorCss
