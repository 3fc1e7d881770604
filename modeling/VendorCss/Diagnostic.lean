import VendorCss.Css.Sheet
import VendorCss.Json

/-!
# Diagnostics

A diagnostic tells an author about something in a stylesheet that browsers will not understand as it was meant. It has a
message, the position of the node concerned, and sometimes the word in it that matters.
-/

namespace VendorCss

/-- A warning about a node. -/
structure Diagnostic where
  message : Text
  /-- The word inside the node, when there is one. -/
  word : Option Text := none
  /-- Where the node started; a node that the library made has no position. -/
  position : Option Position := none
  deriving DecidableEq, Repr, Inhabited

namespace Diagnostic

/-- `line:column: message`, or the message alone. -/
def render (d : Diagnostic) : Text :=
  match d.position with
  | some p => p.render ++ ": " ++ d.message
  | none => d.message

/-- The diagnostic as a JSON record. -/
def toJson (d : Diagnostic) : Json :=
  .object
    [("message", .string d.message), ("word", .ofOption (d.word.map .string)),
      ("line", .ofOption (d.position.map fun p => .ofNat p.line)),
      ("column", .ofOption (d.position.map fun p => .ofNat p.column))]

/-- Diagnostics as a JSON array. -/
def listJson (ds : List Diagnostic) : Json := .array (ds.map toJson)

end Diagnostic

end VendorCss
