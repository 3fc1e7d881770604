import VendorCss.Options
import VendorCss.Text.Case

/-!
# Control comments

An author steers the prefixer by comments. `autoprefixer: off` and `autoprefixer: on` switch it for the block that they
stand in, `autoprefixer: ignore next` for the next node, and `autoprefixer grid: autoplace` (or `no-autoplace`, `on`,
`off`) chooses the treatment of grids. Such a phrase may stand anywhere in a comment, in letters of any case.
-/

namespace VendorCss

/-- A part of a phrase. -/
inductive PhrasePart
  | word (t : Text)
  /-- Blanks, which may be missing. -/
  | blanks
  /-- One blank or more. -/
  | gap

namespace PhrasePart

/-- What follows a phrase in a text that starts with it; letters match in any case. -/
def after? : (phrase : List PhrasePart) → Text → Option Text
  | [], t => some t
  | word w :: phrase, t => (Text.dropStartFolded? w t).bind (after? phrase)
  | blanks :: phrase, t => after? phrase t.trimStart
  | gap :: phrase, t => if t.head?.any isBlank then after? phrase t.trimStart else none

/-- The phrase stands somewhere in a text. -/
def standsIn (phrase : List PhrasePart) : Text → Bool
  | [] => (after? phrase []).isSome
  | c :: t => (after? phrase (c :: t)).isSome || standsIn phrase t

end PhrasePart

namespace Control

open PhrasePart

/-- The comment switches the prefixer off for the next node. -/
def ignoresNext (comment : Text) : Bool :=
  standsIn [word "autoprefixer:", blanks, word "ignore", gap, word "next"] comment

/-- The comment switches the prefixer on or off. -/
def isSwitch (comment : Text) : Bool :=
  ["off", "on"].any fun state => standsIn [word "autoprefixer:", blanks, word state] comment

/-- A switch that holds an `on` anywhere switches on. -/
def switchesOn (comment : Text) : Bool := Text.containsFolded comment "on"

/-- The comment chooses a treatment of grids. -/
def isGridSwitch (comment : Text) : Bool :=
  ["on", "off", "autoplace", "no-autoplace"].any fun mode =>
    standsIn [word "autoprefixer", blanks, word "grid:", blanks, word mode] comment

/-- The treatment that a comment chooses. -/
def gridModeOf (comment : Text) : GridMode :=
  if standsIn [word ":", blanks, word "autoplace"] comment then .autoplace
  else if Text.containsFolded comment "no-autoplace" || switchesOn comment then .noAutoplace
  else .off

end Control

end VendorCss
