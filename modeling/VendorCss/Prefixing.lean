import VendorCss.Pass.Addition
import VendorCss.Pass.Removal

/-!
# Prefixing stylesheets

A stylesheet is processed in one pass: outdated prefixes are taken away first, then missing ones are added, each as far
as the options ask for it. What was found out about nodes while removing still stands while adding.
-/

namespace VendorCss

/-- The outcome of processing. -/
structure Processed where
  sheet : Sheet
  diagnostics : List Diagnostic
  deriving Inhabited

namespace Processed

/-- The processed stylesheet as text. -/
def css (p : Processed) : Text := p.sheet.render

end Processed

namespace Prefixer

/-- What is said when none of the selected browsers needs a prefix. -/
def nothingToDo : Text :=
  "Autoprefixer target browsers do not need any prefixes. You do not need Autoprefixer anymore. " ++
    "Check your browser queries to be sure that your targets are set up correctly."

/-- A pass that begins. -/
def start (x : Prefixer) (sheet : Sheet) : Pass :=
  let p : Pass := { rules := x.rules, sheet }
  if x.rules.needNothing then p.warn Sheet.rootId nothingToDo else p

/-- A pass that went over a sheet. -/
def run (x : Prefixer) (sheet : Sheet) : Pass :=
  let p := x.start sheet
  let p := if x.rules.options.remove then p.removeOutdated else p
  if x.rules.options.add then p.addMissing x else p

/-- A sheet processed. -/
def process (x : Prefixer) (sheet : Sheet) : Processed :=
  let p := x.run sheet
  ⟨p.sheet, p.diagnostics⟩

/-- A stylesheet read and processed. -/
def processText (x : Prefixer) (css : Text) : Processed := x.process (Sheet.parse css)

end Prefixer

end VendorCss
