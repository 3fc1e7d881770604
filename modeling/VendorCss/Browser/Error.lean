import VendorCss.Text

/-!
# Errors of browser data and queries

Each constructor is a cause; `message` gives its wording.
-/

namespace VendorCss

/-- Why agent data or a query was refused. -/
inductive BrowserError
  | unknownBrowser (name : Text)
  | unknownQuery (query : Text)
  /-- A query by usage share; there is no usage data. -/
  | usageQuery (query : Text)
  | unknownVersion (browser version : Text)
  /-- A range of versions of an agent that is not two counts in order. -/
  | badRange (range agent : Text)
  /-- The document is not an agents table. -/
  | notAgents
  deriving DecidableEq, Repr

/-- A text between backticks. -/
def quoted (t : Text) : Text := '\x60' :: t ++ ['\x60']

def BrowserError.message : BrowserError → Text
  | .unknownBrowser name => "unknown browser " ++ quoted name
  | .unknownQuery query => "unknown browser query " ++ quoted query
  | .usageQuery query => "usage-based browser query " ++ quoted query ++ " is not supported without usage data"
  | .unknownVersion browser version => "unknown version " ++ quoted version ++ " of browser " ++ quoted browser
  | .badRange range agent => "malformed agents data: bad version range " ++ quoted range ++ " for " ++ agent
  | .notAgents => "malformed agents JSON"

end VendorCss
