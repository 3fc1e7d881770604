import VendorCss.Browser.Agent

/-!
# Browser queries

A query selects versions by name and by the order of release:

* `defaults`, which is `last 2 versions`;
* `last N versions` and `last N BROWSER versions`;
* `BROWSER >= V`, and the same with `>`, `<=` and `<`;
* `BROWSER V`, `BROWSER V1-V2` and `BROWSER all`;
* `not QUERY`, which takes away what earlier queries selected.

Queries are separated by commas or by the word `or`, and ASCII case does not matter. `resolve` gives the selection in
the order of targets, each once.
-/

namespace VendorCss

namespace Query

/-- Short names that queries may use, and the agents they stand for. -/
def aliases : List (Text × Text) :=
  [("fx", "firefox"), ("ff", "firefox"), ("ios", "ios_saf"), ("explorer", "ie"), ("blackberry", "bb"),
   ("explorermobile", "ie_mob"), ("operamini", "op_mini"), ("operamobile", "op_mob"), ("chromeandroid", "and_chr"),
   ("firefoxandroid", "and_ff"), ("ucandroid", "and_uc"), ("qqandroid", "and_qq")]

/-- The query that `defaults` stands for. -/
def default : Text := "last 2 versions"

/-- A bound on versions. -/
inductive Comparison
  | greater | greaterOrEqual | less | lessOrEqual
  deriving DecidableEq, Repr

/-- A number lies on the right side of a bound. -/
def Comparison.holds : Comparison → (number bound : Float) → Bool
  | .greater, x, y => y < x
  | .greaterOrEqual, x, y => y ≤ x
  | .less, x, y => x < y
  | .lessOrEqual, x, y => x ≤ y

/-- The comparison that a sign stands for. -/
def Comparison.ofSign? (sign : Text) : Option Comparison :=
  if sign = ">=" then some .greaterOrEqual
  else if sign = ">" then some .greater
  else if sign = "<=" then some .lessOrEqual
  else if sign = "<" then some .less
  else none

/-- The agent with a short name, an alias or a shown name. -/
def findAgent (table : AgentTable) (name : Text) : Except BrowserError Agent :=
  let key := ((aliases.find? fun (a, _) => a == name).map Prod.snd).getD name
  match (table.get? key).or (table.find? fun a => Text.sameIgnoringAsciiCase a.browser name) with
  | some a => .ok a
  | none => .error (.unknownBrowser name)

/-- A number that some versions have and that satisfies a test. -/
def versionsWhere (a : Agent) (test : Float → Bool) : List Target :=
  a.targets (a.versions.filter fun v => (versionNumber? v).any test)

/-- The released version that a text names: itself, a part of a range of versions, or an equal number. -/
def exactVersion? (a : Agent) (version : Text) : Option Text :=
  (a.versions.find? (· == version)).or <|
    (a.versions.find? fun known => (Text.pieces '-' known).contains version).or <|
      a.versions.find? fun known =>
        !known.contains "-" && !version.contains "-" &&
          match versionNumber? known, versionNumber? version with
          | some x, some y => x == y
          | _, _ => false

/-- `all`, a version, or a range of versions of a browser. -/
def versionQuery (a : Agent) (version query : Text) : Except BrowserError (List Target) :=
  if version = "all" then .ok (a.targets a.versions)
  else
    match exactVersion? a version with
    | some known => .ok (a.targets [known])
    | none =>
      match Text.splitFirst "-" version with
      | some (low, high) =>
        match versionNumber? low, versionNumber? high with
        | some low, some high => .ok (versionsWhere a fun x => low ≤ x && x ≤ high)
        | _, _ => .error (.unknownQuery query)
      | none => .error (.unknownVersion a.name version)

/-- A query that starts with the name of a browser. -/
def browserQuery (table : AgentTable) (words : List Text) (query : Text) : Except BrowserError (List Target) :=
  match words with
  | [] => .error (.unknownQuery query)
  | name :: rest => do
    let a ← findAgent table name
    match rest with
    | [version] => versionQuery a version query
    | [sign, version] =>
      match Comparison.ofSign? sign, versionNumber? version with
      | some c, some bound => pure (versionsWhere a fun x => c.holds x bound)
      | _, _ => throw (.unknownQuery query)
    | _ => throw (.unknownQuery query)

/-- The word for versions. -/
def isVersions (word : Text) : Bool := word = "versions" || word = "version"

/-- A query that starts with `last`, from its second word on. -/
def lastQuery (table : AgentTable) (words : List Text) (query : Text) : Except BrowserError (List Target) :=
  match words with
  | [count, word] =>
    match isVersions word, Decimal.nat64? count with
    | true, some n => .ok (table.flatMap fun a => a.targets (a.last n))
    | _, _ => .error (.unknownQuery query)
  | [count, browser, word] =>
    match isVersions word, Decimal.nat64? count with
    | true, some n => (findAgent table browser).map fun a => a.targets (a.last n)
    | _, _ => .error (.unknownQuery query)
  | _ => .error (.unknownQuery query)

/-- The query with spaces around its comparison signs. -/
def spaceSigns : Text → Text
  | [] => []
  | c :: '=' :: t =>
    if c = '>' || c = '<' then ' ' :: c :: '=' :: ' ' :: spaceSigns t else c :: spaceSigns ('=' :: t)
  | c :: t => if c = '>' || c = '<' then ' ' :: c :: ' ' :: spaceSigns t else c :: spaceSigns t

/-- The versions that a query without `not` selects; `defaults` has been replaced. -/
def resolvePlain (table : AgentTable) (query : Text) : Except BrowserError (List Target) :=
  if query.contains "%" || query.head? = some '>' || query.head? = some '<' then .error (.usageQuery query)
  else
    match Text.words (spaceSigns query) with
    | first :: rest =>
      if first = "last" then lastQuery table rest query else browserQuery table (first :: rest) query
    | [] => browserQuery table [] query

/-- The versions that a query without `not` selects. -/
def resolveOne (table : AgentTable) (query : Text) : Except BrowserError (List Target) :=
  resolvePlain table (if query = "defaults" then default else query)

/-- The single queries of a list of texts, in order. -/
def parts (queries : List Text) : List Text :=
  let cut := queries.flatMap fun q => (Text.pieces ',' q.lowercaseAscii).flatMap (Text.splitAt " or ")
  (cut.map Text.trim).filter fun p => !p.isEmpty

/-- The selection after one more query: its versions are added, or with `not` taken away. -/
def applyPart (table : AgentTable) (selected : List Target) (part : Text) : Except BrowserError (List Target) :=
  match Text.dropStart? "not " part with
  | some negated => (resolveOne table negated.trim).map fun ts => selected.filter fun t => !ts.contains t
  | none => (resolveOne table part).map fun ts => selected ++ ts.filter fun t => !selected.contains t

/-- The selection of a list of queries, in the order of targets and each once. -/
def resolve (table : AgentTable) (queries : List Text) : Except BrowserError (List Target) :=
  ((parts queries).foldlM (applyPart table) []).map Target.sort

end Query

end VendorCss
