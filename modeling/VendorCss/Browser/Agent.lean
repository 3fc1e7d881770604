import VendorCss.Browser.Version
import VendorCss.Browser.Error
import VendorCss.Json.Decode
import VendorCss.Json.Reader

/-!
# Agents

An agent is a browser with its released versions, oldest first, the vendor prefix it understands, and the versions that
understand another one. A table of agents is kept in the order of their short names.

A table is written with ranges: `4..131` stands for the versions from 4 to 131. `AgentTable.ofEntries` writes them out.
-/

namespace VendorCss

/-- An agent as a document lists it, ranges not written out. -/
structure AgentEntry where
  /-- The short name, such as `ios_saf`. -/
  name : Text
  /-- The name shown to people, such as `iOS Safari`. -/
  browser : Text
  /-- The vendor prefix, such as `-webkit-`. -/
  vendor : Text
  /-- Ranges of versions with another vendor prefix. -/
  exceptions : List (Text × Text) := []
  versions : List Text
  deriving Repr, DecidableEq, Inhabited

/-- A browser and its versions. -/
structure Agent where
  name : Text
  browser : Text
  vendor : Text
  /-- Versions with another vendor prefix; the last entry of a version counts. -/
  exceptions : List (Text × Text)
  /-- Released versions, oldest first. -/
  versions : List Text
  deriving Repr, DecidableEq, Inhabited

namespace Agent

/-- The vendor prefix of one version. -/
def vendorOf (a : Agent) (version : Text) : Text :=
  match a.exceptions.reverse.find? fun (v, _) => v == version with
  | some (_, vendor) => vendor
  | none => a.vendor

/-- The exceptions, each version once. -/
def exceptionMap (a : Agent) : List (Text × Text) :=
  (Text.distinct (a.exceptions.map Prod.fst)).map fun v => (v, a.vendorOf v)

/-- The newest versions, newest first. -/
def last (a : Agent) (count : Nat) : List Text := a.versions.reverse.take count

/-- The targets of some of its versions. -/
def targets (a : Agent) (versions : List Text) : List Target := versions.map fun v => ⟨a.name, v⟩

end Agent

/-- The versions that one entry of a version list stands for. -/
def expandRange (agent version : Text) : Except BrowserError (List Text) :=
  match Text.splitFirst ".." version with
  | none => .ok [version]
  | some (low, high) =>
    match Decimal.nat32? low, Decimal.nat32? high with
    | some low, some high =>
      if low ≤ high then .ok ((List.range' low (high + 1 - low)).map fun n => (Nat.repr n).toList)
      else .error (.badRange version agent)
    | _, _ => .error (.badRange version agent)

/-- The versions that the entries of a version list stand for, in order. -/
def expandRanges (agent : Text) : List Text → Except BrowserError (List Text)
  | [] => .ok []
  | v :: vs => do
    let head ← expandRange agent v
    let tail ← expandRanges agent vs
    pure (head ++ tail)

/-- All known agents in the order of their short names. -/
abbrev AgentTable := List Agent

namespace AgentEntry

/-- The agent with its ranges written out. -/
def expand (e : AgentEntry) : Except BrowserError Agent := do
  let versions ← expandRanges e.name e.versions
  let exceptions ← e.exceptions.mapM fun (range, vendor) => do
    pure ((← expandRange e.name range).map (·, vendor))
  pure { name := e.name, browser := e.browser, vendor := e.vendor, exceptions := exceptions.flatten, versions }

/-- Pairs in the order of their keys. -/
def sortByKey (ps : List (Text × α)) : List (Text × α) := ps.mergeSort fun p q => Text.notAfter p.1 q.1

/-- An entry read from a document. -/
def ofJson? (name : Text) (j : Json) : Option AgentEntry := do
  match ← j.fields? ["browser", "prefix", "prefix_exceptions", "versions"] with
  | [browser, vendor, exceptions, versions] =>
    let exceptions ← Json.withDefault [] (fun j => j.entries? fun _ => Json.text?) exceptions
    pure { name, browser := ← Json.required Json.text? browser, vendor := ← Json.required Json.text? vendor,
           exceptions := sortByKey exceptions, versions := ← Json.required Json.texts? versions }
  | _ => none

end AgentEntry

namespace AgentTable

/-- The table of some entries, which stand in the order of their names. -/
def ofEntries (es : List AgentEntry) : Except BrowserError AgentTable := es.mapM AgentEntry.expand

/-- The table that a document describes. -/
def ofJson (j : Json) : Except BrowserError AgentTable :=
  let entries : Option (List AgentEntry) := do
    pure ((AgentEntry.sortByKey (← j.entries? AgentEntry.ofJson?)).map Prod.snd)
  match entries with
  | some es => ofEntries es
  | none => .error .notAgents

/-- The table that the text of a document describes. -/
def ofText (t : Text) : Except BrowserError AgentTable :=
  match Json.parse? t with
  | some j => ofJson j
  | none => .error .notAgents

/-- The agent with a short name. -/
def get? (table : AgentTable) (name : Text) : Option Agent := table.find? fun a => a.name == name

/-- Every vendor prefix that some agent uses, longest first. -/
def vendors (table : AgentTable) : List Text :=
  let all := Text.distinct (table.flatMap fun a => a.vendor :: a.exceptionMap.map Prod.snd)
  all.mergeSort fun s t =>
    t.byteLength < s.byteLength || (t.byteLength == s.byteLength && Text.notAfter s t)

end AgentTable

end VendorCss
