import VendorCss.CommandLine.Arguments
import VendorCss.Engine

/-!
# Runs of the command

A run reads its arguments, its config and a stylesheet, and writes the prefixed stylesheet with what there is to say
about it; or it prints the report. What it reads and writes goes through a `Host`, so the same run can be carried out by
a machine and by a model of one.

A run fails with an error that names what could not be done and, for most errors, the cause.
-/

namespace VendorCss

/-- Where a run reads and writes. What cannot be read or written is told by the text of the cause. -/
structure Host (m : Type → Type) where
  load : (path : Text) → m (Except Text Text)
  loadInput : m (Except Text Text)
  store : (path text : Text) → m (Except Text Unit)
  /-- Writes to the output. -/
  print : Text → m Unit
  /-- Writes to where errors and diagnostics go. -/
  report : Text → m Unit

/-- Why a run failed. -/
inductive RunError
  | arguments (e : ArgumentError)
  | configUnread (path cause : Text)
  | configMalformed (path : Text)
  | configInvalid (path : Text) (e : OptionsError)
  | dataUnread (e : PrefixerError)
  | fileUnread (path cause : Text)
  | inputUnread (cause : Text)
  | notPrefixed (name : Text) (e : PrefixerError)
  | notReported (e : PrefixerError)
  | fileUnwritten (path cause : Text)
  deriving DecidableEq, Repr

namespace RunError

/-- What could not be done. -/
def message : RunError → Text
  | arguments e => e.message
  | configUnread path _ => "failed to read config " ++ path
  | configMalformed path => "failed to parse config " ++ path
  | configInvalid path _ => "invalid options in " ++ path
  | dataUnread _ => "failed to load the bundled browser data"
  | fileUnread path _ => "failed to read " ++ path
  | inputUnread _ => "failed to read stdin"
  | notPrefixed name _ => "failed to prefix " ++ name
  | notReported e => e.message
  | fileUnwritten path _ => "failed to write " ++ path

/-- Why it could not be done, where the message does not say so. -/
def cause? : RunError → Option Text
  | arguments _ | notReported _ => none
  | configMalformed _ => some "malformed JSON"
  | configInvalid _ e => some e.message
  | configUnread _ cause | fileUnread _ cause | inputUnread cause | fileUnwritten _ cause => some cause
  | dataUnread e | notPrefixed _ e => some e.message

/-- Lines after the first indented by four spaces. -/
def indented (t : Text) : Text := Text.join "\n    " (Text.pieces '\n' t)

/-- The error as it is shown. -/
def render (e : RunError) : Text :=
  "Error: " ++ e.message ++
    match e.cause? with
    | some cause => "\n\nCaused by:\n    " ++ indented cause ++ "\n"
    | none => "\n"

end RunError

/-- How the command is used. -/
def usage : Text :=
  "Usage: css-prefixer [OPTIONS] [INPUT]\n\n" ++
  "Reads CSS from INPUT (or stdin when INPUT is missing or `-`) and writes the\n" ++
  "prefixed stylesheet to stdout.\n\n" ++
  "Options:\n" ++
  "  -b, --browsers <QUERY>   Browser query, may be repeated\n" ++
  "  -c, --config <FILE>      JSON file with processing options\n" ++
  "  -o, --output <FILE>      Write the result to FILE\n" ++
  "      --grid <MODE>        off, no-autoplace or autoplace\n" ++
  "      --flexbox <MODE>     on, off or no-2009\n" ++
  "      --no-supports        Leave @supports conditions alone\n" ++
  "      --no-cascade         Do not align prefixed declarations\n" ++
  "      --no-add             Only remove outdated prefixes\n" ++
  "      --no-remove          Keep outdated prefixes\n" ++
  "      --info               Print what the selected browsers need\n" ++
  "      --json               With --info, print the report as JSON\n" ++
  "  -h, --help               Print this help\n"

namespace Arguments

variable {m : Type → Type} [Monad m]

/-- The config that the arguments name, or none at all. -/
def readConfig (h : Host m) (a : Arguments) : ExceptT RunError m Config := do
  match a.config with
  | none => pure {}
  | some path =>
    match ← h.load path with
    | .error cause => throw (.configUnread path cause)
    | .ok text =>
      match Config.ofText text with
      | .ok config => pure config
      | .error .malformed => throw (.configMalformed path)
      | .error (.invalid e) => throw (.configInvalid path e)

/-- The stylesheet that the arguments name, with its name. -/
def readStylesheet (h : Host m) (a : Arguments) : ExceptT RunError m (Text × Text) := do
  match a.input.filter (· ≠ "-".toList) with
  | some path =>
    match ← h.load path with
    | .ok text => pure (path, text)
    | .error cause => throw (.fileUnread path cause)
  | none =>
    match ← h.loadInput with
    | .ok text => pure ("<stdin>", text)
    | .error cause => throw (.inputUnread cause)

/-- The result written to the file that the arguments name, or to the output. -/
def writeResult (h : Host m) (a : Arguments) (text : Text) : ExceptT RunError m Unit := do
  match a.output with
  | none => h.print text
  | some path =>
    match ← h.store path text with
    | .ok () => pure ()
    | .error cause => throw (.fileUnwritten path cause)

/-- The report printed. -/
def runReport (h : Host m) (a : Arguments) (e : Engine) (o : Options) : ExceptT RunError m Unit := do
  match e.report o with
  | .error e => throw (.notReported e)
  | .ok (report, _) => h.print ((if a.json then report.toJson.pretty else report.render) ++ ['\n'])

/-- Diagnostics about a stylesheet: as JSON on one line, or each on its own line after the name of the stylesheet. -/
def renderDiagnostics (a : Arguments) (name : Text) (ds : List Diagnostic) : Text :=
  if a.json then (Diagnostic.listJson ds).compact ++ ['\n'] else ds.flatMap fun d => name ++ ':' :: d.render ++ ['\n']

/-- The stylesheet prefixed. -/
def runPrefixing (h : Host m) (a : Arguments) (e : Engine) (o : Options) : ExceptT RunError m Unit := do
  let (name, css) ← a.readStylesheet h
  match e.process css o with
  | .error e => throw (.notPrefixed name e)
  | .ok (processed, _) =>
    h.report (a.renderDiagnostics name processed.diagnostics)
    a.writeResult h processed.css

/-- What the arguments ask for, done. -/
def run (h : Host m) (gridWord : Option Text) (a : Arguments) : ExceptT RunError m Unit := do
  if a.help then h.print usage
  else
    let options := a.options (← a.readConfig h) gridWord
    match Engine.bundled with
    | .error e => throw (.dataUnread e)
    | .ok engine => if a.info then a.runReport h engine options else a.runPrefixing h engine options

end Arguments

/-- A run of the command with some arguments, where `gridWord` is what the environment says about grids. The answer is
whether it went well; an error is shown where diagnostics go. -/
def runCommand {m : Type → Type} [Monad m] (h : Host m) (gridWord : Option Text) (arguments : List Text) : m Bool := do
  let outcome ← (match Arguments.parse arguments with
    | .ok a => (a.run h gridWord).run
    | .error e => pure (.error (.arguments e)) : m (Except RunError Unit))
  match outcome with
  | .ok () => pure true
  | .error e => do
    h.report e.render
    pure false

end VendorCss
