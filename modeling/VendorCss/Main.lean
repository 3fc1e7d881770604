import VendorCss.CommandLine.Run

/-!
# The command

The command runs on the machine: it reads files and the standard input as UTF-8, and writes files, the standard output
and the standard error.
-/

namespace VendorCss

/-- The cause of a failed access. -/
def accessCause (e : IO.Error) : Text :=
  match e with
  | .noFileOrDirectory .. => "No such file or directory (os error 2)"
  | .permissionDenied .. => "Permission denied (os error 13)"
  | .inappropriateType _ code _ =>
    if code = 21 then "Is a directory (os error 21)" else "Not a directory (os error 20)"
  | .invalidArgument _ code _ => if code = 36 || -code = 36 then "File name too long (os error 36)" else toString e
  | _ => toString e

/-- Bytes as text. -/
def decodeBytes (bytes : ByteArray) : Except Text Text :=
  match String.fromUTF8? bytes with
  | some s => .ok s.toList
  | none => .error "stream did not contain valid UTF-8"

/-- An access whose failure is told by its cause. -/
def accessed (act : IO α) : IO (Except Text α) :=
  try pure (.ok (← act)) catch e => pure (.error (accessCause e))

/-- The machine as a host. -/
def machine : Host IO where
  load path := do pure ((← accessed (IO.FS.readBinFile (String.ofList path))).bind decodeBytes)
  loadInput := do pure ((← accessed (do (← IO.getStdin).readToEnd)).map String.toList)
  store path text := accessed (IO.FS.writeFile (String.ofList path) (String.ofList text))
  print text := IO.print (String.ofList text)
  report text := IO.eprint (String.ofList text)

end VendorCss

/-- Runs the command on the machine. -/
def main (arguments : List String) : IO UInt32 := do
  let gridWord := (← IO.getEnv "AUTOPREFIXER_GRID").map String.toList
  let well ← VendorCss.runCommand VendorCss.machine gridWord (arguments.map String.toList)
  pure (if well then 0 else 1)
