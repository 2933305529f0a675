import CoolLang.Program.Command

/-!
# The program `cool`
-/

namespace CoolLang

/-- The message of the system for a file that cannot be read. -/
def systemMessage : IO.Error → String
  | .noFileOrDirectory _ code details | .permissionDenied _ code details
  | .inappropriateType _ code details | .invalidArgument _ code details
  | .resourceExhausted _ code details => s!"{details} (os error {code})"
  | e => toString e

def readText (path : String) : IO (Except String String) := do
  try
    match String.fromUTF8? (← IO.FS.readBinFile path) with
    | some text => return .ok text
    | none => return .error "stream did not contain valid UTF-8"
  catch e => return .error (systemMessage e)

/-- The variables that settings are read from. -/
def readSettings : IO (String → Option String) := do
  let names := ["COOL_MAX_CALL_DEPTH", "COOL_MAX_CONSTRUCTION_DEPTH", "COOL_STACK_SIZE"]
  let values ← names.mapM fun name => return (name, ← IO.getEnv name)
  return fun name => (values.lookup name).join

end CoolLang

open CoolLang in
def main (arguments : List String) : IO UInt32 := do
  let text ← match arguments with
    | [path] => readText path
    | _ => pure (.error "")
  let lookup ← readSettings
  let input ← if text.isOk then (← IO.getStdin).readBinToEnd else pure .empty
  match Command.execute arguments (fun _ => text) lookup input.toList with
  | some r =>
    (← IO.getStdout).putStr r.stdout
    (← IO.getStderr).putStr r.stderr
    return r.code.toUInt32
  | none =>
    (← IO.getStderr).putStr "error: the run was too long\n"
    return 1
