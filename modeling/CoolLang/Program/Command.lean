import CoolLang.Diagnostic.Excerpt
import CoolLang.Program.Run

/-!
# The command line

What the command does, apart from the system it runs on: that supplies the text of files, the
variables of the environment and the input, and shows what is written.
-/

namespace CoolLang

/-- What a command writes and the code it ends with. -/
structure CommandResult where
  stdout : String
  stderr : String
  code : UInt8
deriving DecidableEq

namespace Command

/-- The last part of a path, or the path itself if it does not end in a name. -/
def fileName (path : String) : String :=
  match ((path.splitOn "/").filter fun part => part ≠ "" ∧ part ≠ ".").getLast? with
  | none | some ".." => path
  | some name => name

def usage : CommandResult := ⟨"", "usage: cool <file.cl>\n", 2⟩

/-- The complaint that a file cannot be read. -/
def unreadable (path reason : String) : CommandResult :=
  ⟨"", s!"error: failed to read {path}: {reason}\n", 1⟩

/-- What is shown of a run. -/
def report (source : String) (r : RunResult) : CommandResult where
  stdout := r.output
  stderr := String.join (r.diagnostics.map (·.render source))
  code := if r.succeeded then 0 else 1

/-- Runs the program of a file; `lookup` gives the values of variables. -/
def runFile (path source : String) (lookup : String → Option String) (input : Input) :
    Option CommandResult :=
  let settings := (Settings.ofEnvironment lookup).withSourceName (fileName path)
  (run source settings input).map (report source)

/-- The command with its arguments; `read` gives the text of a file or why there is none. It has no
result if the run used up its fuel. -/
def execute (arguments : List String) (read : String → Except String String)
    (lookup : String → Option String) (input : Input) : Option CommandResult :=
  match arguments with
  | [path] =>
    match read path with
    | .ok source => runFile path source lookup input
    | .error reason => some (unreadable path reason)
  | _ => some usage

end Command

end CoolLang
