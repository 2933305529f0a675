import CoolLang.Source.Position
import CoolLang.Text.Blank
import CoolLang.Text.Numeral

/-!
# Settings of a run
-/

namespace CoolLang

structure Settings where
  /-- The name of the source in diagnostics. -/
  sourceName : String := unnamedSource
  /-- How many calls of methods written in the program may be nested. -/
  maxCallDepth : Nat := 10000
  /-- How many constructions of objects may be nested. -/
  maxConstructionDepth : Nat := 500
  /-- How many bytes of stack the run asks for. -/
  stackSize : Nat := 512 * 1024 * 1024
deriving DecidableEq

namespace Settings

/-- The limit that a variable sets. A value that is no unsigned 64-bit number sets none. -/
def limit (value? : Option String) (default : Nat) : Nat :=
  (value?.bind fun value => Text.natural64? (Text.trim value.toList)).getD default

/-- The settings that the variables of an environment ask for. -/
def ofEnvironment (lookup : String → Option String) : Settings :=
  let defaults : Settings := {}
  { defaults with
    maxCallDepth := limit (lookup "COOL_MAX_CALL_DEPTH") defaults.maxCallDepth
    maxConstructionDepth :=
      limit (lookup "COOL_MAX_CONSTRUCTION_DEPTH") defaults.maxConstructionDepth
    stackSize := limit (lookup "COOL_STACK_SIZE") defaults.stackSize }

def withSourceName (s : Settings) (name : String) : Settings :=
  { s with sourceName := name }

end Settings

end CoolLang
