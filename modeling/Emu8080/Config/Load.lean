/-
# Emu8080.Config.Load -- configurations from texts and files

A configuration is written as a document.  A document with nothing in it, or
with a value that counts as nothing, describes the default system.
-/
import Emu8080.Config.Parse
import Emu8080.Yaml.Value
import Emu8080.Files
import Emu8080.Notice

namespace Emu8080.SystemConfig

set_option autoImplicit false

/-- Read the value of a document as a configuration. -/
def ofDocument (d : Datum) : Except Fault SystemConfig :=
  parse (if d.truthy then d else .map [])

/-- Read a configuration from a text. -/
def ofText (t : Text) : Except Fault SystemConfig := do
  ofDocument (← Yaml.document (.ofText t))

/-- Read a configuration from what a host gives for a text; nothing but a text can be read. -/
def ofDatum (d : Datum) : Except Fault SystemConfig :=
  match d with
  | .str t => ofText t
  | _ => .error .noAttribute

/-- The notice of a file that was read. -/
def fileNotice (path : Text) : Notice :=
  { level := .debug, text := "Loaded configuration from " ++ path }

/-- Read a configuration from a file. -/
def ofFile (files : Files) (name : Datum) : Except Fault (SystemConfig × List Notice) := do
  let (path, octets) ← files.read name
  let d ← Yaml.document (.ofOctets octets)
  return (← ofDocument d, [fileNotice path])

/-- The configuration of an empty document. -/
def default : SystemConfig :=
  { architecture := "8080", flagPolicy := .preserve, trapPolicy := .halt, maxSteps := none
    programs := [], initialState := {} }

/-- A document without a value describes the default system. -/
example : ofDocument .null = .ok default := by rfl

end Emu8080.SystemConfig
