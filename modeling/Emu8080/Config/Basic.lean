/-
# Emu8080.Config.Basic -- what describes a system

A `SystemConfig` is the outcome of reading a configuration document: policies
that exist, a positive bound, addresses and register values that are integers.

A host can also describe a system without a document, field by field and
unchecked.  That is a `Blueprint`, whose fields hold whatever they were given;
every configuration is also a blueprint.
-/
import Emu8080.Debugger.Basic

namespace Emu8080

set_option autoImplicit false

/-- How an image is written. -/
inductive ImageFormat
  | binary
  | ihex
deriving DecidableEq, Repr, Inhabited

namespace ImageFormat

def all : List ImageFormat := [.binary, .ihex]

def name : ImageFormat → String
  | .binary => "binary"
  | .ihex => "ihex"

/-- The format of a name; only texts name one. -/
def ofDatum? : Datum → Option ImageFormat
  | .str s => all.find? fun f => Text.ofString f.name == s
  | _ => none

theorem ofDatum?_name (f : ImageFormat) : ofDatum? (.str f.name) = some f := by
  cases f <;> decide

end ImageFormat

/-- An image to place.  Its path is whatever the document gave. -/
structure ProgramImage where
  path : Datum
  address : Int
  format : ImageFormat

/-- The state a system starts from.  Registers are set in the order given. -/
structure InitialState where
  pc : Int := 0
  sp : Int := 0
  registers : List (Reg × Int) := []
  flags : Option Int := none
  interrupts : Bool := false

/-- A configuration that has been read. -/
structure SystemConfig where
  architecture : String
  flagPolicy : FlagPolicy
  trapPolicy : TrapPolicy
  maxSteps : Option Int
  programs : List ProgramImage
  initialState : InitialState

/-- An image as a host describes it. -/
structure ImageSpec where
  path : Datum
  address : Datum := .int 0
  format : Datum := .str "binary"

/-- A starting state as a host describes it; registers go by field names. -/
structure StartSpec where
  pc : Datum := .int 0
  sp : Datum := .int 0
  registers : Datum := .map []
  flags : Datum := .null
  intEnable : Datum := .int 0

/-- A system as a host describes it. -/
structure Blueprint where
  architecture : Datum := .str "8080"
  flagPolicy : Datum := .str "preserve"
  trapPolicy : Datum := .str "halt"
  maxSteps : Datum := .null
  programs : List ImageSpec := []
  start : StartSpec := {}

/-- An integer that may be absent, as a value. -/
def Datum.ofInt? : Option Int → Datum
  | some n => .int n
  | none => .null

def ProgramImage.toSpec (image : ProgramImage) : ImageSpec :=
  { path := image.path, address := .int image.address, format := .str image.format.name }

def InitialState.toSpec (s : InitialState) : StartSpec :=
  { pc := .int s.pc
    sp := .int s.sp
    registers := .map (s.registers.map fun e => (.str e.1.name, .int e.2))
    flags := Datum.ofInt? s.flags
    intEnable := .int (if s.interrupts then 1 else 0) }

/-- A configuration as a blueprint. -/
def SystemConfig.toBlueprint (c : SystemConfig) : Blueprint :=
  { architecture := .str c.architecture
    flagPolicy := .str c.flagPolicy.name
    trapPolicy := .str c.trapPolicy.name
    maxSteps := Datum.ofInt? c.maxSteps
    programs := c.programs.map ProgramImage.toSpec
    start := c.initialState.toSpec }

end Emu8080
