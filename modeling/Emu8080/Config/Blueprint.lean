/-
# Emu8080.Config.Blueprint -- systems a host describes by values

A host describes a system by entries, and the images and the starting state in
it by mappings of their own.  What is not mentioned takes its default, and every
value is kept as it is given; but a name without a meaning is refused, and so is
an image without a path.
-/
import Emu8080.Config.Basic

namespace Emu8080

set_option autoImplicit false

namespace Blueprint

/-- The entries of a description, which may have no other names than these. -/
def checked (names : List String) (entries : List (Datum × Datum)) :
    Except Fault (List (Datum × Datum)) :=
  if entries.all fun e => names.any fun name => e.1.agrees (.str name) then .ok entries
  else .error .wrongKind

/-- The entries of a part of a description, which has to be a mapping. -/
def part (names : List String) (d : Datum) : Except Fault (List (Datum × Datum)) :=
  match d with
  | .map entries => checked names entries
  | _ => .error .wrongKind

/-- What a description gives under a name, or a default. -/
def value (entries : List (Datum × Datum)) (name : String) (default : Datum) : Datum :=
  (Datum.lookup? (.str name) entries).getD default

end Blueprint

/-- An image from its description. -/
def ImageSpec.ofDatum (d : Datum) : Except Fault ImageSpec := do
  let entries ← Blueprint.part ["path", "address", "format"] d
  match Datum.lookup? (.str "path") entries with
  | none => throw .wrongKind
  | some path =>
      let plain : ImageSpec := { path }
      return { plain with
        address := Blueprint.value entries "address" plain.address
        format := Blueprint.value entries "format" plain.format }

/-- A starting state from its description. -/
def StartSpec.ofDatum (d : Datum) : Except Fault StartSpec := do
  let entries ← Blueprint.part ["pc", "sp", "registers", "flags", "int_enable"] d
  let plain : StartSpec := {}
  return {
    pc := Blueprint.value entries "pc" plain.pc
    sp := Blueprint.value entries "sp" plain.sp
    registers := Blueprint.value entries "registers" plain.registers
    flags := Blueprint.value entries "flags" plain.flags
    intEnable := Blueprint.value entries "int_enable" plain.intEnable }

namespace Blueprint

/-- The names in the description of a system. -/
def names : List String :=
  ["architecture", "flag_policy", "trap_policy", "max_steps", "programs", "initial_state"]

/-- A system from its description. -/
def ofDatum (d : Datum) : Except Fault Blueprint := do
  let entries ← d.entries
  let images ← (value entries "programs" (.list [])).elements
  let programs ← images.mapM ImageSpec.ofDatum
  let start ← StartSpec.ofDatum (value entries "initial_state" (.map []))
  let entries ← checked names entries
  let plain : Blueprint := {}
  return {
    architecture := value entries "architecture" plain.architecture
    flagPolicy := value entries "flag_policy" plain.flagPolicy
    trapPolicy := value entries "trap_policy" plain.trapPolicy
    maxSteps := value entries "max_steps" plain.maxSteps
    programs
    start }

/-- A description may leave out everything. -/
example : ofDatum (.map []) = .ok {} := by rfl

end Blueprint

end Emu8080
