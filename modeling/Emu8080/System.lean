/-
# Emu8080.System -- building a system from its description

The images are placed in the order they are listed, each over what the ones
before it left.  Then a processor with the wanted policy starts from the wanted
state, every value reduced to the width of its register, and has to pass the
check of its domain.  Last it is put under the control of a debugger.

Building either succeeds as a whole, with the notices it made, or faults.
-/
import Emu8080.Config.Basic
import Emu8080.Image.Hex

namespace Emu8080

set_option autoImplicit false

namespace Blueprint

/-- A notice that shows a value. -/
def noticeOf (shown : Datum) (text : Text) : Notice :=
  { level := .debug, text, isWritable := shown.isShowable }

/-- The notice of an image in its place. -/
def imageNotice (path : Text) (format : Datum) : Notice :=
  noticeOf format ("Program image " ++ path ++ " (" ++ format.text ++ ") loaded")

/-- Place one image and give its notices.  Every format but the hexadecimal one is raw. -/
def placeImage (files : Files) (spec : ImageSpec) : Action Memory (List Notice) := do
  let (path, bytes) ← Action.demand (files.read spec.path)
  let loaded ←
    if spec.format.agrees (.str ImageFormat.ihex.name) then do
      pure (Image.hexNotice path (← Image.loadHex bytes))
    else do
      pure (Image.binaryNotice path spec.address (← Image.loadBinary path bytes spec.address))
  return [loaded, imageNotice path spec.format]

/-- Place images in turn. -/
def placeImages (files : Files) : List ImageSpec → Action Memory (List Notice)
  | [] => return []
  | spec :: rest => do
      let notices ← placeImage files spec
      return notices ++ (← placeImages files rest)

/-- Whether a field is one of the single flags, which take the condition codes to set. -/
def isSingleFlag : Field → Bool
  | .flag _ => true
  | _ => false

/-- Store the low byte of a value under a name, and tell whether the condition codes are there
after it.  A byte in their place takes them away, and only the flag byte brings them back. -/
def setField (hasCodes : Bool) (name : Text) (d : Datum) : Action CpuState Bool := do
  let n ← Action.whole d
  match Field.ofText? name with
  | some .codes => return false
  | field =>
      if !hasCodes && field.any isSingleFlag then throw .noAttribute
      CpuState.assign [(name, .int (n % 256))]
      return hasCodes || field == some .flagByte

/-- Store under names in turn and tell whether the condition codes are there after that.  Names
are texts. -/
def setFields (hasCodes : Bool) : List (Datum × Datum) → Action CpuState Bool
  | [] => return hasCodes
  | (.str name, d) :: rest => do setFields (← setField hasCodes name d) rest
  | _ :: _ => throw .wrongKind

/-- The entries of the registers in a description, which has to be a mapping. -/
def registerEntries : Datum → Except Fault (List (Datum × Datum))
  | .map entries => .ok entries
  | _ => .error .noAttribute

/-- The state that a description starts from. -/
def startState (spec : StartSpec) : Action CpuState Unit := do
  let pc ← Action.whole spec.pc
  modify fun s => { s with pc := .int (pc % 65536) }
  let sp ← Action.whole spec.sp
  modify fun s => { s with sp := .int (sp % 65536) }
  let hasCodes ← setFields true (← Action.demand (registerEntries spec.registers))
  let hasCodes ← match spec.flags with
    | .null => pure hasCodes
    | d => do
        let n ← Action.whole d
        modify fun s => { s with cc := ConditionCodes.ofByte n }
        pure true
  modify fun s => { s with intEnable := spec.intEnable }
  let s ← get
  if s.isChecked && !hasCodes then throw .noAttribute
  Action.demand s.validate

/-- Start a processor afresh in the state of a description; its memory keeps its contents. -/
def startCpu (spec : StartSpec) : Action Cpu Unit := do
  modify Cpu.reset
  Cpu.onMachine (Machine.onState (startState spec))

/-- Build the processor over a memory. -/
def buildCpu (b : Blueprint) (files : Files) : Action Memory (Cpu × List Notice) := do
  let notices ← placeImages files b.programs
  let policy ← Action.demand (FlagPolicy.ofDatum b.flagPolicy)
  match startCpu b.start (Cpu.ofMemory (← get) policy) with
  | .error fault _ => throw fault
  | .ok _ cpu => return (cpu, notices)

/-- Put a processor under the control that a description asks for. -/
def buildDebugger (b : Blueprint) (cpu : Cpu) : Except Fault Debugger := do
  Debugger.attach cpu (← TrapPolicy.ofDatum b.trapPolicy) Debugger.defaultCapacity b.maxSteps

/-- The notice of a debugger in control. -/
def debuggerNotice (b : Blueprint) : Notice :=
  noticeOf b.maxSteps ("Debugger built (trap_policy=" ++ b.trapPolicy.text ++ ", max_steps="
    ++ b.maxSteps.text ++ ")")

/-- Build a system over a memory. -/
def build (b : Blueprint) (files : Files) (memory : Memory) :
    Except Fault (Debugger × List Notice) :=
  match b.buildCpu files memory with
  | .error fault _ => .error fault
  | .ok (cpu, notices) _ => do
      let debugger ← b.buildDebugger cpu
      return (debugger, notices ++ [b.debuggerNotice])

end Blueprint

end Emu8080
