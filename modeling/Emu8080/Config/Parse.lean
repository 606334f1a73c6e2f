/-
# Emu8080.Config.Parse -- reading a configuration document

A document is a mapping with optional entries.  They are checked in a fixed
order, and the first that cannot be used is the fault: the architecture, the two
policies, the bound, the images one by one (format, path, address), the
registers, the program counter, the stack pointer and the flags.

An integer may be given as a number or as a text, decimal or with the mark `0x`;
truth values are not integers here.  Names of policies and registers may be in
any case.  Entries that nothing asks for are passed over.

Names are compared as texts, so a value whose text cannot be written is refused
for that already.
-/
import Emu8080.Config.Basic
import Emu8080.Text.Lowercase
import Emu8080.Text.Numeral

namespace Emu8080.SystemConfig

set_option autoImplicit false

/-- The entries of a document or of a part of one. -/
abbrev Entries := List (Datum × Datum)

/-- The value under a name, or a default. -/
def entry (entries : Entries) (name : String) (default : Datum) : Datum :=
  (Datum.lookup? (.str name) entries).getD default

/-- The entries of a part that is asked for entries. -/
def entriesOf : Datum → Except Fault Entries
  | .map entries => .ok entries
  | _ => .error .noAttribute

/-- Whether a text begins with the hexadecimal mark. -/
def isMarked : List Char → Bool
  | '0' :: m :: _ => m = 'x' || m = 'X'
  | _ => false

/-- The integer a text stands for. -/
def integerOfText? (s : Text) : Option Int :=
  s.chars?.bind fun chars => if isMarked chars then Text.hexInt? chars else Text.decimalInt? chars

/-- The integer that a value gives: a number, or a text that reads as one. -/
def integer (d : Datum) : Except Fault Int :=
  let refused := Fault.showing d (.config (.integer d))
  match d with
  | .int n => .ok n
  | .str s =>
      match integerOfText? s with
      | some n => .ok n
      | none => .error refused
  | _ => .error refused

/-- The one architecture there is. -/
def architectures : List String := ["8080"]

/-- Look a value up by its text among named alternatives. -/
def choose {α : Type} (all : List α) (name : α → String) (given : Text) : Option α :=
  all.find? fun a => Text.ofString (name a) == given

/-- Read the architecture, given as a text or a number. -/
def parseArchitecture (entries : Entries) : Except Fault String :=
  let given := entry entries "architecture" (.str "8080")
  match choose architectures id given.text with
  | some architecture => .ok architecture
  | none => .error (.showing given (.config (.architecture given.text)))

/-- Read a name out of a list of names, in any case. -/
def parseChoice {α : Type} (entries : Entries) (key default : String) (all : List α)
    (name : α → String) : Except Fault α :=
  let given := entry entries key (.str default)
  let lowered := Text.lowercase given.text
  match choose all name lowered with
  | some a => .ok a
  | none => .error (.showing given (.config (.choice key lowered (all.map name))))

/-- A bound on a run, which has to be positive. -/
def positive (n : Int) : Except Fault Int :=
  if n ≤ 0 then .error (.showing (.int n) (.config (.maxSteps n))) else .ok n

/-- Read the bound on a run, if it is there. -/
def parseMaxSteps (entries : Entries) : Except Fault (Option Int) :=
  match entry entries "max_steps" .null with
  | .null => .ok none
  | d => do return some (← positive (← integer d))

/-- Read one image. -/
def parseImage (d : Datum) : Except Fault ProgramImage := do
  let entries ← entriesOf d
  let given := entry entries "format" (.str "binary")
  match ImageFormat.ofDatum? given with
  | none => .error (.showing given (.config (.imageFormat given)))
  | some format =>
      match Datum.lookup? (.str "path") entries with
      | none => .error (.config .imagePath)
      | some path =>
          let address ← integer (entry entries "address" (.int 0))
          return { path, address, format }

/-- Read the images in turn. -/
def parsePrograms (entries : Entries) : Except Fault (List ProgramImage) := do
  (← (entry entries "programs" (.list [])).elements).mapM parseImage

/-- Set a register in a list: in its place if it is there, else at the end. -/
def setRegister (r : Reg) (value : Int) : List (Reg × Int) → List (Reg × Int)
  | [] => [(r, value)]
  | (q, old) :: rest =>
      if q = r then (r, value) :: rest else (q, old) :: setRegister r value rest

/-- Read registers in turn, adding to those already read. -/
def parseRegisters (read : List (Reg × Int)) : Entries → Except Fault (List (Reg × Int))
  | [] => .ok read
  | (key, d) :: rest =>
      match choose Reg.all Reg.name (Text.lowercase key.text) with
      | none => .error (.showing key (.config (.register key)))
      | some r => do parseRegisters (setRegister r (← integer d) read) rest

/-- Read the starting state: registers, program counter, stack pointer, flags. -/
def parseInitialState (entries : Entries) : Except Fault InitialState := do
  let part ← entriesOf (entry entries "initial_state" (.map []))
  let registers ← parseRegisters [] (← entriesOf (entry part "registers" (.map [])))
  let pc ← integer (entry part "pc" (.int 0))
  let sp ← integer (entry part "sp" (.int 0))
  let flags ← match entry part "flags" .null with
    | .null => pure none
    | d => do pure (some (← integer d))
  return { pc, sp, registers, flags, interrupts := (entry part "int_enable" (.bool false)).truthy }

/-- Read a configuration document. -/
def parse (d : Datum) : Except Fault SystemConfig :=
  match d with
  | .map entries => do
      let architecture ← parseArchitecture entries
      let flagPolicy ← parseChoice entries "flag_policy" "preserve" FlagPolicy.all FlagPolicy.name
      let trapPolicy ← parseChoice entries "trap_policy" "halt" TrapPolicy.all TrapPolicy.name
      let maxSteps ← parseMaxSteps entries
      let programs ← parsePrograms entries
      let initialState ← parseInitialState entries
      return { architecture, flagPolicy, trapPolicy, maxSteps, programs, initialState }
  | _ => .error (.config .rootKind)

theorem positive_eq_ok_iff {n k : Int} : positive n = .ok k ↔ k = n ∧ 0 < n := by
  unfold positive
  split
  · simp
    omega
  · simp [eq_comm]
    omega

end Emu8080.SystemConfig
