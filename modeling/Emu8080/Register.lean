/-
# Emu8080.Register -- registers, operands and register pairs

Seven byte registers; an eighth operand code stands for the memory byte that HL
points to.  Two registers make a pair, high byte first; the stack pointer counts
as a pair of its own where an instruction names one.

`pack` and `unpack` pass between a pair and its bytes.  Both accept integers of
any size and sign and look at the low bits only.
-/
namespace Emu8080

set_option autoImplicit false

/-- A byte register. -/
inductive Reg
  | b | c | d | e | h | l | a
deriving DecidableEq, Repr, Inhabited

namespace Reg

def all : List Reg := [.a, .b, .c, .d, .e, .h, .l]

def label : Reg → String
  | .a => "A" | .b => "B" | .c => "C" | .d => "D" | .e => "E" | .h => "H" | .l => "L"

def name : Reg → String
  | .a => "a" | .b => "b" | .c => "c" | .d => "d" | .e => "e" | .h => "h" | .l => "l"

def ofName? (s : String) : Option Reg := all.find? (·.name == s)

theorem ofName?_name (r : Reg) : ofName? r.name = some r := by cases r <;> decide

end Reg

/-- A byte operand of an instruction: a register, or the memory byte at HL. -/
inductive Operand8
  | reg (r : Reg)
  | mem
deriving DecidableEq, Repr, Inhabited

namespace Operand8

/-- The operand named by three bits of an opcode. -/
def ofCode (code : Nat) : Operand8 :=
  match code % 8 with
  | 0 => .reg .b | 1 => .reg .c | 2 => .reg .d | 3 => .reg .e
  | 4 => .reg .h | 5 => .reg .l | 6 => .mem | _ => .reg .a

def label : Operand8 → String
  | .reg r => r.label
  | .mem => "M"

end Operand8

/-- A pair of registers, or the stack pointer. -/
inductive Pair
  | bc | de | hl | sp
deriving DecidableEq, Repr, Inhabited

namespace Pair

def all : List Pair := [.bc, .de, .hl, .sp]

/-- The pair named by two bits of an opcode. -/
def ofCode (code : Nat) : Pair :=
  match code % 4 with
  | 0 => .bc | 1 => .de | 2 => .hl | _ => .sp

/-- The name in mnemonics: the high register alone. -/
def label : Pair → String
  | .bc => "B" | .de => "D" | .hl => "H" | .sp => "SP"

def ofLabel? (s : String) : Option Pair := all.find? (·.label == s)

/-- The high and the low register of a pair; the stack pointer has none. -/
def registers? : Pair → Option (Reg × Reg)
  | .bc => some (.b, .c)
  | .de => some (.d, .e)
  | .hl => some (.h, .l)
  | .sp => none

end Pair

/-- The word with the given high and low bytes. -/
def pack (high low : Int) : Int := high % 256 * 256 + low % 256

/-- The high and the low byte of a word. -/
def unpack (value : Int) : Int × Int := (value / 256 % 256, value % 256)

theorem pack_unpack (value : Int) :
    pack (unpack value).1 (unpack value).2 = value % 65536 := by
  simp only [pack, unpack]
  omega

theorem unpack_pack (high low : Int) : unpack (pack high low) = (high % 256, low % 256) := by
  simp only [pack, unpack, Prod.mk.injEq]
  omega

end Emu8080
