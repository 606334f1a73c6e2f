/-
# Emu8080.Flags -- the five condition codes

Zero, sign, parity, carry and auxiliary carry, always in this order.  `Flags α`
holds one `α` for each: the condition codes themselves are `Flags Datum`, since a
host may store anything there, and the set of flags an instruction may change is
`Flags Bool`.

The flag byte puts them in its five low bits, zero lowest; the three high bits
are padding.
-/
import Emu8080.Datum.Basic

namespace Emu8080

set_option autoImplicit false

/-- One of the five flags. -/
inductive Flag
  | z | s | p | cy | ac
deriving DecidableEq, Repr, Inhabited

namespace Flag

def all : List Flag := [.z, .s, .p, .cy, .ac]

/-- The weight of the flag in the flag byte. -/
def weight : Flag → Nat
  | .z => 1 | .s => 2 | .p => 4 | .cy => 8 | .ac => 16

def name : Flag → String
  | .z => "z" | .s => "s" | .p => "p" | .cy => "cy" | .ac => "ac"

/-- The name in messages and reports. -/
def label : Flag → String
  | .z => "Z" | .s => "S" | .p => "P" | .cy => "CY" | .ac => "AC"

def ofName? (s : String) : Option Flag := all.find? (·.name == s)

theorem ofName?_name (f : Flag) : ofName? f.name = some f := by cases f <;> decide

end Flag

/-- One value for each flag. -/
structure Flags (α : Type) where
  z : α
  s : α
  p : α
  cy : α
  ac : α
deriving DecidableEq, Repr, Inhabited

namespace Flags

variable {α β : Type}

def get (fs : Flags α) : Flag → α
  | .z => fs.z | .s => fs.s | .p => fs.p | .cy => fs.cy | .ac => fs.ac

def set (fs : Flags α) (f : Flag) (v : α) : Flags α :=
  match f with
  | .z => { fs with z := v }
  | .s => { fs with s := v }
  | .p => { fs with p := v }
  | .cy => { fs with cy := v }
  | .ac => { fs with ac := v }

def ofFn (g : Flag → α) : Flags α := ⟨g .z, g .s, g .p, g .cy, g .ac⟩

/-- One value for each flag, made in order. -/
def ofFnM {m : Type → Type} [Monad m] (g : Flag → m α) : m (Flags α) := do
  return ⟨← g .z, ← g .s, ← g .p, ← g .cy, ← g .ac⟩

/-- The five values in order. -/
def toList (fs : Flags α) : List α := [fs.z, fs.s, fs.p, fs.cy, fs.ac]

@[simp] theorem get_ofFn (g : Flag → α) (f : Flag) : (ofFn g).get f = g f := by cases f <;> rfl

@[simp] theorem get_set_self (fs : Flags α) (f : Flag) (v : α) : (fs.set f v).get f = v := by
  cases f <;> rfl

theorem get_set_of_ne (fs : Flags α) {f g : Flag} (h : g ≠ f) (v : α) :
    (fs.set f v).get g = fs.get g := by
  cases f <;> cases g <;> simp_all [get, set]

@[ext] theorem ext_get {fs gs : Flags α} (h : ∀ f, fs.get f = gs.get f) : fs = gs := by
  have hz := h .z
  have hs := h .s
  have hp := h .p
  have hcy := h .cy
  have hac := h .ac
  cases fs
  cases gs
  simp_all [get]

end Flags

/-- The condition codes as they are stored: single bits, unless a host stored otherwise. -/
abbrev ConditionCodes := Flags Datum

/-- The flags an instruction may change. -/
abbrev FlagMask := Flags Bool

/-- A mask with the listed flags. -/
def FlagMask.ofList (flags : List Flag) : FlagMask := Flags.ofFn fun f => flags.contains f

/-- The flags of a mask in order. -/
def FlagMask.toFlags (mask : FlagMask) : List Flag := Flag.all.filter mask.get

namespace ConditionCodes

/-- All flags clear. -/
def clear : ConditionCodes := Flags.ofFn fun _ => .int 0

instance : Inhabited ConditionCodes := ⟨clear⟩

/-- A truth value as a stored bit. -/
def bit (b : Bool) : Datum := .int (if b then 1 else 0)

/-- The flag byte: the weights of the flags that hold something true. -/
def toByte (cc : ConditionCodes) : Nat :=
  Flag.all.foldr (fun f total => (if (cc.get f).truthy then f.weight else 0) + total) 0

/-- The flags named by the five low bits of a value. -/
def ofByte (value : Int) : ConditionCodes :=
  Flags.ofFn fun f => bit (value / f.weight % 2 == 1)

/-- Whether two sets of codes are the same flag by flag. -/
def agrees (x y : ConditionCodes) : Bool := Flag.all.all fun f => (x.get f).same (y.get f)

theorem bit_eq (b : Bool) : bit b = .int b.toNat := by cases b <;> rfl

/-- The low bit of an integer as a stored bit. -/
theorem bit_low (n : Int) : bit (n % 2 == 1) = .int (n % 2) := by
  rcases Int.emod_two_eq n with h | h <;> simp [bit, h]

end ConditionCodes

/-- What becomes of the flags an instruction may not change. -/
inductive FlagPolicy
  | preserve
  | clear
deriving DecidableEq, Repr, Inhabited

namespace FlagPolicy

def name : FlagPolicy → String
  | .preserve => "preserve"
  | .clear => "clear"

def all : List FlagPolicy := [.preserve, .clear]

def ofName? (s : String) : Option FlagPolicy := all.find? (·.name == s)

end FlagPolicy

end Emu8080
