/-
# Emu8080.Alu.Condition -- condition codes of a result

A flag that an instruction affects is computed from its result; every other flag
is kept or cleared as the policy says.  Parity folds the sixteen low bits of the
result onto one: set when their number is even.

A host may compute condition codes of any value.  `judge` says what each flag
needs of it; on integers it is `flagOf`.
-/
import Emu8080.Fault

namespace Emu8080

set_option autoImplicit false

/-- The flag that a value names. -/
def Flag.ofDatum (d : Datum) : Except Fault Flag :=
  let named := match d with
    | .str name => name.string?.bind Flag.ofName?
    | _ => none
  match named with
  | some f => .ok f
  | none => .error .wrongKind

/-- The mask that a host gives by the names of its flags; nothing gives none. -/
def FlagMask.ofDatum (d : Datum) : Except Fault (Option FlagMask) :=
  match d with
  | .null => .ok none
  | _ => do return some (FlagMask.ofList (← (← d.elements).mapM Flag.ofDatum))

namespace Alu

/-- Fold the high half of `2 * half` bits onto the low half. -/
def foldBits (half : Nat) (n : Nat) : Nat := n ^^^ (n >>> half)

/-- Whether the number of bits set among the low sixteen is even. -/
def parity (value : Int) : Bool :=
  foldBits 1 (foldBits 2 (foldBits 4 (foldBits 8 (value % 65536).toNat))) % 2 == 0

/-- The value a result gives to a flag. -/
def flagOf (value carry auxCarry : Int) : Flag → Bool
  | .z => value == 0
  | .s => 0x80 ≤ value
  | .p => parity value
  | .cy => carry % 2 == 1
  | .ac => auxCarry % 2 == 1

/-- What becomes of a flag that is not affected. -/
def kept (cc : ConditionCodes) (policy : FlagPolicy) (f : Flag) : Datum :=
  match policy with
  | .preserve => cc.get f
  | .clear => .int 0

/-- The condition codes after a result: affected flags computed, the others by policy. -/
def applyFlags (cc : ConditionCodes) (affected : FlagMask) (value : Int) (carry auxCarry : Int)
    (policy : FlagPolicy) : ConditionCodes :=
  Flags.ofFn fun f =>
    if affected.get f then ConditionCodes.bit (flagOf value carry auxCarry f)
    else kept cc policy f

/-- The value that values of the host give to a flag.  Zero asks for equality, sign for order,
the others for bits, which only integers have. -/
def judge (value carry auxCarry : Datum) : Flag → Except Fault Bool
  | .z => .ok (value.agrees (.int 0))
  | .s =>
      match value.atLeast? 0x80 with
      | some b => .ok b
      | none => .error .wrongKind
  | .p => do return parity (← value.whole)
  | .cy => do return (← carry.whole) % 2 == 1
  | .ac => do return (← auxCarry.whole) % 2 == 1

/-- The condition codes after a result of the host. -/
def judgeFlags (cc : ConditionCodes) (affected : FlagMask) (value carry auxCarry : Datum)
    (policy : FlagPolicy) : Except Fault ConditionCodes :=
  Flags.ofFnM fun f =>
    if affected.get f then do return ConditionCodes.bit (← judge value carry auxCarry f)
    else .ok (kept cc policy f)

section Integers

variable {value carry auxCarry : Datum} {n c a : Int}

theorem judge_of_int? (hvalue : value.int? = some n) (hcarry : carry.int? = some c)
    (haux : auxCarry.int? = some a) (f : Flag) :
    judge value carry auxCarry f = .ok (flagOf n c a f) := by
  cases f with
  | z => simp only [judge, flagOf, Datum.agrees_of_int? hvalue, Datum.agreesInt]
  | s =>
    cases value with
    | int _ | bool _ => simp only [judge, flagOf, Datum.atLeast?, hvalue, Option.map_some]
    | null | float _ | str _ | list _ | map _ => exact nomatch hvalue
  | p =>
    simp only [judge, flagOf, Datum.whole, hvalue]
    rfl
  | cy =>
    simp only [judge, flagOf, Datum.whole, hcarry]
    rfl
  | ac =>
    simp only [judge, flagOf, Datum.whole, haux]
    rfl

/-- On integers a host gets what an instruction would leave. -/
theorem judgeFlags_of_int? (hvalue : value.int? = some n) (hcarry : carry.int? = some c)
    (haux : auxCarry.int? = some a) (cc : ConditionCodes) (affected : FlagMask)
    (policy : FlagPolicy) :
    judgeFlags cc affected value carry auxCarry policy
      = .ok (applyFlags cc affected n c a policy) := by
  have step : ∀ f, (if affected.get f = true then
        (do return ConditionCodes.bit (← judge value carry auxCarry f))
        else Except.ok (kept cc policy f) : Except Fault Datum)
      = .ok (if affected.get f = true then ConditionCodes.bit (flagOf n c a f)
          else kept cc policy f) := by
    intro f
    split
    · rw [judge_of_int? hvalue hcarry haux]
      rfl
    · rfl
  simp only [judgeFlags, Flags.ofFnM, step]
  rfl

end Integers

theorem applyFlags_affected {affected : FlagMask} {f : Flag} (h : affected.get f = true)
    (cc : ConditionCodes) (value carry auxCarry : Int) (policy : FlagPolicy) :
    (applyFlags cc affected value carry auxCarry policy).get f
      = ConditionCodes.bit (flagOf value carry auxCarry f) := by
  simp [applyFlags, h]

theorem applyFlags_unaffected {affected : FlagMask} {f : Flag} (h : affected.get f = false)
    (cc : ConditionCodes) (value carry auxCarry : Int) (policy : FlagPolicy) :
    (applyFlags cc affected value carry auxCarry policy).get f
      = kept cc policy f := by
  simp [applyFlags, h]

end Alu

end Emu8080
