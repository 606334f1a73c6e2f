/-
# Emu8080.Proofs.FlagByte -- five flags as one number

Each flag has its weight in the flag byte.  Taking a number apart gives each flag
its bit of the number (`get_ofByte`), and putting flags together adds up the
weights of those that hold something true (`toByte_eq`); so numbers make the round
up to their five low bits, and flags as far as they are bits.

A host may have stored a bit as a truth value or as a fraction.  It comes back as
the integer that it agrees with.
-/
import Emu8080.Flags
import Emu8080.Proofs.Equality

namespace Emu8080

set_option autoImplicit false

namespace ConditionCodes

variable {cc : ConditionCodes}

theorem get_ofByte (n : Int) (f : Flag) : (ofByte n).get f = .int (n / f.weight % 2) := by
  rw [ofByte, Flags.get_ofFn, bit_low]

/-- The flag byte as a sum of its bits. -/
theorem toByte_eq (cc : ConditionCodes) :
    cc.toByte = (cc.get .z).truthy.toNat + 2 * (cc.get .s).truthy.toNat
      + 4 * (cc.get .p).truthy.toNat + 8 * (cc.get .cy).truthy.toNat
      + 16 * (cc.get .ac).truthy.toNat := by
  have hweight : ∀ (b : Bool) (w : Nat), (if b = true then w else 0) = w * b.toNat := by
    intro b w
    cases b <;> simp
  simp only [toByte, Flag.all, Flag.weight, List.foldr_cons, List.foldr_nil, hweight]
  omega

/-- Of a value the five low bits make the round. -/
theorem toByte_ofByte (n : Int) : ((ofByte n).toByte : Int) = n % 32 := by
  have hbit : ∀ f : Flag, (((ofByte n).get f).truthy.toNat : Int) = n / f.weight % 2 := by
    intro f
    rw [get_ofByte]
    rcases Int.emod_two_eq (n / f.weight) with h | h <;> rw [h] <;> rfl
  have hz := hbit .z
  have hs := hbit .s
  have hp := hbit .p
  have hcy := hbit .cy
  have hac := hbit .ac
  simp only [Flag.weight] at hz hs hp hcy hac
  rw [toByte_eq]
  omega

/-- Each flag of the byte says whether the flag held something true. -/
theorem get_ofByte_toByte (cc : ConditionCodes) (f : Flag) :
    (ofByte cc.toByte).get f = bit (cc.get f).truthy := by
  have hz := Bool.toNat_le (cc.get .z).truthy
  have hs := Bool.toNat_le (cc.get .s).truthy
  have hp := Bool.toNat_le (cc.get .p).truthy
  have hcy := Bool.toNat_le (cc.get .cy).truthy
  have hac := Bool.toNat_le (cc.get .ac).truthy
  rw [get_ofByte, bit_eq, toByte_eq]
  cases f <;> simp only [Flag.weight] <;> congr 1 <;> omega

end ConditionCodes

namespace Datum

variable {d : Datum}

/-- A bit is the same as 1 if it agrees with 1, and else as 0. -/
theorem same_of_isBit (h : d.isBit = true) :
    d.same (.int (d.agrees (.int 1)).toNat) = true := by
  cases hone : d.agrees (.int 1) with
  | true => exact (agrees_iff.1 hone).2
  | false =>
    rw [isBit, hone, Bool.or_false] at h
    exact (agrees_iff.1 h).2

/-- Of bits those are true that agree with 1. -/
theorem truthy_of_isBit (h : d.isBit = true) : d.truthy = d.agrees (.int 1) := by
  rw [truthy_congr (same_of_isBit h)]
  cases d.agrees (.int 1) <;> rfl

end Datum

namespace ConditionCodes

variable {cc : ConditionCodes}

/-- Bits make the round through the flag byte. -/
theorem agrees_ofByte_toByte (h : ∀ f, (cc.get f).isBit = true) :
    cc.agrees (ofByte cc.toByte) = true := by
  rw [agrees, List.all_eq_true]
  intro f _
  rw [get_ofByte_toByte, bit_eq, Datum.truthy_of_isBit (h f)]
  exact Datum.same_of_isBit (h f)

theorem ofByte_toByte (h : ∀ f, cc.get f = .int 0 ∨ cc.get f = .int 1) :
    ofByte cc.toByte = cc := by
  apply Flags.ext_get
  intro f
  rw [get_ofByte_toByte]
  rcases h f with hf | hf
  · rw [hf]
    rfl
  · rw [hf]
    rfl

end ConditionCodes

end Emu8080
