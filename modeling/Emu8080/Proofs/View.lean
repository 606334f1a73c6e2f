/-
# Emu8080.Proofs.View -- what a machine shows

A machine stores values of its host.  It is `Ready` when they are whole numbers
of their widths, with its own memory on the bus and its check in place; a
fraction that equals a bit passes the check, but is no carry, and so is left out
here.  A ready machine shows a `Chip`: `Machine.Shows` reads every field as a
number, and `Machine.Records` reads the log as the cycles the bus has seen.

The basic changes of a machine are then followed on the chip, one lemma for
each.
-/
import Emu8080.Machine
import Emu8080.Proofs.Chip

namespace Emu8080

set_option autoImplicit false

/-- Every register is an integer of its width, and every bit is the integer 0 or 1. -/
structure CpuState.Whole (s : CpuState) : Prop where
  reg : ∀ r, ((s.get r).within? CpuState.maxByte).isSome
  sp : (s.sp.within? CpuState.maxWord).isSome
  pc : (s.pc.within? CpuState.maxWord).isSome
  flag : ∀ f, ((s.cc.get f).within? 1).isSome
  intEnable : (s.intEnable.within? 1).isSome

namespace Datum

/-- The number that a value counts as; 0 for one that counts as none. -/
def number (d : Datum) : Nat := (d.int?.getD 0).toNat

theorem number_of_int? {d : Datum} {n : Nat} (h : d.int? = some (n : Int)) : d.number = n := by
  simp only [number, h, Option.getD_some, Int.toNat_natCast]

theorem isSome_within?_iff {top : Nat} {d : Datum} :
    (d.within? top).isSome ↔ d.int? = some (d.number : Int) ∧ d.number ≤ top := by
  rw [Option.isSome_iff_exists]
  constructor
  · rintro ⟨n, hn⟩
    obtain ⟨hint, hle⟩ := within?_eq_some_iff.1 hn
    rw [number_of_int? hint]
    exact ⟨hint, hle⟩
  · intro h
    exact ⟨d.number, within?_eq_some_iff.2 h⟩

theorem isSome_within?_byte {d : Datum} {v : UInt8} (h : d.int? = some (v.toNat : Int)) :
    (d.within? CpuState.maxByte).isSome := by
  rw [isSome_within?_iff, number_of_int? h]
  exact ⟨h, Nat.le_of_lt_succ v.toNat_lt⟩

theorem isSome_within?_word {d : Datum} {w : UInt16} (h : d.int? = some (w.toNat : Int)) :
    (d.within? CpuState.maxWord).isSome := by
  rw [isSome_within?_iff, number_of_int? h]
  exact ⟨h, Nat.le_of_lt_succ w.toNat_lt⟩

theorem isSome_within?_bit {d : Datum} {b : Bool} (h : d.int? = some (b.toNat : Int)) :
    (d.within? 1).isSome := by
  rw [isSome_within?_iff, number_of_int? h]
  exact ⟨h, Bool.toNat_le b⟩

theorem int?_of_byte {d : Datum} (h : (d.within? CpuState.maxByte).isSome) :
    d.int? = some ((UInt8.ofNat d.number).toNat : Int) := by
  obtain ⟨hint, hle⟩ := isSome_within?_iff.1 h
  rw [UInt8.toNat_ofNat_of_lt' (Nat.lt_succ_of_le hle)]
  exact hint

theorem int?_of_word {d : Datum} (h : (d.within? CpuState.maxWord).isSome) :
    d.int? = some ((UInt16.ofNat d.number).toNat : Int) := by
  obtain ⟨hint, hle⟩ := isSome_within?_iff.1 h
  rw [UInt16.toNat_ofNat_of_lt' (Nat.lt_succ_of_le hle)]
  exact hint

theorem int?_of_bit {d : Datum} (h : (d.within? 1).isSome) :
    d.int? = some ((d.number == 1).toNat : Int) := by
  obtain ⟨hint, hle⟩ := isSome_within?_iff.1 h
  have hbit : (d.number == 1).toNat = d.number := by
    rcases Nat.le_one_iff_eq_zero_or_eq_one.1 hle with h0 | h1
    · rw [h0]; rfl
    · rw [h1]; rfl
  rw [hbit]
  exact hint

/-- A remainder is within its bound. -/
theorem isSome_within?_emod (top : Nat) (k : Int) :
    ((Datum.int (k % ((top : Int) + 1))).within? top).isSome := by
  have hnonneg : 0 ≤ k % ((top : Int) + 1) := Int.emod_nonneg k (by omega)
  have hlt : k % ((top : Int) + 1) < (top : Int) + 1 := Int.emod_lt_of_pos k (by omega)
  rw [Option.isSome_iff_exists]
  refine ⟨(k % ((top : Int) + 1)).toNat, within?_eq_some_iff.2 ⟨?_, by omega⟩⟩
  rw [int?_int, Int.toNat_of_nonneg hnonneg]

end Datum

theorem ConditionCodes.int?_bit (b : Bool) : (bit b).int? = some (b.toNat : Int) := by
  cases b <;> rfl

namespace CpuState

variable {s : CpuState}

theorem whole_fresh : ({} : CpuState).Whole where
  reg r := by cases r <;> rfl
  sp := rfl
  pc := rfl
  flag f := by cases f <;> rfl
  intEnable := rfl

theorem Whole.set (h : s.Whole) (r : Reg) {d : Datum} (hd : (d.within? maxByte).isSome) :
    (s.set r d).Whole where
  reg q := by
    by_cases hq : q = r
    · subst hq
      rw [get_set_self]
      exact hd
    · rw [get_set_of_ne s hq]
      exact h.reg q
  sp := by rw [sp_set]; exact h.sp
  pc := by rw [pc_set]; exact h.pc
  flag f := by rw [cc_set]; exact h.flag f
  intEnable := by rw [intEnable_set]; exact h.intEnable

end CpuState

/-- An access as the bus sees it. -/
def Access.cycle : Access → BusCycle
  | .read a v => .read a v
  | .write a data previous => .write a (UInt8.ofNat data.number) previous

namespace Machine

/-- The state is whole, and nothing stands in the place of its memory or of its check. -/
structure Ready (m : Machine) : Prop where
  whole : m.state.Whole
  bus : m.state.bus = .memory
  checked : m.state.isChecked = true

/-- The numbers in a machine. -/
def chip (m : Machine) : Chip where
  reg r := UInt8.ofNat (m.state.get r).number
  sp := UInt16.ofNat m.state.sp.number
  pc := UInt16.ofNat m.state.pc.number
  flag f := (m.state.cc.get f).number == 1
  intEnable := m.state.intEnable.number == 1
  byte := m.memory.byteAt

/-- The machine holds the numbers of a chip, with its memory and its check in place. -/
structure Shows (m : Machine) (c : Chip) : Prop where
  reg : ∀ r, (m.state.get r).int? = some ((c.reg r).toNat : Int)
  sp : m.state.sp.int? = some (c.sp.toNat : Int)
  pc : m.state.pc.int? = some (c.pc.toNat : Int)
  flag : ∀ f, (m.state.cc.get f).int? = some ((c.flag f).toNat : Int)
  intEnable : m.state.intEnable.int? = some (c.intEnable.toNat : Int)
  byte : ∀ a, m.memory.byteAt a = c.byte a
  bus : m.state.bus = .memory
  checked : m.state.isChecked = true

/-- The machine shows a chip, and its log holds these cycles. -/
structure Records (m : Machine) (c : Chip) (seen : List BusCycle) : Prop extends Shows m c where
  log : m.memory.log.map Access.cycle = seen

variable {m : Machine} {c : Chip} {seen : List BusCycle}

theorem Ready.shows (h : m.Ready) : m.Shows m.chip where
  reg r := Datum.int?_of_byte (h.whole.reg r)
  sp := Datum.int?_of_word h.whole.sp
  pc := Datum.int?_of_word h.whole.pc
  flag f := Datum.int?_of_bit (h.whole.flag f)
  intEnable := Datum.int?_of_bit h.whole.intEnable
  byte _ := rfl
  bus := h.bus
  checked := h.checked

theorem Shows.ready (h : m.Shows c) : m.Ready where
  whole :=
    { reg := fun r => Datum.isSome_within?_byte (h.reg r)
      sp := Datum.isSome_within?_word h.sp
      pc := Datum.isSome_within?_word h.pc
      flag := fun f => Datum.isSome_within?_bit (h.flag f)
      intEnable := Datum.isSome_within?_bit h.intEnable }
  bus := h.bus
  checked := h.checked

end Machine

end Emu8080
