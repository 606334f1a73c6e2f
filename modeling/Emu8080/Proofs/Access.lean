/-
# Emu8080.Proofs.Access -- what an access to one address comes to

An address is an integer, taken modulo the size of the space, or it is no address
at all.  Each way to get at a byte has one equation for either case, and writing
has one more for data that is no byte; whatever is refused leaves the memory as
it was.

A fault of the memory (`Fault.IsAccess`) names the value that it refuses.  Where
that cannot be written, what is refused is the length of an integer in it, and
this is no fault of the memory.
-/
import Emu8080.Memory
import Emu8080.Proofs.Sequence
import Emu8080.Proofs.Showable

namespace Emu8080

set_option autoImplicit false

open Emu8080.Action (demand_bind)

namespace Fault

/-- The memory refuses an access for a value that the fault names: for its address, or for data
that is no byte. -/
def IsAccess (fault : Fault) : Prop :=
  (∃ given, fault = .addressKind given) ∨ ∃ given, fault = .dataRange given

theorem not_isAccess_longInteger : ¬ IsAccess .longInteger := by
  rintro (⟨given, h⟩ | ⟨given, h⟩) <;> cases h

end Fault

theorem byteOf_of_int? {data : Datum} {v : UInt8} (h : data.int? = some (v.toNat : Int)) :
    byteOf data = .ok v := by
  have hin : data.within? 0xFF = some v.toNat :=
    Datum.within?_eq_some_iff.2 ⟨h, Nat.le_of_lt_succ v.toNat_lt⟩
  simp only [byteOf, hin, UInt8.ofNat_toNat]

variable {address data : Datum} {n : Int} {v : UInt8}

theorem addressOf_of_some (h : address.int? = some n) :
    addressOf address = .ok (UInt16.ofInt n) := by
  rw [addressOf, h]

theorem addressOf_of_none (h : address.int? = none) :
    addressOf address = .error (.showing address (.addressKind address)) := by
  rw [addressOf, h]

namespace Memory

theorem read_of_some (h : address.int? = some n) (m : Memory) :
    read address m = .ok (m.byteAt (UInt16.ofInt n))
      (m.note (.read (UInt16.ofInt n) (m.byteAt (UInt16.ofInt n)))) := by
  rw [read, demand_bind (addressOf_of_some h)]
  rfl

theorem read_of_none (h : address.int? = none) (m : Memory) :
    read address m = .error (.showing address (.addressKind address)) m := by
  rw [read, addressOf_of_none h]
  rfl

theorem peek_of_some (h : address.int? = some n) (m : Memory) :
    peek address m = .ok (m.byteAt (UInt16.ofInt n)) m := by
  rw [peek, demand_bind (addressOf_of_some h)]
  rfl

theorem peek_of_none (h : address.int? = none) (m : Memory) :
    peek address m = .error (.showing address (.addressKind address)) m := by
  rw [peek, addressOf_of_none h]
  rfl

theorem write_of_some (h : address.int? = some n) (hdata : byteOf data = .ok v) (m : Memory) :
    write address data m = .ok ⟨⟩ ((m.store (UInt16.ofInt n) v).note
      (.write (UInt16.ofInt n) data (m.byteAt (UInt16.ofInt n)))) := by
  rw [write, demand_bind (addressOf_of_some h), demand_bind hdata]
  rfl

theorem write_of_none (h : address.int? = none) (data : Datum) (m : Memory) :
    write address data m = .error (.showing address (.addressKind address)) m := by
  rw [write, addressOf_of_none h]
  rfl

theorem write_of_range (h : address.int? = some n) (hdata : data.within? 0xFF = none)
    (m : Memory) : write address data m = .error (.showing data (.dataRange data)) m := by
  have hbyte : byteOf data = .error (.showing data (.dataRange data)) := by rw [byteOf, hdata]
  rw [write, demand_bind (addressOf_of_some h), hbyte]
  rfl

theorem load_of_none (h : address.int? = none) (values : List Datum) (m : Memory) :
    load address values m = .error (.showing address (.addressKind address)) m := by
  rw [load, addressOf_of_none h]
  rfl

end Memory

end Emu8080
