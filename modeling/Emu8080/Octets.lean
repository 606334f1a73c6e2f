/-
# Emu8080.Octets -- octets as a host gives them

A host that owes octets gives a value.  A number stands for that many zeros; the
elements of anything else but a text are octets one by one.

A long run of zeros is kept as its length, so that a host may ask for more of
them than there is room for, and be refused for that.
-/
import Emu8080.Fault

namespace Emu8080

set_option autoImplicit false

/-- Octets that a host gives: a run of zeros, or a list. -/
inductive Octets
  | zeros (count : Nat)
  | listed (bytes : List UInt8)
deriving DecidableEq, Repr

namespace Octets

def size : Octets → Nat
  | .zeros count => count
  | .listed bytes => bytes.length

def toList : Octets → List UInt8
  | .zeros count => List.replicate count 0
  | .listed bytes => bytes

/-- One more than the greatest count there is. -/
def countBound : Int := 0x8000000000000000

/-- The number that a value gives as a count; it may be negative. -/
def countOf (d : Datum) : Except Fault Int := do
  let n ← d.whole
  if n < -countBound ∨ countBound ≤ n then throw .overflow else return n

/-- The octet that a value is; a number that is none has a fault of its own. -/
def octetOf (outside : Fault) (d : Datum) : Except Fault UInt8 := do
  let n ← d.whole
  if 0 ≤ n ∧ n < 256 then return UInt8.ofInt n else throw outside

/-- The octets that a value gives. -/
def ofDatum (outside : Fault) (d : Datum) : Except Fault Octets :=
  match d with
  | .list items => do return .listed (← items.mapM (octetOf outside))
  | .map entries => do return .listed (← (entries.map Prod.fst).mapM (octetOf outside))
  | _ => do
      let n ← countOf d
      if n < 0 then throw .negativeCount else return .zeros n.toNat

@[simp] theorem length_toList (o : Octets) : o.toList.length = o.size := by
  cases o <;> simp [toList, size]

end Octets

end Emu8080
