/-
# Emu8080.Proofs.Word -- bytes and words as numbers

A `Machine` computes on integers and reduces them; a `Chip` holds bytes and
words.  The lemmas here say that the reductions are the ones that `UInt8` and
`UInt16` make by themselves: packing two bytes is the word of both, taking a
word apart gives its bytes, and an integer that is a byte or a word already is
found again.
-/
import Emu8080.Register

namespace Emu8080

set_option autoImplicit false

/-- The word with the given bytes. -/
def ofBytes (high low : UInt8) : UInt16 := UInt16.ofNat (256 * high.toNat + low.toNat)

def highByte (w : UInt16) : UInt8 := UInt8.ofNat (w.toNat / 256)

def lowByte (w : UInt16) : UInt8 := UInt8.ofNat w.toNat

theorem toNat_ofBytes (high low : UInt8) :
    (ofBytes high low).toNat = 256 * high.toNat + low.toNat := by
  have hhigh := high.toNat_lt
  have hlow := low.toNat_lt
  exact UInt16.toNat_ofNat_of_lt' (by simp only [UInt16.size]; omega)

theorem toNat_highByte (w : UInt16) : (highByte w).toNat = w.toNat / 256 := by
  have hw := w.toNat_lt
  exact UInt8.toNat_ofNat_of_lt' (by simp only [UInt8.size]; omega)

theorem toNat_lowByte (w : UInt16) : (lowByte w).toNat = w.toNat % 256 := UInt8.toNat_ofNat'

theorem highByte_ofBytes (high low : UInt8) : highByte (ofBytes high low) = high := by
  apply UInt8.toNat_inj.1
  have hlow := low.toNat_lt
  rw [toNat_highByte, toNat_ofBytes]
  omega

theorem lowByte_ofBytes (high low : UInt8) : lowByte (ofBytes high low) = low := by
  apply UInt8.toNat_inj.1
  have hlow := low.toNat_lt
  rw [toNat_lowByte, toNat_ofBytes]
  omega

theorem ofBytes_highByte_lowByte (w : UInt16) : ofBytes (highByte w) (lowByte w) = w := by
  apply UInt16.toNat_inj.1
  have hw := w.toNat_lt
  rw [toNat_ofBytes, toNat_highByte, toNat_lowByte]
  omega

theorem pack_toNat (high low : UInt8) :
    pack (high.toNat : Int) (low.toNat : Int) = ((ofBytes high low).toNat : Int) := by
  have hhigh := high.toNat_lt
  have hlow := low.toNat_lt
  rw [toNat_ofBytes, pack]
  omega

theorem unpack_toNat (w : UInt16) :
    unpack (w.toNat : Int) = (((highByte w).toNat : Int), ((lowByte w).toNat : Int)) := by
  have hw := w.toNat_lt
  rw [toNat_highByte, toNat_lowByte, unpack, Prod.mk.injEq]
  omega

theorem ofInt_toNat (a : UInt16) : UInt16.ofInt (a.toNat : Int) = a := by
  have ha := a.toNat_lt
  have hmod : ((a.toNat : Int) % 2 ^ 16).toNat = a.toNat := by omega
  rw [UInt16.ofInt, hmod, UInt16.ofNat_toNat]

theorem ofInt_byte_toNat (v : UInt8) : UInt8.ofInt (v.toNat : Int) = v := by
  have hv := v.toNat_lt
  have hmod : ((v.toNat : Int) % 2 ^ 8).toNat = v.toNat := by omega
  rw [UInt8.ofInt, hmod, UInt8.ofNat_toNat]

/-- The word of an integer is its remainder. -/
theorem ofInt_eq_iff (n : Int) (w : UInt16) : UInt16.ofInt n = w ↔ n % 65536 = w.toNat := by
  rw [← UInt16.toNat_inj, UInt16.ofInt, UInt16.toNat_ofNat']
  omega

/-- A byte is its own remainder. -/
theorem byte_emod (v : UInt8) : (v.toNat : Int) % 256 = v.toNat := by
  have hv := v.toNat_lt
  omega

/-- A word is its own remainder. -/
theorem word_emod (w : UInt16) : (w.toNat : Int) % 65536 = w.toNat := by
  have hw := w.toNat_lt
  omega

/-- Reducing an integer twice is reducing it once. -/
theorem ofInt_emod (n : Int) : UInt16.ofInt (n % 65536) = UInt16.ofInt n := by
  have hmod : (n % 65536 % 2 ^ 16).toNat = (n % 2 ^ 16).toNat := by omega
  rw [UInt16.ofInt, UInt16.ofInt, hmod]

/-- Moving on from an integer is moving on from its word. -/
theorem ofInt_add (n : Int) (k : Nat) :
    UInt16.ofInt (n + k) = UInt16.ofInt n + UInt16.ofNat k := by
  apply UInt16.toNat_inj.1
  simp only [UInt16.ofInt, UInt16.toNat_add, UInt16.toNat_ofNat']
  omega

/-- Moving on from an address is addition of words. -/
theorem advance_toNat (a : UInt16) (n : Nat) :
    ((a.toNat : Int) + n) % 65536 = ((a + UInt16.ofNat n).toNat : Int) := by
  rw [UInt16.toNat_add, UInt16.toNat_ofNat']
  omega

end Emu8080
