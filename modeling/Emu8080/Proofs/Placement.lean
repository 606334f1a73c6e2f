/-
# Emu8080.Proofs.Placement -- bytes in their places

A list of places, each an address with a byte, is stored in order
(`Memory.storeEach`).  What an address holds afterwards is the byte of the last
place that names it, and the old byte where none does (`byteAt_storeEach`).

A run of bytes from an integer on has its places around the ring: `spread` counts
them in integers and reduces each one, and storing a run is storing its places
(`storeAll_eq`).
-/
import Emu8080.Memory
import Emu8080.Proofs.Word

namespace Emu8080.Memory

set_option autoImplicit false

/-- A byte and the address it is for. -/
abbrev Place := UInt16 × UInt8

/-- Store bytes in their places, in order. -/
def storeEach (m : Memory) (places : List Place) : Memory :=
  places.foldl (fun m place => m.store place.1 place.2) m

/-- The places of bytes that follow one another from an integer on, modulo the size of the
space. -/
def spread (start : Int) (bytes : List UInt8) : List Place :=
  bytes.zipIdx.map fun e => (UInt16.ofInt (start + e.2), e.1)

/-- The bytes of a memory are those that addresses hold. -/
theorem bytes_eq_of_byteAt {m m' : Memory} (h : ∀ a, m.byteAt a = m'.byteAt a) :
    m.bytes = m'.bytes := by
  ext i hi
  have hword : (UInt16.ofNat i).toNat = i := UInt16.toNat_ofNat_of_lt' hi
  have hbyte := h (UInt16.ofNat i)
  simp only [byteAt, hword] at hbyte
  rw [hbyte]

theorem ext_byteAt {m m' : Memory} (h : ∀ a, m.byteAt a = m'.byteAt a) (hlog : m.log = m'.log) :
    m = m' := by
  cases m
  cases m'
  cases bytes_eq_of_byteAt h
  cases hlog
  rfl

theorem storeEach_append (m : Memory) (places more : List Place) :
    m.storeEach (places ++ more) = (m.storeEach places).storeEach more := List.foldl_append

@[simp] theorem log_storeEach (m : Memory) (places : List Place) :
    (m.storeEach places).log = m.log := by
  induction places generalizing m with
  | nil => rfl
  | cons place rest ih => exact ih (m.store place.1 place.2)

/-- The byte of the last place that names an address, or the old byte. -/
theorem byteAt_storeEach (m : Memory) (places : List Place) (a : UInt16) :
    (m.storeEach places).byteAt a = (places.reverse.lookup a).getD (m.byteAt a) := by
  induction places generalizing m with
  | nil => rfl
  | cons place rest ih =>
    have hlast : (rest.reverse ++ [place]).lookup a
        = (rest.reverse.lookup a).or (if a = place.1 then some place.2 else none) := by
      rw [List.lookup_append, List.lookup_cons, List.lookup_nil]
      by_cases h : a = place.1
      · simp [h]
      · simp [h, beq_false_of_ne h]
    show ((m.store place.1 place.2).storeEach rest).byteAt a = _
    rw [ih, List.reverse_cons, hlast, byteAt_store]
    cases rest.reverse.lookup a with
    | some v => rfl
    | none =>
      rw [Option.none_or]
      split <;> rfl

@[simp] theorem length_spread (start : Int) (bytes : List UInt8) :
    (spread start bytes).length = bytes.length := by
  rw [spread, List.length_map, List.length_zipIdx]

theorem spread_cons (start : Int) (v : UInt8) (bytes : List UInt8) :
    spread start (v :: bytes) = (UInt16.ofInt start, v) :: spread (start + 1) bytes := by
  have hshift : bytes.zipIdx 1 = bytes.zipIdx.map fun e => (e.1, e.2 + 1) := by
    rw [List.zipIdx_succ]
  simp only [spread, List.zipIdx_cons, Nat.zero_add, List.map_cons, hshift, List.map_map]
  congr 1
  · simp
  · apply List.map_congr_left
    intro e _
    have hplace : start + ((e.2 + 1 : Nat) : Int) = start + 1 + e.2 := by omega
    simp only [Function.comp_apply, hplace]

/-- The places of a run that is continued. -/
theorem spread_append (start : Int) (bytes more : List UInt8) :
    spread start (bytes ++ more) = spread start bytes ++ spread (start + bytes.length) more := by
  induction bytes generalizing start with
  | nil =>
    rw [List.nil_append, List.length_nil, Int.natCast_zero, Int.add_zero]
    rfl
  | cons v rest ih =>
    have hnext : start + 1 + (rest.length : Int) = start + ((v :: rest).length : Int) := by
      rw [List.length_cons]
      omega
    rw [List.cons_append, spread_cons, spread_cons, ih, hnext, List.cons_append]

/-- A run of bytes is stored in its places. -/
theorem storeAll_eq (m : Memory) (start : Int) (bytes : List UInt8) :
    m.storeAll (UInt16.ofInt start) bytes = m.storeEach (spread start bytes) := by
  induction bytes generalizing m start with
  | nil => rfl
  | cons v rest ih =>
    have hnext : UInt16.ofInt start + 1 = UInt16.ofInt (start + 1) := (ofInt_add start 1).symm
    rw [storeAll, hnext, ih, spread_cons]
    rfl

end Emu8080.Memory
