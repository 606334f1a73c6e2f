/-
# Emu8080.Memory -- the 64 KiB address space

A memory is 65536 bytes and a log of the accesses that were made as bus
accesses.  Addresses are reduced modulo 65536, so the space is a ring and no
integer address is out of range; what is refused is an address that is no
integer, and data that is no byte.

`byteAt` is the view of a memory that proofs use: what each operation does to it
is stated by one lemma.  `read` and `write` are bus accesses and are logged;
`peek`, `load` and `put` serve hosts and leave no trace.
-/
import Emu8080.Action
import Emu8080.Octets

namespace Emu8080

set_option autoImplicit false

/-- One bus access.  A write records the data as it was given and the byte it replaced. -/
inductive Access
  | read (address : UInt16) (data : UInt8)
  | write (address : UInt16) (data : Datum) (previous : UInt8)
deriving Inhabited

namespace Access

def address : Access → UInt16
  | .read a _ => a
  | .write a _ _ => a

def isRead : Access → Bool
  | .read .. => true
  | .write .. => false

end Access

/-- The contents of the address space and the accesses since the log was last taken,
oldest first. -/
structure Memory where
  bytes : Vector UInt8 UInt16.size
  log : List Access := []

/-- The address an argument stands for, modulo the size of the space. -/
def addressOf (d : Datum) : Except Fault UInt16 :=
  match d.int? with
  | some n => .ok (UInt16.ofInt n)
  | none => .error (.showing d (.addressKind d))

/-- The byte an argument stands for. -/
def byteOf (d : Datum) : Except Fault UInt8 :=
  match d.within? 0xFF with
  | some n => .ok (UInt8.ofNat n)
  | none => .error (.showing d (.dataRange d))

/-- The longest run of bytes at the start of a list of values, and what follows it. -/
def leadingBytes : List Datum → List UInt8 × List Datum
  | [] => ([], [])
  | d :: rest =>
      match byteOf d with
      | .ok v => let (bytes, others) := leadingBytes rest; (v :: bytes, others)
      | .error _ => ([], d :: rest)

namespace Memory

open Emu8080.Action (demand)

/-- Every byte the same. -/
def filled (v : UInt8) : Memory := { bytes := Vector.replicate UInt16.size v }

def zero : Memory := filled 0

instance : Inhabited Memory := ⟨zero⟩

/-- The byte at an address. -/
def byteAt (m : Memory) (a : UInt16) : UInt8 :=
  have inside : a.toNat < UInt16.size := a.toNat_lt
  m.bytes[a.toNat]

/-- Replace the byte at an address. -/
def store (m : Memory) (a : UInt16) (v : UInt8) : Memory :=
  { m with bytes := m.bytes.set a.toNat v a.toNat_lt }

/-- Replace bytes from an address on, each at the address after the one before. -/
def storeAll (m : Memory) (a : UInt16) : List UInt8 → Memory
  | [] => m
  | v :: rest => (m.store a v).storeAll (a + 1) rest

/-- Add an access to the log. -/
def note (m : Memory) (access : Access) : Memory := { m with log := m.log ++ [access] }

/-- Read a byte over the bus. -/
def read (address : Datum) : Action Memory UInt8 := do
  let a ← demand (addressOf address)
  let v := (← get).byteAt a
  modify (·.note (.read a v))
  return v

/-- Write a byte over the bus. -/
def write (address data : Datum) : Action Memory Unit := do
  let a ← demand (addressOf address)
  let v ← demand (byteOf data)
  let previous := (← get).byteAt a
  modify fun m => (m.store a v).note (.write a data previous)

/-- Look at a byte without a trace. -/
def peek (address : Datum) : Action Memory UInt8 := do
  let a ← demand (addressOf address)
  return (← get).byteAt a

/-- Place values from an address on without a trace and count them.  The values before one
that is no byte stay placed. -/
def load (address : Datum) (values : List Datum) : Action Memory Nat := do
  let a ← demand (addressOf address)
  let (bytes, others) := leadingBytes values
  modify (·.storeAll a bytes)
  match others with
  | [] => return bytes.length
  | d :: _ => throw (.showing d (.dataRange d))

/-- Place one byte without a trace. -/
def put (address data : Datum) : Action Memory Unit := do
  let _ ← load address [data]

/-- Take the log, leaving it empty. -/
def takeLog : Action Memory (List Access) := do
  let m ← get
  set { m with log := [] }
  return m.log

theorem byteAt_zero (a : UInt16) : zero.byteAt a = 0 := by
  simp [byteAt, zero, filled]

theorem byteAt_store (m : Memory) (a b : UInt16) (v : UInt8) :
    (m.store a v).byteAt b = if b = a then v else m.byteAt b := by
  simp only [byteAt, store, Vector.getElem_set]
  by_cases h : b = a
  · simp [h]
  · have hne : a.toNat ≠ b.toNat := fun e => h (UInt16.toNat_inj.1 e).symm
    simp [h, hne]

@[simp] theorem log_store (m : Memory) (a : UInt16) (v : UInt8) : (m.store a v).log = m.log := rfl

@[simp] theorem byteAt_note (m : Memory) (access : Access) (a : UInt16) :
    (m.note access).byteAt a = m.byteAt a := rfl

end Memory

/-- How a host may hand over a buffer: octets that can be changed, octets that cannot, or a list
of values. -/
inductive BufferKind
  | mutable
  | frozen
  | items
deriving DecidableEq, Repr

/-- The bytes that a buffer of the host hands over, if it can be used.  A list is never looked
into: its number of items is all that is given of it. -/
def BufferKind.contents (kind : BufferKind) (given : Datum) : Except Fault Octets :=
  match kind with
  | .mutable => Octets.ofDatum .byteRange given
  | .frozen => do
      let _ ← Octets.ofDatum .octetRange given
      throw .bufferKind
  | .items => do
      let _ ← Octets.countOf given
      throw .bufferKind

namespace Memory

/-- A memory over a buffer of the host: it must be mutable octets, 65536 of them. -/
def ofBuffer (kind : BufferKind) (given : Datum) : Except Fault Memory := do
  let octets ← kind.contents given
  if octets.size ≠ UInt16.size then throw (.bufferSize octets.size)
  else return zero.storeAll 0 octets.toList

/-- A memory that a host fills with one byte. -/
def ofFill (d : Datum) : Except Fault Memory := do
  return filled (← Octets.octetOf .byteRange d)

end Memory

end Emu8080
