/-
# Emu8080.Store -- a host's view of the memory

What a host asks of a memory from outside: bus accesses, silent accesses, the
log, images from its files, and reports on the contents.  Each request is a
value, so that a sequence of them can be reasoned about.
-/
import Emu8080.Image.Hex

namespace Emu8080

set_option autoImplicit false

/-- A report on the contents: how many bytes are not zero, the sum of all bytes weighted by
their position counted from one, and the first of the bytes that are not zero. -/
structure MemorySummary where
  nonzero : Nat
  weighted : Nat
  first : List (Nat × UInt8)
deriving DecidableEq, Repr

/-- How many bytes a summary shows. -/
def MemorySummary.shown : Nat := 64

/-- The report on a memory. -/
def Memory.summary (m : Memory) : MemorySummary :=
  let nonzero := (List.range UInt16.size).filterMap fun i =>
    let v := m.byteAt (UInt16.ofNat i)
    if v = 0 then none else some (i, v)
  { nonzero := nonzero.length
    weighted := nonzero.foldr (fun e total => (e.1 + 1) * e.2.toNat + total) 0
    first := nonzero.take MemorySummary.shown }

/-- The bytes from an address on. -/
def Memory.slice (m : Memory) (address : Int) (count : Nat) : List UInt8 :=
  (List.range count).map fun (i : Nat) => m.byteAt (UInt16.ofInt (address + i))

/-- A request to a memory. -/
inductive MemoryRequest
  | read (address : Datum)
  | write (address data : Datum)
  | peek (address : Datum)
  | put (address data : Datum)
  | load (address values : Datum)
  | takeLog
  | size
  | summary
  | slice (address count : Datum)
  | loadBinary (name address : Datum)
  | loadHex (name : Datum)

/-- The answer of a memory. -/
inductive MemoryAnswer
  | nothing
  | byte (v : UInt8)
  | count (n : Nat)
  | log (accesses : List Access)
  | summary (s : MemorySummary)
  | slice (bytes : List UInt8)
  /-- A loaded image, with the notice of it. -/
  | loaded (count : Nat) (notice : Notice)

/-- The address that a report on bytes starts from.  A fraction is a number, but no address. -/
def sliceStart (address : Datum) : Except Fault Int :=
  match address with
  | .float _ => .error (.addressKind address)
  | _ => address.whole

/-- The bytes that a host asks for by values; a count that is not positive asks for none. -/
def Memory.sliceOf (m : Memory) (address count : Datum) : Except Fault (List UInt8) := do
  let n ← count.whole
  if n ≤ 0 then return [] else return m.slice (← sliceStart address) n.toNat

/-- Place the elements of a value, once the address is known to be one. -/
def Memory.loadElements (address values : Datum) : Action Memory Nat := do
  let _ ← Action.demand (addressOf address)
  Memory.load address (← Action.demand values.elements)

/-- Answer a request, taking images from the given files. -/
def MemoryRequest.answer (files : Files) : MemoryRequest → Action Memory MemoryAnswer
  | .read address => do return .byte (← Memory.read address)
  | .write address data => do
      Memory.write address data
      return .nothing
  | .peek address => do return .byte (← Memory.peek address)
  | .put address data => do
      Memory.put address data
      return .nothing
  | .load address values => do return .count (← Memory.loadElements address values)
  | .takeLog => do return .log (← Memory.takeLog)
  | .size => return .count UInt16.size
  | .summary => do return .summary (← get).summary
  | .slice address count => do
      return .slice (← Action.demand ((← get).sliceOf address count))
  | .loadBinary name address => do
      let (path, bytes) ← Action.demand (files.read name)
      let count ← Image.loadBinary path bytes address
      return .loaded count (Image.binaryNotice path address count)
  | .loadHex name => do
      let (path, bytes) ← Action.demand (files.read name)
      let count ← Image.loadHex bytes
      return .loaded count (Image.hexNotice path count)

end Emu8080
