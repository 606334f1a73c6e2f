/-
# Emu8080.Files -- the files of a host

A host keeps files in a directory of its own and names them by paths: parts with
slashes between them.  Empty parts and `.` stay where they are, `..` goes up, and
every part but the last has to lead to a directory.  No directory is ever made,
so the only ones that names reach are the host's own, those above it, and the
root.  What else may be in them is unknown; a file is there if it was written.

A file lies in a `Slot`, and names that lead to one slot mean one file.  Writing
takes the slot before it looks at what to write: a file whose contents are
refused is there all the same, and empty.
-/
import Emu8080.Action
import Emu8080.Octets

namespace Emu8080

set_option autoImplicit false

/-- A directory that names lead to: the root, or the one so many levels above the host's own. -/
inductive Directory
  | root
  | above (levels : Nat)
deriving DecidableEq, Repr

namespace Directory

/-- The host's own directory. -/
def own : Directory := .above 0

/-- The directory above; the root has none but itself. -/
def parent : Directory → Directory
  | .root => .root
  | .above levels => .above (levels + 1)

end Directory

/-- Where a file lies. -/
structure Slot where
  directory : Directory
  name : Text
deriving DecidableEq, Repr

/-- The files a host has written, each in its slot. -/
abbrev Files := List (Slot × List UInt8)

namespace Files

/-- The contents of a slot. -/
def contents? (files : Files) (slot : Slot) : Option (List UInt8) := files.lookup slot

/-- Put contents into a slot, in place of those it has. -/
def put (slot : Slot) (bytes : List UInt8) : Files → Files
  | [] => [(slot, bytes)]
  | (other, old) :: rest =>
      if other = slot then (slot, bytes) :: rest else (other, old) :: put slot bytes rest

/-- Cut a name at its slashes. -/
def partsOf : List CodePoint → List Text
  | [] => [⟨[]⟩]
  | c :: rest =>
      if c = .char '/' then ⟨[]⟩ :: partsOf rest
      else
        match partsOf rest with
        | [] => [⟨[c]⟩]
        | part :: parts => ⟨c :: part.points⟩ :: parts

/-- Whether a part of a name stays where it is. -/
def staysPut (part : Text) : Bool := part.isEmpty || part == "."

/-- Whether a part of a name leads up. -/
def leadsUp (part : Text) : Bool := part == ".."

/-- How many octets stand for a code point in a name.  The surrogates from U+DC80 to U+DCFF
stand for single octets. -/
def octetsOf? : CodePoint → Option Nat
  | .char c => some c.utf8Size
  | .surrogate offset => if 0x480 ≤ offset.val ∧ offset.val < 0x500 then some 1 else none

/-- How many octets a name has, if it can be encoded. -/
def octets? (name : Text) : Option Nat :=
  (name.points.mapM octetsOf?).map fun counts => counts.foldl (· + ·) 0

/-- The most octets in a part of a name, and one more than the most in a name. -/
def maxPartOctets : Nat := 255

def nameOctetsBound : Nat := 4096

/-- Whether a part of a name has more octets than parts can have. -/
def isTooLong (part : Text) : Bool := (octets? part).any (maxPartOctets < ·)

/-- The parts of a name that can be looked for. -/
def parts (name : Text) : Except NameFault (List Text) :=
  match octets? name with
  | none => .error .unencodable
  | some octets =>
      if name.points.contains (.char (Char.ofNat 0)) then .error .nul
      else if nameOctetsBound ≤ octets then .error .unopenable
      else if name.isEmpty then .error .missing
      else .ok (partsOf name.points)

/-- Where the parts of a name have led. -/
inductive Place
  | directory (d : Directory)
  | file (bytes : List UInt8)

/-- Where the way of a name begins: one that starts with a slash begins at the root. -/
def start (name : Text) : Place :=
  .directory (if name.points.head? = some (.char '/') then .root else .own)

/-- Follow one part of a name. -/
def follow (files : Files) (here : Place) (part : Text) : Except NameFault Place :=
  match here with
  | .file _ => .error .notDirectory
  | .directory d =>
      if isTooLong part then .error .unopenable
      else if staysPut part then .ok here
      else if leadsUp part then .ok (.directory d.parent)
      else
        match files.contents? ⟨d, part⟩ with
        | some bytes => .ok (.file bytes)
        | none => .error .missing

/-- The contents of a file by its name. -/
def find (files : Files) (name : Text) : Except NameFault (List UInt8) := do
  match ← (← parts name).foldlM (follow files) (start name) with
  | .file bytes => return bytes
  | .directory _ => throw .isDirectory

/-- The slot that a name stands for where a file is to be written.  A name with a slash at its
end asks for a directory. -/
def slotOf (files : Files) (name : Text) : Except NameFault Slot := do
  let all ← parts name
  let parts := (all.reverse.dropWhile Text.isEmpty).reverse
  match parts.getLast? with
  | none => throw .isDirectory
  | some last =>
      match ← parts.dropLast.foldlM (follow files) (start name) with
      | .file _ => throw .notDirectory
      | .directory d =>
          if all.length ≠ parts.length ∨ staysPut last ∨ leadsUp last then throw .isDirectory
          else if isTooLong last then throw .unopenable
          else return ⟨d, last⟩

/-- The outcome of looking for a name, as a fault where it failed. -/
def orFault {α : Type} (x : Except NameFault α) : Except Fault α :=
  match x with
  | .ok a => .ok a
  | .error cause => .error (.file cause)

/-- Write a file.  It is there, and empty, before its contents are looked at. -/
def write (name : Text) (contents : Except Fault Octets) : Action Files Unit := do
  let slot ← Action.demand (orFault ((← get).slotOf name))
  modify (put slot [])
  let octets ← Action.demand contents
  modify (put slot octets.toList)

/-- One more than the greatest handle. -/
def handleBound : Int := 0x80000000

/-- The name and the contents of the file that a value names.  A small integer is taken for
the handle of an open file, and none is open. -/
def read (files : Files) (d : Datum) : Except Fault (Text × List UInt8) :=
  match d with
  | .str name => do return (name, ← orFault (files.find name))
  | _ => do
      let n ← d.whole
      if n < -handleBound ∨ handleBound ≤ n then throw .wrongKind
      else if n < 0 then throw (.file .negativeHandle)
      else throw (.file .unopenable)

/-- Names that lead to one slot mean one file. -/
example : slotOf [] ".//./a" = .ok ⟨.own, "a"⟩ := by rfl

end Files

end Emu8080
