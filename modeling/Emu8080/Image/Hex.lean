/-
# Emu8080.Image.Hex -- hexadecimal images

The records of a file are carried out line by line.  Data goes to its address
counted from the present base, modulo 65536; a base record moves the base; an end
record ends the file, whatever follows.  The first record that is refused stops
the loading, and what the records before it placed stays.
-/
import Emu8080.Image.Record
import Emu8080.Image.Binary
import Emu8080.Text.Lines

namespace Emu8080.Image

set_option autoImplicit false

/-- Carry out the lines of a file from line `number` on, with the present base and the
count of bytes so far.  `damaged` says that the file breaks off after these lines. -/
def loadLines (damaged : Bool) (number base total : Nat) : List (List Char) → Action Memory Nat
  | [] => if damaged then throw .badEncoding else return total
  | line :: rest => do
      match Record.textOf? line with
      | none => loadLines damaged (number + 1) base total rest
      | some text =>
          match Record.parse text with
          | .error cause => throw (.record number cause)
          | .ok .endOfFile => return total
          | .ok .startAddress => loadLines damaged (number + 1) base total rest
          | .ok (.segmentBase value) => loadLines damaged (number + 1) (value * 16) total rest
          | .ok (.linearBase value) => loadLines damaged (number + 1) (value * 65536) total rest
          | .ok (.data address bytes) =>
              modify (·.storeAll (UInt16.ofInt (base + address)) bytes)
              loadLines damaged (number + 1) base (total + bytes.length) rest

/-- Load a hexadecimal image and count the data bytes it placed. -/
def loadHex (bytes : List UInt8) : Action Memory Nat :=
  let text := Text.decodeUtf8 bytes
  loadLines text.damaged 1 0 0 text.lines

/-- The notice of a loaded hexadecimal image. -/
def hexNotice (path : Text) (count : Nat) : Notice :=
  { level := .debug
    text := "Loaded " ++ Text.decimal count ++ " bytes from Intel HEX file " ++ path }

end Emu8080.Image
