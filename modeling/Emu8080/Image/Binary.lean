/-
# Emu8080.Image.Binary -- raw images

A raw image is placed byte for byte from an address on.  It may wrap around the
end of the address space once; a longer one is refused before anything is placed.
-/
import Emu8080.Files
import Emu8080.Memory
import Emu8080.Notice

namespace Emu8080

set_option autoImplicit false

namespace Image

/-- Place a raw image and count its bytes. -/
def loadBinary (path : Text) (bytes : List UInt8) (address : Datum) : Action Memory Nat := do
  if UInt16.size < bytes.length then throw (.imageSize path bytes.length)
  Memory.load address (bytes.map fun v => .int v.toNat)

/-- The notice of a placed raw image. -/
def binaryNotice (path : Text) (address : Datum) (count : Nat) : Notice :=
  { level := .debug
    text := "Loaded " ++ Text.decimal count ++ " bytes from " ++ path ++ " at "
      ++ Text.address ((address.int?.getD 0) % 65536) }

end Image

end Emu8080
