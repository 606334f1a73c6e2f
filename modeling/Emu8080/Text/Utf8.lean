/-
# Emu8080.Text.Utf8 -- decoding bytes as they arrive

A text is decoded octet by octet.  Between octets a `Pending` remembers how many
continuation octets are owed and which range the next one has to lie in; the
ranges after E0, ED, F0 and F4 are what rules out overlong forms, surrogates and
numbers past the last code point.

A file is read in blocks.  An octet that cannot continue the text damages the
whole block it stands in: the characters of the blocks before it are delivered,
and nothing after.  A text that ends inside a character is damaged at its end.
Where a block ends after two octets of a surrogate, they wait for the third like
those of any character, and the damage is found behind that block.
-/
namespace Emu8080.Text

set_option autoImplicit false

/-- The decoder between two octets. -/
structure Pending where
  owed : Nat := 0
  value : Nat := 0
  low : Nat := 0x80
  high : Nat := 0xBF
deriving DecidableEq, Repr

namespace Pending

/-- Between two characters. -/
def start : Pending := {}

/-- The first octet of a character. -/
def lead (v : Nat) : Option (Pending × Option Char) :=
  if v < 0x80 then some (start, some (Char.ofNat v))
  else if v < 0xC2 then none
  else if v < 0xE0 then some ({ owed := 1, value := v % 0x20 }, none)
  else if v = 0xE0 then some ({ owed := 2, value := 0, low := 0xA0 }, none)
  else if v = 0xED then some ({ owed := 2, value := 0xD, high := 0x9F }, none)
  else if v < 0xF0 then some ({ owed := 2, value := v % 0x10 }, none)
  else if v = 0xF0 then some ({ owed := 3, value := 0, low := 0x90 }, none)
  else if v < 0xF4 then some ({ owed := 3, value := v % 8 }, none)
  else if v = 0xF4 then some ({ owed := 3, value := 4, high := 0x8F }, none)
  else none

/-- Take one octet, perhaps completing a character. -/
def accept (p : Pending) (octet : UInt8) : Option (Pending × Option Char) :=
  let v := octet.toNat
  if p.owed = 0 then lead v
  else if v < p.low ∨ p.high < v then none
  else
    let value := p.value * 0x40 + v % 0x40
    if p.owed = 1 then some (start, some (Char.ofNat value))
    else some ({ owed := p.owed - 1, value }, none)

/-- Whether an octet is the second of a surrogate, which the third would complete. -/
def halvesSurrogate (p : Pending) (octet : UInt8) : Bool :=
  p.owed = 2 && p.high = 0x9F && 0xA0 ≤ octet.toNat && octet.toNat ≤ 0xBF

theorem accept_ascii (v : UInt8) (h : v.toNat < 0x80) :
    start.accept v = some (start, some (Char.ofNat v.toNat)) := by
  simp [accept, lead, start, h]

end Pending

/-- A text as far as it could be decoded. -/
structure Decoded where
  chars : List Char
  damaged : Bool
deriving DecidableEq, Repr

/-- How many octets are read at a time. -/
def blockSize : Nat := 8192

/-- Decode the rest of a file.  `done` holds the characters of finished blocks and `block`
those of the present one, newest first; `room` octets of the present block are left. -/
def decodeFrom (done block : List Char) (room : Nat) (p : Pending) : List UInt8 → Decoded
  | [] => ⟨(block ++ done).reverse, p.owed ≠ 0⟩
  | octet :: rest =>
      match p.accept octet with
      | none =>
          let waits := p.halvesSurrogate octet && (rest.isEmpty || room ≤ 1)
          ⟨if waits then (block ++ done).reverse else done.reverse, true⟩
      | some (next, c?) =>
          let block := match c? with
            | some c => c :: block
            | none => block
          if room ≤ 1 then decodeFrom (block ++ done) [] blockSize next rest
          else decodeFrom done block (room - 1) next rest

/-- Decode a file. -/
def decodeUtf8 (octets : List UInt8) : Decoded := decodeFrom [] [] blockSize .start octets

end Emu8080.Text
