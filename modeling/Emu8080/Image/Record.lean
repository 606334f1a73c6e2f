/-
# Emu8080.Image.Record -- records of a hexadecimal image

A record is a colon, a length byte, an address word, a type byte, that many data
bytes and a checksum byte, all in hexadecimal.  Lines that do not begin with a
colon are comments, and a semicolon begins a comment within a line.

The fields are read as numerals, so what a numeral may contain, a field may
contain: blanks around it, a sign, low lines.  The data bytes are pairs of
digits, with blanks allowed between pairs.
-/
import Emu8080.Fault
import Emu8080.Text.Numeral

namespace Emu8080

set_option autoImplicit false

/-- What a record asks for. -/
inductive Record
  /-- Place data bytes; the address counts from the present base. -/
  | data (address : Int) (bytes : List UInt8)
  | endOfFile
  /-- Set the base from a segment or from an upper half of an address. -/
  | segmentBase (value : Nat)
  | linearBase (value : Nat)
  /-- A start address, which the loader passes over. -/
  | startAddress
deriving DecidableEq, Repr

namespace Record

/-- The shortest record there is. -/
def minLength : Nat := 11

/-- The text of a record on a line, if there is one: blanks and the comment are cut off. -/
def textOf? (line : List Char) : Option (List Char) :=
  match Text.trim line with
  | ':' :: rest =>
      let record := ':' :: rest
      if record.contains ';' then some (Text.trim (record.takeWhile (· ≠ ';'))) else some record
  | _ => none

/-- Read pairs of digits; `position` counts the characters before. -/
def bytePairs (position : Nat) : List Char → Except HexFault (List UInt8)
  | [] => .ok []
  | c :: rest =>
      if Text.isAsciiBlank c then bytePairs (position + 1) rest
      else
        match Text.hexDigit? c, rest with
        | none, _ => .error (.digitAt position)
        | some _, [] => .error (.digitAt (position + 1))
        | some high, d :: more =>
            match Text.hexDigit? d with
            | none => .error (.digitAt (position + 1))
            | some low => do
                return UInt8.ofNat (high * 16 + low) :: (← bytePairs (position + 2) more)

/-- Read data bytes.  A character outside ASCII is found before anything else. -/
def dataBytes (chars : List Char) : Except HexFault (List UInt8) :=
  match chars.findIdx? fun c => 0x80 ≤ c.toNat with
  | some position => .error (.digitAt position)
  | none => bytePairs 0 chars

/-- The octets that a host writes as a text of hexadecimal digits, by the rule of data bytes. -/
def octetsOf (t : Text) : Except Fault (List UInt8) :=
  let read := match t.chars? with
    | some chars => dataBytes chars
    | none => .error (.digitAt (t.points.findIdx fun (c : CodePoint) => 0x80 ≤ c.toNat))
  match read with
  | .ok bytes => .ok bytes
  | .error cause => .error (.octetText cause)

/-- Read a field as a hexadecimal numeral. -/
def field (chars : List Char) : Except HexFault Int :=
  match Text.hexInt? chars with
  | some n => .ok n
  | none => .error (.numeral (String.ofList chars))

/-- The fields of a record as they are written. -/
structure Fields where
  length : Int
  address : Int
  type : Int
  checksum : Int
  bytes : List UInt8
deriving DecidableEq, Repr

/-- Cut a record into its fields by position and read them, the data last. -/
def fields (record : List Char) : Except HexFault Fields := do
  let length ← field ((record.drop 1).take 2)
  let address ← field ((record.drop 3).take 4)
  let type ← field ((record.drop 7).take 2)
  let checksum ← field (record.drop (record.length - 2))
  let bytes ← dataBytes ((record.take (record.length - 2)).drop 9)
  return { length, address, type, checksum, bytes }

/-- The checksum that fields call for: the two's complement of the sum of their bytes. -/
def Fields.expected (f : Fields) : Nat :=
  let total := f.length + f.address / 256 + f.address % 256 + f.type
    + (f.bytes.foldr (fun v total => v.toNat + total) 0 : Nat)
  ((-total) % 256).toNat

/-- The number whose bytes these are, highest first. -/
def bigEndian (bytes : List UInt8) : Nat := bytes.foldl (fun n v => n * 256 + v.toNat) 0

/-- What fields ask for, by their type. -/
def ofFields (f : Fields) : Except RecordFault Record :=
  if (f.bytes.length : Int) ≠ f.length then .error .dataLength
  else if (f.expected : Int) ≠ f.checksum then .error (.checksum f.expected f.checksum)
  else if f.type = 0 then .ok (.data f.address f.bytes)
  else if f.type = 1 then .ok .endOfFile
  else if f.type = 2 ∨ f.type = 4 then
    if f.bytes.length ≠ 2 then .error (.extendedLength f.bytes.length)
    else .ok (if f.type = 2 then .segmentBase (bigEndian f.bytes) else .linearBase (bigEndian f.bytes))
  else if f.type = 3 ∨ f.type = 5 then .ok .startAddress
  else .error (.unknownType f.type)

/-- Read a record. -/
def parse (record : List Char) : Except RecordFault Record :=
  if record.length < minLength then .error (.tooShort (String.ofList record))
  else
    match fields record with
    | .error cause => .error (.field (String.ofList record) cause)
    | .ok f => ofFields f

end Record

end Emu8080
