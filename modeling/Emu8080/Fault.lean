/-
# Emu8080.Fault -- why an operation was refused

A `Fault` is a cause, with the values that its message shows.  The wording is in
`Fault.message` alone.

Causes fall into families: an opcode the core does not implement, an access the
memory refuses, a register outside its domain after an instruction, a
configuration or image that cannot be used, an argument outside its domain, a
file that cannot be opened, a value with too few or too many parts, and the plain
mismatches (a value of the wrong kind, a missing attribute, entry or element) that
need no words of their own.

A message that shows a value can only be made if the value can be written.
`Fault.showing` puts the other fault in its place where it cannot.
-/
import Emu8080.Datum.Text
import Emu8080.Flags

namespace Emu8080

set_option autoImplicit false

/-- A set of named alternatives that a value was looked up in. -/
inductive Choice
  | flagPolicy
  | trapPolicy
  | breakpointKind
deriving DecidableEq, Repr

def Choice.name : Choice → String
  | .flagPolicy => "FlagPolicy"
  | .trapPolicy => "TrapPolicy"
  | .breakpointKind => "BreakpointConditionType"

/-- Why a configuration document cannot be used. -/
inductive ConfigFault
  | rootKind
  | architecture (given : Text)
  | choice (key : String) (given : Text) (expected : List String)
  | integer (given : Datum)
  | maxSteps (given : Int)
  | imageFormat (given : Datum)
  | imagePath
  | register (given : Datum)

namespace ConfigFault

def message : ConfigFault → Text
  | .rootKind => "Configuration root must be a mapping."
  | .architecture given => "Unsupported architecture: " ++ given
  | .choice key given expected =>
      "Invalid " ++ key ++ ": " ++ given ++ " (expected one of " ++ ", ".intercalate expected ++ ")"
  | .integer given => "Invalid integer format: " ++ given.text
  | .maxSteps given => "max_steps must be positive: " ++ Text.decimalInt given
  | .imageFormat given => "Unknown image format: " ++ given.text
  | .imagePath => "Program image entry requires a 'path'."
  | .register given => "Unknown register in initial_state: " ++ given.text

end ConfigFault

/-- How much of a quoted numeral a message shows. -/
def shownNumeralLength : Nat := 200

/-- The message of a text that is no numeral. -/
def numeralMessage (base : Nat) (given : Text) : String :=
  "invalid literal for int() with base " ++ Text.decimal base ++ ": "
    ++ String.ofList ((Text.quoted given).toList.take shownNumeralLength)

/-- Why a field of a record is no hexadecimal text. -/
inductive HexFault
  | numeral (field : String)
  | digitAt (position : Nat)

namespace HexFault

def message : HexFault → String
  | .numeral field => numeralMessage 16 field
  | .digitAt position =>
      "non-hexadecimal number found in fromhex() arg at position " ++ Text.decimal position

end HexFault

/-- Why a record of a hexadecimal image was refused. -/
inductive RecordFault
  | tooShort (record : String)
  | field (record : String) (cause : HexFault)
  | dataLength
  | checksum (calculated : Nat) (expected : Int)
  | extendedLength (given : Nat)
  | unknownType (given : Int)

/-- The message of a refused record; the line it stands on is part of it. -/
def RecordFault.message (line : Nat) : RecordFault → String
  | .tooShort record =>
      "Invalid Intel HEX record format on line " ++ Text.decimal line ++ ": Too short - " ++ record
  | .field record cause =>
      "Error parsing Intel HEX line " ++ Text.decimal line ++ ": " ++ record ++ " - " ++ cause.message
  | .dataLength => "Data length mismatch on line " ++ Text.decimal line
  | .checksum calculated expected =>
      "Checksum mismatch on line " ++ Text.decimal line ++ ": Calculated "
        ++ Text.hexField 2 calculated ++ ", Expected " ++ Text.hexUpperInt 2 expected
  | .extendedLength given =>
      "Extended address record on line " ++ Text.decimal line
        ++ " must carry 2 data bytes, got " ++ Text.decimal given
  | .unknownType given =>
      "Unknown Intel HEX record type " ++ Text.hexUpperInt 2 given ++ " on line " ++ Text.decimal line

/-- Why a value does not have the parts it is asked for. -/
inductive PartsFault
  /-- A pair has fewer than two parts. -/
  | tooFew (given : Nat)
  /-- A pair has more than two parts. -/
  | tooMany
  /-- An entry of a list of entries is no pair. -/
  | entry (position given : Nat)

namespace PartsFault

def message : PartsFault → String
  | .tooFew given =>
      "not enough values to unpack (expected 2, got " ++ Text.decimal given ++ ")"
  | .tooMany => "too many values to unpack (expected 2)"
  | .entry position given =>
      "dictionary update sequence element #" ++ Text.decimal position ++ " has length "
        ++ Text.decimal given ++ "; 2 is required"

end PartsFault

/-- Why a name cannot be opened as a file. -/
inductive NameFault
  /-- The name holds a surrogate that no octet stands for. -/
  | unencodable
  | nul
  | missing
  | isDirectory
  /-- A part of the name that is not the last one is a file. -/
  | notDirectory
  /-- A handle that is not open, or a name longer than names can be. -/
  | unopenable
  | negativeHandle

/-- The cause of a refusal. -/
inductive Fault
  /-- An opcode without an implementation was fetched at `pc`. -/
  | unimplemented (opcode : UInt8) (pc mnemonic : Datum)
  | addressKind (given : Datum)
  | dataRange (given : Datum)
  | bufferKind
  | bufferSize (given : Nat)
  | registerRange (name : String) (given : Datum)
  | flagRange (flag : Flag) (given : Datum)
  | interruptRange (given : Datum)
  | config (cause : ConfigFault)
  | imageSize (path : Text) (given : Nat)
  | record (line : Nat) (cause : RecordFault)
  | adderWidth (given : Datum)
  | unknownChoice (choice : Choice) (given : Datum)
  | historySize
  /-- A size that is negative. -/
  | negativeCount
  /-- An integer that is no byte, where a buffer that can be changed is filled. -/
  | byteRange
  /-- An integer that is no octet, where the octets of a file or of a frozen buffer are listed. -/
  | octetRange
  /-- A text that does not write octets in hexadecimal. -/
  | octetText (cause : HexFault)
  | numeral (base : Nat) (given : Text)
  /-- A decimal numeral with too many digits to be read. -/
  | longNumeral (digits : Nat)
  /-- An integer with too many digits to be written. -/
  | longInteger
  /-- A value of the named kind has no form as an address. -/
  | addressForm (kind : String)
  /-- An escape in a document names no code point. -/
  | codePoint
  /-- An integer is past the range of what is to hold it. -/
  | overflow
  | parts (cause : PartsFault)
  | file (cause : NameFault)
  | wrongKind
  | noAttribute
  | noEntry
  | pastEnd
  | badEncoding
  | malformedDocument
  /-- A document nests deeper than it may. -/
  | tooDeep

namespace Fault

/-- The limit on integers as messages state it. -/
def limitMessage : String :=
  "Exceeds the limit (" ++ Text.decimal Text.maxDecimalDigits
    ++ " digits) for integer string conversion"

/-- What raises the limit. -/
def limitAdvice : String := "; use sys.set_int_max_str_digits() to increase the limit"

def message : Fault → Text
  | .unimplemented opcode pc mnemonic =>
      "Unimplemented instruction 0x" ++ Text.hexField 2 opcode.toNat ++ " at PC "
        ++ Text.address (pc.int?.getD 0)
        ++ (if mnemonic.truthy then " (" ++ mnemonic.text ++ ")" else ("" : Text))
  | .addressKind given => "Address " ++ given.repr ++ " is not an integer."
  | .dataRange given => "Data " ++ given.text ++ " is not an 8-bit value."
  | .bufferKind => "Memory buffer must be a bytearray."
  | .bufferSize given =>
      "Memory buffer must be exactly 65536 bytes, got " ++ Text.decimal given ++ "."
  | .registerRange name given => "Register " ++ name ++ " out of range: " ++ given.repr
  | .flagRange flag given => "Flag " ++ flag.label ++ " is not a single bit: " ++ given.repr
  | .interruptRange given => "Interrupt enable is not a single bit: " ++ given.repr
  | .config cause => cause.message
  | .imageSize path given =>
      "Image " ++ path ++ " is larger than the 64KB address space (" ++ Text.decimal given
        ++ " bytes)."
  | .record line cause => cause.message line
  | .adderWidth given => "Unsupported adder width: " ++ given.text
  | .unknownChoice choice given => given.repr ++ " is not a valid " ++ choice.name
  | .historySize => "maxlen must be non-negative"
  | .negativeCount => "negative count"
  | .byteRange => "byte must be in range(0, 256)"
  | .octetRange => "bytes must be in range(0, 256)"
  | .octetText cause => cause.message
  | .numeral base given => numeralMessage base given
  | .longNumeral digits =>
      limitMessage ++ ": value has " ++ Text.decimal digits ++ " digits" ++ limitAdvice
  | .longInteger => limitMessage ++ limitAdvice
  | .addressForm kind => "Unknown format code 'x' for object of type '" ++ kind ++ "'"
  | .codePoint => "chr() arg not in range(0x110000)"
  | .overflow => "integer out of range"
  | .parts cause => cause.message
  | .file .unencodable => "name cannot be encoded"
  | .file .nul => "embedded null byte"
  | .file .missing => "no such file"
  | .file .isDirectory => "is a directory"
  | .file .notDirectory => "not a directory"
  | .file .unopenable => "cannot be opened"
  | .file .negativeHandle => "negative file descriptor"
  | .wrongKind => "a value of the wrong kind"
  | .noAttribute => "no such attribute"
  | .noEntry => "no such entry"
  | .pastEnd => "past the end"
  | .badEncoding => "not UTF-8"
  | .malformedDocument => "malformed document"
  | .tooDeep => "nested too deeply"

/-- The fault whose message shows a value, if the value can be written. -/
def showing (given : Datum) (fault : Fault) : Fault :=
  if given.isShowable then fault else .longInteger

/-- The fault of reaching an opcode without an implementation.  Naming the place takes a
program counter that can be written as an address, and then a mnemonic that can be written. -/
def trap (opcode : UInt8) (pc mnemonic : Datum) : Fault :=
  match pc with
  | .float _ => .addressForm "float"
  | .str _ => .addressForm "str"
  | _ =>
      match pc.int? with
      | some _ => showing mnemonic (.unimplemented opcode pc mnemonic)
      | none => .wrongKind

theorem showing_of_isShowable {given : Datum} (h : given.isShowable = true) (fault : Fault) :
    showing given fault = fault :=
  if_pos h

theorem showing_of_not_isShowable {given : Datum} (h : given.isShowable = false) (fault : Fault) :
    showing given fault = .longInteger := by
  rw [showing, h, if_neg Bool.false_ne_true]

/-- A fault that shows a value is the one it is meant to be, or that of the value. -/
theorem showing_cases (given : Datum) (fault : Fault) :
    showing given fault = fault ∨ showing given fault = .longInteger := by
  cases h : given.isShowable with
  | true => exact .inl (showing_of_isShowable h fault)
  | false => exact .inr (showing_of_not_isShowable h fault)

end Fault

/-- The alternative that a value names; nothing but a text names one. -/
def Choice.find {α : Type} (choice : Choice) (ofName? : String → Option α) (d : Datum) :
    Except Fault α :=
  let named := match d with
    | .str s => s.string?.bind ofName?
    | _ => none
  match named with
  | some a => .ok a
  | none => .error (.showing d (.unknownChoice choice d))

namespace Datum

/-- The integer a value counts as; a value that counts as none is of the wrong kind. -/
def whole (d : Datum) : Except Fault Int :=
  match d.int? with
  | some n => .ok n
  | none => .error .wrongKind

/-- The elements of a value that has some. -/
def elements (d : Datum) : Except Fault (List Datum) :=
  match d.elements? with
  | some items => .ok items
  | none => .error .wrongKind

/-- The part of a value at an index: an item of a list, a code point of a text, or what a mapping
holds under the index. -/
def item (d : Datum) (index : Nat) : Except Fault Datum :=
  match d with
  | .map entries =>
      match lookup? (.int index) entries with
      | some value => .ok value
      | none => .error .noEntry
  | .list items => present items[index]?
  | .str s => present (s.points[index]?.map fun c => .str ⟨[c]⟩)
  | _ => .error .wrongKind
where
  /-- What stands at an index, if anything does. -/
  present : Option Datum → Except Fault Datum
    | some d => .ok d
    | none => .error .pastEnd

/-- The two elements of a value that has two. -/
def pair (d : Datum) : Except Fault (Datum × Datum) := do
  match ← d.elements with
  | [x, y] => return (x, y)
  | items =>
      throw (.parts (if items.length < 2 then .tooFew items.length else .tooMany))

/-- The pairs that the elements of a list of entries are, `position` counting those before. -/
def pairs (position : Nat) : List Datum → Except Fault (List (Datum × Datum))
  | [] => .ok []
  | d :: rest => do
      match ← d.elements with
      | [key, value] =>
          if key.canBeKey then return (key, value) :: (← pairs (position + 1) rest)
          else throw .wrongKind
      | items => throw (.parts (.entry position items.length))

/-- The entries of a mapping, or those that a list of pairs makes. -/
def entries (d : Datum) : Except Fault (List (Datum × Datum)) :=
  match d with
  | .map entries => .ok entries
  | _ => do return ofPairs (← pairs 0 (← d.elements))

end Datum

end Emu8080
