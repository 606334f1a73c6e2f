/-
# Emu8080.Yaml.Source -- what can be read of a document

A document may turn out to be unreadable at a place that reading has yet to
reach.  A source is what can be read of it, and why nothing follows, if it is not
the end of the document that stands there.

A text is looked over before it is read, so one that holds anything a document
may not hold cannot be read at all.  A file comes in portions, and a portion is
looked over when it comes; the first two come together.  So what stands before
the portion with the damage can be read, and a fault found there is found first.
-/
import Emu8080.Yaml.Char
import Emu8080.Text.Basic
import Emu8080.Text.Lines

namespace Emu8080.Yaml

set_option autoImplicit false

/-- Why the reading of a document breaks off. -/
inductive Break
  /-- It is no document. -/
  | malformed
  /-- An escape names no code point. -/
  | codePoint
  /-- An escape names a number past any range. -/
  | overflow
  /-- The octets of a file are no text. -/
  | encoding
  /-- The collections nest too deeply. -/
  | depth
deriving DecidableEq, Repr

/-- The characters that can be read, and what ends them if it is not the end of the document. -/
structure Source where
  chars : List Char
  ending : Option Break := none
deriving DecidableEq, Repr

namespace Source

/-- A source of which nothing can be read. -/
def unreadable (b : Break) : Source := { chars := [], ending := some b }

/-- The source of a text. -/
def ofText (t : Text) : Source :=
  match t.chars? with
  | some chars => if chars.all isAllowed then { chars } else unreadable .malformed
  | none => unreadable .malformed

/-- How many characters of a file come at a time. -/
def portion : Nat := 4096

/-- What can be read before a place that cannot: the portions that are whole, and nothing if
the first two are not. -/
def before (chars : List Char) (b : Break) : Source :=
  let whole := chars.length / portion * portion
  if whole < 2 * portion then unreadable b else { chars := chars.take whole, ending := some b }

/-- The source of a file.  Every end of a line counts as one line feed. -/
def ofOctets (octets : List UInt8) : Source :=
  let decoded := Text.decodeUtf8 octets
  let s :=
    if decoded.damaged then
      before (Text.unifyLineEnds (Text.dropPendingReturn decoded.chars)) .encoding
    else { chars := Text.unifyLineEnds decoded.chars }
  match s.chars.findIdx? fun c => !isAllowed c with
  | some position => before (s.chars.take position) .malformed
  | none => s

end Source

end Emu8080.Yaml
