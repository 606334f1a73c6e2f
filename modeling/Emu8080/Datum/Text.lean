/-
# Emu8080.Datum.Text -- values as messages show them

`repr` shows a value so that its kind can be seen: texts are quoted, and a list
or mapping shows its parts the same way.  `text` differs from it only for a bare
text, which stands for itself.

Writing an integer in decimal takes time that grows with the square of its
length, so integers beyond `maxDecimalDigits` digits are not written.  A value
with such an integer in it is not `isShowable`, and whoever wants to show it has
to ask first.
-/
import Emu8080.Datum.Basic
import Emu8080.Binary64.Text
import Emu8080.Text.Quoted
import Emu8080.Text.Number

namespace Emu8080.Datum

set_option autoImplicit false

/-- The spellings and brackets of the parts that have no text of their own. -/
structure Spelling where
  null : String
  yes : String
  no : String

/-- The words for nothing and for the truth values. -/
def spelling : Spelling := ⟨"None", "True", "False"⟩

mutual

/-- A value with its kind visible. -/
def repr : Datum → String
  | .null => spelling.null
  | .bool b => if b then spelling.yes else spelling.no
  | .int n => Text.decimalInt n
  | .float x => x.text
  | .str s => Text.quoted s
  | .list items => "[" ++ ", ".intercalate (reprItems items) ++ "]"
  | .map entries => "\x7b" ++ ", ".intercalate (reprEntries entries) ++ "\x7d"

def reprItems : List Datum → List String
  | [] => []
  | item :: rest => repr item :: reprItems rest

def reprEntries : List (Datum × Datum) → List String
  | [] => []
  | (key, value) :: rest => (repr key ++ ": " ++ repr value) :: reprEntries rest

end

/-- A value as text: a bare text is itself. -/
def text : Datum → Text
  | .str s => s
  | d => d.repr

mutual

/-- Whether no integer in a value is too long to be written. -/
def isShowable : Datum → Bool
  | .int n => n.natAbs < Text.decimalBound
  | .list items => areShowable items
  | .map entries => entriesShowable entries
  | _ => true

def areShowable : List Datum → Bool
  | [] => true
  | item :: rest => isShowable item && areShowable rest

def entriesShowable : List (Datum × Datum) → Bool
  | [] => true
  | (key, value) :: rest => isShowable key && isShowable value && entriesShowable rest

end

end Emu8080.Datum
