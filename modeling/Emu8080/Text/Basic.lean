/-
# Emu8080.Text.Basic -- texts of the host

A text of the host is a list of code points.  Nearly all of them are characters,
but a host may also write one half of a surrogate pair alone, in a document or in
an argument, and has to be shown it again: so a code point is a character or a
lone surrogate, and `Text` is not `String`.

A `String` is a `Text` wherever one is asked for.  The way back is `string?`,
which exists for texts without surrogates; names and numerals are looked up
through it, since none of them holds a surrogate.
-/
namespace Emu8080

set_option autoImplicit false

/-- A code point: a character, or a surrogate by its offset among them. -/
inductive CodePoint
  | char (c : Char)
  | surrogate (offset : Fin 0x800)
deriving DecidableEq, Repr

namespace CodePoint

/-- The number of the first surrogate. -/
def firstSurrogate : Nat := 0xD800

def toNat : CodePoint → Nat
  | .char c => c.toNat
  | .surrogate offset => firstSurrogate + offset

/-- The code point of a number, if there is one. -/
def ofNat? (n : Nat) : Option CodePoint :=
  if h : firstSurrogate ≤ n ∧ n < firstSurrogate + 0x800 then
    some (.surrogate ⟨n - firstSurrogate, by omega⟩)
  else if n < 0x110000 then some (.char (Char.ofNat n))
  else none

def char? : CodePoint → Option Char
  | .char c => some c
  | .surrogate _ => none

/-- Whether a code point is a character of a class. -/
def isChar (p : Char → Bool) : CodePoint → Bool
  | .char c => p c
  | .surrogate _ => false

end CodePoint

/-- A text: code points in order. -/
structure Text where
  points : List CodePoint
deriving DecidableEq, Repr, Inhabited

namespace Text

def ofList (chars : List Char) : Text := ⟨chars.map .char⟩

def ofString (s : String) : Text := ofList s.toList

instance : Coe String Text := ⟨ofString⟩

instance : Append Text := ⟨fun s t => ⟨s.points ++ t.points⟩⟩

def isEmpty (t : Text) : Bool := t.points.isEmpty

/-- The characters of a text without surrogates. -/
def chars? (t : Text) : Option (List Char) := t.points.mapM CodePoint.char?

/-- The string of a text without surrogates. -/
def string? (t : Text) : Option String := t.chars?.map String.ofList

/-- Put texts one after another with a separator between them. -/
def join (separator : Text) (parts : List Text) : Text :=
  ⟨separator.points.intercalate (parts.map points)⟩

/-- The first code points of a text. -/
def take (t : Text) (count : Nat) : Text := ⟨t.points.take count⟩

@[simp] theorem chars?_ofList (chars : List Char) : (ofList chars).chars? = some chars := by
  induction chars with
  | nil => rfl
  | cons c rest ih =>
    simp only [chars?, ofList, List.map_cons, List.mapM_cons, CodePoint.char?] at ih ⊢
    simp [ih]

@[simp] theorem string?_ofString (s : String) : (ofString s).string? = some s := by
  simp [string?, ofString]

end Text

end Emu8080
