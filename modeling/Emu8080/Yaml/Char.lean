/-
# Emu8080.Yaml.Char -- characters of a document

A document may hold tab, line breaks, the printable part of ASCII and nearly all
that lies beyond Latin-1 controls.  Lines end at a feed, a return, both together,
the next-line control, or the two Unicode separators; the separators stay what
they are, every other end counts as one line feed.

Documents and their markers only look at blanks of two kinds, space and tab.
-/
namespace Emu8080.Yaml

set_option autoImplicit false

/-- Whether a character may stand in a document at all. -/
def isAllowed (c : Char) : Bool :=
  let n := c.toNat
  n = 0x09 || n = 0x0A || n = 0x0D || (0x20 ≤ n && n ≤ 0x7E) || n = 0x85
    || (0xA0 ≤ n && n ≤ 0xFFFD) || 0x10000 ≤ n

/-- Whether a character ends a line. -/
def isBreak (c : Char) : Bool :=
  c = '\n' || c = '\r' || c.toNat = 0x85 || c.toNat = 0x2028 || c.toNat = 0x2029

/-- Whether a character is a space or a tab. -/
def isSpace (c : Char) : Bool := c = ' ' || c = '\t'

/-- Whether a text is at its end, at a blank or at the end of a line. -/
def atGap : List Char → Bool
  | [] => true
  | c :: _ => isSpace c || isBreak c

/-- Take the end of a line off the front, as the character it counts as. -/
def takeBreak : List Char → Option (Char × List Char)
  | '\r' :: '\n' :: rest => some ('\n', rest)
  | c :: rest =>
      if c.toNat = 0x2028 ∨ c.toNat = 0x2029 then some (c, rest)
      else if isBreak c then some ('\n', rest)
      else none
  | [] => none

/-- Whether a line begins with a marker of a document: three hyphens or three points, and a
gap after them. -/
def atMarker (text : List Char) : Bool :=
  (text.take 3 = ['-', '-', '-'] || text.take 3 = ['.', '.', '.']) && atGap (text.drop 3)

/-- How many characters the end of a line at the front of a text takes. -/
def breakLength : List Char → Nat
  | '\r' :: '\n' :: _ => 2
  | _ => 1

/-- Drop spaces, counting them. -/
def skipSpaces (count : Nat) : List Char → Nat × List Char
  | ' ' :: rest => skipSpaces (count + 1) rest
  | text => (count, text)

/-- What stands between two tokens: how many characters it takes, and whether the end of a
line is among them. -/
structure Interval where
  length : Nat := 0
  broken : Bool := false
deriving DecidableEq, Repr

/-- The spaces, comments and ends of lines at the front of a text, after those of `passed`.
`comment` says that a comment has begun, which runs to the end of its line. -/
def interval (passed : Interval) (comment : Bool) : List Char → Interval
  | [] => passed
  | c :: rest =>
      if isBreak c then interval ⟨passed.length + 1, true⟩ false rest
      else if comment || c = '#' then interval { passed with length := passed.length + 1 } true rest
      else if c = ' ' then interval { passed with length := passed.length + 1 } false rest
      else passed

/-- A place in the text: the line, the column, and the number of characters before. -/
structure Place where
  index : Nat := 0
  line : Nat := 0
  column : Nat := 0
deriving DecidableEq, Repr

/-- Move past characters.  The byte order mark takes no column. -/
def Place.past (p : Place) : List Char → Place
  | [] => p
  | '\r' :: '\n' :: rest => Place.past ⟨p.index + 2, p.line + 1, 0⟩ rest
  | c :: rest =>
      if isBreak c then Place.past ⟨p.index + 1, p.line + 1, 0⟩ rest
      else if c.toNat = 0xFEFF then Place.past ⟨p.index + 1, p.line, p.column⟩ rest
      else Place.past ⟨p.index + 1, p.line, p.column + 1⟩ rest

end Emu8080.Yaml
