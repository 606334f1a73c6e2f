/-
# Emu8080.Text.Lines -- a text as lines

A line ends at a line feed, at a return, or at a return and a line feed
together; nothing else ends one.  The last line may have no end, and is a line
only if it holds something.

From a damaged file come the lines that had ended before the damage.  A return
as the last character counts as no end there, since a line feed might have
followed it.
-/
import Emu8080.Text.Utf8

namespace Emu8080.Text

set_option autoImplicit false

/-- Ended lines without their ends, and what follows the last end.  `line` is the present
line, newest character first. -/
def splitFrom (line : List Char) : List Char → List (List Char) × List Char
  | [] => ([], line.reverse)
  | '\n' :: rest => let (lines, last) := splitFrom [] rest; (line.reverse :: lines, last)
  | '\r' :: '\n' :: rest => let (lines, last) := splitFrom [] rest; (line.reverse :: lines, last)
  | '\r' :: rest => let (lines, last) := splitFrom [] rest; (line.reverse :: lines, last)
  | c :: rest => splitFrom (c :: line) rest

/-- The lines of a whole text. -/
def lines (chars : List Char) : List (List Char) :=
  let (ended, last) := splitFrom [] chars
  if last.isEmpty then ended else ended ++ [last]

/-- Drop a return at the end. -/
def dropPendingReturn (chars : List Char) : List Char :=
  match chars.reverse with
  | '\r' :: rest => rest.reverse
  | _ => chars

/-- The lines that a decoded file delivers. -/
def Decoded.lines (d : Decoded) : List (List Char) :=
  if d.damaged then (splitFrom [] (dropPendingReturn d.chars)).1 else Text.lines d.chars

/-- Every end of a line written as one line feed. -/
def unifyLineEnds : List Char → List Char
  | [] => []
  | '\r' :: '\n' :: rest => '\n' :: unifyLineEnds rest
  | '\r' :: rest => '\n' :: unifyLineEnds rest
  | c :: rest => c :: unifyLineEnds rest

/-- A return ends a line by itself, and with a feed behind it only once. -/
example : lines "a\r\nb\rc".toList = ["a".toList, "b".toList, "c".toList] := by
  decide +kernel

end Emu8080.Text
