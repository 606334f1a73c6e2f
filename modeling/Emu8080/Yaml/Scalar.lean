/-
# Emu8080.Yaml.Scalar -- the text of scalars

A plain scalar runs on over blanks and line ends as long as the next line is
indented; a quoted one runs to its closing quote.  Within both, a single line end
counts as a space, and of several the first is dropped and the others stay.

In single quotes the quote is written twice; in double quotes a backslash begins
an escape.  An escape may name any code point, a lone surrogate too.

A quoted scalar that is not closed breaks the reading off with whatever stands at
the end of the source.

Every reader takes characters off the front of a text and says how many, so that
the place in the document can move by that number.
-/
import Emu8080.Yaml.Source
import Emu8080.Text.Digit

namespace Emu8080.Yaml

set_option autoImplicit false

/-- What a run of line ends contributes to a scalar: `first` and the ends after it. -/
def fold (first : Char) (others : List Char) : List Char :=
  if first ≠ '\n' then first :: others
  else if others.isEmpty then [' ']
  else others

/-- Ends of lines read off the front of a text, with the blanks among them: the ends, how many
characters all of it takes, and what follows. -/
structure LineEnds where
  ends : List Char
  length : Nat
  rest : List Char

/-! ## Plain scalars -/

/-- Characters that cannot be part of a plain scalar in a flow collection. -/
def isFlowMark (c : Char) : Bool :=
  c = ',' || c = '?' || c = '[' || c = ']' || c = '\x7b' || c = '\x7d'

/-- Whether a colon before `rest` ends a plain scalar. -/
def colonEnds (flow : Bool) (rest : List Char) : Bool :=
  atGap rest ||
    (flow && match rest with
      | c :: _ => c = ',' || c = '[' || c = ']' || c = '\x7b' || c = '\x7d'
      | [] => false)

/-- A run of characters of a plain scalar without gaps: newest first, their number, and what
follows. -/
def plainWord (flow : Bool) (word : List Char) (length : Nat) :
    List Char → List Char × Nat × List Char
  | [] => (word, length, [])
  | c :: rest =>
      if isSpace c || isBreak c || (c = ':' && colonEnds flow rest) || (flow && isFlowMark c) then
        (word, length, c :: rest)
      else plainWord flow (c :: word) (length + 1) rest

/-- The line ends after the first one, with the spaces between them dropped, and the column
reached.  `none` if a marker of a document begins a line. -/
def plainBreaks (ends : List Char) (length column : Nat) : List Char → Option (LineEnds × Nat)
  | [] => some (⟨ends, length, []⟩, column)
  | ' ' :: rest => plainBreaks ends (length + 1) (column + 1) rest
  | '\r' :: '\n' :: rest =>
      if atMarker rest then none else plainBreaks (ends ++ ['\n']) (length + 2) 0 rest
  | c :: rest =>
      match takeBreak [c] with
      | some (e, _) => if atMarker rest then none else plainBreaks (ends ++ [e]) (length + 1) 0 rest
      | none => some (⟨ends, length, c :: rest⟩, column)

/-- A gap within a plain scalar: what it contributes, how many characters it takes, what
follows, and the column reached if the gap reached past the end of a line. -/
structure Gap where
  text : List Char
  length : Nat
  rest : List Char
  column? : Option Nat

/-- The gap at the front of a text.  Where a marker follows, the gap contributes nothing. -/
def plainGap (text : List Char) : Gap :=
  let (count, rest) := skipSpaces 0 text
  match takeBreak rest with
  | none => ⟨List.replicate count ' ', count, rest, none⟩
  | some (first, after) =>
      let length := count + breakLength rest
      if atMarker after then ⟨[], length, after, some 0⟩
      else
        match plainBreaks [] 0 0 after with
        | none => ⟨[], length, after, some 0⟩
        | some (more, column) => ⟨fold first more.ends, length + more.length, more.rest, some column⟩

/-- Where a plain scalar may not continue after a gap. -/
def plainStops (flow : Bool) (indent : Int) (g : Gap) : Bool :=
  g.text.isEmpty || g.rest.head? == some '#'
    || (!flow && match g.column? with
      | some column => (column : Int) < indent
      | none => false)

/-- A plain scalar read off the front of a text, and how many characters it takes together with
the gap after it.  `broken` says that it reached past the end of a line, so that the next token
may begin a key. -/
structure Scanned where
  text : List Char := []
  length : Nat := 0
  broken : Bool := false

/-- Continue a plain scalar, whose text so far is kept newest first, with `gap` before the next
word. -/
def plainFrom (flow : Bool) (indent : Int) (gap : List Char) (s : Scanned) :
    Nat → List Char → Scanned
  | 0, _ => s
  | fuel + 1, rest =>
      if rest.head? = some '#' then s
      else
        let (word, count, after) := plainWord flow [] 0 rest
        if count = 0 then s
        else
          let g := plainGap after
          let s : Scanned :=
            { text := word ++ (gap.reverse ++ s.text)
              length := s.length + count + g.length
              broken := g.column?.isSome }
          if plainStops flow indent g then s else plainFrom flow indent g.text s fuel g.rest

/-- Read a plain scalar, whose later lines have to be indented by `indent` in block context.
A text has no more words than characters, which `fuel` bounds. -/
def plain (flow : Bool) (indent : Int) (fuel : Nat) (text : List Char) : Scanned :=
  let s := plainFrom flow indent [] {} fuel text
  { s with text := s.text.reverse }

/-! ## Quoted scalars -/

/-- A piece of a quoted scalar: what it stands for, how many characters it takes, and what
follows it. -/
structure Piece where
  points : List CodePoint
  length : Nat
  rest : List Char
deriving DecidableEq

/-- The line ends after the first one within quotes, with the blanks around them dropped.
A marker of a document must not begin a line. -/
def quotedBreaks (ends : List Char) (length : Nat) (lineStart : Bool) :
    List Char → Except Break LineEnds
  | [] => .ok ⟨ends, length, []⟩
  | '\r' :: '\n' :: rest =>
      if lineStart && atMarker ('\r' :: '\n' :: rest) then .error .malformed
      else quotedBreaks (ends ++ ['\n']) (length + 2) true rest
  | c :: rest =>
      if lineStart && atMarker (c :: rest) then .error .malformed
      else if isSpace c then quotedBreaks ends (length + 1) false rest
      else
        match takeBreak [c] with
        | some (e, _) => quotedBreaks (ends ++ [e]) (length + 1) true rest
        | none => .ok ⟨ends, length, c :: rest⟩

/-- Escapes of one character. -/
def escapes : List (Char × Nat) :=
  [('0', 0), ('a', 0x07), ('b', 0x08), ('t', 0x09), ('\t', 0x09), ('n', 0x0A), ('v', 0x0B),
    ('f', 0x0C), ('r', 0x0D), ('e', 0x1B), (' ', 0x20), ('"', 0x22), ('\\', 0x5C), ('/', 0x2F),
    ('N', 0x85), ('_', 0xA0), ('L', 0x2028), ('P', 0x2029)]

/-- How many digits follow the escape of a code point. -/
def escapeWidth? (c : Char) : Option Nat :=
  if c = 'x' then some 2 else if c = 'u' then some 4 else if c = 'U' then some 8 else none

/-- The number that hexadecimal digits write. -/
def hexNumber (digits : List Char) : Nat :=
  (digits.filterMap Text.hexDigit?).foldl (fun n d => n * 16 + d) 0

/-- The code point of a number.  From the sign bit of a word on, a number is past any range. -/
def codePointOf (n : Nat) : Except Break CodePoint :=
  match CodePoint.ofNat? n with
  | some c => .ok c
  | none => .error (if n < 0x80000000 then .codePoint else .overflow)

/-- Read the digits of an escape.  `ending` is the break of a text that ends too early. -/
def numericEscape (ending : Break) (width : Nat) (text : List Char) : Except Break Piece :=
  let digits := (text.take width).takeWhile fun c => (Text.hexDigit? c).isSome
  let rest := text.drop digits.length
  if digits.length < width then .error (if rest.isEmpty then ending else .malformed)
  else do return ⟨[← codePointOf (hexNumber digits)], width, rest⟩

/-- Read an escape after its backslash. -/
def escape (ending : Break) (text : List Char) : Except Break Piece :=
  match text with
  | [] => .error ending
  | c :: rest =>
      match escapes.lookup c with
      | some n => .ok ⟨[.char (Char.ofNat n)], 1, rest⟩
      | none =>
          match escapeWidth? c with
          | some width => do
              let piece ← numericEscape ending width rest
              return { piece with length := piece.length + 1 }
          | none =>
              match takeBreak text with
              | none => .error .malformed
              | some (_, after) => do
                  let more ← quotedBreaks [] (breakLength text) true after
                  return ⟨more.ends.map .char, more.length, more.rest⟩

/-- Blanks and line ends within quotes. -/
def quotedGap (ending : Break) (text : List Char) : Except Break Piece :=
  let blanks := text.takeWhile isSpace
  let rest := text.dropWhile isSpace
  match rest with
  | [] => .error ending
  | _ =>
      match takeBreak rest with
      | none => .ok ⟨blanks.map .char, blanks.length, rest⟩
      | some (first, after) => do
          let more ← quotedBreaks [] (blanks.length + breakLength rest) true after
          return ⟨(fold first more.ends).map .char, more.length, more.rest⟩

/-- Continue a quoted scalar up to its closing quote, which it takes too; `text` is its text so
far, newest first, and `length` what that took. -/
def quotedFrom (ending : Break) (double : Bool) (text : List CodePoint) (length : Nat) :
    Nat → List Char → Except Break Piece
  | 0, _ => .error ending
  | _, [] => .error ending
  | fuel + 1, c :: rest =>
      if !double && c = '\'' then
        match rest with
        | '\'' :: more => quotedFrom ending double (.char '\'' :: text) (length + 2) fuel more
        | _ => .ok ⟨text.reverse, length + 1, rest⟩
      else if double && c = '"' then .ok ⟨text.reverse, length + 1, rest⟩
      else if double && c = '\\' then do
        let piece ← escape ending rest
        quotedFrom ending double (piece.points.reverse ++ text) (length + 1 + piece.length) fuel
          piece.rest
      else if isSpace c || isBreak c then do
        let piece ← quotedGap ending (c :: rest)
        quotedFrom ending double (piece.points.reverse ++ text) (length + piece.length) fuel
          piece.rest
      else quotedFrom ending double (.char c :: text) (length + 1) fuel rest

/-- Read a quoted scalar after its opening quote.  Every piece takes a character, and `fuel`
bounds their number. -/
def quoted (ending : Break) (double : Bool) (fuel : Nat) (text : List Char) :
    Except Break Piece :=
  quotedFrom ending double [] 0 fuel text

/-- A doubled quote stands for one. -/
example (b : Break) :
    quoted b false 8 "it''s' x".toList
      = .ok ⟨(Text.ofString "it's").points, 6, " x".toList⟩ := by
  rfl

end Emu8080.Yaml
