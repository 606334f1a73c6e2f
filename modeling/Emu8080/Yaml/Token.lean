/-
# Emu8080.Yaml.Token -- the tokens of a document

Structure shows in indentation in block context and in brackets in flow context.
Where a token stands further right than the present indentation and may begin a
collection, the indentation is noted and an opening token made; where a token
stands further left, closing tokens are made for every indentation it leaves.

A key is recognised only at the colon after it.  Every token that could begin a
key is remembered as a candidate, one for each depth of brackets, and the key
token is put in front of it when the colon comes.  A candidate lapses at the end
of its line or after 1024 characters; where only a key can stand, a lapsed
candidate is an error.

Anchors, tags, directives and block scalars are not part of the documents read
here and are refused.

Where reading breaks off, the tokens before that place can still be seen, up to
the first one that might have turned out to begin a key.  The last token then
says why nothing follows.
-/
import Emu8080.Yaml.Scalar

namespace Emu8080.Yaml

set_option autoImplicit false

/-- A token.  Opening tokens of block collections and keys take no characters. -/
inductive Token
  | documentStart
  | documentEnd
  | streamEnd
  | blockSequenceStart
  | blockMappingStart
  | blockEnd
  | flowSequenceStart
  | flowSequenceEnd
  | flowMappingStart
  | flowMappingEnd
  | blockEntry
  | flowEntry
  | key
  | value
  /-- A scalar; only a plain one stands for anything but a text. -/
  | scalar (text : Text) (plain : Bool)
  /-- No token: reading breaks off here. -/
  | broken (b : Break)
deriving DecidableEq, Repr

/-- A token that may turn out to begin a key: its position among the tokens and its place. -/
structure Candidate where
  position : Nat
  required : Bool
  place : Place
deriving DecidableEq, Repr

/-- How far a key may reach. -/
def maxKeyLength : Nat := 1024

/-- The state between two tokens.  `tokens` are the tokens so far, newest first, and `count` is
their number.  `candidates` belong to the open brackets, the innermost first, and after them to
the block context, so there is one more than brackets are open.  `indents` are the indentations
around the present one, and `ending` is what ends `rest`. -/
structure Lexer where
  rest : List Char
  ending : Option Break := none
  place : Place := {}
  tokens : List Token := []
  count : Nat := 0
  indent : Int := -1
  indents : List Int := []
  keyAllowed : Bool := true
  candidates : List (Option Candidate) := [none]

namespace Lexer

/-- Whether a bracket is open. -/
def inFlow (l : Lexer) : Bool := 1 < l.candidates.length

/-- Add a token at the end. -/
def emit (l : Lexer) (t : Token) : Lexer := { l with tokens := t :: l.tokens, count := l.count + 1 }

/-- Take characters off the front. -/
def skip (l : Lexer) (length : Nat) : Lexer :=
  { l with rest := l.rest.drop length, place := l.place.past (l.rest.take length) }

/-- Replace the candidate of the innermost bracket. -/
def setCandidate (l : Lexer) (c : Option Candidate) : Lexer :=
  { l with candidates := c :: l.candidates.drop 1 }

def candidate? (l : Lexer) : Option Candidate := l.candidates.head?.join

/-- Whether a candidate can no longer become a key. -/
def lapsed (l : Lexer) (c : Candidate) : Bool :=
  c.place.line ≠ l.place.line || c.place.index + maxKeyLength < l.place.index

/-- The lexer without its lapsed candidates. -/
def withoutLapsed (l : Lexer) : Lexer :=
  { l with candidates := l.candidates.map fun c => c.filter fun c => !l.lapsed c }

/-- Drop lapsed candidates; a required one must not lapse. -/
def dropLapsed (l : Lexer) : Except Break Lexer :=
  if l.candidates.any (fun c => c.any fun c => l.lapsed c && c.required) then .error .malformed
  else .ok l.withoutLapsed

/-- Forget the candidate of the innermost bracket; a required one must not be forgotten. -/
def dropCandidate (l : Lexer) : Except Break Lexer :=
  if l.candidate?.any (·.required) then .error .malformed else .ok (l.setCandidate none)

/-- Remember that the next token may begin a key. -/
def saveCandidate (l : Lexer) : Except Break Lexer :=
  if l.keyAllowed then do
    let required := !l.inFlow && l.indent == l.place.column
    let l ← l.dropCandidate
    return l.setCandidate (some ⟨l.count, required, l.place⟩)
  else .ok l

/-- The tokens that are settled: none of them can still turn out to begin a key. -/
def settled (l : Lexer) : List Token :=
  let positions := l.candidates.filterMap fun c => c.map (·.position)
  l.tokens.reverse.take (positions.foldl min l.count)

/-- Close the indentations that a column leaves.  Brackets suspend indentation. -/
def unwind (l : Lexer) (column : Int) : Lexer :=
  if l.inFlow then l
  else go l l.indents
where
  go (l : Lexer) : List Int → Lexer
    | [] => l
    | outer :: rest =>
        if column < l.indent then go { (l.emit .blockEnd) with indent := outer, indents := rest } rest
        else l

/-- Note a deeper indentation, if the column is one. -/
def deepen? (l : Lexer) (column : Nat) : Option Lexer :=
  if l.indent < column then some { l with indent := column, indents := l.indent :: l.indents }
  else none

/-- Open a block collection where the column asks for one. -/
def openAt (l : Lexer) (column : Nat) (t : Token) : Lexer :=
  match l.deepen? column with
  | some l => l.emit t
  | none => l

/-- Skip blanks, comments and line ends up to the next token.  Outside brackets a new line
may begin with a key. -/
def skipInterval (l : Lexer) : Lexer :=
  let i := interval {} false l.rest
  { (l.skip i.length) with keyAllowed := l.keyAllowed || (i.broken && !l.inFlow) }

/-- A marker of a document: three characters at the start of a line. -/
def marker (l : Lexer) (t : Token) : Except Break Lexer := do
  let l ← (l.unwind (-1)).dropCandidate
  return { (l.skip 3).emit t with keyAllowed := false }

/-- An opening bracket. -/
def openFlow (l : Lexer) (t : Token) : Except Break Lexer := do
  let l ← l.saveCandidate
  return { (l.skip 1).emit t with keyAllowed := true, candidates := none :: l.candidates }

/-- A closing bracket, which needs an open one. -/
def closeFlow (l : Lexer) (t : Token) : Except Break Lexer := do
  let l ← l.dropCandidate
  if !l.inFlow then throw .malformed
  return { (l.skip 1).emit t with keyAllowed := false, candidates := l.candidates.drop 1 }

/-- A comma. -/
def flowEntry (l : Lexer) : Except Break Lexer := do
  let l ← l.dropCandidate
  return { (l.skip 1).emit .flowEntry with keyAllowed := true }

/-- The hyphen of a sequence. -/
def blockEntry (l : Lexer) : Except Break Lexer := do
  if !l.inFlow && !l.keyAllowed then throw .malformed
  let l := if l.inFlow then l else l.openAt l.place.column .blockSequenceStart
  let l ← l.dropCandidate
  return { (l.skip 1).emit .blockEntry with keyAllowed := true }

/-- A question mark before a key. -/
def explicitKey (l : Lexer) : Except Break Lexer := do
  if !l.inFlow && !l.keyAllowed then throw .malformed
  let l := if l.inFlow then l else l.openAt l.place.column .blockMappingStart
  let l ← l.dropCandidate
  return { (l.skip 1).emit .key with keyAllowed := !l.inFlow }

/-- Put tokens in front of a candidate. -/
def insertAt (l : Lexer) (position : Nat) (new : List Token) : Lexer :=
  let later := l.count - position
  { l with
    tokens := l.tokens.take later ++ (new.reverse ++ l.tokens.drop later)
    count := l.count + new.length }

/-- The colon before a value: it turns the candidate into a key, if there is one. -/
def valueMark (l : Lexer) : Except Break Lexer :=
  match l.candidate? with
  | some c =>
      let l := l.setCandidate none
      let l :=
        if l.inFlow then l.insertAt c.position [.key]
        else match l.deepen? c.place.column with
          | some deeper => deeper.insertAt c.position [.blockMappingStart, .key]
          | none => l.insertAt c.position [.key]
      .ok { (l.skip 1).emit .value with keyAllowed := false }
  | none => do
      if !l.inFlow && !l.keyAllowed then throw .malformed
      let l := if l.inFlow then l else l.openAt l.place.column .blockMappingStart
      let l ← l.dropCandidate
      return { (l.skip 1).emit .value with keyAllowed := !l.inFlow }

/-- A quoted scalar. -/
def quotedScalar (l : Lexer) (fuel : Nat) (double : Bool) : Except Break Lexer := do
  let l ← l.saveCandidate
  let piece ← quoted (l.ending.getD .malformed) double fuel (l.rest.drop 1)
  return { (l.skip (piece.length + 1)).emit (.scalar ⟨piece.points⟩ false) with keyAllowed := false }

/-- A plain scalar.  One that reached past the end of a line may be followed by a key. -/
def plainScalar (l : Lexer) (fuel : Nat) : Except Break Lexer := do
  let l ← l.saveCandidate
  let s := plain l.inFlow (l.indent + 1) fuel l.rest
  return { (l.skip s.length).emit (.scalar (.ofList s.text) true) with keyAllowed := s.broken }

/-- Characters that never begin a plain scalar, whatever follows. -/
def indicators : List Char :=
  [',', '[', ']', '\x7b', '\x7d', '#', '&', '*', '!', '|', '>', '\'', '"', '%', '@', Char.ofNat 0x60]

/-- Whether a plain scalar can begin with `c` before `rest`. -/
def startsPlain (l : Lexer) (c : Char) (rest : List Char) : Bool :=
  if isSpace c || isBreak c || indicators.contains c then false
  else if c = '-' then !atGap rest
  else if c = '?' || c = ':' then !l.inFlow && !atGap rest
  else true

/-- Make the next tokens at a character `c` before `rest`. -/
def next (l : Lexer) (fuel : Nat) (c : Char) (rest : List Char) : Except Break Lexer :=
  if l.place.column = 0 ∧ c = '%' then .error .malformed
  else if l.place.column = 0 ∧ c = '-' ∧ atMarker l.rest then l.marker .documentStart
  else if l.place.column = 0 ∧ c = '.' ∧ atMarker l.rest then l.marker .documentEnd
  else if c = '[' then l.openFlow .flowSequenceStart
  else if c = '\x7b' then l.openFlow .flowMappingStart
  else if c = ']' then l.closeFlow .flowSequenceEnd
  else if c = '\x7d' then l.closeFlow .flowMappingEnd
  else if c = ',' then l.flowEntry
  else if c = '-' ∧ atGap rest then l.blockEntry
  else if c = '?' ∧ (l.inFlow ∨ atGap rest) then l.explicitKey
  else if c = ':' ∧ (l.inFlow ∨ atGap rest) then l.valueMark
  else if c = '\'' then l.quotedScalar fuel false
  else if c = '"' then l.quotedScalar fuel true
  else if l.startsPlain c rest then l.plainScalar fuel
  else .error .malformed

/-- Close everything at the end of the document. -/
def finish (l : Lexer) : Except Break Lexer := do
  let l ← (l.unwind (-1)).dropCandidate
  return l.emit .streamEnd

/-- What a step of reading comes to. -/
inductive Progress
  | more (l : Lexer)
  | done (l : Lexer)

/-- Pass over an interval and make the next tokens.  A step that reaches the last character of
the source needs what follows there.  `fuel` bounds the characters that are left. -/
def step (l : Lexer) (fuel : Nat) : Except Break Progress := do
  let l ← l.skipInterval.dropLapsed
  let l := l.unwind l.place.column
  match l.rest, l.ending with
  | [], some b | [_], some b => throw b
  | [], none => return .done (← l.finish)
  | c :: rest, _ =>
      let l ← l.next fuel c rest
      match l.rest, l.ending with
      | [], some b => throw b
      | _, _ => return .more l

/-- Make tokens up to the end of the source.  Every step but the last takes a character. -/
def run (l : Lexer) : Nat → List Token
  | 0 => l.tokens.reverse
  | fuel + 1 =>
      match l.step (fuel + 1) with
      | .error b => l.withoutLapsed.settled ++ [.broken b]
      | .ok (.done l) => l.tokens.reverse
      | .ok (.more l) => run l fuel

end Lexer

/-- The tokens of a source, the last of which ends the document or says why reading breaks off.
A byte order mark at the very front is passed over. -/
def Token.ofSource (s : Source) : List Token :=
  let l : Lexer := { rest := s.chars, ending := s.ending }
  let l := if s.chars.head? = some (Char.ofNat 0xFEFF) then l.skip 1 else l
  l.run (s.chars.length + 2)

end Emu8080.Yaml
