/-
# Emu8080.Yaml.Node -- the tree of a document

Tokens are read into nodes: scalars, sequences, and mappings as lists of pairs.
A node that is left out counts as an empty plain scalar.  A text holds one
document at most, and a text of nothing but blanks and comments holds none.

Every decision looks at one token.  A token out of place is found before the one
that says why reading breaks off, if it comes first, and so is a collection that
lies too deep.

The readers recurse on fuel, which every call spends; the number of tokens bounds
the depth of calls, so `Node.ofTokens` gives enough.
-/
import Emu8080.Yaml.Token

namespace Emu8080.Yaml

set_option autoImplicit false

/-- A node of a document. -/
inductive Node
  | scalar (text : Text) (plain : Bool)
  | sequence (items : List Node)
  | mapping (entries : List (Node × Node))
deriving Inhabited

namespace Node

/-- What stands for a node that is left out. -/
def absent : Node := .scalar "" true

/-- Why the next token is refused: the break it stands for, or being out of place. -/
def refusal : List Token → Break
  | .broken b :: _ => b
  | _ => .malformed

/-- Whether the next token is one of the given ones. -/
def nextIn (set : List Token) : List Token → Except Break Bool
  | [] => .error .malformed
  | .broken b :: _ => .error b
  | t :: _ => .ok (set.contains t)

/-- How deep collections may nest. -/
def maxDepth : Nat := 490

/-- What is left of the depth inside a collection. -/
def inside : Nat → Except Break Nat
  | 0 => .error .depth
  | depth + 1 => .ok depth

mutual

/-- Read a node that may be missing before one of the tokens in `stops`. -/
def optional (fuel depth : Nat) (block entries : Bool) (stops tokens : List Token) :
    Except Break (Node × List Token) :=
  match fuel with
  | 0 => .error .malformed
  | fuel + 1 => do
      if ← nextIn stops tokens then return (absent, tokens)
      node fuel depth block entries tokens

/-- Read a node.  `block` allows block collections, `entries` a sequence that begins with
its first hyphen, without an indentation of its own. -/
def node (fuel depth : Nat) (block entries : Bool) (tokens : List Token) :
    Except Break (Node × List Token) :=
  match fuel with
  | 0 => .error .malformed
  | fuel + 1 =>
      match tokens with
      | .scalar text plain :: rest => .ok (.scalar text plain, rest)
      | .flowSequenceStart :: rest => do
          let (items, rest) ← flowItems fuel (← inside depth) true rest
          return (.sequence items, rest)
      | .flowMappingStart :: rest => do
          let (pairs, rest) ← flowPairs fuel (← inside depth) true rest
          return (.mapping pairs, rest)
      | .blockSequenceStart :: rest => do
          if !block then throw .malformed
          let (items, rest) ← blockItems fuel (← inside depth) rest
          return (.sequence items, rest)
      | .blockMappingStart :: rest => do
          if !block then throw .malformed
          let (pairs, rest) ← blockPairs fuel (← inside depth) rest
          return (.mapping pairs, rest)
      | .blockEntry :: rest => do
          if !entries then throw .malformed
          let (items, rest) ← bareItems fuel (← inside depth) (.blockEntry :: rest)
          return (.sequence items, rest)
      | _ => .error (refusal tokens)

/-- The items of a block sequence up to its end. -/
def blockItems (fuel depth : Nat) (tokens : List Token) : Except Break (List Node × List Token) :=
  match fuel with
  | 0 => .error .malformed
  | fuel + 1 =>
      match tokens with
      | .blockEntry :: rest => do
          let (item, rest) ← optional fuel depth true false [.blockEntry, .blockEnd] rest
          let (items, rest) ← blockItems fuel depth rest
          return (item :: items, rest)
      | .blockEnd :: rest => .ok ([], rest)
      | _ => .error (refusal tokens)

/-- The items of a sequence without an indentation of its own, up to whatever follows. -/
def bareItems (fuel depth : Nat) (tokens : List Token) : Except Break (List Node × List Token) :=
  match fuel with
  | 0 => .error .malformed
  | fuel + 1 =>
      match tokens with
      | .blockEntry :: rest => do
          let (item, rest) ←
            optional fuel depth true false [.blockEntry, .key, .value, .blockEnd] rest
          let (items, rest) ← bareItems fuel depth rest
          return (item :: items, rest)
      | .broken b :: _ => .error b
      | _ => .ok ([], tokens)

/-- The pairs of a block mapping up to its end. -/
def blockPairs (fuel depth : Nat) (tokens : List Token) :
    Except Break (List (Node × Node) × List Token) :=
  match fuel with
  | 0 => .error .malformed
  | fuel + 1 =>
      match tokens with
      | .key :: rest => do
          let (key, rest) ← optional fuel depth true true [.key, .value, .blockEnd] rest
          let (value, rest) ← blockValue fuel depth rest
          let (pairs, rest) ← blockPairs fuel depth rest
          return ((key, value) :: pairs, rest)
      | .blockEnd :: rest => .ok ([], rest)
      | _ => .error (refusal tokens)

/-- The value of a pair of a block mapping. -/
def blockValue (fuel depth : Nat) (tokens : List Token) : Except Break (Node × List Token) :=
  match fuel with
  | 0 => .error .malformed
  | fuel + 1 =>
      match tokens with
      | .value :: rest => optional fuel depth true true [.key, .value, .blockEnd] rest
      | .broken b :: _ => .error b
      | _ => .ok (absent, tokens)

/-- The items of a flow sequence up to its bracket.  A pair within one is a mapping of its own. -/
def flowItems (fuel depth : Nat) (first : Bool) (tokens : List Token) :
    Except Break (List Node × List Token) :=
  match fuel with
  | 0 => .error .malformed
  | fuel + 1 =>
      match tokens with
      | .flowSequenceEnd :: rest => .ok ([], rest)
      | _ => do
          let rest ← separated first tokens
          match rest with
          | .flowSequenceEnd :: rest => return ([], rest)
          | .key :: rest =>
              let within ← inside depth
              let (key, rest) ←
                optional fuel within false false [.value, .flowEntry, .flowSequenceEnd] rest
              let (value, rest) ← flowValue fuel within [.flowEntry, .flowSequenceEnd] rest
              let (items, rest) ← flowItems fuel depth false rest
              return (.mapping [(key, value)] :: items, rest)
          | rest =>
              let (item, rest) ← node fuel depth false false rest
              let (items, rest) ← flowItems fuel depth false rest
              return (item :: items, rest)

/-- The pairs of a flow mapping up to its bracket. -/
def flowPairs (fuel depth : Nat) (first : Bool) (tokens : List Token) :
    Except Break (List (Node × Node) × List Token) :=
  match fuel with
  | 0 => .error .malformed
  | fuel + 1 =>
      match tokens with
      | .flowMappingEnd :: rest => .ok ([], rest)
      | _ => do
          let rest ← separated first tokens
          match rest with
          | .flowMappingEnd :: rest => return ([], rest)
          | .key :: rest =>
              let (key, rest) ←
                optional fuel depth false false [.value, .flowEntry, .flowMappingEnd] rest
              let (value, rest) ← flowValue fuel depth [.flowEntry, .flowMappingEnd] rest
              let (pairs, rest) ← flowPairs fuel depth false rest
              return ((key, value) :: pairs, rest)
          | rest =>
              let (key, rest) ← node fuel depth false false rest
              let (pairs, rest) ← flowPairs fuel depth false rest
              return ((key, absent) :: pairs, rest)

/-- The value of a pair in a flow collection. -/
def flowValue (fuel depth : Nat) (stops tokens : List Token) :
    Except Break (Node × List Token) :=
  match fuel with
  | 0 => .error .malformed
  | fuel + 1 =>
      match tokens with
      | .value :: rest => optional fuel depth false false stops rest
      | .broken b :: _ => .error b
      | _ => .ok (absent, tokens)

/-- The comma before an element that is not the first. -/
def separated (first : Bool) (tokens : List Token) : Except Break (List Token) :=
  if first then .ok tokens
  else match tokens with
    | .flowEntry :: rest => .ok rest
    | _ => .error (refusal tokens)

end

/-- The root of a document, between its markers. -/
def root (fuel : Nat) (tokens : List Token) : Except Break (Node × List Token) :=
  match tokens with
  | .documentStart :: rest =>
      optional fuel maxDepth true false [.documentStart, .documentEnd, .streamEnd] rest
  | _ => node fuel maxDepth true false tokens

/-- Look that nothing but ends of a document follows. -/
def finished : List Token → Except Break Unit
  | [.streamEnd] => .ok ()
  | .documentEnd :: rest => finished rest
  | tokens => .error (refusal tokens)

/-- The document that tokens make: `none` if there is none at all. -/
def ofTokens (tokens : List Token) : Except Break (Option Node) :=
  if tokens = [.streamEnd] then .ok none
  else do
    let (n, rest) ← root (4 * tokens.length + 4) tokens
    finished rest
    return some n

end Node

end Emu8080.Yaml
