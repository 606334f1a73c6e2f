/-
# Emu8080.Yaml.Value -- the values of nodes

A mapping keeps the place of a repeated key and takes its last value; a list or a
mapping cannot be a key.  The key `<<` brings in the entries of other mappings
before the mapping's own.

A document is valued from the root downwards, one level of collections after the
other.  A collection is looked over when its level comes: first what it brings
in, then its scalars in order.  So of several faults the one in the shallowest
collection is found, and of those the first.  `faultLevels` lists the faults in
this order, and `Node.value` has a value when there is none.
-/
import Emu8080.Yaml.Node
import Emu8080.Yaml.Plain

namespace Emu8080.Yaml

set_option autoImplicit false

/-- What a node holds: scalars with their values, and mappings after bringing in the entries of
others, with the fault that came up there. -/
inductive Content
  | scalar (value : Except Fault Datum)
  | sequence (items : List Content)
  | mapping (merging : Option Fault) (pairs : List (Content × Content))

/-- The pairs of a mapping: those it brings in, its own, and the fault of bringing in. -/
structure Pairs where
  fault : Option Fault := none
  brought : List (Content × Content) := []
  own : List (Content × Content) := []

/-- All pairs, in the order in which they are stored. -/
def Pairs.all (p : Pairs) : List (Content × Content) := p.brought ++ p.own

namespace Node

/-- Whether a node is the key that brings in other mappings. -/
def isMerge : Node → Bool
  | .scalar text plain => plain && text == "<<"
  | _ => false

mutual

/-- The content of a node. -/
def content : Node → Content
  | .scalar text plain => .scalar (scalarValue text plain)
  | .sequence items => .sequence (contents items)
  | .mapping entries =>
      let p := pairs entries
      .mapping p.fault p.all

def contents : List Node → List Content
  | [] => []
  | n :: rest => content n :: contents rest

/-- The pairs of the entries of a mapping. -/
def pairs : List (Node × Node) → Pairs
  | [] => {}
  | (k, n) :: rest =>
      let others := pairs rest
      if isMerge k then
        let p := imported n
        { fault := p.fault <|> others.fault, brought := p.all ++ others.brought, own := others.own }
      else { others with own := (keyContent k, content n) :: others.own }

/-- The content of a key; an equals sign is a text there. -/
def keyContent : Node → Content
  | .scalar text plain =>
      .scalar (if text = "=" then .ok (.str text) else scalarValue text plain)
  | .sequence items => .sequence (contents items)
  | .mapping entries =>
      let p := pairs entries
      .mapping p.fault p.all

/-- The pairs of a mapping, or of a sequence of mappings, the last of them first. -/
def imported : Node → Pairs
  | .mapping entries => pairs entries
  | .sequence items => importedAll items
  | .scalar .. => { fault := some .malformedDocument }

def importedAll : List Node → Pairs
  | [] => {}
  | .mapping entries :: rest =>
      let p := pairs entries
      let others := importedAll rest
      { fault := p.fault <|> others.fault, brought := others.brought ++ p.all }
  | _ :: _ => { fault := some .malformedDocument }

end

end Node

namespace Content

mutual

/-- The value of a content without faults. -/
def value : Content → Datum
  | .scalar (.ok d) => d
  | .scalar (.error _) => .null
  | .sequence items => .list (values items)
  | .mapping _ pairs => .map (Datum.ofPairs (pairValues pairs))

def values : List Content → List Datum
  | [] => []
  | c :: rest => value c :: values rest

def pairValues : List (Content × Content) → List (Datum × Datum)
  | [] => []
  | (k, v) :: rest => (value k, value v) :: pairValues rest

end

/-- The fault of a content that is a scalar. -/
def scalarFault : Content → Option Fault
  | .scalar (.error fault) => some fault
  | _ => none

/-- The fault of a content as a key, which has to be a scalar. -/
def keyFault : Content → Option Fault
  | .scalar (.error fault) => some fault
  | .scalar (.ok _) => none
  | _ => some .malformedDocument

/-- The first fault among the scalars of a collection. -/
def ownFault : Content → Option Fault
  | .scalar _ => none
  | .sequence items => items.findSome? scalarFault
  | .mapping merging pairs => merging <|> pairs.findSome? fun p => keyFault p.1 <|> scalarFault p.2

/-- Put the levels of neighbours side by side; of two faults in one level the left one counts. -/
def alongside : List (Option Fault) → List (Option Fault) → List (Option Fault)
  | [], ys => ys
  | xs, [] => xs
  | x :: xs, y :: ys => (x <|> y) :: alongside xs ys

mutual

/-- The first fault of every level of collections, from the content downwards. -/
def faultLevels : Content → List (Option Fault)
  | .scalar _ => []
  | .sequence items => ownFault (.sequence items) :: itemLevels items
  | .mapping merging pairs => ownFault (.mapping merging pairs) :: pairLevels pairs

def itemLevels : List Content → List (Option Fault)
  | [] => []
  | c :: rest => alongside (faultLevels c) (itemLevels rest)

def pairLevels : List (Content × Content) → List (Option Fault)
  | [] => []
  | (_, v) :: rest => alongside (faultLevels v) (pairLevels rest)

end

/-- The fault that is found first. -/
def fault? (c : Content) : Option Fault := scalarFault c <|> (faultLevels c).findSome? id

end Content

/-- The value of a node. -/
def Node.value (n : Node) : Except Fault Datum :=
  match n.content.fault? with
  | some fault => .error fault
  | none => .ok n.content.value

/-- The fault of a document whose reading breaks off. -/
def Break.fault : Break → Fault
  | .malformed => .malformedDocument
  | .codePoint => .codePoint
  | .overflow => .overflow
  | .encoding => .badEncoding
  | .depth => .tooDeep

/-- The value of a document; nothing at all counts as nothing. -/
def document (s : Source) : Except Fault Datum :=
  match Node.ofTokens (Token.ofSource s) with
  | .error b => .error b.fault
  | .ok none => .ok .null
  | .ok (some n) => n.value

/-- Of two faults the one in the shallower collection is found. -/
example :
    (Node.sequence [.sequence [.scalar "0b_" true], .scalar "0x_" true]).value
      = .error (.numeral 16 "") := by
  rfl

end Emu8080.Yaml
