/-
# Emu8080.Yaml.Plain -- what plain scalars stand for

A quoted scalar is a text.  A plain one is tried as a truth value, a fraction, an
integer and nothing, in this order, and is a text if it is none of these.
Integers are binary, octal with a leading zero, decimal, hexadecimal, or written
in base sixty with colons; fractions need a point, and an exponent its sign.  Low
lines may stand among the digits.

A scalar that looks like a number may still be none: a base mark with no digits
behind it, or more decimal digits than are read.
-/
import Emu8080.Fault
import Emu8080.Yaml.Source
import Emu8080.Text.Numeral

namespace Emu8080.Yaml

set_option autoImplicit false

/-- A word in small letters, with a capital in front, and in capitals. -/
def threeCases (word : String) : List String :=
  [word, String.ofList (match word.toList with
    | [] => []
    | c :: rest => c.toUpper :: rest), String.ofList (word.toList.map Char.toUpper)]

def trueWords : List String := ["yes", "true", "on"].flatMap threeCases

def falseWords : List String := ["no", "false", "off"].flatMap threeCases

def nullWords : List String := "~" :: "" :: threeCases "null"

/-- Read a truth value. -/
def bool? (s : String) : Option Bool :=
  if trueWords.contains s then some true
  else if falseWords.contains s then some false
  else none

/-- Whether a character is a digit or a low line. -/
def isDigitMark (c : Char) : Bool := c.isDigit || c = '_'

/-- Whether a character is a low line or a digit of a base up to sixteen. -/
def isMarkBelow (base : Nat) (c : Char) : Bool :=
  c = '_' || ((Text.hexDigit? c).any fun d => d < base)

/-- The value of digits in a base, low lines passed over. -/
def digitsValue (base : Nat) (chars : List Char) : Nat :=
  (chars.filterMap Text.hexDigit?).foldl (fun n d => n * base + d) 0

/-- Cut a text at colons. -/
def colonParts : List Char → List (List Char)
  | [] => [[]]
  | ':' :: rest => [] :: colonParts rest
  | c :: rest =>
      match colonParts rest with
      | [] => [[c]]
      | part :: parts => (c :: part) :: parts

/-- Whether a part after a colon is a number below sixty of one or two digits. -/
def isSixtieth : List Char → Bool
  | [c] => c.isDigit
  | [c, d] => '0' ≤ c && c ≤ '5' && d.isDigit
  | _ => false

/-- The value of decimal digits, which must not be too many. -/
def decimalValue (chars : List Char) : Except Fault Nat :=
  let count := Text.digitLength chars
  if Text.maxDecimalDigits < count then .error (.longNumeral count)
  else .ok (digitsValue 10 chars)

/-- The value of parts in base sixty, highest first. -/
def sixtieths (parts : List (List Char)) : Except Fault Nat :=
  parts.foldlM (fun n part => do return n * 60 + (← decimalValue part)) 0

/-- The value of digits behind a base mark. -/
def markedValue (base : Nat) (digits : List Char) : Except Fault Nat :=
  if digits.all (· = '_') then .error (.numeral base "") else .ok (digitsValue base digits)

/-- Read an integer without its sign. -/
def magnitude? (chars : List Char) : Option (Except Fault Nat) :=
  match chars with
  | ['0'] => some (.ok 0)
  | '0' :: 'b' :: digits =>
      if digits.isEmpty || !digits.all (isMarkBelow 2) then none else some (markedValue 2 digits)
  | '0' :: 'x' :: digits =>
      if digits.isEmpty || !digits.all (isMarkBelow 16) then none else some (markedValue 16 digits)
  | '0' :: digits =>
      if digits.all (isMarkBelow 8) then some (.ok (digitsValue 8 digits)) else none
  | c :: _ =>
      if !c.isDigit then none
      else
        match colonParts chars with
        | [] => none
        | lead :: parts =>
            if lead.all isDigitMark && parts.all isSixtieth then some (sixtieths (lead :: parts))
            else none
  | [] => none

/-- Read an exponent with its sign: the text after the mark. -/
def exponent? : List Char → Option Int
  | sign :: digits =>
      if digits.isEmpty || !digits.all Char.isDigit then none
      else if sign = '+' then some (digitsValue 10 digits)
      else if sign = '-' then some (-(digitsValue 10 digits : Int))
      else none
  | [] => none

/-- Cut at the first character of a kind: the text before it, and the text after it. -/
def cutAt (mark : Char → Bool) (chars : List Char) : List Char × Option (List Char) :=
  (chars.takeWhile (!mark ·), (chars.dropWhile (!mark ·)).tail?)

/-- A number with the given sign. -/
def negate (negative : Bool) (x : Binary64) : Binary64 := .ofMagnitudeBits negative x.magnitudeBits

/-- Add a part, of the given weight, to a sum.  The weight becomes a double before it meets the
part, and has to fit into one. -/
def addPart (sum : Binary64) (weight : Nat) (part : List Char) : Except Fault Binary64 :=
  let factor := Binary64.ofNat weight
  if factor.isFinite then
    .ok (sum.addMagnitudes ((Binary64.ofDigits false (part.filter Char.isDigit) [] 0).mulMagnitudes
      factor))
  else .error .overflow

/-- Add parts to a sum from low to high, the first of them of the given weight. -/
def addParts (sum : Binary64) (weight : Nat) : List (List Char) → Except Fault Binary64
  | [] => .ok sum
  | part :: higher => do addParts (← addPart sum weight part) (weight * 60) higher

/-- The value of parts in base sixty of which the last has decimal places.  Every product and
every sum is rounded to a double. -/
def fractionSixtieths (parts : List (List Char)) (places : List Char) : Except Fault Binary64 :=
  match parts.reverse with
  | [] => .ok (.ofDigits false [] places 0)
  | last :: higher => addParts (.ofDigits false (last.filter Char.isDigit) places 0) 60 higher

/-- Read a fraction without its sign.  `signed` says that it had one: a fraction that begins
with its point has none. -/
def fraction? (negative signed : Bool) (chars : List Char) : Option (Except Fault Binary64) :=
  match cutAt (· = '.') chars with
  | (_, none) => none
  | (whole, some after) =>
      let word := String.ofList after
      if whole.isEmpty && (threeCases "inf").contains word then some (.ok (.infinity negative))
      else if whole.isEmpty && !signed && ["nan", "NaN", "NAN"].contains word then some (.ok .nan)
      else if whole.contains ':' then
        match colonParts whole with
        | lead :: parts =>
            if lead.head?.any Char.isDigit && lead.all isDigitMark && parts.all isSixtieth
                && after.all isDigitMark then
              some ((fractionSixtieths (lead :: parts) (after.filter Char.isDigit)).map
                (negate negative))
            else none
        | [] => none
      else
        let (places, exponent) := cutAt (fun c => c = 'e' || c = 'E') after
        let power? := match exponent with
          | some text => exponent? text
          | none => some 0
        let wholeFits := whole.head?.any Char.isDigit && whole.all isDigitMark
        let bareFits := whole.isEmpty && !signed && places.head?.any Char.isDigit
        if (wholeFits || bareFits) && places.all isDigitMark then
          power?.map fun power =>
            .ok (.ofDigits negative (whole.filter Char.isDigit) (places.filter Char.isDigit) power)
        else none

/-- The value of a plain scalar. -/
def plainValue (s : String) : Except Fault Datum :=
  let chars := s.toList
  let signed := chars.head? = some '-' || chars.head? = some '+'
  let negative := chars.head? = some '-'
  let body := if signed then chars.drop 1 else chars
  match bool? s with
  | some b => .ok (.bool b)
  | none =>
      match fraction? negative signed body with
      | some x => x.map .float
      | none =>
          match magnitude? body with
          | some n => n.map fun n => .int (Text.applySign negative n)
          | none =>
              if nullWords.contains s then .ok .null
              else if s = "<<" ∨ s = "=" then .error .malformedDocument
              else .ok (.str s)

/-- The value of a scalar. -/
def scalarValue (text : Text) (plain : Bool) : Except Fault Datum :=
  match text.string? with
  | some s => if plain then plainValue s else .ok (.str text)
  | none => .ok (.str text)

/-- A zero in front marks octal digits, behind a sign too. -/
example : plainValue "-017" = .ok (.int (-15)) := by rfl

end Emu8080.Yaml
