/-
# Emu8080.Datum.Basic -- a value of the host

Everything that reaches the machine from outside is a `Datum`: the values a host
stores into registers, the arguments of a memory access, and whole configuration
documents.  The machine itself only ever stores integers, but it has to say what
it was given when it refuses it.

`int?` is the view that arithmetic uses: an integer, or a truth value counted as
0 or 1.  `agrees` is equality of values, where numbers of different kinds agree
when they denote the same number.  A NaN agrees with nothing; but where values
are looked for, as keys and among the parts of others, it is found again: that
is `same`.
-/
import Emu8080.Binary64.Basic
import Emu8080.Text.Basic

namespace Emu8080

set_option autoImplicit false

/-- A dynamic value.  A mapping keeps its entries in the order they were written. -/
inductive Datum
  | null
  | bool (b : Bool)
  | int (n : Int)
  | float (x : Binary64)
  | str (s : Text)
  | list (items : List Datum)
  | map (entries : List (Datum × Datum))
deriving Inhabited

namespace Datum

/-- The integer a value counts as, if it counts as one. -/
def int? : Datum → Option Int
  | .int n => some n
  | .bool b => some (if b then 1 else 0)
  | _ => none

@[simp] theorem int?_int (n : Int) : (Datum.int n).int? = some n := rfl

/-- An integer within `0 ..= top`. -/
def within? (top : Nat) (d : Datum) : Option Nat :=
  match d.int? with
  | some n => if 0 ≤ n ∧ n ≤ top then some n.toNat else none
  | none => none

theorem within?_eq_some_iff {top : Nat} {d : Datum} {k : Nat} :
    d.within? top = some k ↔ d.int? = some (k : Int) ∧ k ≤ top := by
  unfold within?
  cases h : d.int? with
  | none => simp
  | some n =>
    simp only [Option.some.injEq]
    constructor
    · intro hk
      split at hk
      · simp at hk
        omega
      · simp at hk
    · rintro ⟨rfl, hk⟩
      rw [if_pos ⟨by omega, by omega⟩]
      simp

/-- Whether a value counts as true: nothing, zero and empty values do not. -/
def truthy : Datum → Bool
  | .null => false
  | .bool b => b
  | .int n => n != 0
  | .float x => !x.isZero
  | .str s => !s.isEmpty
  | .list items => !items.isEmpty
  | .map entries => !entries.isEmpty

def isNaN : Datum → Bool
  | .float x => x.isNaN
  | _ => false

/-- Whether a value is the integer `m`. -/
def agreesInt (m : Int) : Datum → Bool
  | .int n => m == n
  | .bool b => m == (if b then 1 else 0)
  | .float x => x.agreesInt m
  | _ => false

theorem agreesInt_of_int? {d : Datum} {n : Int} (h : d.int? = some n) (i : Int) :
    d.agreesInt i = (i == n) := by
  cases d with
  | int k | bool b =>
    cases h
    rfl
  | null | float x | str s | list items | map entries => exact nomatch h

mutual

/-- Equality of values.  A truth value, an integer and a fraction agree when they are the
same number; lists agree when their items are the same in order, mappings when they hold the
same entries in any order. -/
def agrees : Datum → Datum → Bool
  | .null, .null => true
  | .float x, .float y => x.agrees y
  | .float x, d =>
      match d.int? with
      | some n => x.agreesInt n
      | none => false
  | .int m, d => agreesInt m d
  | .bool b, d => agreesInt (if b then 1 else 0) d
  | .str s, .str t => s == t
  | .list xs, .list ys => sameItems xs ys
  | .map xs, .map ys => xs.length == ys.length && sameEntries xs ys
  | _, _ => false

def sameItems : List Datum → List Datum → Bool
  | [], [] => true
  | x :: xs, y :: ys => ((x.isNaN && y.isNaN) || agrees x y) && sameItems xs ys
  | _, _ => false

/-- Every entry of the first list has the same entry in the second. -/
def sameEntries : List (Datum × Datum) → List (Datum × Datum) → Bool
  | [], _ => true
  | (k, v) :: xs, ys =>
      ys.any (fun e => ((k.isNaN && e.1.isNaN) || agrees k e.1)
        && ((v.isNaN && e.2.isNaN) || agrees v e.2))
        && sameEntries xs ys

end

theorem agrees_of_int? {d : Datum} {n : Int} (h : d.int? = some n) (e : Datum) :
    d.agrees e = e.agreesInt n := by
  cases d with
  | int k | bool b =>
    cases h
    rw [agrees]
  | null | float x | str s | list items | map entries => exact nomatch h

/-- Whether two values are the same where values are looked for. -/
def same (x y : Datum) : Bool := (x.isNaN && y.isNaN) || x.agrees y

/-- Whether a value is the number 0 or the number 1, of whatever kind. -/
def isBit (d : Datum) : Bool := d.agrees (.int 0) || d.agrees (.int 1)

/-- What is stored under a key. -/
def lookup? {α : Type} (key : Datum) : List (Datum × α) → Option α
  | [] => none
  | (k, a) :: rest => if k.same key then some a else lookup? key rest

/-- Store under a key: a key that is there keeps its place and takes the new value, a new key
goes to the end. -/
def insert (key value : Datum) : List (Datum × Datum) → List (Datum × Datum)
  | [] => [(key, value)]
  | (k, v) :: rest => if k.same key then (k, value) :: rest else (k, v) :: insert key value rest

/-- The entries after storing a list of pairs in turn. -/
def ofPairs (pairs : List (Datum × Datum)) : List (Datum × Datum) :=
  pairs.foldl (fun entries p => insert p.1 p.2 entries) []

/-- Whether a value can be a key: all but lists and mappings can. -/
def canBeKey : Datum → Bool
  | .list _ => false
  | .map _ => false
  | _ => true

/-- Whether a value is a number no less than `bound`; `none` if it is no number. -/
def atLeast? (bound : Int) (d : Datum) : Option Bool :=
  match d with
  | .float x => some (x.atLeast bound)
  | _ => d.int?.map fun n => bound ≤ n

/-- The elements of a value that has some: of a list its items, of a mapping its keys, of a
text its code points. -/
def elements? : Datum → Option (List Datum)
  | .list items => some items
  | .map entries => some (entries.map Prod.fst)
  | .str s => some (s.points.map fun c => .str ⟨[c]⟩)
  | _ => none

end Datum

end Emu8080
