/-
# Emu8080.Proofs.Loading -- what loading leaves at each address

Values are placed around the ring up to the first that is no byte, and there may
be more of them than there are addresses.  A later value then takes the place of
an earlier one, so an address ends up with the last value that has its place, and
with its old byte where none has (`placed_storeEach`).

Which values are placed depends on the list alone (`leadingBytes`), and the
places of a list that is continued are its own with those of the rest behind them
(`spread_append`): a list of bytes can be loaded in parts (`load_append`).
-/
import Emu8080.Proofs.Access
import Emu8080.Proofs.Placement
import Mathlib.Order.Bounds.Defs

namespace Emu8080

set_option autoImplicit false

open Emu8080.Action (bind_of_ok bind_of_error demand_bind modify_bind)

variable {values more : List Datum} {d : Datum} {v : UInt8}

/-! ## Which values are placed -/

/-- Whether a value is an integer that a byte can hold. -/
def Datum.isByte (d : Datum) : Bool := (d.within? 0xFF).isSome

/-- How many values come before the first that is no byte. -/
def placeable (values : List Datum) : Nat := (values.takeWhile Datum.isByte).length

theorem placeable_cons_of_isByte (h : d.isByte = true) (rest : List Datum) :
    placeable (d :: rest) = placeable rest + 1 := by
  rw [placeable, List.takeWhile_cons_of_pos h, List.length_cons, placeable]

theorem placeable_cons_of_not_isByte (h : d.isByte = false) (rest : List Datum) :
    placeable (d :: rest) = 0 := by
  rw [placeable, List.takeWhile_cons_of_neg (Bool.not_eq_true _ ▸ h), List.length_nil]

theorem placeable_of_isByte (h : ∀ d ∈ values, d.isByte = true) :
    placeable values = values.length := by
  induction values with
  | nil => rfl
  | cons d rest ih =>
    obtain ⟨hd, hrest⟩ := List.forall_mem_cons.1 h
    rw [placeable_cons_of_isByte hd, ih hrest, List.length_cons]

/-- A value is a byte, which is the integer it counts as, or it is refused. -/
theorem byteOf_cases (d : Datum) :
    (∃ v, byteOf d = .ok v ∧ d.int? = some (v.toNat : Int) ∧ d.isByte = true)
      ∨ byteOf d = .error (.showing d (.dataRange d)) ∧ d.isByte = false := by
  rw [Datum.isByte]
  cases h : d.within? 0xFF with
  | none => exact .inr ⟨by rw [byteOf, h], rfl⟩
  | some k =>
    obtain ⟨hint, hk⟩ := Datum.within?_eq_some_iff.1 h
    have hbyte : (UInt8.ofNat k).toNat = k :=
      UInt8.toNat_ofNat_of_lt' (by simp only [UInt8.size]; omega)
    exact .inl ⟨UInt8.ofNat k, by rw [byteOf, h], by rw [hint, hbyte], rfl⟩

theorem leadingBytes_cons (h : byteOf d = .ok v) (rest : List Datum) :
    leadingBytes (d :: rest) = (v :: (leadingBytes rest).1, (leadingBytes rest).2) := by
  rw [leadingBytes, h]

theorem leadingBytes_bytes (bytes : List UInt8) :
    leadingBytes (bytes.map fun v => .int v.toNat) = (bytes, []) := by
  induction bytes with
  | nil => rfl
  | cons v rest ih => rw [List.map_cons, leadingBytes_cons (byteOf_of_int? rfl), ih]

/-- The leading bytes are as many as can be placed, and the rest is what remains. -/
theorem leadingBytes_split (values : List Datum) :
    (leadingBytes values).1.length = placeable values
      ∧ (leadingBytes values).2 = values.drop (placeable values) := by
  induction values with
  | nil => exact ⟨rfl, rfl⟩
  | cons d rest ih =>
    obtain ⟨hlength, hothers⟩ := ih
    obtain ⟨v, hbyte, -, hin⟩ | ⟨hbyte, hin⟩ := byteOf_cases d
    · rw [leadingBytes_cons hbyte, placeable_cons_of_isByte hin]
      exact ⟨congrArg (· + 1) hlength, hothers⟩
    · rw [leadingBytes, hbyte, placeable_cons_of_not_isByte hin]
      exact ⟨rfl, rfl⟩

/-- Each leading byte is the integer that its value counts as. -/
theorem int?_of_leadingBytes {i : Nat} (h : (leadingBytes values).1[i]? = some v) :
    ∃ d, values[i]? = some d ∧ d.int? = some (v.toNat : Int) := by
  induction values generalizing i with
  | nil => exact nomatch h
  | cons d rest ih =>
    obtain ⟨w, hbyte, hint, -⟩ | ⟨hbyte, -⟩ := byteOf_cases d
    · rw [leadingBytes_cons hbyte] at h
      cases i with
      | zero =>
        cases h
        exact ⟨d, rfl, hint⟩
      | succ i => exact ih h
    · rw [leadingBytes, hbyte] at h
      exact nomatch h

theorem leadingBytes_append (h : placeable values = values.length) (more : List Datum) :
    leadingBytes (values ++ more)
      = ((leadingBytes values).1 ++ (leadingBytes more).1, (leadingBytes more).2) := by
  induction values with
  | nil => rfl
  | cons d rest ih =>
    obtain ⟨v, hbyte, -, hin⟩ | ⟨-, hin⟩ := byteOf_cases d
    · have hrest : placeable rest = rest.length :=
        Nat.succ.inj ((placeable_cons_of_isByte hin rest).symm.trans h)
      rw [List.cons_append, leadingBytes_cons hbyte, leadingBytes_cons hbyte, ih hrest]
      rfl
    · exact nomatch (placeable_cons_of_not_isByte hin rest).symm.trans h

namespace Memory

/-! ## Where they are placed -/

variable {start n : Int} {bytes : List UInt8} {x : UInt16} {i : Nat} {address : Datum}

/-- A run with no place at an address leaves its byte. -/
theorem byteAt_spread_of_ne (m : Memory)
    (h : ∀ i < bytes.length, (start + i) % 65536 ≠ x.toNat) :
    (m.storeEach (spread start bytes)).byteAt x = m.byteAt x := by
  induction bytes generalizing start m with
  | nil => rfl
  | cons v rest ih =>
    have hfirst : x ≠ UInt16.ofInt start := by
      intro hx
      have hplace := h 0 (Nat.succ_pos rest.length)
      rw [Int.natCast_zero, Int.add_zero] at hplace
      exact hplace ((ofInt_eq_iff start x).1 hx.symm)
    have hrest : ∀ i < rest.length, (start + 1 + i) % 65536 ≠ x.toNat := by
      intro i hi
      have hplace := h (i + 1) (Nat.succ_lt_succ hi)
      rwa [Int.natCast_succ, Int.add_comm (i : Int), ← Int.add_assoc] at hplace
    rw [spread_cons]
    show ((m.store (UInt16.ofInt start) v).storeEach (spread (start + 1) rest)).byteAt x = _
    rw [ih _ hrest, byteAt_store, if_neg hfirst]

/-- A byte of a run stays at its place if no later one has the same. -/
theorem byteAt_spread_of_last (m : Memory) (front back : List UInt8)
    (hplace : (start + front.length) % 65536 = x.toNat)
    (hback : ∀ j < back.length, (start + front.length + 1 + j) % 65536 ≠ x.toNat) :
    (m.storeEach (spread start (front ++ v :: back))).byteAt x = v := by
  have hx : UInt16.ofInt (start + front.length) = x := (ofInt_eq_iff _ x).2 hplace
  rw [spread_append, storeEach_append, spread_cons, hx]
  show (((m.storeEach (spread start front)).store x v).storeEach _).byteAt x = v
  rw [byteAt_spread_of_ne _ hback, byteAt_store, if_pos rfl]

/-- An address ends up with the last byte of a run that has its place. -/
theorem byteAt_spread_of_isGreatest (m : Memory)
    (h : IsGreatest {i : Nat | i < bytes.length ∧ (start + i) % 65536 = x.toNat} i) :
    bytes[i]? = some ((m.storeEach (spread start bytes)).byteAt x) := by
  obtain ⟨⟨hi, hplace⟩, hlast⟩ := h
  have hsplit : bytes.take i ++ bytes[i] :: bytes.drop (i + 1) = bytes := by
    rw [← List.drop_eq_getElem_cons hi, List.take_append_drop]
  have htake : (bytes.take i).length = i := List.length_take_of_le (Nat.le_of_lt hi)
  have hlater : ∀ j < (bytes.drop (i + 1)).length,
      (start + (bytes.take i).length + 1 + j) % 65536 ≠ x.toNat := by
    intro j hj hagain
    rw [List.length_drop] at hj
    have hle : i + 1 + j ≤ i := hlast ⟨by omega, by rw [← hagain, htake]; congr 1; omega⟩
    omega
  have hbyte := byteAt_spread_of_last (v := bytes[i]) m (bytes.take i) (bytes.drop (i + 1))
    (by rw [htake]; exact hplace) hlater
  rw [hsplit] at hbyte
  rw [hbyte, List.getElem?_eq_getElem hi]

/-! ## Loading -/

/-- What placing the first `count` values from an integer on makes of a memory. -/
structure Placed (start : Int) (count : Nat) (values : List Datum) (before after : Memory) :
    Prop where
  log : after.log = before.log
  last {x : UInt16} {i : Nat}
    (h : IsGreatest {i : Nat | i < count ∧ (start + i) % 65536 = x.toNat} i) :
    ∃ d, values[i]? = some d ∧ d.int? = some ((after.byteAt x).toNat : Int)
  kept {x : UInt16} (h : ∀ i < count, (start + i) % 65536 ≠ x.toNat) :
    after.byteAt x = before.byteAt x

theorem placed_storeEach (start : Int) (values : List Datum) (m : Memory) :
    Placed start (placeable values) values m
      (m.storeEach (spread start (leadingBytes values).1)) where
  log := log_storeEach m _
  last h := by
    rw [← (leadingBytes_split values).1] at h
    exact int?_of_leadingBytes (byteAt_spread_of_isGreatest m h)
  kept h := by
    rw [← (leadingBytes_split values).1] at h
    exact byteAt_spread_of_ne m h

/-- What loading comes to: the leading bytes are placed, and what follows them is refused. -/
theorem load_of_some (h : address.int? = some n) (values : List Datum) (m : Memory) :
    load address values m
      = match (leadingBytes values).2 with
        | [] => .ok (leadingBytes values).1.length
            (m.storeEach (spread n (leadingBytes values).1))
        | d :: _ => .error (.showing d (.dataRange d))
            (m.storeEach (spread n (leadingBytes values).1)) := by
  rw [load, demand_bind (addressOf_of_some h), ← storeAll_eq]
  cases leadingBytes values with
  | mk bytes others => cases others <;> rfl

/-- Loading places the bytes before the first value that is none, whatever comes of it. -/
theorem final_load_of_some (h : address.int? = some n) (values : List Datum) (m : Memory) :
    (load address values).final m = m.storeEach (spread n (leadingBytes values).1) := by
  rw [Action.final, load_of_some h]
  cases (leadingBytes values).2 <;> rfl

/-- A list of bytes can be loaded before the rest, from where it ends on. -/
theorem load_append (h : address.int? = some n) (hvalues : ∀ d ∈ values, d.isByte = true)
    (more : List Datum) :
    load address (values ++ more) = do
      let count ← load address values
      let others ← load (.int (n + values.length)) more
      return count + others := by
  funext m
  have hall := placeable_of_isByte hvalues
  obtain ⟨hlength, hothers⟩ := leadingBytes_split values
  rw [hall, List.drop_length] at hothers
  rw [hall] at hlength
  have hfirst := load_of_some h values m
  rw [hothers] at hfirst
  rw [bind_of_ok hfirst, load_of_some h, leadingBytes_append hall, spread_append,
    storeEach_append, hlength]
  have hsecond := load_of_some (Datum.int?_int (n + values.length)) more
    (m.storeEach (spread n (leadingBytes values).1))
  cases hmore : (leadingBytes more).2 with
  | nil =>
    rw [hmore] at hsecond
    rw [bind_of_ok hsecond, List.length_append, hlength]
    rfl
  | cons d rest =>
    rw [hmore] at hsecond
    rw [bind_of_error hsecond]

/-- **Loading is exact.**  The values before the first that is no byte are placed around the ring,
the last one with the place of an address deciding, and nothing else changes.  The outcome is their
number if that is all of them, and the fault of the value after them otherwise, which is one of the
memory just if that value can be written.  Bytes that are followed by more values are loaded as by
themselves, and the rest from where they end on. -/
theorem load_exact (h : address.int? = some n) (values : List Datum) :
    (∀ m, ∃ m', Placed n (placeable values) values m m'
        ∧ load address values m
          = if hp : placeable values < values.length
            then .error (.showing values[placeable values] (.dataRange values[placeable values])) m'
            else .ok values.length m')
      ∧ ((∀ d ∈ values, d.isByte = true) → ∀ more,
          load address (values ++ more) = do
            let count ← load address values
            let others ← load (.int (n + values.length)) more
            return count + others) := by
  refine ⟨?_, load_append h⟩
  intro m
  refine ⟨_, placed_storeEach n values m, ?_⟩
  obtain ⟨hlength, hothers⟩ := leadingBytes_split values
  rw [load_of_some h]
  by_cases hp : placeable values < values.length
  · rw [dif_pos hp, hothers, List.drop_eq_getElem_cons hp]
  · have hall : placeable values = values.length :=
      Nat.le_antisymm (List.takeWhile_prefix _).length_le (Nat.le_of_not_lt hp)
    rw [dif_neg hp, hothers, hlength, hall, List.drop_length]

/-- One value more than there are addresses: the last takes the place of the first.  And a list
with a value that is no byte, of which two values are placed, the second of them a truth value. -/
theorem load_exact_goes_round :
    (∃ m', load (.int 65535) (List.replicate 65536 (.int 0) ++ [.int 7]) zero = .ok 65537 m'
        ∧ m'.byteAt 65535 = 7)
      ∧ ∃ m', load (.bool true) [.int 9, .bool true, .int 256, .int 4] zero
          = .error (.dataRange (.int 256)) m' ∧ m'.byteAt 2 = 1 ∧ m'.byteAt 3 = 0 := by
  constructor
  · have hall : ∀ d ∈ List.replicate 65536 (Datum.int 0) ++ [.int 7], d.isByte = true := by
      intro d hd
      rcases List.mem_append.1 hd with hd | hd
      · rw [List.eq_of_mem_replicate hd]
        rfl
      · rw [List.mem_singleton.1 hd]
        rfl
    have hlength : (List.replicate 65536 (Datum.int 0) ++ [Datum.int 7]).length = 65537 := by
      rw [List.length_append, List.length_replicate, List.length_singleton]
    have hcount := placeable_of_isByte hall
    rw [hlength] at hcount
    obtain ⟨m', hplaced, hload⟩ :=
      (load_exact (Datum.int?_int 65535) (List.replicate 65536 (.int 0) ++ [.int 7])).1 zero
    rw [dif_neg (by rw [hcount, hlength]; exact Nat.lt_irrefl 65537), hlength] at hload
    rw [hcount] at hplaced
    obtain ⟨d, hd, hint⟩ := hplaced.last (x := 65535) (i := 65536)
      ⟨⟨by decide, by decide⟩, fun i hi => Nat.le_of_lt_succ hi.1⟩
    rw [List.getElem?_append_right (Nat.le_of_eq List.length_replicate),
      List.length_replicate] at hd
    cases hd
    refine ⟨m', hload, UInt8.toNat_inj.1 ?_⟩
    exact (Int.ofNat_inj.1 (Option.some.inj hint)).symm
  · have hplace : (Datum.bool true).int? = some 1 := rfl
    obtain ⟨m', hplaced, hload⟩ :=
      (load_exact hplace [.int 9, .bool true, .int 256, .int 4]).1 zero
    have hfault : EStateM.Result.error (.showing (.int 256) (.dataRange (.int 256))) m'
        = (.error (.dataRange (.int 256)) m' : EStateM.Result Fault Memory Nat) := by
      rw [Fault.showing_of_lt (by decide)]
    obtain ⟨d, hd, hint⟩ := hplaced.last (x := 2) (i := 1)
      ⟨⟨by decide, by decide⟩, fun i hi => Nat.le_of_lt_succ hi.1⟩
    cases hd
    refine ⟨m', hload.trans hfault, UInt8.toNat_inj.1 ?_, ?_⟩
    · exact (Int.ofNat_inj.1 (Option.some.inj hint)).symm
    · rw [hplaced.kept (x := 3) (by decide), byteAt_zero]

/-- A value that is no byte is not always refused by the memory: behind a byte, the least integer
that is too long to be written is refused for its length. -/
theorem long_value_refused_for_length :
    load (.int 0) [.int 1, .int Text.decimalBound] zero = .error .longInteger (zero.store 0 1)
      ∧ ¬ Fault.IsAccess .longInteger := by
  refine ⟨?_, Fault.not_isAccess_longInteger⟩
  have hlong : byteOf (.int Text.decimalBound) = .error .longInteger := by
    rw [byteOf, Datum.within?_decimalBound]
    exact congrArg Except.error
      (Fault.showing_of_not_isShowable Datum.isShowable_decimalBound _)
  have hvalues : leadingBytes [.int 1, .int Text.decimalBound]
      = ([1], [.int Text.decimalBound]) := by
    rw [leadingBytes_cons (v := 1) rfl, leadingBytes, hlong]
  rw [load_of_some (Datum.int?_int 0), hvalues]
  dsimp only
  rw [Fault.showing_of_not_isShowable Datum.isShowable_decimalBound]
  rfl

end Memory

end Emu8080
