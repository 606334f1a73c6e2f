/-
# Emu8080.Proofs.Showable -- values that can be written

A value can be written if every integer in it is short enough.  So the parts of a
value that can be written can be written too: what is stored in a mapping, and
the elements of a value that has some.

A numeral is less than its base to the power of its number of digits
(`digits?_lt`).  Reading a decimal numeral is bounded in the same way as writing
one, and so an integer that was read can be written (`natAbs_of_decimalInt?`).
-/
import Emu8080.Fault
import Emu8080.Text.Numeral

namespace Emu8080

set_option autoImplicit false

/-- Three digits are not too many. -/
theorem Text.lt_decimalBound {n : Nat} (h : n < 1000) : n < decimalBound := by
  have hdigits : 3 ≤ maxDecimalDigits := by decide
  delta decimalBound
  generalize maxDecimalDigits = most at hdigits ⊢
  have hle : Nat.pow 10 3 ≤ Nat.pow 10 most := Nat.pow_le_pow_right (by decide) hdigits
  exact Nat.lt_of_lt_of_le h hle

/-! ## Parts of values -/

namespace Datum

variable {entries : List (Datum × Datum)} {items : List Datum}

theorem entriesShowable_of_mem (h : entriesShowable entries = true) :
    ∀ e ∈ entries, e.1.isShowable = true ∧ e.2.isShowable = true := by
  induction entries with
  | nil => exact fun e he => absurd he List.not_mem_nil
  | cons first rest ih =>
    rw [entriesShowable, Bool.and_eq_true, Bool.and_eq_true] at h
    obtain ⟨hfirst, hrest⟩ := h
    intro e he
    rcases List.mem_cons.1 he with rfl | he
    · exact hfirst
    · exact ih hrest e he

theorem areShowable_of_mem (h : areShowable items = true) :
    ∀ d ∈ items, d.isShowable = true := by
  induction items with
  | nil => exact fun d hd => absurd hd List.not_mem_nil
  | cons first rest ih =>
    rw [areShowable, Bool.and_eq_true] at h
    intro d hd
    rcases List.mem_cons.1 hd with rfl | hd
    · exact h.1
    · exact ih h.2 d hd

theorem mem_of_lookup? {key d : Datum} (h : lookup? key entries = some d) :
    ∃ k, (k, d) ∈ entries := by
  induction entries with
  | nil => exact nomatch h
  | cons first rest ih =>
    rw [lookup?] at h
    split at h
    · exact ⟨first.1, by rw [← Option.some.inj h]; exact List.mem_cons_self⟩
    · obtain ⟨k, hk⟩ := ih h
      exact ⟨k, List.mem_cons_of_mem first hk⟩

/-- The elements of a value that can be written can be written. -/
theorem isShowable_of_elements? {d : Datum} (hd : d.isShowable = true)
    (h : d.elements? = some items) : ∀ item ∈ items, item.isShowable = true := by
  cases d with
  | list given =>
    cases h
    exact areShowable_of_mem hd
  | map entries =>
    cases h
    intro item hitem
    obtain ⟨e, he, rfl⟩ := List.mem_map.1 hitem
    exact (entriesShowable_of_mem hd e he).1
  | str s =>
    cases h
    intro item hitem
    obtain ⟨c, -, rfl⟩ := List.mem_map.1 hitem
    rfl
  | null | bool b | int n | float x => exact nomatch h

theorem isShowable_of_lt {n : Int} (h : n.natAbs < Text.decimalBound) :
    (Datum.int n).isShowable = true := by
  rw [isShowable, decide_eq_true h]

/-- The least integer that is too long to be written. -/
theorem isShowable_decimalBound : (Datum.int Text.decimalBound).isShowable = false := by
  rw [isShowable, Int.natAbs_natCast, decide_eq_false (Nat.lt_irrefl _)]

/-- An integer that is too long to be written is no byte. -/
theorem within?_decimalBound : (Datum.int Text.decimalBound).within? 0xFF = none := by
  refine Option.eq_none_iff_forall_ne_some.2 fun k hk => ?_
  obtain ⟨hint, hle⟩ := within?_eq_some_iff.1 hk
  have heq : Text.decimalBound = k := Int.ofNat_inj.1 (Option.some.inj hint)
  have hlt : k < Text.decimalBound := Text.lt_decimalBound (Nat.lt_of_le_of_lt hle (by decide))
  exact absurd heq (Nat.ne_of_gt hlt)

end Datum

/-- A fault can show a number of three digits. -/
theorem Fault.showing_of_lt {n : Int} (h : n.natAbs < 1000) (fault : Fault) :
    showing (.int n) fault = fault :=
  showing_of_isShowable (Datum.isShowable_of_lt (Text.lt_decimalBound h)) fault

/-! ## Digits -/

namespace Text

section Digits

variable {base value n d : Nat} {c : Char} {chars : List Char}

theorem digitLength_cons (hc : digitBelow? base c = some d) (rest : List Char) :
    digitLength (c :: rest) = digitLength rest + 1 := by
  rw [digitLength, List.filter_cons_of_pos (by simp [ne_low_line hc]), List.length_cons,
    digitLength]

theorem digitLength_le (chars : List Char) : digitLength chars ≤ chars.length :=
  List.length_filter_le _ _

theorem pow_base_succ (base k : Nat) : Nat.pow base (k + 1) = base * Nat.pow base k := Nat.pow_succ'

theorem digitsAfter?_lt (h : digitsAfter? base value chars = some n) :
    n < (value + 1) * Nat.pow base (digitLength chars) := by
  have hstep {c : Char} {d value k : Nat} (hc : digitBelow? base c = some d) :
      (value * base + d + 1) * Nat.pow base k ≤ (value + 1) * Nat.pow base (k + 1) := by
    have hd := digitBelow?_lt hc
    rw [pow_base_succ, ← Nat.mul_assoc, Nat.succ_mul value base]
    exact Nat.mul_le_mul_right _ (by omega)
  induction value, chars using digitsAfter?.induct base with
  | case1 value =>
    cases h
    exact Nat.le_of_eq (Nat.mul_one _).symm
  | case2 value c rest ih =>
    rw [digitsAfter?] at h
    obtain ⟨d, hc, hrest⟩ := Option.bind_eq_some_iff.1 h
    have hlength : digitLength ('_' :: c :: rest) = digitLength rest + 1 := digitLength_cons hc rest
    rw [hlength]
    exact Nat.lt_of_lt_of_le (ih d hrest) (hstep hc)
  | case3 value c rest hsingle ih =>
    rw [digitsAfter?] at h
    · obtain ⟨d, hc, hrest⟩ := Option.bind_eq_some_iff.1 h
      rw [digitLength_cons hc]
      exact Nat.lt_of_lt_of_le (ih d hrest) (hstep hc)
    · exact hsingle

theorem digits?_lt (h : digits? base chars = some n) : n < Nat.pow base (digitLength chars) := by
  cases chars with
  | nil => exact nomatch h
  | cons c rest =>
    obtain ⟨d, hc, hrest⟩ := Option.bind_eq_some_iff.1 h
    have hlt := digitsAfter?_lt hrest
    have hle : (d + 1) * Nat.pow base (digitLength rest) ≤ base * Nat.pow base (digitLength rest) :=
      Nat.mul_le_mul_right _ (digitBelow?_lt hc)
    rw [digitLength_cons hc, pow_base_succ]
    exact Nat.lt_of_lt_of_le hlt hle

theorem natAbs_applySign (negative : Bool) (k : Nat) : (applySign negative k).natAbs = k := by
  cases negative with
  | true => exact Int.natAbs_neg k
  | false => rfl

end Digits

/-! ## Decimal numerals -/

/-- A decimal numeral is read only if it can be written again. -/
theorem natAbs_of_decimalInt? {n : Int} {chars : List Char} (h : decimalInt? chars = some n) :
    n.natAbs < decimalBound := by
  simp only [decimalInt?] at h
  delta decimalBound
  generalize maxDecimalDigits = most at h ⊢
  split at h
  · exact nomatch h
  · next hlength =>
    obtain ⟨k, hk, rfl⟩ := Option.map_eq_some_iff.1 h
    rw [natAbs_applySign]
    exact Nat.lt_of_lt_of_le (digits?_lt hk)
      (Nat.pow_le_pow_right (by decide) (Nat.le_of_not_lt hlength))

end Text

end Emu8080
