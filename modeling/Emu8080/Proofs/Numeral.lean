/-
# Emu8080.Proofs.Numeral -- numbers written in digits

A numeral grows at its end: one more digit multiplies its value by the base and
adds the digit (`digits?_snoc`).  So a number is read from the digits it has in a
base (`digits?_toDigits`), zeros in front of them change nothing, and decimal text
and hexadecimal digits are read as the integer they were made from.

`WritesHex` says which characters write a number in hexadecimal: digits of either
case, with any zeros in front.
-/
import Emu8080.Instr.Operation
import Emu8080.Proofs.Showable
import Emu8080.Proofs.Spelling
import Mathlib.Data.Nat.Digits.Defs

namespace Emu8080

set_option autoImplicit false

/-! ## Numbers as bytes -/

namespace Operation

theorem littleEndian_eq (bytes : List UInt8) :
    littleEndian bytes = Nat.ofDigits 256 (bytes.map UInt8.toNat) := by
  induction bytes with
  | nil => rfl
  | cons v rest ih =>
    rw [littleEndian, ih, List.map_cons, Nat.ofDigits_cons]

theorem mem_bytes_lt (bytes : List UInt8) : ∀ d ∈ bytes.map UInt8.toNat, d < 256 := by
  intro d hd
  obtain ⟨v, -, rfl⟩ := List.mem_map.1 hd
  exact v.toNat_lt

theorem littleEndian_lt (bytes : List UInt8) : littleEndian bytes < 256 ^ bytes.length := by
  have hlt := Nat.ofDigits_lt_base_pow_length (by decide) (mem_bytes_lt bytes)
  rw [List.length_map, ← littleEndian_eq] at hlt
  exact hlt

/-- A byte of a number is a digit of it. -/
theorem toNat_getElem_eq (bytes : List UInt8) {i : Nat} (hi : i < bytes.length) :
    (bytes[i]).toNat = littleEndian bytes / 256 ^ i % 256 := by
  have hdrop := Nat.ofDigits_div_pow_eq_ofDigits_drop i (by decide) _ (mem_bytes_lt bytes)
  rw [← List.map_drop, List.drop_eq_getElem_cons hi, List.map_cons, Nat.ofDigits_cons,
    ← littleEndian_eq] at hdrop
  have hbyte := (bytes[i]).toNat_lt
  rw [hdrop]
  omega

end Operation

namespace Text

variable {base n d : Nat} {c : Char} {chars : List Char}

/-! ## Digits in a row -/

/-- One more digit at the end. -/
theorem digitsAfter?_snoc (hc : digitBelow? base c = some d) {value : Nat} {chars : List Char}
    (h : digitsAfter? base value chars = some n) :
    digitsAfter? base value (chars ++ [c]) = some (n * base + d) := by
  induction value, chars using digitsAfter?.induct base with
  | case1 value =>
    cases h
    exact digitsAfter?_digit hc _ []
  | case2 value e rest ih =>
    rw [digitsAfter?] at h
    obtain ⟨k, he, hrest⟩ := Option.bind_eq_some_iff.1 h
    show digitsAfter? base value ('_' :: e :: (rest ++ [c])) = _
    rw [digitsAfter?, he]
    exact ih k hrest
  | case3 value e rest hsingle ih =>
    rw [digitsAfter?] at h
    · obtain ⟨k, he, hrest⟩ := Option.bind_eq_some_iff.1 h
      rw [List.cons_append, digitsAfter?_digit he]
      exact ih k hrest
    · exact hsingle

theorem digits?_singleton (hc : digitBelow? base c = some d) : digits? base [c] = some d := by
  rw [digits?, hc]
  rfl

theorem digits?_snoc (hc : digitBelow? base c = some d) (h : digits? base chars = some n) :
    digits? base (chars ++ [c]) = some (n * base + d) := by
  cases chars with
  | nil => exact nomatch h
  | cons first rest =>
    obtain ⟨k, hfirst, hrest⟩ := Option.bind_eq_some_iff.1 h
    rw [List.cons_append, digits?, hfirst]
    exact digitsAfter?_snoc hc hrest

/-- A zero in front does not count. -/
theorem digits?_zero (hzero : digitBelow? base '0' = some 0) (h : digits? base chars = some n) :
    digits? base ('0' :: chars) = some n := by
  cases chars with
  | nil => exact nomatch h
  | cons first rest =>
    obtain ⟨k, hfirst, hrest⟩ := Option.bind_eq_some_iff.1 h
    rw [digits?, hzero]
    show digitsAfter? base 0 (first :: rest) = some n
    rw [digitsAfter?_digit hfirst, Nat.zero_mul, Nat.zero_add]
    exact hrest

theorem digits?_padZeros (hzero : digitBelow? base '0' = some 0) (h : digits? base chars = some n)
    (width : Nat) : digits? base (padZeros width chars) = some n := by
  rw [padZeros]
  generalize width - chars.length = count
  induction count with
  | zero => exact h
  | succ count ih => exact digits?_zero hzero ih

/-! ## How great a numeral can be -/

theorem length_trimBy_le (blank : Char → Bool) (chars : List Char) :
    (trimBy blank chars).length ≤ chars.length := by
  have hdrop (chars : List Char) : (chars.dropWhile blank).length ≤ chars.length :=
    (List.dropWhile_sublist blank).length_le
  have hback := hdrop (chars.dropWhile blank).reverse
  rw [List.length_reverse] at hback
  rw [trimBy, List.length_reverse]
  exact hback.trans (hdrop chars)

theorem length_splitSign_le (chars : List Char) : (splitSign chars).2.length ≤ chars.length := by
  unfold splitSign
  split
  next => exact Nat.le_succ _
  next => exact Nat.le_succ _
  next => exact Nat.le_refl _

theorem length_dropHexMark_le (chars : List Char) : (dropHexMark chars).length ≤ chars.length := by
  unfold dropHexMark
  split
  next zero m rest =>
    split
    next =>
      split
      next more => exact Nat.le_add_right more.length 3
      next => exact Nat.le_add_right rest.length 2
    next => exact Nat.le_refl _
  next => exact Nat.le_refl _

/-- A hexadecimal numeral is bounded by its length, whatever else is in it beside digits. -/
theorem natAbs_of_hexInt? {n : Int} (h : hexInt? chars = some n) :
    n.natAbs < 16 ^ chars.length := by
  obtain ⟨k, hk, rfl⟩ := Option.map_eq_some_iff.1 h
  have hlength := (digitLength_le _).trans <| (length_dropHexMark_le _).trans <|
    (length_splitSign_le (trimBy isNumeralBlank chars)).trans (length_trimBy_le _ chars)
  rw [natAbs_applySign]
  exact Nat.lt_of_lt_of_le (digits?_lt hk) (Nat.pow_le_pow_right (by decide) hlength)

/-! ## The digits of a number -/

theorem mem_toDigits (hbase : 1 < base) (hc : c ∈ Nat.toDigits base n) :
    ∃ d < base, c = Nat.digitChar d := by
  induction n using Nat.strongRecOn with
  | ind n ih =>
    rw [Nat.toDigits_eq_if hbase] at hc
    split at hc
    next hlt => exact ⟨n, hlt, List.mem_singleton.1 hc⟩
    next hge =>
      rcases List.mem_append.1 hc with hfront | hlast
      · exact ih (n / base) (Nat.div_lt_self (by omega) hbase) hfront
      · exact ⟨n % base, Nat.mod_lt _ (by omega), List.mem_singleton.1 hlast⟩

/-- The digits of a number read as that number, in whichever case each is written. -/
theorem digits?_toDigits (hbase : 1 < base) {style : Char → Char}
    (hstyle : ∀ d < base, digitBelow? base (style (Nat.digitChar d)) = some d) (n : Nat) :
    digits? base ((Nat.toDigits base n).map style) = some n := by
  induction n using Nat.strongRecOn with
  | ind n ih =>
    rw [Nat.toDigits_eq_if hbase]
    split
    next hlt => exact digits?_singleton (hstyle n hlt)
    next hge =>
      have hlast := hstyle (n % base) (Nat.mod_lt n (by omega))
      rw [List.map_append, List.map_singleton,
        digits?_snoc hlast (ih (n / base) (Nat.div_lt_self (by omega) hbase)), Nat.div_add_mod']

/-! ## Hexadecimal numerals -/

theorem writesDigit_upper {d : Nat} (hd : d < 16) : WritesDigit d (Nat.digitChar d).toUpper :=
  ⟨hd, .inr rfl⟩

theorem digits?_hexUpper (n : Nat) : digits? 16 (hexUpper n) = some n :=
  digits?_toDigits (by decide) (fun _ hd => (writesDigit_upper hd).digitBelow?_eq) n

/-- The digits of hexadecimal text in upper case. -/
def upperDigits : List Char := "0123456789ABCDEF".toList

theorem mem_hexUpper (hc : c ∈ hexUpper n) : c ∈ upperDigits := by
  obtain ⟨e, he, rfl⟩ := List.mem_map.1 hc
  obtain ⟨d, hd, rfl⟩ := mem_toDigits (by decide) he
  have hall : ∀ d : Fin 16, (Nat.digitChar d).toUpper ∈ upperDigits := by decide +kernel
  exact hall ⟨d, hd⟩

theorem writesDigit_of_mem_upperDigits (hc : c ∈ upperDigits) : ∃ d, WritesDigit d c := by
  have hall : upperDigits.all fun c => ∃ d : Fin 16, WritesDigit d c := by decide +kernel
  obtain ⟨d, hd⟩ := of_decide_eq_true (List.all_eq_true.1 hall c hc)
  exact ⟨d, hd⟩

/-- A number that fits is written in the width of its field, in digits of upper case, and is read
again. -/
theorem hexField_of_lt {width : Nat} (hwidth : 0 < width) (hn : n < 16 ^ width) :
    (hexField width n).toList.length = width ∧ (∀ c ∈ (hexField width n).toList, c ∈ upperDigits)
      ∧ hexInt? (hexField width n).toList = some (n : Int) := by
  have hlength : (hexUpper n).length ≤ width := by
    rw [hexUpper, List.length_map]
    exact (Nat.length_toDigits_le_iff (by decide) hwidth).2 hn
  have hupper : ∀ c ∈ padZeros width (hexUpper n), c ∈ upperDigits := by
    intro c hc
    rcases List.mem_append.1 hc with hzero | hdigit
    · rw [List.eq_of_mem_replicate hzero]
      decide
    · exact mem_hexUpper hdigit
  rw [hexField, String.toList_ofList]
  refine ⟨?_, hupper, ?_⟩
  · rw [length_padZeros]
    omega
  · have hbare : ∀ c ∈ padZeros width (hexUpper n), Bare c := by
      intro c hc
      obtain ⟨d, hd⟩ := writesDigit_of_mem_upperDigits (hupper c hc)
      exact hd.bare
    rw [hexInt?_bare hbare, digits?_padZeros (by decide +kernel) (digits?_hexUpper n)]
    rfl

/-- The characters write a number in hexadecimal: digits of either case, with any zeros in front. -/
inductive WritesHex : Nat → List Char → Prop
  | digit {d : Nat} {c : Char} (hc : WritesDigit d c) : WritesHex d [c]
  | snoc {n d : Nat} {chars : List Char} {c : Char} (hchars : WritesHex n chars)
      (hc : WritesDigit d c) : WritesHex (n * 16 + d) (chars ++ [c])

namespace WritesHex

theorem digits?_eq (h : WritesHex n chars) : digits? 16 chars = some n := by
  induction h with
  | digit hc => exact digits?_singleton hc.digitBelow?_eq
  | snoc _ hc ih => exact digits?_snoc hc.digitBelow?_eq ih

/-- Every character is a digit. -/
theorem digit_of_mem (h : WritesHex n chars) : ∀ c ∈ chars, ∃ d, WritesDigit d c := by
  induction h with
  | digit hc =>
    intro c hmem
    rw [List.mem_singleton.1 hmem]
    exact ⟨_, hc⟩
  | snoc _ hc ih =>
    intro c hmem
    rcases List.mem_append.1 hmem with hfront | hlast
    · exact ih c hfront
    · rw [List.mem_singleton.1 hlast]
      exact ⟨_, hc⟩

/-- A zero may stand in front. -/
theorem zero (h : WritesHex n chars) : WritesHex n ('0' :: chars) := by
  induction h with
  | @digit d c hc =>
    have hfront : WritesHex (0 * 16 + d) (['0'] ++ [c]) := .snoc (.digit (by decide +kernel)) hc
    rwa [Nat.zero_mul, Nat.zero_add] at hfront
  | snoc _ hc ih => exact .snoc ih hc

end WritesHex

/-- With the mark in front, what writes a number in hexadecimal is read as the number. -/
theorem hexInt?_marked_writes (h : WritesHex n chars) {m : Char} (hm : m = 'x' ∨ m = 'X') :
    hexInt? ('0' :: m :: chars) = some (n : Int) := by
  have hmarked : isNumeralBlank m = false := by
    rcases hm with rfl | rfl
    · decide
    · decide
  have hdigits : ∀ c ∈ chars, isNumeralBlank c = false := by
    intro c hc
    obtain ⟨d, hd⟩ := h.digit_of_mem c hc
    exact hd.bare.1
  have htrim : trimBy isNumeralBlank ('0' :: m :: chars) = '0' :: m :: chars :=
    trimBy_of_none (List.forall_mem_cons.2 ⟨by decide, List.forall_mem_cons.2 ⟨hmarked, hdigits⟩⟩)
  have hdrop : dropHexMark ('0' :: m :: chars) = chars := by
    have hmark : decimalDigit? '0' = some 0 ∧ (m = 'x' ∨ m = 'X') := ⟨by decide, hm⟩
    simp only [dropHexMark, if_pos hmark]
    split
    next more =>
      obtain ⟨d, hd⟩ := h.digit_of_mem '_' List.mem_cons_self
      exact absurd (by decide) hd.not_mark
    next => rfl
  have hsign : splitSign ('0' :: m :: chars) = (false, '0' :: m :: chars) := rfl
  rw [hexInt?, htrim, hsign]
  simp only [hdrop, h.digits?_eq]
  rfl

/-! ## Decimal text -/

/-- A digit of decimal text. -/
theorem digit_of_mem_decimal (hc : c ∈ Nat.toDigits 10 n) : ∃ d, WritesDigit d c := by
  obtain ⟨d, hd, rfl⟩ := mem_toDigits (by decide) hc
  exact ⟨d, Nat.lt_trans hd (by decide), .inl rfl⟩

theorem digits?_toDigits_ten (n : Nat) : digits? 10 (Nat.toDigits 10 n) = some n := by
  have hall : ∀ d : Fin 10, digitBelow? 10 (Nat.digitChar d) = some d.val := by decide +kernel
  have hread : digits? 10 ((Nat.toDigits 10 n).map id) = some n :=
    digits?_toDigits (by decide) (fun d hd => hall ⟨d, hd⟩) n
  rwa [List.map_id] at hread

theorem digitLength_toDigits (n : Nat) :
    digitLength (Nat.toDigits 10 n) = (Nat.toDigits 10 n).length := by
  rw [digitLength, List.filter_eq_self.2]
  intro c hc
  obtain ⟨d, hd⟩ := digit_of_mem_decimal hc
  rw [decide_eq_true_iff]
  rintro rfl
  exact hd.not_mark (by decide)

theorem toList_decimalInt (n : Int) :
    (decimalInt n).toList
      = if n < 0 then '-' :: Nat.toDigits 10 n.natAbs else Nat.toDigits 10 n.natAbs := by
  rw [decimalInt]
  split
  next =>
    simp only [decimal, String.toList_append, String.toList_ofList]
    rfl
  next => rw [decimal, String.toList_ofList]

/-- Decimal text that is not too long to be written is read as the integer it was made from. -/
theorem decimalInt?_decimalInt {n : Int} (hn : n.natAbs < decimalBound) :
    decimalInt? (decimalInt n).toList = some n := by
  have hlength : ¬maxDecimalDigits < digitLength (Nat.toDigits 10 n.natAbs) := by
    rw [digitLength_toDigits, Nat.not_lt]
    delta decimalBound at hn
    have hmost : 0 < maxDecimalDigits := by decide
    generalize maxDecimalDigits = most at hn hmost ⊢
    exact (Nat.length_toDigits_le_iff (by decide) hmost).2 hn
  have hbare : ∀ c ∈ Nat.toDigits 10 n.natAbs, Bare c := by
    intro c hc
    obtain ⟨d, hd⟩ := digit_of_mem_decimal hc
    exact hd.bare
  have hread := digits?_toDigits_ten n.natAbs
  rw [toList_decimalInt]
  split
  next hneg =>
    have htrim : trimBy isNumeralBlank ('-' :: Nat.toDigits 10 n.natAbs)
        = '-' :: Nat.toDigits 10 n.natAbs :=
      trimBy_of_none (List.forall_mem_cons.2 ⟨by decide, fun c hc => (hbare c hc).1⟩)
    have hsign (rest : List Char) : splitSign ('-' :: rest) = (true, rest) := rfl
    rw [decimalInt?, htrim, hsign]
    simp only [if_neg hlength, hread, Option.map_some, applySign, if_true]
    congr 1
    omega
  next hnonneg =>
    rw [decimalInt?, trimBy_bare hbare, splitSign_bare hbare]
    simp only [if_neg hlength, hread, Option.map_some, applySign, Bool.false_eq_true, if_false]
    congr 1
    omega

end Text

end Emu8080
