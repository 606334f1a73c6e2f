/-
# Emu8080.Proofs.Spelling -- octets written in hexadecimal

An octet is spelled by two digits, high half first, each in either case
(`Spells`).  None of these characters is a blank or a mark, so trimming does not
touch what is spelled, and it reads back: as a numeral it is the number with
these octets, and as pairs of digits the octets themselves.
-/
import Emu8080.Image.Record

namespace Emu8080.Text

set_option autoImplicit false

/-! ## Trimming -/

section Trimming

variable {blank : Char → Bool} {chars : List Char}

/-- Drop the characters of a class from the end. -/
def dropBack (blank : Char → Bool) (chars : List Char) : List Char :=
  (chars.reverse.dropWhile blank).reverse

/-- A character that is no blank stays, with everything before it. -/
theorem dropBack_append_cons {c : Char} (hc : blank c = false) (front rest : List Char) :
    dropBack blank (front ++ c :: rest) = front ++ c :: dropBack blank rest := by
  have hstop : (c :: front.reverse).dropWhile blank = c :: front.reverse := by
    rw [List.dropWhile_cons, hc, if_neg Bool.false_ne_true]
  have hreverse : (front ++ c :: rest).reverse = rest.reverse ++ c :: front.reverse := by simp
  rw [dropBack, dropBack, hreverse, List.dropWhile_append, hstop]
  split
  next hempty =>
    rw [List.isEmpty_iff.1 hempty]
    simp
  next => simp

theorem trimBy_append_left {before : List Char} (h : ∀ c ∈ before, blank c = true)
    (rest : List Char) : trimBy blank (before ++ rest) = trimBy blank rest := by
  rw [trimBy, List.dropWhile_append_of_pos h, trimBy]

theorem trimBy_cons {c : Char} (hc : blank c = false) (rest : List Char) :
    trimBy blank (c :: rest) = c :: dropBack blank rest := by
  have hstop : (c :: rest).dropWhile blank = c :: rest := by
    rw [List.dropWhile_cons, hc, if_neg Bool.false_ne_true]
  have hback := dropBack_append_cons hc [] rest
  rw [trimBy, hstop]
  exact hback

/-- What holds no blank is not trimmed. -/
theorem dropBack_of_none (h : ∀ c ∈ chars, blank c = false) : dropBack blank chars = chars := by
  induction chars with
  | nil => rfl
  | cons c rest ih =>
    have hrest := dropBack_append_cons (h c List.mem_cons_self) [] rest
    rw [ih fun d hd => h d (List.mem_cons_of_mem c hd)] at hrest
    exact hrest

theorem trimBy_of_none (h : ∀ c ∈ chars, blank c = false) : trimBy blank chars = chars := by
  cases chars with
  | nil => rfl
  | cons c rest =>
    rw [trimBy_cons (h c List.mem_cons_self),
      dropBack_of_none fun d hd => h d (List.mem_cons_of_mem c hd)]

/-- Trimming brings the first character that is no blank to the front. -/
theorem head?_trimBy (blank : Char → Bool) (chars : List Char) :
    (trimBy blank chars).head? = chars.find? fun c => !blank c := by
  induction chars with
  | nil => rfl
  | cons c rest ih =>
    cases hc : blank c with
    | true =>
      have hdrop : trimBy blank (c :: rest) = trimBy blank rest := by
        rw [trimBy, List.dropWhile_cons, hc, if_pos rfl, trimBy]
      rw [hdrop, ih, List.find?_cons_of_neg (by simp [hc])]
    | false =>
      rw [trimBy_cons hc, List.find?_cons_of_pos (by simp [hc])]
      rfl

end Trimming

/-! ## Digits -/

/-- The character writes a number below sixteen as a hexadecimal digit, in either case. -/
def WritesDigit (n : Nat) (c : Char) : Prop :=
  n < 16 ∧ (c = Nat.digitChar n ∨ c = (Nat.digitChar n).toUpper)

instance (n : Nat) (c : Char) : Decidable (WritesDigit n c) :=
  inferInstanceAs (Decidable (n < 16 ∧ (c = Nat.digitChar n ∨ c = (Nat.digitChar n).toUpper)))

namespace WritesDigit

variable {n : Nat} {c : Char}

/-- What holds of both cases of the sixteen digits holds of every digit. -/
theorem of_forall {P : Nat → Char → Prop}
    (hP : ∀ n : Fin 16, P n (Nat.digitChar n) ∧ P n (Nat.digitChar n).toUpper)
    (h : WritesDigit n c) : P n c := by
  obtain ⟨hn, rfl | rfl⟩ := h
  · exact (hP ⟨n, hn⟩).1
  · exact (hP ⟨n, hn⟩).2

/-- A digit reads as the number it writes. -/
theorem digitBelow?_eq (h : WritesDigit n c) : digitBelow? 16 c = some n :=
  h.of_forall (P := fun n c => digitBelow? 16 c = some n) (by decide +kernel)

theorem toNat_lt (h : WritesDigit n c) : c.toNat < 0x80 :=
  h.of_forall (P := fun _ c => c.toNat < 0x80) (by decide +kernel)

theorem hexDigit?_eq (h : WritesDigit n c) : hexDigit? c = some n := by
  rw [hexDigit?, if_pos h.toNat_lt, h.digitBelow?_eq]

theorem isBlank_eq (h : WritesDigit n c) : isBlank c = false :=
  h.of_forall (P := fun _ c => isBlank c = false) (by decide +kernel)

/-- A digit is none of the marks that stand in numerals and on lines. -/
theorem not_mark (h : WritesDigit n c) : c ∉ ['_', '-', '+', 'x', 'X', ';'] :=
  h.of_forall (P := fun _ c => c ∉ ['_', '-', '+', 'x', 'X', ';']) (by decide +kernel)

end WritesDigit

theorem isAsciiBlank_of_isBlank {c : Char} (h : isBlank c = false) : isAsciiBlank c = false := by
  simp only [isBlank, Bool.or_eq_false_iff] at h
  exact h.1.1

/-! ## Numerals without marks -/

/-- A character that is no blank of a numeral, no sign and no mark. -/
def Bare (c : Char) : Prop := isNumeralBlank c = false ∧ c ∉ ['-', '+', 'x', 'X']

instance (c : Char) : Decidable (Bare c) := inferInstanceAs (Decidable (_ ∧ _))

theorem WritesDigit.bare {n : Nat} {c : Char} (h : WritesDigit n c) : Bare c :=
  h.of_forall (P := fun _ c => Bare c) (by decide +kernel)

section Bare

variable {chars : List Char}

theorem trimBy_bare (h : ∀ c ∈ chars, Bare c) : trimBy isNumeralBlank chars = chars :=
  trimBy_of_none fun c hc => (h c hc).1

theorem splitSign_bare (h : ∀ c ∈ chars, Bare c) : splitSign chars = (false, chars) := by
  unfold splitSign
  split
  next => exact absurd (by decide) (h '-' List.mem_cons_self).2
  next => exact absurd (by decide) (h '+' List.mem_cons_self).2
  next => rfl

theorem dropHexMark_bare (h : ∀ c ∈ chars, Bare c) : dropHexMark chars = chars := by
  unfold dropHexMark
  split
  next zero m rest =>
    have hm := (h m (List.mem_cons_of_mem zero List.mem_cons_self)).2
    rw [if_neg]
    rintro ⟨-, rfl | rfl⟩
    · exact hm (by decide)
    · exact hm (by decide)
  next => rfl

/-- Nothing is taken off a numeral without marks, so all of it is read as digits. -/
theorem hexInt?_bare (h : ∀ c ∈ chars, Bare c) :
    hexInt? chars = (digits? 16 chars).map Int.ofNat := by
  rw [hexInt?, trimBy_bare h, splitSign_bare h]
  simp only [dropHexMark_bare h]
  rfl

end Bare

/-! ## Octets -/

/-- The characters spell the octets, two digits for each. -/
inductive Spells : List UInt8 → List Char → Prop
  | nil : Spells [] []
  | cons {v : UInt8} {high low : Char} {rest : List UInt8} {chars : List Char}
      (hhigh : WritesDigit (v.toNat / 16) high) (hlow : WritesDigit (v.toNat % 16) low)
      (hrest : Spells rest chars) : Spells (v :: rest) (high :: low :: chars)

instance Spells.decide : (octets : List UInt8) → (chars : List Char) → Decidable (Spells octets chars)
  | [], [] => isTrue .nil
  | [], _ :: _ => isFalse nofun
  | _ :: _, [] => isFalse nofun
  | _ :: _, [_] => isFalse nofun
  | v :: octets, high :: low :: chars =>
      have := Spells.decide octets chars
      decidable_of_iff
        (WritesDigit (v.toNat / 16) high ∧ WritesDigit (v.toNat % 16) low ∧ Spells octets chars)
        ⟨fun ⟨hhigh, hlow, hrest⟩ => .cons hhigh hlow hrest,
          fun | .cons hhigh hlow hrest => ⟨hhigh, hlow, hrest⟩⟩

namespace Spells

variable {octets : List UInt8} {chars : List Char}

theorem length_eq (h : Spells octets chars) : chars.length = 2 * octets.length := by
  induction h with
  | nil => rfl
  | cons _ _ _ ih =>
    simp only [List.length_cons, ih]
    omega

/-- The first characters spell the first octets. -/
theorem take (h : Spells octets chars) (count : Nat) :
    Spells (octets.take count) (chars.take (2 * count)) := by
  induction h generalizing count with
  | nil => simpa using nil
  | @cons v high low rest chars hhigh hlow _ ih =>
    cases count with
    | zero => exact nil
    | succ count =>
      rw [show 2 * (count + 1) = 2 * count + 1 + 1 by omega]
      exact cons hhigh hlow (ih count)

/-- What is left of the characters spells what is left of the octets. -/
theorem drop (h : Spells octets chars) (count : Nat) :
    Spells (octets.drop count) (chars.drop (2 * count)) := by
  induction h generalizing count with
  | nil => simpa using nil
  | @cons v high low rest chars hhigh hlow hrest ih =>
    cases count with
    | zero => exact cons hhigh hlow hrest
    | succ count =>
      rw [show 2 * (count + 1) = 2 * count + 1 + 1 by omega]
      exact ih count

/-- Every character is a digit. -/
theorem digit (h : Spells octets chars) : ∀ c ∈ chars, ∃ n, WritesDigit n c := by
  induction h with
  | nil => exact fun c hc => nomatch hc
  | cons hhigh hlow _ ih =>
    intro c hc
    rcases List.mem_cons.1 hc with rfl | hc
    · exact ⟨_, hhigh⟩
    · rcases List.mem_cons.1 hc with rfl | hc
      · exact ⟨_, hlow⟩
      · exact ih c hc

theorem isBlank_eq (h : Spells octets chars) : ∀ c ∈ chars, isBlank c = false := by
  intro c hc
  obtain ⟨n, hn⟩ := h.digit c hc
  exact hn.isBlank_eq

/-! ### As a numeral -/

/-- More digits continue a numeral octet by octet. -/
theorem digitsAfter?_eq (h : Spells octets chars) (value : Nat) :
    digitsAfter? 16 value chars
      = some (octets.foldl (fun n v => n * 256 + v.toNat) value) := by
  induction h generalizing value with
  | nil => rfl
  | @cons v high low rest chars hhigh hlow _ ih =>
    have hvalue : (value * 16 + v.toNat / 16) * 16 + v.toNat % 16 = value * 256 + v.toNat := by
      omega
    rw [digitsAfter?_digit hhigh.digitBelow?_eq, digitsAfter?_digit hlow.digitBelow?_eq, hvalue, ih]
    rfl

/-- Spelled octets read as the number they are the octets of. -/
theorem hexInt?_eq (h : Spells octets chars) (hne : octets ≠ []) :
    hexInt? chars = some (Record.bigEndian octets : Int) := by
  have hbare : ∀ c ∈ chars, Bare c := by
    intro c hc
    obtain ⟨n, hn⟩ := h.digit c hc
    exact hn.bare
  rw [hexInt?_bare hbare]
  have hdigits := digitsAfter?_eq h 0
  cases h with
  | nil => exact absurd rfl hne
  | @cons v high low rest chars hhigh hlow hrest =>
    rw [digitsAfter?_digit hhigh.digitBelow?_eq, Nat.zero_mul, Nat.zero_add] at hdigits
    rw [digits?, hhigh.digitBelow?_eq]
    exact congrArg (Option.map Int.ofNat) hdigits

/-! ### As pairs of digits -/

theorem bytePairs_eq (h : Spells octets chars) (position : Nat) :
    Record.bytePairs position chars = .ok octets := by
  induction h generalizing position with
  | nil => rfl
  | @cons v high low rest chars hhigh hlow _ ih =>
    have hblank : isAsciiBlank high = false := isAsciiBlank_of_isBlank hhigh.isBlank_eq
    have hoctet : UInt8.ofNat (v.toNat / 16 * 16 + v.toNat % 16) = v := by
      rw [show v.toNat / 16 * 16 + v.toNat % 16 = v.toNat by omega, UInt8.ofNat_toNat]
    unfold Record.bytePairs
    rw [hblank, if_neg Bool.false_ne_true]
    simp only [hhigh.hexDigit?_eq, hlow.hexDigit?_eq, ih, hoctet]
    rfl

/-- Spelled octets are read as data. -/
theorem dataBytes_eq (h : Spells octets chars) : Record.dataBytes chars = .ok octets := by
  have hascii : chars.findIdx? (fun c => 0x80 ≤ c.toNat) = none := by
    rw [List.findIdx?_eq_none_iff]
    intro c hc
    obtain ⟨n, hn⟩ := h.digit c hc
    have hlt := hn.toNat_lt
    simpa using hlt
  rw [Record.dataBytes, hascii]
  exact h.bytePairs_eq 0

end Spells

end Emu8080.Text
