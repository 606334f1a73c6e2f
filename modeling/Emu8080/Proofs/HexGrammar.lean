/-
# Emu8080.Proofs.HexGrammar -- what the loader takes for a record

Fields are read as numerals and data as pairs of digits, and both are read
leniently: a numeral may have blanks around it, a sign, a mark and low lines, its
digits may come from any script, and blanks may stand between pairs.  These are
the `Lenient` characters.  A text without any of them that is read consists of
hexadecimal digits, so it spells octets (`Spells`), and these are accepted only as
what a record should be: as many octets as the length calls for, with a sum that
is a multiple of 256 (`IsRecord`, `isRecord_of_accepted`).

With a lenient character less is sure: the fields are read, and their values go
together (`Fields.Sound`).
-/
import Emu8080.Proofs.HexImage

namespace Emu8080

set_option autoImplicit false

/-- Fields that are read one after another are each read. -/
theorem Record.reads_eq_ok {α β : Type} {x : Except HexFault α} {f : α → Except HexFault β} {b : β}
    (h : (x >>= f) = .ok b) : ∃ a, x = .ok a ∧ f a = .ok b := by
  cases x with
  | ok a => exact ⟨a, rfl, h⟩
  | error fault => cases h

namespace Text

/-! ## Characters -/

/-- A character that may stand in a field or between fields beside hexadecimal digits. -/
def Lenient (c : Char) : Prop :=
  isNumeralBlank c = true ∨ c ∈ ['+', '-', '_', 'x', 'X']
    ∨ 0x80 ≤ c.toNat ∧ (decimalDigit? c).isSome

instance (c : Char) : Decidable (Lenient c) :=
  inferInstanceAs (Decidable (_ ∨ _ ∨ _ ∧ _))

/-- A character below 128 that reads as a digit writes it. -/
theorem writesDigit_of_ascii {c : Char} {n : Nat} (hascii : c.toNat < 0x80)
    (h : digitBelow? 16 c = some n) : WritesDigit n c := by
  have hall : ∀ code : Fin 0x80, ∀ n < 16, digitBelow? 16 (Char.ofNat code) = some n →
      WritesDigit n (Char.ofNat code) := by
    decide +kernel
  have hwrites := hall ⟨c.toNat, hascii⟩ n (digitBelow?_lt h)
  rw [Char.ofNat_toNat] at hwrites
  exact hwrites h

/-- Beyond ASCII only the decimal digits of a script are digits. -/
theorem digit?_of_wide {c : Char} (hwide : 0x80 ≤ c.toNat) : digit? c = decimalDigit? c := by
  have hletter {last : Char} (hlast : last.toNat < 0x80) : ¬c ≤ last := by
    intro hle
    have hcodes : c.toNat ≤ last.toNat := hle
    omega
  rw [digit?, if_neg fun h => hletter (by decide) h.2, if_neg fun h => hletter (by decide) h.2]

/-- Where nothing is lenient, a digit is one of ASCII. -/
theorem writesDigit_of_digitBelow? {c : Char} {n : Nat} (hc : ¬Lenient c)
    (h : digitBelow? 16 c = some n) : WritesDigit n c := by
  rcases Nat.lt_or_ge c.toNat 0x80 with hascii | hwide
  · exact writesDigit_of_ascii hascii h
  · have hdigit := (Option.filter_eq_some_iff.1 h).1
    rw [digit?_of_wide hwide] at hdigit
    exact absurd (.inr (.inr ⟨hwide, by rw [hdigit]; rfl⟩)) hc

theorem writesDigit_of_hexDigit? {c : Char} {n : Nat} (h : hexDigit? c = some n) :
    WritesDigit n c := by
  rw [hexDigit?] at h
  split at h
  next hascii => exact writesDigit_of_ascii hascii h
  next => cases h

theorem WritesDigit.not_lenient {n : Nat} {c : Char} (h : WritesDigit n c) : ¬Lenient c :=
  h.of_forall (P := fun _ c => ¬Lenient c) (by decide +kernel)

theorem bare_of_not_lenient {c : Char} (h : ¬Lenient c) : Bare c := by
  refine ⟨Bool.eq_false_iff.2 fun hblank => h (.inl hblank), fun hmark => h (.inr (.inl ?_))⟩
  have hsubset : ['-', '+', 'x', 'X'] ⊆ ['+', '-', '_', 'x', 'X'] := by decide
  exact hsubset hmark

/-! ## Numerals -/

section Numerals

variable {chars : List Char}

/-- The characters are hexadecimal digits. -/
def AreDigits (chars : List Char) : Prop := ∀ c ∈ chars, ∃ n, WritesDigit n c

theorem AreDigits.cons {n : Nat} {c : Char} (hc : WritesDigit n c) (h : AreDigits chars) :
    AreDigits (c :: chars) := by
  intro d hd
  rcases List.mem_cons.1 hd with rfl | hrest
  · exact ⟨n, hc⟩
  · exact h d hrest

theorem areDigits_of_digitsAfter? (hchars : ∀ c ∈ chars, ¬Lenient c) {value n : Nat}
    (h : digitsAfter? 16 value chars = some n) : AreDigits chars := by
  induction chars generalizing value with
  | nil => exact fun c hc => absurd hc List.not_mem_nil
  | cons c rest ih =>
    have hc := hchars c List.mem_cons_self
    rw [digitsAfter?] at h
    · obtain ⟨digit, hdigit, hrest⟩ := Option.bind_eq_some_iff.1 h
      have htail := ih (fun d hd => hchars d (List.mem_cons_of_mem c hd)) hrest
      exact htail.cons (writesDigit_of_digitBelow? hc hdigit)
    · rintro d more rfl
      exact absurd (by decide) hc

/-- A numeral in which nothing is lenient consists of digits. -/
theorem areDigits_of_hexInt? (hchars : ∀ c ∈ chars, ¬Lenient c) {n : Int}
    (h : hexInt? chars = some n) : AreDigits chars := by
  have hbare : ∀ c ∈ chars, Bare c := fun c hc => bare_of_not_lenient (hchars c hc)
  rw [hexInt?_bare hbare, Option.map_eq_some_iff] at h
  obtain ⟨value, hvalue, -⟩ := h
  cases chars with
  | nil => cases hvalue
  | cons c rest =>
    obtain ⟨digit, hdigit, hrest⟩ := Option.bind_eq_some_iff.1 hvalue
    have htail := areDigits_of_digitsAfter?
      (fun d hd => hchars d (List.mem_cons_of_mem c hd)) hrest
    exact htail.cons (writesDigit_of_digitBelow? (hchars c List.mem_cons_self) hdigit)

/-! ## Pairs of digits -/

/-- What is read as pairs of digits without a blank between them is that. -/
theorem areDigits_of_bytePairs (hchars : ∀ c ∈ chars, ¬Lenient c) {position : Nat}
    {bytes : List UInt8} (h : Record.bytePairs position chars = .ok bytes) :
    AreDigits chars ∧ chars.length = 2 * bytes.length := by
  have hblank {c : Char} (hc : ¬Lenient c) : isAsciiBlank c = false := by
    rw [Bool.eq_false_iff]
    exact fun hblank => hc (.inl (by rw [isNumeralBlank, hblank, Bool.true_or]))
  induction position, chars using Record.bytePairs.induct generalizing bytes with
  | case1 position =>
    cases h
    exact ⟨fun c hc => absurd hc List.not_mem_nil, rfl⟩
  | case2 position c rest hskipped _ =>
    exact absurd hskipped (Bool.eq_false_iff.1 (hblank (hchars c List.mem_cons_self)))
  | case3 position c rest hc hnone =>
    unfold Record.bytePairs at h
    simp only [hc, hnone] at h
    cases h
  | case4 position c hc high hhigh =>
    unfold Record.bytePairs at h
    simp only [hc, hhigh] at h
    cases h
  | case5 position c hc high d more hhigh hnone =>
    unfold Record.bytePairs at h
    simp only [hc, hhigh, hnone] at h
    cases h
  | case6 position c hc high d more hhigh low hlow ih =>
    unfold Record.bytePairs at h
    simp only [hc, hhigh, hlow, Bool.false_eq_true, if_false] at h
    obtain ⟨others, hothers, hbytes⟩ := Record.reads_eq_ok h
    cases hbytes
    obtain ⟨hdigits, hlength⟩ :=
      ih (fun e he => hchars e (List.mem_cons_of_mem c (List.mem_cons_of_mem d he))) hothers
    refine ⟨(hdigits.cons (writesDigit_of_hexDigit? hlow)).cons (writesDigit_of_hexDigit? hhigh), ?_⟩
    simp only [List.length_cons, hlength]
    omega

/-- The octet of two digits. -/
theorem toNat_ofDigits {v w : Nat} (hv : v < 16) (hw : w < 16) :
    (UInt8.ofNat (v * 16 + w)).toNat = v * 16 + w :=
  UInt8.toNat_ofNat_of_lt' (show v * 16 + w < 256 by omega)

/-- An even number of digits spells octets. -/
theorem spells_of_areDigits (h : AreDigits chars) {count : Nat} (hlength : chars.length = 2 * count) :
    ∃ octets, Spells octets chars ∧ octets.length = count := by
  induction count generalizing chars with
  | zero =>
    rw [List.eq_nil_of_length_eq_zero hlength]
    exact ⟨[], .nil, rfl⟩
  | succ count ih =>
    obtain _ | ⟨high, _ | ⟨low, rest⟩⟩ := chars
    · cases hlength
    · rw [List.length_singleton] at hlength
      omega
    · obtain ⟨u, hu⟩ := h high List.mem_cons_self
      obtain ⟨v, hv⟩ := h low (List.mem_cons_of_mem high List.mem_cons_self)
      have hrest : AreDigits rest :=
        fun c hc => h c (List.mem_cons_of_mem high (List.mem_cons_of_mem low hc))
      obtain ⟨octets, hoctets, hcount⟩ := ih hrest (by
        rw [List.length_cons, List.length_cons] at hlength
        omega)
      have hv16 := hv.1
      have hvalue := toNat_ofDigits hu.1 hv16
      refine ⟨UInt8.ofNat (u * 16 + v) :: octets, .cons ?_ ?_ hoctets, congrArg (· + 1) hcount⟩
      · rwa [hvalue, show (u * 16 + v) / 16 = u by omega]
      · rwa [hvalue, show (u * 16 + v) % 16 = v by omega]

end Numerals

end Text

namespace Record

open Text (Lenient AreDigits Spells)

variable {body : List Char} {octets : List UInt8}

/-! ## Cutting a record -/

theorem areDigits_of_field {chars : List Char} (hchars : ∀ c ∈ chars, ¬Lenient c) {n : Int}
    (h : field chars = .ok n) : AreDigits chars := by
  rw [field] at h
  cases hint : Text.hexInt? chars with
  | some value => exact Text.areDigits_of_hexInt? hchars hint
  | none =>
    rw [hint] at h
    cases h

theorem areDigits_of_dataBytes {chars : List Char} (hchars : ∀ c ∈ chars, ¬Lenient c)
    {bytes : List UInt8} (h : dataBytes chars = .ok bytes) :
    AreDigits chars ∧ chars.length = 2 * bytes.length := by
  rw [dataBytes] at h
  split at h
  next => cases h
  next => exact Text.areDigits_of_bytePairs hchars h

/-- The body of a record that is long enough, cut where the fields are. -/
theorem body_eq_append (hlong : 10 ≤ body.length) :
    body = body.take 2 ++ ((body.drop 2).take 4 ++ ((body.drop 6).take 2
      ++ ((body.take (body.length - 2)).drop 8 ++ body.drop (body.length - 2)))) := by
  have hdata : (body.take (body.length - 2)).drop 8 ++ body.drop (body.length - 2)
      = body.drop 8 := by
    have hfront : 8 ≤ (body.take (body.length - 2)).length := by
      rw [List.length_take]
      omega
    rw [← List.drop_append_of_le_length hfront, List.take_append_drop]
  have htype : (body.drop 6).take 2 ++ body.drop 8 = body.drop 6 := by
    rw [show 8 = 6 + 2 from rfl, ← List.drop_drop, List.take_append_drop]
  have haddress : (body.drop 2).take 4 ++ body.drop 6 = body.drop 2 := by
    rw [show 6 = 2 + 4 from rfl, ← List.drop_drop, List.take_append_drop]
  rw [hdata, htype, haddress, List.take_append_drop]

/-- A record in which nothing is lenient, and whose fields are read, spells octets: two for the
address, one for each other field, and its data. -/
theorem spells_of_fields (hbody : ∀ c ∈ body, ¬Lenient c) {f : Fields}
    (hlong : minLength ≤ (':' :: body).length) (h : fields (':' :: body) = .ok f) :
    ∃ octets, Spells octets body ∧ octets.length = f.bytes.length + 5 := by
  have hsize : 10 ≤ body.length := by
    rw [List.length_cons, minLength] at hlong
    omega
  have hlast : (':' :: body).length - 2 = body.length - 2 + 1 := by
    rw [List.length_cons]
    omega
  rw [fields, hlast] at h
  simp only [List.drop_succ_cons, List.drop_zero, List.take_succ_cons] at h
  obtain ⟨_, hlength, h⟩ := reads_eq_ok h
  obtain ⟨_, haddress, h⟩ := reads_eq_ok h
  obtain ⟨_, htype, h⟩ := reads_eq_ok h
  obtain ⟨_, hcheck, h⟩ := reads_eq_ok h
  obtain ⟨bytes, hbytes, h⟩ := reads_eq_ok h
  cases h
  have htake {count : Nat} {chars : List Char} (hchars : ∀ c ∈ chars, ¬Lenient c) :
      ∀ c ∈ chars.take count, ¬Lenient c := fun c hc => hchars c (List.mem_of_mem_take hc)
  have hdrop {count : Nat} {chars : List Char} (hchars : ∀ c ∈ chars, ¬Lenient c) :
      ∀ c ∈ chars.drop count, ¬Lenient c := fun c hc => hchars c (List.mem_of_mem_drop hc)
  obtain ⟨hdata, hcount⟩ := areDigits_of_dataBytes (hdrop (htake hbody)) hbytes
  have hdigits : AreDigits body := by
    rw [body_eq_append hsize]
    simp only [AreDigits, List.forall_mem_append]
    exact ⟨areDigits_of_field (htake hbody) hlength,
      areDigits_of_field (htake (hdrop hbody)) haddress,
      areDigits_of_field (htake (hdrop hbody)) htype, hdata,
      areDigits_of_field (hdrop hbody) hcheck⟩
  have hpairs : body.length = 2 * (bytes.length + 5) := by
    rw [List.length_drop, List.length_take] at hcount
    omega
  exact Text.spells_of_areDigits hdigits hpairs

/-! ## Records by their octets -/

/-- The octets of a record: as many as its length calls for, and a sum that comes to nothing. -/
def IsRecord (octets : List UInt8) : Prop :=
  (∃ n ∈ octets.head?, octets.length = n.toNat + 5) ∧ sum octets % 256 = 0

instance (octets : List UInt8) : Decidable (IsRecord octets) :=
  inferInstanceAs (Decidable (_ ∧ _))

/-- Octets that make up all fields. -/
theorem eq_fields_of_length (h : 5 ≤ octets.length) :
    ∃ length high low type bytes check,
      octets = length :: high :: low :: type :: (bytes ++ [check]) := by
  obtain _ | ⟨length, _ | ⟨high, _ | ⟨low, _ | ⟨type, rest⟩⟩⟩⟩ := octets
  · cases h
  · simp at h
  · simp at h
  · simp at h
  · have hrest : rest ≠ [] := by
      rintro rfl
      simp at h
    exact ⟨length, high, low, type, rest.dropLast, rest.getLast hrest,
      by rw [List.dropLast_concat_getLast]⟩

theorem sum_append (front back : List UInt8) : sum (front ++ back) = sum front + sum back := by
  induction front with
  | nil => exact (Nat.zero_add _).symm
  | cons v rest ih =>
    show v.toNat + sum (rest ++ back) = v.toNat + sum rest + sum back
    rw [ih, Nat.add_assoc]

/-- The checksum is the octet that brings the sum to nothing. -/
theorem checksum_eq_iff (front : List UInt8) (check : UInt8) :
    checksum front = check ↔ sum (front ++ [check]) % 256 = 0 := by
  have hlast : sum [check] = check.toNat := rfl
  have hlt := check.toNat_lt
  have hvalue : (checksum front).toNat = ((-(sum front : Int)) % 256).toNat := by
    rw [checksum, UInt8.ofInt, UInt8.toNat_ofNat']
    omega
  rw [sum_append, hlast, ← UInt8.toNat_inj, hvalue]
  omega

/-- What makes octets that are cut into fields a record. -/
theorem isRecord_iff {length high low type check : UInt8} {bytes : List UInt8} :
    IsRecord (length :: high :: low :: type :: (bytes ++ [check]))
      ↔ bytes.length = length.toNat
        ∧ checksum (length :: high :: low :: type :: bytes) = check := by
  have hsum : length :: high :: low :: type :: (bytes ++ [check])
      = (length :: high :: low :: type :: bytes) ++ [check] := rfl
  rw [checksum_eq_iff, ← hsum]
  simp [IsRecord]

theorem ofFields_of_length {f : Fields} (h : (f.bytes.length : Int) ≠ f.length) :
    ofFields f = .error .dataLength := by
  rw [ofFields, if_pos h]

theorem ofFields_of_sum {f : Fields} (hlength : (f.bytes.length : Int) = f.length)
    (h : (f.expected : Int) ≠ f.checksum) :
    ofFields f = .error (.checksum f.expected f.checksum) := by
  rw [ofFields, if_neg (fun hne => hne hlength), if_pos h]

/-- Octets that are no record are refused for their number or for their sum. -/
theorem parse_of_not_isRecord (h : Spells octets body) (hlong : 5 ≤ octets.length)
    (hnot : ¬IsRecord octets) :
    parse (':' :: body) = .error .dataLength
      ∨ ∃ calculated given, parse (':' :: body) = .error (.checksum calculated given) := by
  have hsize : ¬(':' :: body).length < minLength := by
    rw [List.length_cons, h.length_eq, minLength]
    omega
  obtain ⟨length, high, low, type, bytes, check, rfl⟩ := eq_fields_of_length hlong
  rw [isRecord_iff] at hnot
  rw [parse, if_neg hsize, fields_of_spells h]
  -- the sum is looked at only if the number of data bytes is right
  by_cases hlength : bytes.length = length.toNat
  · refine .inr ⟨_, _, ofFields_of_sum (congrArg Int.ofNat hlength) fun hsum => hnot ⟨hlength, ?_⟩⟩
    rw [expected_eq] at hsum
    exact UInt8.toNat_inj.1 (Int.ofNat_inj.1 hsum)
  · exact .inl (ofFields_of_length fun hcount => hlength (Int.ofNat_inj.1 hcount))

/-- Spelled octets that are accepted are a record. -/
theorem isRecord_of_parse (h : Spells octets body) {r : Record}
    (hparse : parse (':' :: body) = .ok r) : IsRecord octets := by
  by_cases hlong : 5 ≤ octets.length
  · by_cases hrecord : IsRecord octets
    · exact hrecord
    · rcases parse_of_not_isRecord h hlong hrecord with herror | ⟨_, _, herror⟩
      · cases herror.symm.trans hparse
      · cases herror.symm.trans hparse
  · have hshort : (':' :: body).length < minLength := by
      rw [List.length_cons, h.length_eq, minLength]
      omega
    rw [parse, if_pos hshort] at hparse
    cases hparse

/-! ## Accepted records -/

/-- The values of the fields go together: as many data bytes as the length says, and a sum that
comes to nothing. -/
def Fields.Sound (f : Fields) : Prop :=
  (f.bytes.length : Int) = f.length
    ∧ (f.length + f.address / 256 + f.address % 256 + f.type + sum f.bytes + f.checksum) % 256 = 0

instance (f : Fields) : Decidable f.Sound := inferInstanceAs (Decidable (_ ∧ _))

theorem Fields.sound_of_ofFields {f : Fields} {r : Record} (h : ofFields f = .ok r) : f.Sound := by
  rw [ofFields] at h
  split at h
  next => cases h
  next hlength =>
    split at h
    next => cases h
    next hsum =>
      have hexpected : (f.expected : Int)
          = -(f.length + f.address / 256 + f.address % 256 + f.type + sum f.bytes) % 256 := by
        rw [Fields.expected]
        exact Int.toNat_of_nonneg (Int.emod_nonneg _ (by decide))
      refine ⟨Decidable.not_not.1 hlength, ?_⟩
      rw [← Decidable.not_not.1 hsum, hexpected]
      omega

/-- An accepted record is long enough, and it is what its fields ask for. -/
theorem ofFields_of_parse {text : List Char} {r : Record} (h : parse text = .ok r) :
    minLength ≤ text.length ∧ ∃ f, fields text = .ok f ∧ ofFields f = .ok r := by
  rw [parse] at h
  split at h
  next => cases h
  next hlong =>
    cases hfields : fields text with
    | error cause =>
      rw [hfields] at h
      cases h
    | ok f =>
      rw [hfields] at h
      exact ⟨Nat.le_of_not_lt hlong, f, rfl, h⟩

/-- The fields of an accepted record go together. -/
theorem fields_of_parse {text : List Char} {r : Record} (h : parse text = .ok r) :
    minLength ≤ text.length ∧ ∃ f, fields text = .ok f ∧ f.Sound := by
  obtain ⟨hlong, f, hfields, hf⟩ := ofFields_of_parse h
  exact ⟨hlong, f, hfields, Fields.sound_of_ofFields hf⟩

/-- What is accepted and has nothing lenient in it spells a record. -/
theorem isRecord_of_accepted (hbody : ∀ c ∈ body, ¬Lenient c) {r : Record}
    (h : parse (':' :: body) = .ok r) : ∃ octets, Spells octets body ∧ IsRecord octets := by
  obtain ⟨hlong, f, hfields, -⟩ := fields_of_parse h
  obtain ⟨octets, hoctets, -⟩ := spells_of_fields hbody hlong hfields
  exact ⟨octets, hoctets, isRecord_of_parse hoctets h⟩

end Record

end Emu8080
