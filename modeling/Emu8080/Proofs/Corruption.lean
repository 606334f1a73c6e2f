/-
# Emu8080.Proofs.Corruption -- one wrong digit

A record that spells octets has a sum that comes to nothing.  Another digit in one
place changes one octet (`Spells.set`) and by less than 256, so the sum no longer
comes to nothing (`not_isRecord_set`): no such change makes a record of a record,
whichever field it falls in and whatever the record then asks for.  A changed
length is found before the sum is looked at; either way the line is refused.
-/
import Emu8080.Proofs.ColonLine

namespace Emu8080

set_option autoImplicit false

namespace Text

variable {octets : List UInt8} {chars : List Char}

/-- A digit writes one number. -/
theorem WritesDigit.unique {v w : Nat} {c : Char} (hv : WritesDigit v c) (hw : WritesDigit w c) :
    v = w :=
  Option.some.inj (hv.digitBelow?_eq.symm.trans hw.digitBelow?_eq)

/-- Another digit in one place spells another octet there, and the same octets everywhere else. -/
theorem Spells.set (h : Spells octets chars) {k v w : Nat} {old new : Char}
    (hold : chars[k]? = some old) (hv : WritesDigit v old) (hw : WritesDigit w new) (hne : v ≠ w) :
    ∃ octet octet', octets[k / 2]? = some octet ∧ octet ≠ octet'
      ∧ Spells (octets.set (k / 2) octet') (chars.set k new) := by
  induction h generalizing k with
  | nil => cases hold
  | @cons octet high low rest chars hhigh hlow hrest ih =>
    have hlow16 := hlow.1
    have hhigh16 := hhigh.1
    have hw16 := hw.1
    -- the digit is the high or the low one of the first octet, or it belongs to a later octet
    match k with
    | 0 =>
      cases hold
      have hvalue := toNat_ofDigits hw16 hlow16
      refine ⟨octet, UInt8.ofNat (w * 16 + octet.toNat % 16), rfl, ?_, .cons ?_ ?_ hrest⟩
      · intro heq
        have hoctet := congrArg UInt8.toNat heq
        have hunique := hhigh.unique hv
        omega
      · rwa [hvalue, show (w * 16 + octet.toNat % 16) / 16 = w by omega]
      · rwa [hvalue, show (w * 16 + octet.toNat % 16) % 16 = octet.toNat % 16 by omega]
    | 1 =>
      cases hold
      have hvalue := toNat_ofDigits hhigh16 hw16
      refine ⟨octet, UInt8.ofNat (octet.toNat / 16 * 16 + w), rfl, ?_, .cons ?_ ?_ hrest⟩
      · intro heq
        have hoctet := congrArg UInt8.toNat heq
        have hunique := hlow.unique hv
        omega
      · rwa [hvalue, show (octet.toNat / 16 * 16 + w) / 16 = octet.toNat / 16 by omega]
      · rwa [hvalue, show (octet.toNat / 16 * 16 + w) % 16 = w by omega]
    | k + 2 =>
      obtain ⟨there, changed, hthere, hchanged, hspells⟩ := ih hold
      rw [show (k + 2) / 2 = k / 2 + 1 by omega]
      exact ⟨there, changed, hthere, hchanged, .cons hhigh hlow hspells⟩

end Text

namespace Record

open Text (AreDigits)

variable {octets : List UInt8}

theorem sum_set {k : Nat} {octet : UInt8} (h : octets[k]? = some octet) (octet' : UInt8) :
    sum (octets.set k octet') + octet.toNat = sum octets + octet'.toNat := by
  induction octets generalizing k with
  | nil => cases h
  | cons first rest ih =>
    cases k with
    | zero =>
      cases h
      show octet'.toNat + sum rest + octet.toNat = octet.toNat + sum rest + octet'.toNat
      omega
    | succ k =>
      have hrest := ih h
      show first.toNat + sum (rest.set k octet') + octet.toNat
        = first.toNat + sum rest + octet'.toNat
      omega

/-- A record with another octet in one place is no record. -/
theorem not_isRecord_set (h : IsRecord octets) {k : Nat} {octet octet' : UInt8}
    (hk : octets[k]? = some octet) (hne : octet ≠ octet') : ¬IsRecord (octets.set k octet') := by
  intro hset
  have hsum := sum_set hk octet'
  have hbefore := h.2
  have hafter := hset.2
  have hlt := octet.toNat_lt
  have hlt' := octet'.toNat_lt
  exact hne (UInt8.toNat_inj.1 (by omega))

/-- A line of digits is cut to itself. -/
theorem cut_of_areDigits {digits : List Char} (h : AreDigits digits) :
    cut (':' :: digits) = ':' :: digits := by
  have hblank : ∀ c ∈ digits, Text.isBlank c = false := by
    intro c hc
    obtain ⟨n, hn⟩ := h c hc
    exact hn.isBlank_eq
  have hmark : ∀ c ∈ ':' :: digits, decide (c ≠ ';') = true := by
    intro c hc
    rw [decide_eq_true_eq]
    rintro rfl
    rcases List.mem_cons.1 hc with hcolon | hdigit
    · exact absurd hcolon (by decide)
    · obtain ⟨n, hn⟩ := h ';' hdigit
      exact absurd (by decide) hn.not_mark
  have htrim := trim_record_append hblank (List.forall_mem_nil fun c => Text.isBlank c = true)
  rw [List.append_nil] at htrim
  rw [cut, List.takeWhile_eq_self_iff.2 hmark, htrim]

end Record

namespace Image

open Text (AreDigits HasLines Spells WritesDigit encodeUtf8)
open Record (Entry IsRecord)

variable {chars digits : List Char} {front rest : List (List Char)}

theorem asks_of_areDigits (h : AreDigits digits) :
    asks (':' :: digits) = some (Record.parse (':' :: digits)) := by
  have hcolon : (Text.trim (':' :: digits)).head? = some ':' := by
    rw [Text.trim, Text.trimBy_cons (by decide)]
    rfl
  rw [asks_of_textOf? (Record.textOf?_of_colon hcolon), Record.cut_of_areDigits h]

/-- An accepted line of digits spells a record. -/
theorem isRecord_of_not_refused (hdigits : AreDigits digits)
    (haccepted : ∀ cause, ¬Refused (':' :: digits) cause) :
    ∃ octets, Spells octets digits ∧ IsRecord octets := by
  have hasks := asks_of_areDigits hdigits
  cases hparse : Record.parse (':' :: digits) with
  | error cause =>
    rw [hparse] at hasks
    exact absurd hasks (haccepted cause)
  | ok r =>
    refine Record.isRecord_of_accepted (fun c hc => ?_) hparse
    obtain ⟨n, hn⟩ := hdigits c hc
    exact hn.not_lenient

/-- A line that spells octets that are no record is refused for their number or for their sum. -/
theorem refused_of_not_isRecord {octets : List UInt8} (h : Spells octets digits)
    (hlong : 5 ≤ octets.length) (hnot : ¬IsRecord octets) :
    ∃ cause, Refused (':' :: digits) cause
      ∧ (cause = .dataLength ∨ ∃ calculated given, cause = .checksum calculated given) := by
  have hasks := asks_of_areDigits h.digit
  rcases Record.parse_of_not_isRecord h hlong hnot with herror | ⟨calculated, given, herror⟩
  · rw [herror] at hasks
    exact ⟨_, hasks, .inl rfl⟩
  · rw [herror] at hasks
    exact ⟨_, hasks, .inr ⟨calculated, given, rfl⟩⟩

/-- **One wrong digit is found.**  Take an accepted line of digits, and write another digit in one
place: when loading comes to the line, it is refused by its number, for its length or its sum, and
all that has been placed is what the lines before it place. -/
theorem loadHex_wrongDigit (hdigits : AreDigits digits)
    (haccepted : ∀ cause, ¬Refused (':' :: digits) cause) {k v w : Nat} {old new : Char}
    (hold : digits[k]? = some old) (hv : WritesDigit v old) (hw : WritesDigit w new) (hne : v ≠ w)
    (hlines : HasLines chars (front ++ (':' :: digits.set k new) :: rest))
    (hfront : ∀ line ∈ front, LeftBehind line) (m : Memory) :
    ∃ cause m', loadHex (encodeUtf8 chars) m = .error (.record (front.length + 1) cause) m'
      ∧ (cause = .dataLength ∨ ∃ calculated given, cause = .checksum calculated given)
      ∧ (∃ text, (Fault.record (front.length + 1) cause).message = Text.ofString text
        ∧ NamesLine (front.length + 1) text)
      ∧ ∃ cut n, HasLines cut front ∧ loadHex (encodeUtf8 cut) m = .ok n m' := by
  obtain ⟨octets, hspells, hrecord⟩ := isRecord_of_not_refused hdigits haccepted
  obtain ⟨octet, octet', hoctet, hother, hset⟩ := hspells.set hold hv hw hne
  have hlong : 5 ≤ (octets.set (k / 2) octet').length := by
    obtain ⟨⟨n, -, hlength⟩, -⟩ := hrecord
    rw [List.length_set]
    omega
  obtain ⟨cause, hrefused, hcause⟩ :=
    refused_of_not_isRecord hset hlong (Record.not_isRecord_set hrecord hoctet hother)
  obtain ⟨m', hload, hbefore⟩ := loadHex_refused hlines hfront hrefused m
  exact ⟨cause, m', hload, hcause,
    ⟨cause.message (front.length + 1), rfl, message_namesLine (front.length + 1) cause⟩, hbefore⟩

/-- A wrong digit in the type, behind a base record: the data would end the file. -/
theorem loadHex_wrongDigit_type :
    ∃ cause m', loadHex (encodeUtf8 ":020000040001F9\n:0100000141BE\n".toList) Memory.zero
        = .error (.record 2 cause) m'
      ∧ ∃ cut n, HasLines cut [":020000040001F9".toList]
        ∧ loadHex (encodeUtf8 cut) Memory.zero = .ok n m' := by
  have hbase : Spells (Entry.linear 0 1).packet.octets "020000040001F9".toList := by decide +kernel
  have hdata : Spells (Entry.data 0 ⟨[0x41], by decide⟩).packet.octets "0100000041BE".toList := by
    decide +kernel
  have haccepted := leftBehind_of_entry (Record.writtenOn_of_spells hdata)
  have hfront : ∀ line ∈ [":020000040001F9".toList], LeftBehind line :=
    List.forall_mem_singleton.2 (leftBehind_of_entry (Record.writtenOn_of_spells hbase))
  have hlines : HasLines ":020000040001F9\n:0100000141BE\n".toList
      ([":020000040001F9".toList] ++ (':' :: "0100000041BE".toList.set 7 '1') :: []) :=
    Text.lines_eq_iff.1 (by decide +kernel)
  have hzero : WritesDigit 0 '0' := by decide +kernel
  have hone : WritesDigit 1 '1' := by decide +kernel
  obtain ⟨cause, m', hload, -, -, hbefore⟩ :=
    loadHex_wrongDigit hdata.digit haccepted.1 (k := 7) (by rfl) hzero hone (by decide) hlines hfront
      Memory.zero
  exact ⟨cause, m', hload, hbefore⟩

end Image

end Emu8080
