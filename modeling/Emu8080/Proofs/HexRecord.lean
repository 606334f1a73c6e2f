/-
# Emu8080.Proofs.HexRecord -- records as they are written

A `Packet` is a record by its octets: its length, address, type, data and the
checksum of all these.  It is written on a line as a colon and the spelling of
its octets, with blanks around it and perhaps a comment behind it.

What is written so is found on the line (`WrittenOn.textOf?_eq`) and read field
by field as what it is (`Packet.fields_eq`).  An `Entry` is a packet of a type
that the loader knows other than the end of the file; `parse_entry` says which
record it is read as.
-/
import Emu8080.Proofs.Spelling
import Emu8080.Proofs.Word

namespace Emu8080.Record

set_option autoImplicit false

open Emu8080.Text (Spells isBlank)

/-! ## Packets -/

/-- The sum of octets as numbers. -/
def sum (octets : List UInt8) : Nat := octets.foldr (fun v total => v.toNat + total) 0

/-- The two's complement of the sum of octets. -/
def checksum (octets : List UInt8) : UInt8 := UInt8.ofInt (-(sum octets : Int))

/-- Data that a record has room for. -/
abbrev Payload := { bytes : List UInt8 // bytes.length < 256 }

/-- A record by what it carries. -/
structure Packet where
  address : UInt16
  type : UInt8
  payload : Payload

namespace Packet

/-- The octets before the checksum. -/
def body (p : Packet) : List UInt8 :=
  UInt8.ofNat p.payload.val.length :: highByte p.address :: lowByte p.address :: p.type
    :: p.payload.val

def octets (p : Packet) : List UInt8 := p.body ++ [checksum p.body]

/-- What the octets say, field by field. -/
def fields (p : Packet) : Fields :=
  { length := p.payload.val.length
    address := p.address.toNat
    type := p.type.toNat
    checksum := (checksum p.body).toNat
    bytes := p.payload.val }

end Packet

/-! ## Fields -/

variable {digits : List Char}

theorem field_of_spells {octets : List UInt8} (h : Spells octets digits) (hne : octets ≠ []) :
    field digits = .ok (bigEndian octets : Int) := by
  rw [field, h.hexInt?_eq hne]

/-- A record that spells octets is cut where its fields are. -/
theorem fields_of_spells {length high low type check : UInt8} {bytes : List UInt8}
    (h : Spells (length :: high :: low :: type :: (bytes ++ [check])) digits) :
    fields (':' :: digits)
      = .ok { length := length.toNat, address := (ofBytes high low).toNat, type := type.toNat
              checksum := check.toNat, bytes } := by
  have hsize : digits.length = 2 * (bytes.length + 4) + 2 := by
    rw [h.length_eq]
    simp only [List.length_cons, List.length_append, List.length_nil]
    omega
  have hlast : (':' :: digits).length - 2 = 2 * (bytes.length + 4) + 1 := by
    rw [List.length_cons, hsize]
    omega
  have hlength : Spells [length] (digits.take 2) := h.take 1
  have haddress : Spells [high, low] ((digits.drop 2).take 4) := (h.drop 1).take 2
  have htype : Spells [type] ((digits.drop 6).take 2) := (h.drop 3).take 1
  have hcheck : Spells [check] (digits.drop (2 * (bytes.length + 4))) := by
    have hdrop := h.drop (bytes.length + 4)
    rwa [List.drop_succ_cons, List.drop_succ_cons, List.drop_succ_cons, List.drop_succ_cons,
      List.drop_left] at hdrop
  have hdata : Spells bytes ((digits.take (2 * (bytes.length + 4))).drop 8) := by
    have htake := (h.take (bytes.length + 4)).drop 4
    rwa [List.take_succ_cons, List.take_succ_cons, List.take_succ_cons, List.take_succ_cons,
      List.take_left] at htake
  have hword : (bigEndian [high, low] : Int) = (ofBytes high low).toNat := by
    rw [toNat_ofBytes]
    simp only [bigEndian, List.foldl_cons, List.foldl_nil]
    omega
  have hbyte (v : UInt8) : (bigEndian [v] : Int) = v.toNat := by
    simp [bigEndian]
  rw [fields, hlast]
  simp only [List.drop_succ_cons, List.drop_zero, List.take_succ_cons]
  rw [field_of_spells hlength (List.cons_ne_nil _ _), field_of_spells haddress (List.cons_ne_nil _ _),
    field_of_spells htype (List.cons_ne_nil _ _), field_of_spells hcheck (List.cons_ne_nil _ _),
    hdata.dataBytes_eq, hword, hbyte, hbyte, hbyte]
  rfl

/-- The checksum that octets call for. -/
theorem expected_eq (length high low type check : UInt8) (bytes : List UInt8) :
    Fields.expected { length := length.toNat, address := (ofBytes high low).toNat
                      type := type.toNat, checksum := check.toNat, bytes }
      = (checksum (length :: high :: low :: type :: bytes)).toNat := by
  have hlow := low.toNat_lt
  have hhigh : ((ofBytes high low).toNat : Int) / 256 = high.toNat := by
    rw [toNat_ofBytes]
    omega
  have hrest : ((ofBytes high low).toNat : Int) % 256 = low.toNat := by
    rw [toNat_ofBytes]
    omega
  simp only [Fields.expected, hhigh, hrest, checksum, UInt8.ofInt, UInt8.toNat_ofNat', sum,
    List.foldr_cons]
  omega

namespace Packet

variable {p : Packet}

theorem toNat_length (p : Packet) :
    (UInt8.ofNat p.payload.val.length).toNat = p.payload.val.length :=
  UInt8.toNat_ofNat_of_lt' p.payload.property

/-- A written packet is read field by field as what it is. -/
theorem fields_eq (h : Spells p.octets digits) : Record.fields (':' :: digits) = .ok p.fields := by
  rw [fields_of_spells h, ofBytes_highByte_lowByte, toNat_length]
  rfl

/-- A packet has the length and the checksum that it states. -/
theorem expected_fields (p : Packet) : (p.fields.expected : Int) = p.fields.checksum := by
  have h := expected_eq (UInt8.ofNat p.payload.val.length) (highByte p.address)
    (lowByte p.address) p.type (checksum p.body) p.payload.val
  rw [ofBytes_highByte_lowByte, toNat_length] at h
  exact congrArg Int.ofNat h

/-- A written packet passes every check but that of its type. -/
theorem parse_eq (h : Spells p.octets digits) :
    parse (':' :: digits)
      = if p.fields.type = 0 then .ok (.data p.fields.address p.fields.bytes)
        else if p.fields.type = 1 then .ok .endOfFile
        else if p.fields.type = 2 ∨ p.fields.type = 4 then
          if p.fields.bytes.length ≠ 2 then .error (.extendedLength p.fields.bytes.length)
          else .ok (if p.fields.type = 2 then .segmentBase (bigEndian p.fields.bytes)
            else .linearBase (bigEndian p.fields.bytes))
        else if p.fields.type = 3 ∨ p.fields.type = 5 then .ok .startAddress
        else .error (.unknownType p.fields.type) := by
  have hlong : ¬(':' :: digits).length < minLength := by
    rw [List.length_cons, h.length_eq, minLength]
    simp only [octets, body, List.length_append, List.length_cons, List.length_nil]
    omega
  have hlength : (p.fields.bytes.length : Int) = p.fields.length := rfl
  rw [parse, if_neg hlong, fields_eq h]
  simp only [ofFields, hlength, expected_fields, ne_eq, not_true, if_false]

end Packet

/-! ## Lines -/

/-- A line on which a packet is written: blanks, a colon and the spelled octets, blanks, and
perhaps a comment. -/
inductive WrittenOn (p : Packet) : List Char → Prop
  | plain {before digits after : List Char} (hbefore : ∀ c ∈ before, isBlank c = true)
      (hdigits : Spells p.octets digits) (hafter : ∀ c ∈ after, isBlank c = true) :
      WrittenOn p (before ++ (':' :: digits ++ after))
  | commented {before digits after comment : List Char}
      (hbefore : ∀ c ∈ before, isBlank c = true) (hdigits : Spells p.octets digits)
      (hafter : ∀ c ∈ after, isBlank c = true) :
      WrittenOn p (before ++ (':' :: digits ++ (after ++ ';' :: comment)))

/-- A line that is no record: nothing but blanks, or something other than a colon first. -/
def PassedOver (line : List Char) : Prop := (line.find? fun c => !isBlank c) ≠ some ':'

instance (line : List Char) : Decidable (PassedOver line) :=
  inferInstanceAs (Decidable ((line.find? fun c => !isBlank c) ≠ some ':'))

theorem textOf?_of_passedOver {line : List Char} (h : PassedOver line) : textOf? line = none := by
  have hhead : (Text.trim line).head? ≠ some ':' := by
    rw [Text.trim, Text.head?_trimBy]
    exact h
  unfold textOf?
  split
  next rest htrim =>
    rw [htrim] at hhead
    exact absurd rfl hhead
  next => rfl

theorem trim_record_append {after : List Char} (h : ∀ c ∈ digits, isBlank c = false)
    (hafter : ∀ c ∈ after, isBlank c = true) :
    Text.trim (':' :: digits ++ after) = ':' :: digits := by
  have hreverse : ∀ c ∈ after.reverse, isBlank c = true :=
    fun c hc => hafter c (List.mem_reverse.1 hc)
  have hback : Text.dropBack isBlank (digits ++ after) = Text.dropBack isBlank digits := by
    rw [Text.dropBack, Text.dropBack, List.reverse_append, List.dropWhile_append_of_pos hreverse]
  rw [Text.trim, List.cons_append, Text.trimBy_cons (by decide), hback, Text.dropBack_of_none h]

/-- What is written on a line is found there: blanks and the comment are cut off. -/
theorem WrittenOn.textOf?_eq {p : Packet} {line : List Char} (h : WrittenOn p line) :
    ∃ digits, Spells p.octets digits ∧ textOf? line = some (':' :: digits) := by
  have hmark {digits : List Char} (hdigits : Spells p.octets digits) :
      ∀ c ∈ ':' :: digits, c ≠ ';' := by
    intro c hc
    rcases List.mem_cons.1 hc with rfl | hc
    · decide
    · obtain ⟨n, hn⟩ := hdigits.digit c hc
      rintro rfl
      exact absurd (by decide) hn.not_mark
  cases h with
  | @plain before digits after hbefore hdigits hafter =>
    have htrim : Text.trim (before ++ (':' :: digits ++ after)) = ':' :: digits := by
      rw [Text.trim, Text.trimBy_append_left hbefore]
      exact trim_record_append hdigits.isBlank_eq hafter
    have hplain : ¬(':' :: digits).contains ';' = true := by
      rw [List.contains_iff_mem]
      exact fun hc => hmark hdigits ';' hc rfl
    refine ⟨digits, hdigits, ?_⟩
    unfold textOf?
    rw [htrim]
    simp only [if_neg hplain]
  | @commented before digits after comment hbefore hdigits hafter =>
    -- the comment begins with a character that is no blank, so trimming does not reach behind it
    have hmarkBlank : isBlank ';' = false := by decide
    have htrim : Text.trim (before ++ (':' :: digits ++ (after ++ ';' :: comment)))
        = (':' :: digits ++ after) ++ ';' :: Text.dropBack isBlank comment := by
      have hback := Text.dropBack_append_cons hmarkBlank (digits ++ after) comment
      rw [Text.trim, Text.trimBy_append_left hbefore, List.cons_append,
        Text.trimBy_cons (by decide), ← List.append_assoc, hback]
      rfl
    have hbefore : ∀ c ∈ ':' :: digits ++ after, decide (c ≠ ';') = true := by
      intro c hc
      rw [decide_eq_true_eq]
      rcases List.mem_append.1 hc with hc | hc
      · exact hmark hdigits c hc
      · rintro rfl
        exact absurd (hafter _ hc) (by decide)
    have htake : ((':' :: digits ++ after) ++ ';' :: Text.dropBack isBlank comment).takeWhile
        (fun c => decide (c ≠ ';')) = ':' :: digits ++ after := by
      rw [List.takeWhile_append_of_pos hbefore, List.takeWhile_cons,
        if_neg (by decide), List.append_nil]
    refine ⟨digits, hdigits, ?_⟩
    unfold textOf?
    rw [htrim]
    simp only [List.cons_append] at htake ⊢
    rw [if_pos (by simp), htake, ← List.cons_append,
      trim_record_append hdigits.isBlank_eq hafter]

/-! ## Entries -/

/-- What a file can tell before its end: data, a base, or where to start, which may be given as a
segment and an offset or as a linear address. -/
inductive Entry
  | data (address : UInt16) (payload : Payload)
  | segment (address value : UInt16)
  | linear (address value : UInt16)
  | startSegment (address : UInt16) (payload : Payload)
  | startLinear (address : UInt16) (payload : Payload)

/-- The two bytes of a word as data. -/
def wordPayload (w : UInt16) : Payload := ⟨[highByte w, lowByte w], by simp⟩

namespace Entry

/-- The packet of an entry. -/
def packet : Entry → Packet
  | .data address payload => ⟨address, 0, payload⟩
  | .segment address value => ⟨address, 2, wordPayload value⟩
  | .linear address value => ⟨address, 4, wordPayload value⟩
  | .startSegment address payload => ⟨address, 3, payload⟩
  | .startLinear address payload => ⟨address, 5, payload⟩

/-- The record that an entry is. -/
def record : Entry → Record
  | .data address payload => .data address.toNat payload.val
  | .segment _ value => .segmentBase value.toNat
  | .linear _ value => .linearBase value.toNat
  | .startSegment .. => .startAddress
  | .startLinear .. => .startAddress

end Entry

/-- The packet that ends a file. -/
def ending (address : UInt16) (payload : Payload) : Packet := ⟨address, 1, payload⟩

theorem bigEndian_word (w : UInt16) : bigEndian (wordPayload w).val = w.toNat := by
  have hw := w.toNat_lt
  simp only [wordPayload, bigEndian, List.foldl_cons, List.foldl_nil, toNat_highByte, toNat_lowByte]
  omega

/-- A written entry is read as the record that it is. -/
theorem parse_entry {e : Entry} (h : Spells e.packet.octets digits) :
    parse (':' :: digits) = .ok e.record := by
  rw [Packet.parse_eq h]
  cases e with
  | data address payload => rfl
  | segment address value =>
    show Except.ok (segmentBase (bigEndian (wordPayload value).val)) = _
    rw [bigEndian_word]
    rfl
  | linear address value =>
    show Except.ok (linearBase (bigEndian (wordPayload value).val)) = _
    rw [bigEndian_word]
    rfl
  | startSegment address payload => rfl
  | startLinear address payload => rfl

theorem parse_ending {address : UInt16} {payload : Payload}
    (h : Spells (ending address payload).octets digits) : parse (':' :: digits) = .ok .endOfFile := by
  rw [Packet.parse_eq h]
  rfl

end Emu8080.Record
