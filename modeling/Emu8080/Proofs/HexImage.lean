/-
# Emu8080.Proofs.HexImage -- loading a hexadecimal image line by line

A line of a file is passed over, refused, taken for the end of the file, or
carried out (`loadLines_cons`); `loadLines` has one equation for each.  Of a
record that is carried out only two things matter: where it puts bytes
(`placesOf`) and which base it leaves (`baseAfter`).

From this follow the two halves of what loading does.  A file in which entries
are written is loaded, and the memory gets their data in order
(`loadLines_holds`).  Any other text is loaded up to its first refused line, and
that line is what the fault names (`loadLines_stops`, `message_namesLine`).

Loading comes to a line when every line before is left behind (`LeftBehind`).  A
refused line that it comes to places nothing: what has been placed by then is
what the lines before it place (`loadHex_refused`).
-/
import Emu8080.Image.Hex
import Emu8080.Proofs.HexRecord
import Emu8080.Proofs.Lines
import Emu8080.Proofs.Placement
import Emu8080.Proofs.Utf8

namespace Emu8080.Image

set_option autoImplicit false

open Emu8080.Memory (Place spread)
open Emu8080.Record (Entry Payload WrittenOn PassedOver ending)
open Emu8080.Text (HasLines encodeUtf8)

/-! ## One line -/

/-- What a line asks for, if it holds a record: to be refused, or to be carried out. -/
def asks (line : List Char) : Option (Except RecordFault Record) :=
  (Record.textOf? line).map Record.parse

/-- The line holds a record that cannot be used. -/
def Refused (line : List Char) (cause : RecordFault) : Prop := asks line = some (.error cause)

/-- The line ends the file. -/
def EndsFile (line : List Char) : Prop := asks line = some (.ok .endOfFile)

/-- Where a record puts bytes, counted from a base. -/
def placesOf (base : Nat) : Record → List Place
  | .data address bytes => spread (base + address) bytes
  | _ => []

/-- The base after a record. -/
def baseAfter (base : Nat) : Record → Nat
  | .segmentBase value => value * 16
  | .linearBase value => value * 65536
  | _ => base

section Line

variable {damaged : Bool} {number base total : Nat} {line : List Char} {m : Memory}

theorem asks_of_textOf? {text : List Char} (h : Record.textOf? line = some text) :
    asks line = some (Record.parse text) := by
  rw [asks, h]
  rfl

/-- What the loading of lines comes to, by what the first of them asks for. -/
def carryOn (damaged : Bool) (number base total : Nat) (rest : List (List Char)) (m : Memory) :
    Option (Except RecordFault Record) → EStateM.Result Fault Memory Nat
  | none => loadLines damaged (number + 1) base total rest m
  | some (.error cause) => .error (.record number cause) m
  | some (.ok .endOfFile) => .ok total m
  | some (.ok r) =>
      loadLines damaged (number + 1) (baseAfter base r) (total + (placesOf base r).length) rest
        (m.storeEach (placesOf base r))

theorem loadLines_cons (line : List Char) (rest : List (List Char)) :
    loadLines damaged number base total (line :: rest) m
      = carryOn damaged number base total rest m (asks line) := by
  rw [loadLines, asks]
  cases Record.textOf? line with
  | none => rfl
  | some text =>
    rw [Option.map_some]
    cases hparse : Record.parse text with
    | error cause =>
      simp only [hparse]
      rfl
    | ok r =>
      simp only [hparse]
      cases r with
      | data address bytes =>
        rw [carryOn, placesOf, Memory.length_spread, ← Memory.storeAll_eq]
        · rfl
        · exact fun h => nomatch h
      | segmentBase value | linearBase value | startAddress | endOfFile => rfl

theorem loadLines_passed (h : asks line = none) (rest : List (List Char)) :
    loadLines damaged number base total (line :: rest) m
      = loadLines damaged (number + 1) base total rest m := by
  rw [loadLines_cons, h]
  rfl

theorem loadLines_refused {cause : RecordFault} (h : Refused line cause)
    (rest : List (List Char)) :
    loadLines damaged number base total (line :: rest) m = .error (.record number cause) m := by
  rw [loadLines_cons, h]
  rfl

theorem loadLines_ends (h : EndsFile line) (rest : List (List Char)) :
    loadLines damaged number base total (line :: rest) m = .ok total m := by
  rw [loadLines_cons, h]
  rfl

/-- A record that does not end the file is carried out, and the loading goes on behind it. -/
theorem loadLines_record {r : Record} (h : asks line = some (.ok r)) (hr : r ≠ .endOfFile)
    (rest : List (List Char)) :
    loadLines damaged number base total (line :: rest) m
      = loadLines damaged (number + 1) (baseAfter base r) (total + (placesOf base r).length) rest
          (m.storeEach (placesOf base r)) := by
  rw [loadLines_cons, h]
  cases r with
  | endOfFile => exact absurd rfl hr
  | data | segmentBase | linearBase | startAddress => rfl

theorem asks_of_passedOver (h : PassedOver line) : asks line = none := by
  rw [asks, Record.textOf?_of_passedOver h]
  rfl

theorem asks_of_entry {e : Entry} (h : WrittenOn e.packet line) :
    asks line = some (.ok e.record) := by
  obtain ⟨digits, hdigits, htext⟩ := h.textOf?_eq
  rw [asks_of_textOf? htext, Record.parse_entry hdigits]

theorem endsFile_of_ending {address : UInt16} {payload : Payload}
    (h : WrittenOn (ending address payload) line) : EndsFile line := by
  obtain ⟨digits, hdigits, htext⟩ := h.textOf?_eq
  rw [EndsFile, asks_of_textOf? htext, Record.parse_ending hdigits]

/-- A line as a file should have it: no record, an entry, or the end of the file. -/
inductive WellWritten (line : List Char) : Prop
  | passed (hline : PassedOver line)
  | entry {e : Entry} (hline : WrittenOn e.packet line)
  | ending {address : UInt16} {payload : Payload} (hline : WrittenOn (ending address payload) line)

/-- Only what is not well written is refused. -/
theorem not_wellWritten_of_refused {cause : RecordFault} (h : Refused line cause) :
    ¬WellWritten line := by
  rintro (hline | hline | hline)
  · exact nomatch (asks_of_passedOver hline).symm.trans h
  · exact nomatch (asks_of_entry hline).symm.trans h
  · exact nomatch Eq.trans (endsFile_of_ending hline).symm h

/-- A line is refused, ends the file, or is left behind whatever follows it. -/
theorem line_cases (line : List Char) (base total : Nat) (m : Memory) :
    (∃ cause, Refused line cause) ∨ EndsFile line
      ∨ ∃ base' total' m', ∀ damaged number rest,
          loadLines damaged number base total (line :: rest) m
            = loadLines damaged (number + 1) base' total' rest m' := by
  cases h : asks line with
  | none => exact .inr (.inr ⟨base, total, m, fun _ _ => loadLines_passed h⟩)
  | some outcome =>
    cases outcome with
    | error cause => exact .inl ⟨cause, h⟩
    | ok r =>
      by_cases hr : r = .endOfFile
      · subst hr
        exact .inr (.inl h)
      · exact .inr (.inr ⟨_, _, _, fun _ _ => loadLines_record h hr⟩)

end Line

/-- A file that holds the octets of a text is loaded line by line. -/
theorem loadHex_encodeUtf8 {chars : List Char} {lines : List (List Char)}
    (h : HasLines chars lines) (m : Memory) :
    loadHex (encodeUtf8 chars) m = loadLines false 1 0 0 lines m := by
  have hlines : Text.Decoded.lines ⟨chars, false⟩ = lines := h.lines_eq
  simp only [loadHex, Text.decodeUtf8_encodeUtf8, hlines]

/-! ## Written entries -/

/-- The lines hold these entries: each on a line of its own, other lines between them, and behind
them the end of the file or a record that ends it, with any lines after that. -/
inductive Holds : List (List Char) → List Entry → Prop
  | endOfFile : Holds [] []
  | ended {address : UInt16} {payload : Payload} {line : List Char}
      (hline : WrittenOn (ending address payload) line) (rest : List (List Char)) :
      Holds (line :: rest) []
  | passed {line : List Char} {rest : List (List Char)} {entries : List Entry}
      (hline : PassedOver line) (hrest : Holds rest entries) : Holds (line :: rest) entries
  | entry {e : Entry} {line : List Char} {rest : List (List Char)} {entries : List Entry}
      (hline : WrittenOn e.packet line) (hrest : Holds rest entries) :
      Holds (line :: rest) (e :: entries)

/-- The data bytes of an entry. -/
def dataOf : Entry → List UInt8
  | .data _ payload => payload.val
  | _ => []

/-- Where entries put their data, in order: from the base and the address of each on.  The base is
the one that the latest entry before it has set. -/
def placements (base : Nat) : List Entry → List Place
  | [] => []
  | .data address payload :: rest =>
      spread (base + address.toNat) payload.val ++ placements base rest
  | .segment _ value :: rest => placements (value.toNat * 16) rest
  | .linear _ value :: rest => placements (value.toNat * 65536) rest
  | .startSegment .. :: rest => placements base rest
  | .startLinear .. :: rest => placements base rest

theorem placements_cons (base : Nat) (e : Entry) (rest : List Entry) :
    placements base (e :: rest)
      = placesOf base e.record ++ placements (baseAfter base e.record) rest := by
  cases e <;> rfl

theorem length_placesOf (base : Nat) (e : Entry) :
    (placesOf base e.record).length = (dataOf e).length := by
  cases e with
  | data address payload => exact Memory.length_spread _ _
  | segment | linear | startSegment | startLinear => rfl

/-- Lines that hold entries are loaded, and the data of the entries is placed. -/
theorem loadLines_holds {lines : List (List Char)} {entries : List Entry}
    (h : Holds lines entries) (number base total : Nat) (m : Memory) :
    loadLines false number base total lines m
      = .ok (total + (entries.flatMap dataOf).length) (m.storeEach (placements base entries)) := by
  induction h generalizing number base total m with
  | endOfFile => rfl
  | ended hline rest => exact loadLines_ends (endsFile_of_ending hline) rest
  | passed hline _ ih =>
    rw [loadLines_passed (asks_of_passedOver hline)]
    exact ih (number + 1) base total m
  | @entry e line rest entries hline _ ih =>
    have hgoing : e.record ≠ .endOfFile := by
      cases e <;> exact fun h => nomatch h
    rw [loadLines_record (asks_of_entry hline) hgoing, ih, placements_cons, Memory.storeEach_append,
      length_placesOf, List.flatMap_cons, List.length_append, Nat.add_assoc]

/-- **Loading gives back what was written.**  A file in which entries are written is loaded; its
data bytes are counted and stored in order, each in its place, and nothing else changes. -/
theorem loadHex_written {chars : List Char} {lines : List (List Char)} {entries : List Entry}
    (hlines : HasLines chars lines) (hentries : Holds lines entries) (m : Memory) :
    ∃ m', loadHex (encodeUtf8 chars) m = .ok (entries.flatMap dataOf).length m'
      ∧ m' = (placements 0 entries).foldl (fun m place => m.store place.1 place.2) m
      ∧ (∀ a, m'.byteAt a = ((placements 0 entries).reverse.lookup a).getD (m.byteAt a))
      ∧ m'.log = m.log := by
  refine ⟨m.storeEach (placements 0 entries), ?_, rfl, ?_, Memory.log_storeEach _ _⟩
  · rw [loadHex_encodeUtf8 hlines, loadLines_holds hentries, Nat.zero_add]
  · exact Memory.byteAt_storeEach m (placements 0 entries)

/-- A base past the buffer, a remark, digits of either case, and data that runs over the end of the
buffer: its second byte goes to the first address. -/
theorem loadHex_written_wrapping :
    ∃ m', loadHex (encodeUtf8
        ":020000040001F9\n; a remark\n\t:02FFFF00aBcD88 ; wraps\r\n:00000001FF\nleft over".toList)
        Memory.zero = .ok 2 m'
      ∧ m'.byteAt 0xFFFF = 0xAB ∧ m'.byteAt 0 = 0xCD ∧ m'.byteAt 1 = 0 := by
  have hlines : HasLines
      ":020000040001F9\n; a remark\n\t:02FFFF00aBcD88 ; wraps\r\n:00000001FF\nleft over".toList
      [":020000040001F9".toList, "; a remark".toList, "\t:02FFFF00aBcD88 ; wraps".toList,
        ":00000001FF".toList, "left over".toList] := Text.lines_eq_iff.1 (by decide +kernel)
  have hnone : ∀ c ∈ ([] : List Char), Text.isBlank c = true := List.forall_mem_nil _
  have hbase : WrittenOn (Entry.linear 0 1).packet ":020000040001F9".toList :=
    @WrittenOn.plain _ [] "020000040001F9".toList [] hnone (by decide +kernel) hnone
  have hremark : PassedOver "; a remark".toList := by decide +kernel
  have hdata : WrittenOn (Entry.data 0xFFFF ⟨[0xAB, 0xCD], by decide⟩).packet
      "\t:02FFFF00aBcD88 ; wraps".toList :=
    @WrittenOn.commented _ ['\t'] "02FFFF00aBcD88".toList [' '] " wraps".toList
      (List.forall_mem_singleton.2 rfl) (by decide +kernel) (List.forall_mem_singleton.2 rfl)
  have hend : WrittenOn (ending 0 ⟨[], by decide⟩) ":00000001FF".toList :=
    @WrittenOn.plain _ [] "00000001FF".toList [] hnone (by decide +kernel) hnone
  have hentries : Holds _ [.linear 0 1, .data 0xFFFF ⟨[0xAB, 0xCD], by decide⟩] :=
    .entry hbase (.passed hremark (.entry hdata (.ended hend ["left over".toList])))
  obtain ⟨m', hload, -, hbyte, -⟩ := loadHex_written hlines hentries Memory.zero
  refine ⟨m', hload, ?_, ?_, ?_⟩
  · rw [hbyte]
    decide +kernel
  · rw [hbyte]
    decide +kernel
  · rw [hbyte]
    decide +kernel

/-! ## Refused lines -/

/-- Loading goes on behind the line: it is not refused, and it does not end the file. -/
def LeftBehind (line : List Char) : Prop := (∀ cause, ¬Refused line cause) ∧ ¬EndsFile line

section Stopping

variable {number base total : Nat} {lines front rest : List (List Char)} {chars line : List Char}
  {m m' : Memory}

/-- Lines are loaded, or a first one of them is refused, and then those before it are loaded. -/
theorem loadLines_stops (lines : List (List Char)) (number base total : Nat) (m : Memory) :
    (∃ n m', loadLines false number base total lines m = .ok n m')
      ∨ ∃ i line cause m', lines[i]? = some line ∧ Refused line cause
        ∧ loadLines false number base total lines m = .error (.record (number + i) cause) m'
        ∧ ∃ n, loadLines false number base total (lines.take i) m = .ok n m' := by
  induction lines generalizing number base total m with
  | nil => exact .inl ⟨total, m, rfl⟩
  | cons line rest ih =>
    rcases line_cases line base total m with ⟨cause, hrefused⟩ | hends | ⟨base', total', m₁, hgoing⟩
    · exact .inr ⟨0, line, cause, m, rfl, hrefused, loadLines_refused hrefused rest, total, rfl⟩
    · exact .inl ⟨total, m, loadLines_ends hends rest⟩
    · rcases ih (number + 1) base' total' m₁ with ⟨n, m', hok⟩ | ⟨i, bad, cause, m', hbad, hcause,
        herror, n, hbefore⟩
      · exact .inl ⟨n, m', (hgoing false number rest).trans hok⟩
      · refine .inr ⟨i + 1, bad, cause, m', hbad, hcause, ?_, n, ?_⟩
        · rw [hgoing, herror, Nat.add_right_comm, Nat.add_assoc]
        · rw [List.take_succ_cons, hgoing]
          exact hbefore

/-- What follows an accepted end of the file is not looked at. -/
theorem loadLines_append_ends (hline : EndsFile line) {n : Nat}
    (h : loadLines false number base total (front ++ [line]) m = .ok n m')
    (rest : List (List Char)) :
    loadLines false number base total (front ++ line :: rest) m = .ok n m' := by
  induction front generalizing number base total m with
  | nil =>
    rw [List.nil_append, loadLines_ends hline] at h
    rw [List.nil_append, loadLines_ends hline]
    exact h
  | cons first front ih =>
    rw [List.cons_append] at h ⊢
    rcases line_cases first base total m with ⟨cause, hrefused⟩ | hends | ⟨base', total', m₁, hgoing⟩
    · rw [loadLines_refused hrefused] at h
      exact nomatch h
    · rw [loadLines_ends hends] at h ⊢
      exact h
    · rw [hgoing] at h ⊢
      exact ih h

/-- Lines that are left behind leave a base, a count and a memory to the lines behind them. -/
theorem loadLines_leftBehind (h : ∀ line ∈ front, LeftBehind line) (base total : Nat) (m : Memory) :
    ∃ base' total' m', ∀ damaged number rest,
      loadLines damaged number base total (front ++ rest) m
        = loadLines damaged (number + front.length) base' total' rest m' := by
  induction front generalizing base total m with
  | nil => exact ⟨base, total, m, fun _ _ _ => rfl⟩
  | cons first front ih =>
    have hfirst := h first List.mem_cons_self
    rcases line_cases first base total m with ⟨cause, hrefused⟩ | hends | ⟨base₁, total₁, m₁, hgoing⟩
    · exact absurd hrefused (hfirst.1 cause)
    · exact absurd hends hfirst.2
    · obtain ⟨base', total', m', hfront⟩ :=
        ih (fun line hline => h line (List.mem_cons_of_mem first hline)) base₁ total₁ m₁
      refine ⟨base', total', m', fun damaged number rest => ?_⟩
      rw [List.cons_append, hgoing, hfront, List.length_cons, Nat.add_assoc, Nat.add_comm 1]

/-- The first refused line of a file is the one that is named, and what has been placed by then is
what a text of the lines before it places. -/
theorem loadHex_refused (hlines : HasLines chars (front ++ line :: rest))
    (hfront : ∀ line ∈ front, LeftBehind line) {cause : RecordFault} (hline : Refused line cause)
    (m : Memory) :
    ∃ m', loadHex (encodeUtf8 chars) m = .error (.record (front.length + 1) cause) m'
      ∧ ∃ cut n, HasLines cut front ∧ loadHex (encodeUtf8 cut) m = .ok n m' := by
  obtain ⟨base, total, m', hleft⟩ := loadLines_leftBehind hfront 0 0 m
  obtain ⟨cut, -, hcut⟩ := hlines.take front.length
  rw [List.take_left] at hcut
  refine ⟨m', ?_, cut, total, hcut, ?_⟩
  · rw [loadHex_encodeUtf8 hlines, hleft, loadLines_refused hline, Nat.add_comm]
  · have hempty := hleft false 1 []
    rw [List.append_nil] at hempty
    rw [loadHex_encodeUtf8 hcut, hempty]
    rfl

theorem leftBehind_of_entry {e : Entry} (h : WrittenOn e.packet line) : LeftBehind line := by
  have hasks := asks_of_entry h
  refine ⟨fun cause hrefused => ?_, fun hends => ?_⟩
  · cases hasks.symm.trans hrefused
  · have hrecord : e.record = .endOfFile :=
      Except.ok.inj (Option.some.inj (hasks.symm.trans hends))
    cases e <;> cases hrecord

end Stopping

/-- The text names a line by its number. -/
def NamesLine (k : Nat) (text : String) : Prop :=
  ∃ before after : String, text = before ++ ("line " ++ Text.decimal k) ++ after

section Naming

variable {k : Nat} {text : String}

theorem NamesLine.append (h : NamesLine k text) (rest : String) : NamesLine k (text ++ rest) := by
  obtain ⟨before, after, rfl⟩ := h
  exact ⟨before, after ++ rest, String.append_assoc⟩

theorem namesLine_of_ends (opening : String) (h : text = opening ++ "line ") :
    NamesLine k (text ++ Text.decimal k) :=
  ⟨opening, "", by rw [h, String.append_empty, String.append_assoc]⟩

/-- The message of a refused record names its line. -/
theorem message_namesLine (k : Nat) (cause : RecordFault) : NamesLine k (cause.message k) := by
  cases cause with
  | tooShort record =>
    have hon : NamesLine k ("Invalid Intel HEX record format on line " ++ Text.decimal k) :=
      namesLine_of_ends "Invalid Intel HEX record format on " rfl
    exact (hon.append _).append _
  | field record cause =>
    have hon : NamesLine k ("Error parsing Intel HEX line " ++ Text.decimal k) :=
      namesLine_of_ends "Error parsing Intel HEX " rfl
    exact (((hon.append _).append _).append _).append _
  | dataLength => exact namesLine_of_ends "Data length mismatch on " rfl
  | checksum calculated expected =>
    have hon : NamesLine k ("Checksum mismatch on line " ++ Text.decimal k) :=
      namesLine_of_ends "Checksum mismatch on " rfl
    exact (((hon.append _).append _).append _).append _
  | extendedLength given =>
    have hon : NamesLine k ("Extended address record on line " ++ Text.decimal k) :=
      namesLine_of_ends "Extended address record on " rfl
    exact (hon.append _).append _
  | unknownType given =>
    have hon : " on line " = " on " ++ "line " := rfl
    refine namesLine_of_ends ("Unknown Intel HEX record type " ++ Text.hexUpperInt 2 given ++ " on ") ?_
    rw [hon, ← String.append_assoc]

end Naming

/-- **Loading stops at the first refused line.**  A text is loaded, or the fault names the first of
its lines that is refused, one that is not well written; then the lines before it are a text that is
loaded, and they have placed all that was placed.  Where an accepted line ends the file, no line
after it makes a difference; and a refused line is named if the lines before it are left behind. -/
theorem loadHex_stops (chars : List Char) (m : Memory) :
    ∃ lines, HasLines chars lines
      ∧ ((∃ n m', loadHex (encodeUtf8 chars) m = .ok n m')
        ∨ ∃ i line cause m', loadHex (encodeUtf8 chars) m = .error (.record (i + 1) cause) m'
          ∧ lines[i]? = some line ∧ Refused line cause ∧ ¬WellWritten line
          ∧ (∃ text, (Fault.record (i + 1) cause).message = Text.ofString text
            ∧ NamesLine (i + 1) text)
          ∧ ∃ front n, front <+: chars ∧ HasLines front (lines.take i)
            ∧ loadHex (encodeUtf8 front) m = .ok n m')
      ∧ (∀ front line rest cut n m', lines = front ++ line :: rest → EndsFile line →
          HasLines cut (front ++ [line]) → loadHex (encodeUtf8 cut) m = .ok n m' →
          loadHex (encodeUtf8 chars) m = .ok n m')
      ∧ ∀ front line rest cause, lines = front ++ line :: rest →
          (∀ before ∈ front, LeftBehind before) → Refused line cause →
          ∃ m', loadHex (encodeUtf8 chars) m = .error (.record (front.length + 1) cause) m' := by
  have hlines : HasLines chars (Text.lines chars) := Text.lines_eq_iff.1 rfl
  refine ⟨Text.lines chars, hlines, ?_, ?_, ?_⟩
  · rw [loadHex_encodeUtf8 hlines]
    rcases loadLines_stops (Text.lines chars) 1 0 0 m with hok | ⟨i, line, cause, m', hline,
      hrefused, herror, n, hbefore⟩
    · exact .inl hok
    · obtain ⟨front, hprefix, hfront⟩ := hlines.take i
      rw [Nat.add_comm] at herror
      refine .inr ⟨i, line, cause, m', herror, hline, hrefused, not_wellWritten_of_refused hrefused,
        ⟨cause.message (i + 1), rfl, message_namesLine (i + 1) cause⟩, front, n, hprefix, hfront, ?_⟩
      rw [loadHex_encodeUtf8 hfront]
      exact hbefore
  · intro front line rest cut n m' heq hends hcut hok
    rw [loadHex_encodeUtf8 hcut] at hok
    rw [loadHex_encodeUtf8 hlines, heq]
    exact loadLines_append_ends hends hok rest
  · intro front line rest cause heq hfront hrefused
    obtain ⟨m', hload, -⟩ := loadHex_refused (heq ▸ hlines) hfront hrefused m
    exact ⟨m', hload⟩

/-- A line that is too short, between a base record and the end of the file. -/
theorem loadHex_stops_at_short_line :
    ∃ m', loadHex (encodeUtf8 ":020000040001F9\n:00\n:00000001FF".toList) Memory.zero
      = .error (.record 2 (.tooShort ":00")) m' := by
  obtain ⟨lines, hlines, -, -, hrefused⟩ :=
    loadHex_stops ":020000040001F9\n:00\n:00000001FF".toList Memory.zero
  have hsplit : Text.lines ":020000040001F9\n:00\n:00000001FF".toList
      = [":020000040001F9".toList] ++ ":00".toList :: [":00000001FF".toList] := by
    decide +kernel
  have hbase : WrittenOn (Entry.linear 0 1).packet ":020000040001F9".toList :=
    @WrittenOn.plain _ [] "020000040001F9".toList [] (List.forall_mem_nil _) (by decide +kernel)
      (List.forall_mem_nil _)
  have hfront : ∀ before ∈ [":020000040001F9".toList], LeftBehind before :=
    List.forall_mem_singleton.2 (leftBehind_of_entry hbase)
  have hshort : Refused ":00".toList (.tooShort ":00") := rfl
  exact hrefused _ _ _ _ ((Text.lines_eq_iff.2 hlines).symm.trans hsplit) hfront hshort

end Emu8080.Image
