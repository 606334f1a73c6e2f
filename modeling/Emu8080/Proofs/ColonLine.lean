/-
# Emu8080.Proofs.ColonLine -- lines of a file that begin with a colon

Cut off the comment of a line and the blanks around what is left (`Record.cut`).
If that begins with a colon, the line holds a record (`textOf?_of_colon`).  Loading
comes to it when every line before is left behind (`LeftBehind`), and then one of
two things is so: the line is refused by its number, or it is a record, up to
what is read leniently (`loadHex_colonLine`).  A lenient character can stand for a
digit, so a line can be accepted that spells nothing (`accepted_without_spelling`).
-/
import Mathlib.Data.List.TakeWhile
import Emu8080.Proofs.HexGrammar

namespace Emu8080

set_option autoImplicit false

/-! ## Lines without their comments -/

section Cutting

open Text (isBlank trim trimBy)

/-- A line without its comment, and without the blanks around what is left. -/
def Record.cut (line : List Char) : List Char := trim (line.takeWhile (· ≠ ';'))

theorem Text.ne_mark_of_isBlank {c : Char} (h : isBlank c = true) : c ≠ ';' := by
  rintro rfl
  exact absurd h (by decide)

/-- Trimming cuts blanks off both ends and nothing else. -/
theorem Text.trimBy_split (blank : Char → Bool) (chars : List Char) :
    ∃ before after, chars = before ++ trimBy blank chars ++ after
      ∧ (∀ c ∈ before, blank c = true) ∧ ∀ c ∈ after, blank c = true := by
  have hdropped (chars : List Char) : ∀ c ∈ chars.takeWhile blank, blank c = true :=
    fun c hc => List.mem_takeWhile_imp hc
  let core := chars.dropWhile blank
  have hcore : core = trimBy blank chars ++ (core.reverse.takeWhile blank).reverse := by
    rw [trimBy, ← List.reverse_append, List.takeWhile_append_dropWhile, List.reverse_reverse]
  refine ⟨chars.takeWhile blank, (core.reverse.takeWhile blank).reverse, ?_, hdropped chars, ?_⟩
  · rw [List.append_assoc, ← hcore, List.takeWhile_append_dropWhile]
  · exact fun c hc => hdropped core.reverse c (List.mem_reverse.1 hc)

/-- A comment does not begin among blanks, so cutting it off commutes with trimming. -/
theorem Record.cut_of_trim (line : List Char) :
    ∃ after, (∀ c ∈ after, isBlank c = true) ∧ trim (trim line ++ after) = trim line
      ∧ Record.cut line = trim ((trim line ++ after).takeWhile (· ≠ ';')) := by
  obtain ⟨before, after, (hline : line = before ++ trim line ++ after), hbefore, hafter⟩ :=
    Text.trimBy_split isBlank line
  refine ⟨after, hafter, ?_, ?_⟩
  · calc
      trim (trim line ++ after) = trim (before ++ (trim line ++ after)) :=
        (Text.trimBy_append_left hbefore _).symm
      _ = trim line := by rw [← List.append_assoc, ← hline]
  · have hnoMark : ∀ c ∈ before, decide (c ≠ ';') = true :=
      fun c hc => decide_eq_true (Text.ne_mark_of_isBlank (hbefore c hc))
    calc
      Record.cut line = trim ((before ++ (trim line ++ after)).takeWhile (· ≠ ';')) := by
        rw [← List.append_assoc, ← hline, Record.cut]
      _ = trim (before ++ (trim line ++ after).takeWhile (· ≠ ';')) := by
        rw [List.takeWhile_append_of_pos hnoMark]
      _ = trim ((trim line ++ after).takeWhile (· ≠ ';')) := Text.trimBy_append_left hbefore _

/-- A line that begins with a colon is cut to a colon and a body. -/
theorem Record.cut_of_colon {line : List Char} (h : (trim line).head? = some ':') :
    ∃ body, Record.cut line = ':' :: body := by
  obtain ⟨rest, hrest⟩ := List.head?_eq_some_iff.1 h
  obtain ⟨after, -, -, hcut⟩ := Record.cut_of_trim line
  rw [hcut, hrest, List.cons_append, List.takeWhile_cons, if_pos (by decide), trim,
    Text.trimBy_cons (by decide)]
  exact ⟨_, rfl⟩

/-- A line that begins with a colon holds what it is cut to as its record. -/
theorem Record.textOf?_of_colon {line : List Char} (h : (trim line).head? = some ':') :
    Record.textOf? line = some (Record.cut line) := by
  obtain ⟨rest, hrest⟩ := List.head?_eq_some_iff.1 h
  obtain ⟨after, hafter, htrim, hcut⟩ := Record.cut_of_trim line
  rw [hcut]
  unfold Record.textOf?
  rw [hrest] at htrim ⊢
  by_cases hmark : ';' ∈ ':' :: rest
  · have hfront : ((':' :: rest) ++ after).takeWhile (· ≠ ';') = (':' :: rest).takeWhile (· ≠ ';') := by
      rw [List.takeWhile_append, if_neg]
      intro hlength
      have hself := (List.takeWhile_prefix (· ≠ ';')).eq_of_length hlength
      exact absurd rfl (of_decide_eq_true (List.takeWhile_eq_self_iff.1 hself ';' hmark))
    simp only [List.contains_iff_mem, if_pos hmark, hfront]
  · have hall : ((':' :: rest) ++ after).takeWhile (· ≠ ';') = (':' :: rest) ++ after := by
      refine List.takeWhile_eq_self_iff.2 fun c hc => decide_eq_true ?_
      rcases List.mem_append.1 hc with hrest | hblank
      · exact fun heq => hmark (heq ▸ hrest)
      · exact Text.ne_mark_of_isBlank (hafter c hblank)
    simp only [List.contains_iff_mem, if_neg hmark, hall, htrim]

/-- A packet is written on the line that holds nothing but its spelling. -/
theorem Record.writtenOn_of_spells {p : Record.Packet} {digits : List Char}
    (h : Text.Spells p.octets digits) : Record.WrittenOn p (':' :: digits) := by
  have hnone : ∀ c ∈ ([] : List Char), isBlank c = true := List.forall_mem_nil _
  have hline := @Record.WrittenOn.plain p [] digits [] hnone h hnone
  rwa [List.append_nil] at hline

end Cutting

namespace Image

open Text (HasLines encodeUtf8 Lenient Spells)
open Record (Entry IsRecord WrittenOn)

/-! ## Lines that begin with a colon -/

section Colon

variable {chars line : List Char} {front rest : List (List Char)}

/-- **A line that begins with a colon is a record, or is refused by its number.**  Where loading
comes to the line and does not refuse it, its fields are read and go together; and its body spells
the octets of a record, or has a lenient character in it. -/
theorem loadHex_colonLine (hlines : HasLines chars (front ++ line :: rest))
    (hfront : ∀ line ∈ front, LeftBehind line) (hcolon : (Text.trim line).head? = some ':')
    (m : Memory) :
    (∃ cause m', loadHex (encodeUtf8 chars) m = .error (.record (front.length + 1) cause) m'
        ∧ ∃ text, (Fault.record (front.length + 1) cause).message = Text.ofString text
          ∧ NamesLine (front.length + 1) text)
      ∨ ∃ body, Record.cut line = ':' :: body
        ∧ (∃ f, Record.fields (':' :: body) = .ok f ∧ f.Sound)
        ∧ ((∃ octets, Spells octets body ∧ IsRecord octets) ∨ ∃ c ∈ body, Lenient c) := by
  have hasks := asks_of_textOf? (Record.textOf?_of_colon hcolon)
  obtain ⟨body, hcut⟩ := Record.cut_of_colon hcolon
  rw [hcut] at hasks
  cases hparse : Record.parse (':' :: body) with
  | error cause =>
    rw [hparse] at hasks
    obtain ⟨m', hload, -⟩ := loadHex_refused hlines hfront hasks m
    exact .inl ⟨cause, m', hload, cause.message (front.length + 1), rfl,
      message_namesLine (front.length + 1) cause⟩
  | ok r =>
    obtain ⟨-, f, hfields, hsound⟩ := Record.fields_of_parse hparse
    refine .inr ⟨body, hcut, ⟨f, hfields, hsound⟩, ?_⟩
    by_cases hlenient : ∃ c ∈ body, Lenient c
    · exact .inr hlenient
    · have hbody : ∀ c ∈ body, ¬Lenient c := fun c hc hc' => hlenient ⟨c, hc, hc'⟩
      exact .inl (Record.isRecord_of_accepted hbody hparse)

/-- Behind a base record, a line whose sum does not come to nothing: no character of it is lenient,
and it is the line that is refused. -/
theorem loadHex_colonLine_sum :
    ∃ cause m', loadHex (encodeUtf8 ":020000040001F9\n :0100000041BF ; off by one\n".toList)
        Memory.zero = .error (.record 2 cause) m'
      ∧ NamesLine 2 (cause.message 2) := by
  have hlines : HasLines ":020000040001F9\n :0100000041BF ; off by one\n".toList
      ([":020000040001F9".toList] ++ " :0100000041BF ; off by one".toList :: []) :=
    Text.lines_eq_iff.1 (by decide +kernel)
  have hbase : Spells (Entry.linear 0 1).packet.octets "020000040001F9".toList := by decide +kernel
  have hfront : ∀ line ∈ [":020000040001F9".toList], LeftBehind line :=
    List.forall_mem_singleton.2 (leftBehind_of_entry (Record.writtenOn_of_spells hbase))
  have hcut : Record.cut " :0100000041BF ; off by one".toList = ':' :: "0100000041BF".toList := by
    decide +kernel
  have hcolon : (Text.trim " :0100000041BF ; off by one".toList).head? = some ':' := by
    decide +kernel
  rcases loadHex_colonLine hlines hfront hcolon Memory.zero with
    ⟨cause, m', hload, -⟩ | ⟨body, hbody, ⟨f, hfields, hsound⟩, -⟩
  · exact ⟨cause, m', hload, message_namesLine 2 cause⟩
  · have hread : Record.fields (':' :: "0100000041BF".toList)
        = .ok { length := 1, address := 0, type := 0, checksum := 0xBF, bytes := [0x41] } := by
      have hspells : Spells (1 :: 0 :: 0 :: 0 :: ([0x41] ++ [0xBF])) "0100000041BF".toList := by
        decide +kernel
      exact Record.fields_of_spells hspells
    cases hcut.symm.trans hbody
    cases hread.symm.trans hfields
    exact absurd hsound (by decide +kernel)

/-- A sign in the place of a digit: the record ends the file, and it is no spelling of octets. -/
theorem accepted_without_spelling :
    Record.cut ":00+00001FF".toList = ':' :: "00+00001FF".toList
      ∧ loadHex (encodeUtf8 ":00+00001FF\n".toList) Memory.zero = .ok 0 Memory.zero
      ∧ ¬∃ octets, Spells octets "00+00001FF".toList := by
  have hlines : HasLines ":00+00001FF\n".toList [":00+00001FF".toList] :=
    Text.lines_eq_iff.1 (by decide +kernel)
  have hcut : Record.cut ":00+00001FF".toList = ':' :: "00+00001FF".toList := by decide +kernel
  have hends : EndsFile ":00+00001FF".toList := by
    have hcolon : (Text.trim ":00+00001FF".toList).head? = some ':' := by decide +kernel
    have hparse : Record.parse (':' :: "00+00001FF".toList) = .ok .endOfFile := rfl
    rw [EndsFile, asks_of_textOf? (Record.textOf?_of_colon hcolon), hcut, hparse]
  refine ⟨hcut, ?_, ?_⟩
  · rw [loadHex_encodeUtf8 hlines]
    exact loadLines_ends hends []
  · rintro ⟨octets, hoctets⟩
    obtain ⟨n, hn⟩ := hoctets.digit '+' (by decide)
    exact hn.not_mark (by decide)

end Colon

end Image

end Emu8080
