/-
# Emu8080.Proofs.Lines -- the lines of a text

`HasLines` says which lines a text has, by how it is written: a line and its end,
then the other lines, and perhaps a last line without an end.  A return before a
line feed is one end with it.  Cutting a text at its line ends finds these lines
and no others (`lines_eq_iff`), so every text has lines, and only one list of
them.

The first lines of a text are the lines of a text that it begins with
(`HasLines.take`): a file can be cut behind any of its lines.
-/
import Emu8080.Text.Lines

namespace Emu8080.Text

set_option autoImplicit false

/-- A piece of text in which no line ends. -/
def Unbroken (line : List Char) : Prop := '\n' ∉ line ∧ '\r' ∉ line

/-- The text has these lines. -/
inductive HasLines : List Char → List (List Char) → Prop
  | nil : HasLines [] []
  /-- The last line may have no end, and is a line if it holds something. -/
  | last {line : List Char} (hline : Unbroken line) (hne : line ≠ []) : HasLines line [line]
  | feed {line rest : List Char} {ls : List (List Char)} (hline : Unbroken line)
      (hrest : HasLines rest ls) : HasLines (line ++ '\n' :: rest) (line :: ls)
  /-- A return ends a line by itself where no line feed follows it. -/
  | alone {line rest : List Char} {ls : List (List Char)} (hline : Unbroken line)
      (hnext : rest.head? ≠ some '\n') (hrest : HasLines rest ls) :
      HasLines (line ++ '\r' :: rest) (line :: ls)
  | both {line rest : List Char} {ls : List (List Char)} (hline : Unbroken line)
      (hrest : HasLines rest ls) : HasLines (line ++ '\r' :: '\n' :: rest) (line :: ls)

/-- The lines of a text whose first line has been read up to here, newest character first. -/
def linesFrom (line chars : List Char) : List (List Char) :=
  let (ended, last) := splitFrom line chars
  if last.isEmpty then ended else ended ++ [last]

variable {line chars rest : List Char} {ls : List (List Char)}

/-! ## One character -/

theorem linesFrom_feed : linesFrom line ('\n' :: rest) = line.reverse :: lines rest := by
  simp only [linesFrom, lines, splitFrom]
  split <;> rfl

theorem linesFrom_both : linesFrom line ('\r' :: '\n' :: rest) = line.reverse :: lines rest := by
  simp only [linesFrom, lines, splitFrom]
  split <;> rfl

theorem linesFrom_alone (h : rest.head? ≠ some '\n') :
    linesFrom line ('\r' :: rest) = line.reverse :: lines rest := by
  have hsplit : splitFrom line ('\r' :: rest)
      = (line.reverse :: (splitFrom [] rest).1, (splitFrom [] rest).2) := by
    rw [splitFrom]
    rintro more rfl
    exact h rfl
  simp only [linesFrom, lines, hsplit]
  split <;> rfl

theorem linesFrom_char {c : Char} (hfeed : c ≠ '\n') (hreturn : c ≠ '\r') :
    linesFrom line (c :: rest) = linesFrom (c :: line) rest := by
  have hsplit : splitFrom line (c :: rest) = splitFrom (c :: line) rest := by
    rw [splitFrom]
    · exact hfeed
    · intro more hc
      exact absurd hc hreturn
    · exact hreturn
  simp only [linesFrom, hsplit]

/-! ## Whole lines -/

theorem Unbroken.cons {c : Char} (hc : Unbroken (c :: line)) :
    c ≠ '\n' ∧ c ≠ '\r' ∧ Unbroken line := by
  obtain ⟨hfeed, hreturn⟩ := hc
  simp only [List.mem_cons, not_or] at hfeed hreturn
  exact ⟨Ne.symm hfeed.1, Ne.symm hreturn.1, hfeed.2, hreturn.2⟩

theorem Unbroken.snoc {c : Char} (h : Unbroken line) (hfeed : c ≠ '\n') (hreturn : c ≠ '\r') :
    Unbroken (line ++ [c]) := by
  constructor
  · simp [h.1, Ne.symm hfeed]
  · simp [h.2, Ne.symm hreturn]

theorem linesFrom_append (h : Unbroken chars) (line rest : List Char) :
    linesFrom line (chars ++ rest) = linesFrom (chars.reverse ++ line) rest := by
  induction chars generalizing line with
  | nil => rfl
  | cons c chars ih =>
    obtain ⟨hfeed, hreturn, hchars⟩ := h.cons
    rw [List.cons_append, linesFrom_char hfeed hreturn, ih hchars, List.reverse_cons,
      List.append_assoc]
    rfl

/-- Cutting finds the lines that the text has. -/
theorem HasLines.lines_eq (h : HasLines chars ls) : lines chars = ls := by
  have hfrom (chars : List Char) : lines chars = linesFrom [] chars := rfl
  induction h with
  | nil => rfl
  | @last line hline hne =>
    have hcut := linesFrom_append hline [] []
    rw [List.append_nil, List.append_nil] at hcut
    rw [hfrom, hcut, linesFrom, splitFrom]
    simp only [List.reverse_reverse, List.isEmpty_eq_false_iff.2 hne]
    rfl
  | feed hline _ ih =>
    rw [hfrom, linesFrom_append hline, linesFrom_feed, ih]
    simp
  | alone hline hnext _ ih =>
    rw [hfrom, linesFrom_append hline, linesFrom_alone hnext, ih]
    simp
  | both hline _ ih =>
    rw [hfrom, linesFrom_append hline, linesFrom_both, ih]
    simp

/-- What cutting finds are lines of the text. -/
theorem hasLines_linesFrom (h : Unbroken line.reverse) :
    HasLines (line.reverse ++ chars) (linesFrom line chars) := by
  have hnil : Unbroken ([] : List Char).reverse := ⟨List.not_mem_nil, List.not_mem_nil⟩
  fun_induction splitFrom line chars with
  | case1 line =>
    rw [List.append_nil, linesFrom, splitFrom]
    by_cases hne : line.reverse = []
    · simp only [hne, List.isEmpty_nil]
      exact .nil
    · simp only [List.isEmpty_eq_false_iff.2 hne]
      exact .last h hne
  | case2 line rest ended last hsplit ih =>
    rw [linesFrom_feed]
    exact .feed h (ih hnil)
  | case3 line rest ended last hsplit ih =>
    rw [linesFrom_both]
    exact .both h (ih hnil)
  | case4 line rest hnext ended last hsplit ih =>
    have hhead : rest.head? ≠ some '\n' := by
      intro hfeed
      obtain ⟨more, rfl⟩ := List.head?_eq_some_iff.1 hfeed
      exact hnext more rfl
    rw [linesFrom_alone hhead]
    exact .alone h hhead (ih hnil)
  | case5 line c rest hfeed hboth hreturn ih =>
    rw [linesFrom_char hfeed hreturn]
    rw [List.reverse_cons, List.append_assoc] at ih
    exact ih (h.snoc hfeed hreturn)

/-- The lines that cutting finds are the lines of the text. -/
theorem lines_eq_iff : lines chars = ls ↔ HasLines chars ls := by
  constructor
  · rintro rfl
    have hnil : Unbroken ([] : List Char).reverse := ⟨List.not_mem_nil, List.not_mem_nil⟩
    exact hasLines_linesFrom hnil
  · exact HasLines.lines_eq

/-- The first lines of a text are the lines of a text that it begins with. -/
theorem HasLines.take (h : HasLines chars ls) (count : Nat) :
    ∃ front, front <+: chars ∧ HasLines front (ls.take count) := by
  induction h generalizing count with
  | nil => exact ⟨[], List.nil_prefix, by rw [List.take_nil]; exact .nil⟩
  | @last line hline hne =>
    cases count with
    | zero => exact ⟨[], List.nil_prefix, .nil⟩
    | succ count => exact ⟨line, List.prefix_rfl, by simpa using .last hline hne⟩
  | @feed line rest ls hline _ ih =>
    cases count with
    | zero => exact ⟨[], List.nil_prefix, .nil⟩
    | succ count =>
      obtain ⟨front, hprefix, hfront⟩ := ih count
      refine ⟨line ++ '\n' :: front, ?_, .feed hline hfront⟩
      exact (List.prefix_append_right_inj line).2 ((List.prefix_cons_inj '\n').2 hprefix)
  | @alone line rest ls hline hnext _ ih =>
    cases count with
    | zero => exact ⟨[], List.nil_prefix, .nil⟩
    | succ count =>
      obtain ⟨front, hprefix, hfront⟩ := ih count
      have hhead : front.head? ≠ some '\n' := by
        intro hfeed
        obtain ⟨more, rfl⟩ := List.head?_eq_some_iff.1 hfeed
        obtain ⟨behind, rfl⟩ := hprefix
        exact hnext rfl
      refine ⟨line ++ '\r' :: front, ?_, .alone hline hhead hfront⟩
      exact (List.prefix_append_right_inj line).2 ((List.prefix_cons_inj '\r').2 hprefix)
  | @both line rest ls hline _ ih =>
    cases count with
    | zero => exact ⟨[], List.nil_prefix, .nil⟩
    | succ count =>
      obtain ⟨front, hprefix, hfront⟩ := ih count
      refine ⟨line ++ '\r' :: '\n' :: front, ?_, .both hline hfront⟩
      exact (List.prefix_append_right_inj line).2
        ((List.prefix_cons_inj '\r').2 ((List.prefix_cons_inj '\n').2 hprefix))

end Emu8080.Text
