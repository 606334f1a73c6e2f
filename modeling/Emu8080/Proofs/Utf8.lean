/-
# Emu8080.Proofs.Utf8 -- decoding gives back what was encoded

A text is encoded character by character, and decoded octet by octet and block by
block.  `Pending.feed` is the decoder without the blocks: fed the octets of a
character it gives that character and is between characters again, so fed the
octets of a text it gives the text.  The blocks only decide where the characters
wait (`decodeFrom_feed`), so a file that holds the octets of a text is decoded to
it and is not damaged.
-/
import Emu8080.Text.Utf8

namespace Emu8080.Text

set_option autoImplicit false

/-- The octets of a text in UTF-8. -/
def encodeUtf8 (chars : List Char) : List UInt8 := chars.flatMap String.utf8EncodeChar

namespace Pending

/-- Take octets in turn and collect the characters they complete. -/
def feed (p : Pending) : List UInt8 → Option (Pending × List Char)
  | [] => some (p, [])
  | octet :: rest => do
      let (next, c?) ← p.accept octet
      let (last, chars) ← next.feed rest
      return (last, c?.toList ++ chars)

variable {p q r : Pending}

theorem feed_cons {octet : UInt8} {c? : Option Char} {rest : List UInt8} {chars : List Char}
    (hoctet : p.accept octet = some (q, c?)) (hrest : q.feed rest = some (r, chars)) :
    p.feed (octet :: rest) = some (r, c?.toList ++ chars) := by
  simp only [feed, hoctet, hrest, Option.bind_eq_bind, Option.bind_some, Option.pure_def]

theorem feed_append {first rest : List UInt8} {chars more : List Char}
    (hfirst : p.feed first = some (q, chars)) (hrest : q.feed rest = some (r, more)) :
    p.feed (first ++ rest) = some (r, chars ++ more) := by
  induction first generalizing p chars with
  | nil =>
    cases hfirst
    exact hrest
  | cons octet first ih =>
    simp only [feed, Option.bind_eq_bind, Option.pure_def, Option.bind_eq_some_iff] at hfirst
    obtain ⟨⟨next, c?⟩, hoctet, ⟨last, tail⟩, htail, hpair⟩ := hfirst
    cases hpair
    rw [List.append_assoc]
    exact feed_cons hoctet (ih htail)

/-! ## One character -/

/-- A continuation octet, by its six bits. -/
def tail (n : Nat) : UInt8 := UInt8.ofNat (n % 64 + 128)

theorem toNat_tail (n : Nat) : (tail n).toNat = n % 64 + 128 :=
  UInt8.toNat_ofNat_of_lt' (Nat.lt_of_lt_of_le (Nat.add_lt_add_right (Nat.mod_lt n (by decide)) 128)
    (by decide))

/-- The last octet that is owed completes a character. -/
theorem accept_last (value : Nat) {low high n : Nat} (hlow : low ≤ n % 64 + 128)
    (hhigh : n % 64 + 128 ≤ high) :
    Pending.accept { owed := 1, value, low, high } (tail n)
      = some (start, some (Char.ofNat (value * 64 + n % 64))) := by
  have hinside : ¬(n % 64 + 128 < low ∨ high < n % 64 + 128) := by omega
  have hbits : (n % 64 + 128) % 64 = n % 64 := by omega
  simp only [accept, toNat_tail, if_neg hinside, hbits]
  rfl

/-- An octet before the last one adds its bits. -/
theorem accept_more (owed value : Nat) {low high n : Nat} (hlow : low ≤ n % 64 + 128)
    (hhigh : n % 64 + 128 ≤ high) :
    Pending.accept { owed := owed + 2, value, low, high } (tail n)
      = some ({ owed := owed + 1, value := value * 64 + n % 64 }, none) := by
  have hinside : ¬(n % 64 + 128 < low ∨ high < n % 64 + 128) := by omega
  have hbits : (n % 64 + 128) % 64 = n % 64 := by omega
  simp only [accept, toNat_tail, if_neg hinside, hbits]
  rfl

theorem accept_start (octet : UInt8) : start.accept octet = lead octet.toNat := rfl

/-- The first octet of two tells the bits above the six lowest. -/
theorem lead_two {v : Nat} (hlow : 0x80 ≤ v) (hhigh : v ≤ 0x7FF) :
    start.accept (UInt8.ofNat (v / 64 % 32 + 192)) = some ({ owed := 1, value := v / 64 }, none) := by
  have hoctet : (UInt8.ofNat (v / 64 % 32 + 192)).toNat = v / 64 + 192 := by
    rw [UInt8.toNat_ofNat_of_lt' (by show _ < 256; omega)]
    omega
  have hbits : (v / 64 + 192) % 32 = v / 64 := by omega
  rw [accept_start, hoctet, lead]
  rw [if_neg (by omega), if_neg (by omega), if_pos (by omega), hbits]

/-- The first octet of three leaves a range for the second that it lies in. -/
theorem lead_three {v : Nat} (hvalid : v.isValidChar) (hlow : 0x800 ≤ v) (hhigh : v ≤ 0xFFFF) :
    ∃ low high, low ≤ v / 64 % 64 + 128 ∧ v / 64 % 64 + 128 ≤ high
      ∧ start.accept (UInt8.ofNat (v / 4096 % 16 + 224))
        = some ({ owed := 2, value := v / 4096, low, high }, none) := by
  have hoctet : (UInt8.ofNat (v / 4096 % 16 + 224)).toNat = v / 4096 + 224 := by
    rw [UInt8.toNat_ofNat_of_lt' (by show _ < 256; omega)]
    omega
  have hbits : (v / 4096 + 224) % 16 = v / 4096 := by omega
  rw [accept_start, hoctet, lead]
  rw [if_neg (by omega), if_neg (by omega), if_neg (by omega)]
  by_cases hzero : v / 4096 = 0
  · rw [if_pos (by omega), hzero]
    exact ⟨0xA0, 0xBF, by omega, by omega, rfl⟩
  · by_cases hsurrogate : v / 4096 = 0xD
    · rw [if_neg (by omega), if_pos (by omega), hsurrogate]
      exact ⟨0x80, 0x9F, by omega, by rcases hvalid with h | h <;> omega, rfl⟩
    · rw [if_neg (by omega), if_neg (by omega), if_pos (by omega), hbits]
      exact ⟨0x80, 0xBF, by omega, by omega, rfl⟩

/-- The first octet of four leaves a range for the second that it lies in. -/
theorem lead_four {v : Nat} (hlow : 0x10000 ≤ v) (hhigh : v < 0x110000) :
    ∃ low high, low ≤ v / 4096 % 64 + 128 ∧ v / 4096 % 64 + 128 ≤ high
      ∧ start.accept (UInt8.ofNat (v / 262144 % 8 + 240))
        = some ({ owed := 3, value := v / 262144, low, high }, none) := by
  have hoctet : (UInt8.ofNat (v / 262144 % 8 + 240)).toNat = v / 262144 + 240 := by
    rw [UInt8.toNat_ofNat_of_lt' (by show _ < 256; omega)]
    omega
  have hbits : (v / 262144 + 240) % 8 = v / 262144 := by omega
  rw [accept_start, hoctet, lead]
  rw [if_neg (by omega), if_neg (by omega), if_neg (by omega), if_neg (by omega),
    if_neg (by omega), if_neg (by omega)]
  by_cases hzero : v / 262144 = 0
  · rw [if_pos (by omega), hzero]
    exact ⟨0x90, 0xBF, by omega, by omega, rfl⟩
  · by_cases hlast : v / 262144 = 4
    · rw [if_neg (by omega), if_neg (by omega), if_pos (by omega), hlast]
      exact ⟨0x80, 0x8F, by omega, by omega, rfl⟩
    · rw [if_neg (by omega), if_pos (by omega), hbits]
      exact ⟨0x80, 0xBF, by omega, by omega, rfl⟩

/-- Fed the octets of a character, the decoder gives it and is between characters again. -/
theorem feed_char (c : Char) : start.feed (String.utf8EncodeChar c) = some (start, [c]) := by
  have hvalid : c.toNat.isValidChar := c.valid
  have hback : Char.ofNat c.toNat = c := Char.ofNat_toNat c
  have hrange : c.toNat < 0x110000 := by rcases hvalid with h | h <;> omega
  have hnone : start.feed [] = some (start, []) := rfl
  have hnumber : c.val.toNat = c.toNat := rfl
  have hlow (n : Nat) : 0x80 ≤ n % 64 + 128 := by omega
  have hhigh (n : Nat) : n % 64 + 128 ≤ 0xBF := by omega
  simp only [String.utf8EncodeChar, hnumber]
  generalize c.toNat = v at *
  subst hback
  split
  next hone =>
    have hoctet : (UInt8.ofNat v).toNat = v := UInt8.toNat_ofNat_of_lt' (by show _ < 256; omega)
    have haccept := accept_ascii (UInt8.ofNat v) (by omega)
    rw [hoctet] at haccept
    exact feed_cons haccept hnone
  next hone =>
  split
  next htwo =>
    have hlast := accept_last (v / 64) (hlow v) (hhigh v)
    rw [show v / 64 * 64 + v % 64 = v by omega] at hlast
    exact feed_cons (lead_two (by omega) htwo) (feed_cons hlast hnone)
  next htwo =>
  split
  next hthree =>
    obtain ⟨low, high, hlow', hhigh', hlead⟩ := lead_three hvalid (by omega) hthree
    have hmore := accept_more 0 (v / 4096) hlow' hhigh'
    have hlast := accept_last (v / 4096 * 64 + v / 64 % 64) (hlow v) (hhigh v)
    rw [show (v / 4096 * 64 + v / 64 % 64) * 64 + v % 64 = v by omega] at hlast
    exact feed_cons hlead (feed_cons hmore (feed_cons hlast hnone))
  next hthree =>
    obtain ⟨low, high, hlow', hhigh', hlead⟩ := lead_four (by omega) hrange
    have hsecond := accept_more 1 (v / 262144) hlow' hhigh'
    have hthird := accept_more 0 (v / 262144 * 64 + v / 4096 % 64) (hlow (v / 64)) (hhigh (v / 64))
    have hlast := accept_last ((v / 262144 * 64 + v / 4096 % 64) * 64 + v / 64 % 64) (hlow v)
      (hhigh v)
    rw [show ((v / 262144 * 64 + v / 4096 % 64) * 64 + v / 64 % 64) * 64 + v % 64 = v by omega]
      at hlast
    exact feed_cons hlead (feed_cons hsecond (feed_cons hthird (feed_cons hlast hnone)))

/-- Fed the octets of a text, the decoder gives the text. -/
theorem feed_encodeUtf8 (chars : List Char) :
    start.feed (encodeUtf8 chars) = some (start, chars) := by
  induction chars with
  | nil => rfl
  | cons c rest ih => exact feed_append (feed_char c) ih

end Pending

/-! ## Blocks -/

theorem decodeFrom_cons {p next : Pending} {octet : UInt8} {c? : Option Char}
    (h : p.accept octet = some (next, c?)) (done block : List Char) (room : Nat)
    (rest : List UInt8) :
    decodeFrom done block room p (octet :: rest)
      = if room ≤ 1 then decodeFrom (c?.toList ++ block ++ done) [] blockSize next rest
        else decodeFrom done (c?.toList ++ block) (room - 1) next rest := by
  cases c? <;> simp only [decodeFrom, h, Option.toList_none, Option.toList_some, List.nil_append,
    List.cons_append]

/-- Decoding in blocks collects the characters that the octets complete; where a block ends only
decides in which of the two lists they wait. -/
theorem decodeFrom_feed {p q : Pending} {octets : List UInt8} {chars : List Char}
    (h : p.feed octets = some (q, chars)) (done block : List Char) (room : Nat)
    (rest : List UInt8) :
    ∃ done' block' room', decodeFrom done block room p (octets ++ rest)
        = decodeFrom done' block' room' q rest
      ∧ block' ++ done' = chars.reverse ++ (block ++ done) := by
  induction octets generalizing p chars done block room with
  | nil =>
    cases h
    exact ⟨done, block, room, rfl, rfl⟩
  | cons octet octets ih =>
    simp only [Pending.feed, Option.bind_eq_bind, Option.pure_def, Option.bind_eq_some_iff] at h
    obtain ⟨⟨next, c?⟩, hoctet, ⟨last, tail⟩, htail, hpair⟩ := h
    cases hpair
    have hreverse : (c?.toList ++ tail).reverse = tail.reverse ++ c?.toList := by
      cases c? <;> simp
    rw [List.cons_append, decodeFrom_cons hoctet, hreverse]
    -- either way the character is the newest of those that were collected
    split
    · obtain ⟨done', block', room', heq, hchars⟩ :=
        ih htail (c?.toList ++ block ++ done) [] blockSize
      exact ⟨done', block', room', heq, by simp [hchars]⟩
    · obtain ⟨done', block', room', heq, hchars⟩ := ih htail done (c?.toList ++ block) (room - 1)
      exact ⟨done', block', room', heq, by simp [hchars]⟩

/-- A file that holds the octets of a text is decoded to it. -/
theorem decodeUtf8_encodeUtf8 (chars : List Char) :
    decodeUtf8 (encodeUtf8 chars) = ⟨chars, false⟩ := by
  obtain ⟨done, block, room, heq, hchars⟩ :=
    decodeFrom_feed (Pending.feed_encodeUtf8 chars) [] [] blockSize []
  rw [List.append_nil] at heq
  rw [decodeUtf8, heq, decodeFrom, hchars]
  simp [Pending.start]

end Emu8080.Text
