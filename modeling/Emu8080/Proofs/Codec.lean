/-
# Emu8080.Proofs.Codec -- pairs and the flag byte are views of the state

A pair shows two registers as one word.  Storing a word into it has one outcome,
which `Stored` describes field by field: the pair holds the bytes of the word, and
nothing else has changed.  The laws of a view are read off it.  What is stored is
read back (`Stored.getPair`), what is stored over it hides it (`Stored.trans`), and
a state that holds the word already is stored into itself (`Holds.stored`).

A host reaches a pair by its name, by the name of its field, and through the
instructions; all three are the same pair.  Of the two reports of a state, one
lists what the other is put together from, and `Reports` compares them entry by
entry.
-/
import Emu8080.Proofs.FlagByte
import Emu8080.Proofs.Sequence
import Emu8080.Proofs.View

namespace Emu8080

set_option autoImplicit false

open Emu8080.Action (get_bind)

namespace Pair

/-- The registers that a pair is made of. -/
def members (p : Pair) : List Reg :=
  match p.registers? with
  | some (high, low) => [high, low]
  | none => []

/-- The name of the field that shows the word in two registers; the stack pointer is a field
itself. -/
def fieldName? : Pair → Option String
  | .bc => some "bc" | .de => some "de" | .hl => some "hl" | .sp => none

variable {p : Pair} {high low r : Reg}

theorem mem_members_iff :
    r ∈ p.members ↔ ∃ high low, p.registers? = some (high, low) ∧ (r = high ∨ r = low) := by
  rw [members]
  cases p.registers? with
  | none => simp
  | some q => simp [Prod.ext_iff]

theorem high_ne_low (h : p.registers? = some (high, low)) : high ≠ low := by
  cases p <;> cases h <;> decide

theorem registers?_eq_none_iff : p.registers? = none ↔ p = .sp := by
  cases p <;> decide

end Pair

/-- An integer is the one that it counts as. -/
theorem Datum.eq_int_of_int? {d : Datum} {n : Int} (hd : ∃ i, d = .int i)
    (h : d.int? = some n) : d = .int n := by
  obtain ⟨i, rfl⟩ := hd
  cases h
  rfl

namespace CpuState

variable {s s' t : CpuState} {p : Pair} {n k : Int} {high low : Reg}

theorem ext_get (hreg : ∀ r, s.get r = s'.get r) (hsp : s.sp = s'.sp) (hpc : s.pc = s'.pc)
    (hcc : s.cc = s'.cc) (hie : s.intEnable = s'.intEnable) (hbus : s.bus = s'.bus)
    (hextras : s.extras = s'.extras) : s = s' := by
  have ha := hreg .a
  have hb := hreg .b
  have hc := hreg .c
  have hd := hreg .d
  have he := hreg .e
  have hh := hreg .h
  have hl := hreg .l
  cases s
  cases s'
  simp_all [get]

/-! ## Storing a word -/

/-- Apart from the byte registers and the stack pointer both states are equal. -/
structure SameRest (s s' : CpuState) : Prop where
  pc : s'.pc = s.pc
  cc : s'.cc = s.cc
  intEnable : s'.intEnable = s.intEnable
  bus : s'.bus = s.bus
  extras : s'.extras = s.extras

theorem SameRest.refl (s : CpuState) : s.SameRest s := ⟨rfl, rfl, rfl, rfl, rfl⟩

theorem SameRest.trans (h : s.SameRest s') (h' : s'.SameRest t) : s.SameRest t where
  pc := h'.pc.trans h.pc
  cc := h'.cc.trans h.cc
  intEnable := h'.intEnable.trans h.intEnable
  bus := h'.bus.trans h.bus
  extras := h'.extras.trans h.extras

/-- A word was stored into a pair: the pair holds its bytes, or the stack pointer its sixteen low
bits, and nothing else has changed. -/
structure Stored (s : CpuState) (p : Pair) (n : Int) (s' : CpuState) : Prop
    extends SameRest s s' where
  bytes : ∀ high low, p.registers? = some (high, low) →
    s'.get high = .int (n / 256 % 256) ∧ s'.get low = .int (n % 256)
  sp : s'.sp = if p = .sp then .int (n % 65536) else s.sp
  reg : ∀ r, r ∉ p.members → s'.get r = s.get r

theorem stored_setWord (h : p.registers? = some (high, low)) (s : CpuState) (n : Int) :
    s.Stored p n (s.setWord high low n) where
  bytes high' low' h' := by
    cases h.symm.trans h'
    constructor
    · rw [setWord, get_set_of_ne _ (Pair.high_ne_low h), get_set_self]
      rfl
    · rw [setWord, get_set_self]
      rfl
  sp := by
    have hp : p ≠ .sp := by
      rintro rfl
      exact nomatch h
    simp [setWord, hp]
  reg r hr := by
    have hhigh : r ≠ high := fun hr' => hr (Pair.mem_members_iff.2 ⟨high, low, h, .inl hr'⟩)
    have hlow : r ≠ low := fun hr' => hr (Pair.mem_members_iff.2 ⟨high, low, h, .inr hr'⟩)
    rw [setWord, get_set_of_ne _ hlow, get_set_of_ne _ hhigh]
  pc := by simp [setWord]
  cc := by simp [setWord]
  intEnable := by simp [setWord]
  bus := by simp [setWord]
  extras := by simp [setWord]

theorem stored_sp (s : CpuState) (n : Int) :
    s.Stored .sp n { s with sp := .int (n % 65536) } where
  bytes _ _ h := nomatch h
  sp := by simp
  reg r _ := by cases r <;> rfl
  pc := rfl
  cc := rfl
  intEnable := rfl
  bus := rfl
  extras := rfl

/-- Every integer can be stored, whatever the pair held before. -/
theorem setPair_stored {v : Datum} (hv : v.int? = some n) (s : CpuState) (p : Pair) :
    ∃ s', s.setPair p v = .ok s' ∧ s.Stored p n s' := by
  have hwhole : v.whole = .ok n := by simp only [Datum.whole, hv]
  cases hp : p.registers? with
  | none =>
    cases Pair.registers?_eq_none_iff.1 hp
    refine ⟨_, ?_, stored_sp s n⟩
    rw [setPair, hwhole]
    rfl
  | some q =>
    refine ⟨_, ?_, stored_setWord hp s n⟩
    rw [setPair, hwhole]
    simp only [hp]
    rfl

/-- The outcome is the only one. -/
theorem Stored.unique (h : s.Stored p n s') (h' : s.Stored p n t) : s' = t := by
  apply ext_get
  · intro r
    by_cases hr : r ∈ p.members
    · obtain ⟨high, low, hp, hr⟩ := Pair.mem_members_iff.1 hr
      rcases hr with rfl | rfl
      · rw [(h.bytes _ _ hp).1, (h'.bytes _ _ hp).1]
      · rw [(h.bytes _ _ hp).2, (h'.bytes _ _ hp).2]
    · rw [h.reg r hr, h'.reg r hr]
  · rw [h.sp, h'.sp]
  · rw [h.pc, h'.pc]
  · rw [h.cc, h'.cc]
  · rw [h.intEnable, h'.intEnable]
  · rw [h.bus, h'.bus]
  · rw [h.extras, h'.extras]

/-- The second of two words hides the first. -/
theorem Stored.trans (h : s.Stored p n s') (h' : s'.Stored p k t) : s.Stored p k t where
  toSameRest := h.toSameRest.trans h'.toSameRest
  bytes := h'.bytes
  sp := by
    rw [h'.sp, h.sp]
    split <;> rfl
  reg r hr := (h'.reg r hr).trans (h.reg r hr)

theorem setPair_eq_iff {v : Datum} (hv : v.int? = some n) :
    s.setPair p v = .ok s' ↔ s.Stored p n s' := by
  obtain ⟨t, ht, hstored⟩ := setPair_stored hv s p
  constructor
  · intro h
    cases ht.symm.trans h
    exact hstored
  · intro h
    rw [ht, hstored.unique h]

/-! ## Reading a word -/

theorem word?_eq {x y : Int} (hhigh : (s.get high).int? = some x)
    (hlow : (s.get low).int? = some y) : s.word? high low = some (pack x y) := by
  rw [word?, hhigh, hlow]
  rfl

theorem getPair_of_registers (h : p.registers? = some (high, low)) {x y : Int}
    (hhigh : (s.get high).int? = some x) (hlow : (s.get low).int? = some y) :
    s.getPair p = .ok (.int (pack x y)) := by
  simp only [getPair, h, word?_eq hhigh hlow]

/-- What was stored is read back, modulo the size of a word. -/
theorem Stored.getPair (h : s.Stored p n s') : s'.getPair p = .ok (.int (n % 65536)) := by
  cases hp : p.registers? with
  | none =>
    cases Pair.registers?_eq_none_iff.1 hp
    rw [CpuState.getPair, hp]
    exact congrArg Except.ok h.sp
  | some q =>
    obtain ⟨hhigh, hlow⟩ := h.bytes q.1 q.2 hp
    rw [getPair_of_registers hp (congrArg Datum.int? hhigh) (congrArg Datum.int? hlow)]
    exact congrArg (Except.ok ∘ Datum.int) (pack_unpack n)

/-! ## Storing what was read -/

/-- The bytes, the stack pointer and the flags of a state are within their widths. -/
structure InRange (s : CpuState) : Prop where
  reg : ∀ r, ((s.get r).within? maxByte).isSome
  sp : (s.sp.within? maxWord).isSome
  flag : ∀ f, (s.cc.get f).isBit = true

/-- The pair holds a word. -/
structure Holds (s : CpuState) (p : Pair) (n : Int) : Prop where
  bytes : ∀ high low, p.registers? = some (high, low) →
    (s.get high).int? = some (n / 256 % 256) ∧ (s.get low).int? = some (n % 256)
  sp : p = .sp → s.sp.int? = some (n % 65536)

/-- Both states hold the same: the registers count as the same integers, and all else is equal. -/
structure SameNumbers (s s' : CpuState) : Prop extends SameRest s s' where
  reg : ∀ r, (s'.get r).int? = (s.get r).int?
  sp : s'.sp.int? = s.sp.int?

theorem InRange.getPair (h : s.InRange) (p : Pair) :
    ∃ d n, s.getPair p = .ok d ∧ d.int? = some n ∧ s.Holds p n := by
  cases hp : p.registers? with
  | none =>
    cases Pair.registers?_eq_none_iff.1 hp
    have hsp := Datum.int?_of_word h.sp
    refine ⟨s.sp, _, rfl, hsp, ⟨?_, ?_⟩⟩
    · intro high low hregs
      cases hregs
    · intro _
      rw [word_emod]
      exact hsp
  | some q =>
    have hhigh := Datum.int?_of_byte (h.reg q.1)
    have hlow := Datum.int?_of_byte (h.reg q.2)
    refine ⟨_, _, getPair_of_registers hp hhigh hlow, rfl, ⟨?_, ?_⟩⟩
    · intro high low hregs
      cases hp.symm.trans hregs
      have hbytes := unpack_pack ((UInt8.ofNat (s.get high).number).toNat : Int)
        ((UInt8.ofNat (s.get low).number).toNat : Int)
      rw [byte_emod, byte_emod, unpack, Prod.mk.injEq] at hbytes
      rw [hbytes.1, hbytes.2]
      exact ⟨hhigh, hlow⟩
    · rintro rfl
      cases hp

theorem Holds.sameNumbers (h : s.Holds p n) (hs : s.Stored p n s') : s.SameNumbers s' where
  toSameRest := hs.toSameRest
  reg r := by
    by_cases hr : r ∈ p.members
    · obtain ⟨high, low, hp, hr⟩ := Pair.mem_members_iff.1 hr
      rcases hr with rfl | rfl
      · rw [(hs.bytes _ _ hp).1, (h.bytes _ _ hp).1, Datum.int?_int]
      · rw [(hs.bytes _ _ hp).2, (h.bytes _ _ hp).2, Datum.int?_int]
    · rw [hs.reg r hr]
  sp := by
    rw [hs.sp]
    split
    next hp => rw [h.sp hp, Datum.int?_int]
    next => rfl

/-- A state whose registers are integers, not truth values, is stored into itself. -/
theorem Holds.stored (h : s.Holds p n) (hreg : ∀ r, ∃ i, s.get r = .int i)
    (hsp : ∃ i, s.sp = .int i) : s.Stored p n s where
  toSameRest := .refl s
  bytes high low hp :=
    ⟨Datum.eq_int_of_int? (hreg high) (h.bytes high low hp).1,
      Datum.eq_int_of_int? (hreg low) (h.bytes high low hp).2⟩
  sp := by
    split
    next hp => exact Datum.eq_int_of_int? hsp (h.sp hp)
    next => rfl
  reg _ _ := rfl

/-- Storing back what was read changes nothing. -/
theorem InRange.setPair_getPair (h : s.InRange) (p : Pair) :
    ∃ d s', s.getPair p = .ok d ∧ s.setPair p d = .ok s' ∧ s.SameNumbers s'
      ∧ ((∀ r, ∃ i, s.get r = .int i) → (∃ i, s.sp = .int i) → s' = s) := by
  obtain ⟨d, n, hget, hd, hholds⟩ := h.getPair p
  obtain ⟨s', hset, hstored⟩ := setPair_stored hd s p
  refine ⟨d, s', hget, hset, hholds.sameNumbers hstored, ?_⟩
  intro hreg hsp
  exact hstored.unique (hholds.stored hreg hsp)

/-! ## Pairs by other ways -/

/-- An instruction stores as a host does, and leaves the memory alone. -/
theorem Stored.setPair_machine (h : s.Stored p n s') (memory : Memory) :
    Machine.setPair p n ⟨s, memory⟩ = .ok ⟨⟩ ⟨s', memory⟩ := by
  rw [Machine.setPair]
  cases hp : p.registers? with
  | none =>
    cases Pair.registers?_eq_none_iff.1 hp
    rw [h.unique (stored_sp s n)]
    rfl
  | some q =>
    rw [h.unique (stored_setWord hp s n)]
    rfl

/-- An instruction reads as a host does, and changes nothing. -/
theorem getPair_machine (s : CpuState) (p : Pair) (memory : Memory) :
    Machine.getPair p ⟨s, memory⟩ = Action.demand (s.getPair p) ⟨s, memory⟩ := by
  rw [Machine.getPair, CpuState.getPair]
  cases p.registers? with
  | none => rfl
  | some q =>
    simp only [Machine.word, word?, Action.whole, Datum.whole]
    rw [bind_assoc, get_bind]
    -- both look at the high register first, and both refuse what is no integer
    cases (s.get q.1).int? with
    | none => rfl
    | some x => cases (s.get q.2).int? <;> rfl

theorem ofText?_fieldName {name : String} (hname : p.fieldName? = some name)
    (hp : p.registers? = some (high, low)) : Field.ofText? name = some (.pair high low) := by
  rw [Field.ofText?, Text.string?_ofString]
  cases p <;> cases hname <;> cases hp <;> decide

/-- The field of a pair is read and written as the pair. -/
theorem field_eq_pair {name : String} (hname : p.fieldName? = some name) (s : CpuState) :
    s.read name = (s.getPair p).map .value ∧ ∀ v, s.write name v = s.setPair p v := by
  cases hp : p.registers? with
  | none =>
    cases Pair.registers?_eq_none_iff.1 hp
    exact nomatch hname
  | some q =>
    have hfield := ofText?_fieldName hname hp
    constructor
    · rw [read, hfield, CpuState.getPair, hp]
      simp only [Field.read]
      cases s.word? q.1 q.2 <;> rfl
    · intro v
      rw [write, hfield, CpuState.setPair, hp]
      rfl

/-! ## Reports -/

/-- Two reports show a state: each register, the stack pointer, the program counter and each flag as
they are, and whatever is put together from them as the sum of its parts in the reports. -/
structure Reports (s : CpuState) (entries : List (String × Datum)) (flags : List (Flag × Bool)) :
    Prop where
  reg : ∀ r, entries.lookup r.label = some (s.get r)
  sp : entries.lookup "SP" = some s.sp
  pc : entries.lookup "PC" = some s.pc
  flag : ∀ f, flags.lookup f = some ((s.cc.get f).agrees (.int 1))
  pair : ∀ p high low, Pair.registers? p = some (high, low) → ∃ x y : Int,
    (entries.lookup high.label).bind Datum.int? = some x
      ∧ (entries.lookup low.label).bind Datum.int? = some y
      ∧ entries.lookup (high.label ++ low.label) = some (.int (256 * x + y))
  flagByte : ∃ zero sign parity carry auxCarry : Bool,
    flags.lookup .z = some zero ∧ flags.lookup .s = some sign ∧ flags.lookup .p = some parity
      ∧ flags.lookup .cy = some carry ∧ flags.lookup .ac = some auxCarry
      ∧ entries.lookup "FLAGS" = some (.int (zero.toNat + 2 * sign.toNat + 4 * parity.toNat
        + 8 * carry.toNat + 16 * auxCarry.toNat : Nat))

/-- The report of the registers, for the words that pairs hold. -/
def reportOf (s : CpuState) (word : Reg → Reg → Int) : List (String × Datum) :=
  Reg.all.map (fun r => (r.label, s.get r))
    ++ [("SP", s.sp), ("PC", s.pc), ("BC", .int (word .b .c)), ("DE", .int (word .d .e)),
      ("HL", .int (word .h .l)), ("FLAGS", .int s.cc.toByte)]

variable {word : Reg → Reg → Int}

theorem registerMap_eq (h : ∀ high low, s.word? high low = some (word high low)) :
    s.registerMap = .ok (s.reportOf word) := by
  simp only [registerMap, h]
  rfl

theorem lookup_reportOf_reg (s : CpuState) (word : Reg → Reg → Int) (r : Reg) :
    (s.reportOf word).lookup r.label = some (s.get r) := by
  cases r <;> rfl

theorem lookup_reportOf_pair (hp : p.registers? = some (high, low)) :
    (s.reportOf word).lookup (high.label ++ low.label) = some (.int (word high low)) := by
  cases p <;> cases hp <;> rfl

theorem lookup_flagMap (s : CpuState) (f : Flag) :
    s.flagMap.lookup f = some ((s.cc.get f).agrees (.int 1)) := by
  cases f <;> rfl

/-- The word in two bytes, the high one times 256. -/
theorem InRange.word?_eq (h : s.InRange) (high low : Reg) :
    s.word? high low = some (256 * ((s.get high).number : Int) + (s.get low).number) := by
  obtain ⟨hhigh, hhighle⟩ := Datum.isSome_within?_iff.1 (h.reg high)
  obtain ⟨hlow, hlowle⟩ := Datum.isSome_within?_iff.1 (h.reg low)
  rw [CpuState.word?_eq hhigh hlow, pack, Option.some.injEq]
  simp only [maxByte] at hhighle hlowle
  omega

/-- Both reports can be made, and they show the same state. -/
theorem InRange.reports (h : s.InRange) :
    ∃ entries, s.registerMap = .ok entries ∧ s.Reports entries s.flagMap := by
  have hint : ∀ r, (s.get r).int? = some ((s.get r).number : Int) := by
    intro r
    exact (Datum.isSome_within?_iff.1 (h.reg r)).1
  refine ⟨_, registerMap_eq h.word?_eq, lookup_reportOf_reg s _, rfl, rfl, lookup_flagMap s, ?_, ?_⟩
  · intro p high low hp
    refine ⟨(s.get high).number, (s.get low).number, ?_, ?_, lookup_reportOf_pair hp⟩
    · rw [lookup_reportOf_reg, Option.bind_some, hint]
    · rw [lookup_reportOf_reg, Option.bind_some, hint]
  · refine ⟨_, _, _, _, _, lookup_flagMap s .z, lookup_flagMap s .s, lookup_flagMap s .p,
      lookup_flagMap s .cy, lookup_flagMap s .ac, ?_⟩
    simp only [← Datum.truthy_of_isBit (h.flag _), ← ConditionCodes.toByte_eq]
    rfl

/-! ## The laws of a view -/

variable {v w : Datum}

/-- **Pairs and the flag byte are lawful views.**  A word that is stored into a pair is read back
modulo its size and is hidden by the next one; nothing else changes, the memory included, and an
instruction stores and reads as a host does.  The field of a pair is read and written as the pair.
Words go through their bytes, bytes through their word, numbers through the flags and bits through
the flag byte.  On a state within its widths, storing what was read changes nothing, and the two
reports show the same state. -/
theorem codecs_are_views (hv : v.int? = some n) (hw : w.int? = some k) (s : CpuState) (p : Pair) :
    (∃ s' t, s.setPair p v = .ok s' ∧ s.Stored p n s'
        ∧ s'.getPair p = .ok (.int (n % 65536))
        ∧ s'.setPair p w = .ok t ∧ s.setPair p w = .ok t
        ∧ ∀ memory, Machine.setPair p n ⟨s, memory⟩ = .ok ⟨⟩ ⟨s', memory⟩)
      ∧ (∀ memory, Machine.getPair p ⟨s, memory⟩ = Action.demand (s.getPair p) ⟨s, memory⟩)
      ∧ (∀ name, p.fieldName? = some name →
          s.read name = (s.getPair p).map .value ∧ ∀ d, s.write name d = s.setPair p d)
      ∧ pack (unpack n).1 (unpack n).2 = n % 65536
      ∧ unpack (pack n k) = (n % 256, k % 256)
      ∧ ((ConditionCodes.ofByte n).toByte : Int) = n % 32
      ∧ (∀ cc : ConditionCodes, (∀ f, (cc.get f).isBit = true) →
          cc.agrees (.ofByte cc.toByte) = true)
      ∧ (∀ cc : ConditionCodes, (∀ f, cc.get f = .int 0 ∨ cc.get f = .int 1) →
          ConditionCodes.ofByte cc.toByte = cc)
      ∧ (s.InRange →
          (∃ d s', s.getPair p = .ok d ∧ s.setPair p d = .ok s' ∧ s.SameNumbers s'
            ∧ ((∀ r, ∃ i, s.get r = .int i) → (∃ i, s.sp = .int i) → s' = s))
          ∧ ∃ entries, s.registerMap = .ok entries ∧ s.Reports entries s.flagMap) := by
  refine ⟨?_, getPair_machine s p, ?_, pack_unpack n, unpack_pack n k,
    ConditionCodes.toByte_ofByte n, ?_, ?_, ?_⟩
  · obtain ⟨s', hset, hstored⟩ := setPair_stored hv s p
    obtain ⟨t, hover, hover'⟩ := setPair_stored hw s' p
    have hdirect := (setPair_eq_iff hw).2 (hstored.trans hover')
    exact ⟨s', t, hset, hstored, hstored.getPair, hover, hdirect, hstored.setPair_machine⟩
  · intro name hname
    exact field_eq_pair hname s
  · intro cc hcc
    exact ConditionCodes.agrees_ofByte_toByte hcc
  · intro cc hcc
    exact ConditionCodes.ofByte_toByte hcc
  · intro hs
    exact ⟨hs.setPair_getPair p, hs.reports⟩

/-- The high register holds a truth value, which counts as 1, and the word that is stored over it is
below zero.  What is read before that, 0x134, makes the round; so does the word afterwards, into the
very state that it is read from. -/
theorem codecs_are_views_below_zero :
    let codes : ConditionCodes := ⟨.int 1, .int 0, .int 0, .int 1, .int 0⟩
    let s : CpuState := { b := .bool true, c := .int 0x34, cc := codes }
    let stored : CpuState := { s with b := .int 0xFF, c := .int 0xFE }
    s.setPair .bc (.int (-2)) = .ok stored ∧ stored.getPair .bc = .ok (.int 0xFFFE)
      ∧ stored.setPair .bc (.bool true) = s.setPair .bc (.bool true)
      ∧ s.read "bc" = .ok (.value (.int 0x134)) ∧ s.write "bc" (.int (-2)) = .ok stored
      ∧ codes.agrees (.ofByte codes.toByte) = true ∧ ConditionCodes.ofByte codes.toByte = codes
      ∧ (∃ s', s.setPair .bc (.int 0x134) = .ok s' ∧ s.SameNumbers s')
      ∧ stored.setPair .bc (.int 0xFFFE) = .ok stored
      ∧ ∃ entries, s.registerMap = .ok entries ∧ s.Reports entries s.flagMap := by
  intro codes s stored
  have hw : (Datum.bool true).int? = some 1 := rfl
  have hset : s.setPair .bc (.int (-2)) = .ok stored := rfl
  have hget : s.getPair .bc = .ok (.int 0x134) := rfl
  have hbits : ∀ f, codes.get f = .int 0 ∨ codes.get f = .int 1 := by
    intro f
    cases f <;> simp [codes, Flags.get]
  have hcodes : ∀ f, (codes.get f).isBit = true := by
    intro f
    cases f <;> rfl
  have hrange : s.InRange := ⟨fun r => by cases r <;> rfl, rfl, hcodes⟩
  have hrange' : stored.InRange := ⟨fun r => by cases r <;> rfl, rfl, hcodes⟩
  have hplain : ∀ r, ∃ i, stored.get r = .int i := by
    intro r
    cases r <;> exact ⟨_, rfl⟩
  obtain ⟨⟨s', t, hs', -, hback, hover, hdirect, -⟩, -, hfield, -, -, -, hagrees, hround, hlaws⟩ :=
    codecs_are_views (Datum.int?_int (-2)) hw s .bc
  obtain ⟨-, -, -, -, -, -, -, -, hlaws'⟩ :=
    codecs_are_views (Datum.int?_int (-2)) hw stored .bc
  obtain ⟨⟨d, same, hd, hsame, hnumbers, -⟩, hreports⟩ := hlaws hrange
  obtain ⟨⟨d', same', hd', hsame', -, heq⟩, -⟩ := hlaws' hrange'
  obtain ⟨hread, hwrite⟩ := hfield "bc" rfl
  cases hset.symm.trans hs'
  cases hget.symm.trans hd
  cases hback.symm.trans hd'
  rw [heq hplain ⟨0, rfl⟩] at hsame'
  have hshown : s.read "bc" = .ok (.value (.int 0x134)) := by
    rw [hread, hget]
    rfl
  exact ⟨hset, hback, hover.trans hdirect.symm, hshown, (hwrite _).trans hset,
    hagrees codes hcodes, hround codes hbits, ⟨same, hsame, hnumbers⟩, hsame', hreports⟩

end CpuState

end Emu8080
