/-
# Emu8080.Proofs.Policy -- what hangs on the flag policy

The policy says what becomes of the flags that a result does not set.  So two
machines under the two policies part in their condition codes alone, and only at
the instructions that set flags from a result and leave some of them out.

From then on the codes may differ, and what may differ next is what takes a flag
into a register: an addition with carry, or a rotation through the carry.  Where
neither comes up, the two go on with the same operations, the same accesses and
the same numbers everywhere else (`Abreast`), for any number of steps; and where
no flag is left out, they are the same altogether (`Level`).

Both are relations between machines that one step keeps, under whichever policy
each of them runs.
-/
import Emu8080.Proofs.Bus
import Emu8080.Proofs.Placement
import Emu8080.Proofs.Reverse
import Emu8080.Proofs.Steps

namespace Emu8080

set_option autoImplicit false

/-! ## Instructions -/

namespace Instr

/-- The carry goes into a register. -/
def takesCarry : Instr → Bool
  | .adc _ | .rotate .leftThroughCarry | .rotate .rightThroughCarry => true
  | _ => false

/-- Flags are set from a result, so that the policy decides about the others. -/
def setsFlags : Instr → Bool
  | .inr _ | .dcr _ | .dad _ | .add _ | .adc _ => true
  | _ => false

/-- Flags are set from a result, but not all of them. -/
def leavesFlags : Instr → Bool
  | .inr _ | .dcr _ | .dad _ => true
  | _ => false

theorem leavesFlags_of_not_setsFlags {i : Instr} (h : i.setsFlags = false) :
    i.leavesFlags = false := by
  cases i <;> first | rfl | cases h

theorem not_takesCarry_of_leavesFlags {i : Instr} (h : i.leavesFlags = true) :
    i.takesCarry = false := by
  cases i <;> first | rfl | cases h

end Instr

namespace Chip

/-- The same chip with other flags. -/
def reflag (c : Chip) (flag : Flag → Bool) : Chip := { c with flag }

variable {i : Instr}

/-- What an instruction does apart from the flags does not depend on them or on the policy, unless
the carry goes into a register. -/
theorem effect_reflag (hi : i.takesCarry = false) (p q : FlagPolicy) (low high : UInt8) (c : Chip)
    (flag : Flag → Bool) :
    ∃ flag', effect q i low high (c.reflag flag) = (effect p i low high c).reflag flag' := by
  cases i with
  | mov target source => cases target <;> cases source <;> exact ⟨_, rfl⟩
  | mvi o | inr o | dcr o | add o => cases o <;> exact ⟨_, rfl⟩
  | lxi p | stax p | ldax p | inx p | dcx p | dad p => cases p <;> exact ⟨_, rfl⟩
  | rotate how =>
    cases how with
    | left | right => exact ⟨_, rfl⟩
    | leftThroughCarry | rightThroughCarry => cases hi
  | adc o => cases hi
  | nop documented | sta | lda | shld | lhld | cma | stc | cmc => exact ⟨_, rfl⟩

theorem next_reflag (hi : i.takesCarry = false) (p q : FlagPolicy) (c : Chip)
    (flag : Flag → Bool) :
    ∃ flag', (c.reflag flag).next q i = (c.next p i).reflag flag' :=
  effect_reflag hi p q _ _ { c with pc := c.pc + UInt16.ofNat i.length } flag

/-- The bus does not see the flags. -/
theorem cycles_reflag (i : Instr) (c : Chip) (flag : Flag → Bool) :
    (c.reflag flag).cycles i = c.cycles i := by
  cases i with
  | mov target source => cases target <;> cases source <;> rfl
  | mvi o | inr o | dcr o | add o | adc o => cases o <;> rfl
  | stax p | ldax p => cases p <;> rfl
  | _ => rfl

/-- Where no flag is left out, the policy has nothing to say. -/
theorem next_policy (hi : i.leavesFlags = false) (p q : FlagPolicy) (c : Chip) :
    c.next q i = c.next p i := by
  have hadd : ∀ (c : Chip) (v : UInt8) (carry : Bool),
      c.accumulate q v carry = c.accumulate p v carry := by
    intro c v carry
    simp only [accumulate, settle, Chip.mk.injEq, true_and, and_true]
    funext f
    cases f <;> rfl
  cases i with
  | add o | adc o => exact hadd _ _ _
  | inr o | dcr o | dad p => cases hi
  | _ => rfl

/-- From one chip the policies lead to chips that differ in their flags at most. -/
theorem next_either (i : Instr) (p q : FlagPolicy) (c : Chip) :
    ∃ flag, c.next q i = (c.next p i).reflag flag := by
  cases hi : i.leavesFlags with
  | false => exact ⟨(c.next p i).flag, next_policy hi p q c⟩
  | true => exact next_reflag (Instr.not_takesCarry_of_leavesFlags hi) p q c c.flag

/-- Of an instruction that sets flags, clearing keeps the flags it may change and no others. -/
theorem flag_next_clear (hi : i.setsFlags = true) (c : Chip) (f : Flag) :
    (c.next .clear i).flag f = (i.affected.get f && (c.next .preserve i).flag f) := by
  cases i with
  | inr o | dcr o | dad p | add o | adc o => cases f <;> rfl
  | _ => cases hi

end Chip

/-! ## Machines side by side -/

namespace Machine

/-- Two machines hold the same numbers and have logged the same accesses. -/
structure Alike (m m' : Machine) : Prop where
  state : m.state.Alike m'.state
  bytes : m.memory.bytes = m'.memory.bytes
  log : m.memory.log.map Access.cycle = m'.memory.log.map Access.cycle

/-- The same machine with other condition codes. -/
def recode (m : Machine) (cc : ConditionCodes) : Machine :=
  { m with state := { m.state with cc } }

/-- Two machines are alike, but for their condition codes. -/
def AlikeButCodes (m m' : Machine) : Prop := (m.recode m'.state.cc).Alike m'

variable {m m' m₁ m₂ : Machine} {c : Chip} {seen : List BusCycle} {policy : FlagPolicy}
  {op : Operation}

theorem Records.alike (h : m.Records c seen) (h' : m'.Records c seen) : m.Alike m' where
  state := h.toShows.alike h'.toShows
  bytes := Memory.bytes_eq_of_byteAt fun a => (h.byte a).trans (h'.byte a).symm
  log := h.log.trans h'.log.symm

theorem Ready.records (h : m.Ready) : m.Records m.chip (m.memory.log.map Access.cycle) :=
  { h.shows with log := rfl }

/-- Two machines show the same chip and have logged the same cycles. -/
def Level (m₁ m₂ : Machine) : Prop := ∃ c seen, m₁.Records c seen ∧ m₂.Records c seen

/-- Two machines show the same chip but for its flags and have logged the same cycles. -/
def Abreast (m₁ m₂ : Machine) : Prop :=
  ∃ c flag seen, m₁.Records c seen ∧ m₂.Records (c.reflag flag) seen

theorem Level.alike (h : Level m₁ m₂) : m₁.Alike m₂ := by
  obtain ⟨c, seen, h₁, h₂⟩ := h
  exact h₁.alike h₂

theorem Abreast.alike (h : Abreast m₁ m₂) : m₁.AlikeButCodes m₂ := by
  obtain ⟨c, flag, seen, h₁, h₂⟩ := h
  exact Records.alike (h₁.setCodes h₂.flag) h₂

theorem Ready.level (h : m.Ready) : Level m m := ⟨_, _, h.records, h.records⟩

theorem Ready.abreast (h : m.Ready) : Abreast m m := ⟨_, m.chip.flag, _, h.records, h.records⟩

/-- A step that succeeds is one of the instruction at the program counter. -/
theorem Shows.of_step (h : m.Shows c) (hstep : step policy m = .ok op m') :
    ∃ i, Instr.ofOpcode? (c.byte c.pc) = some i ∧ op = operationOf i c
      ∧ op.instr? = some i ∧ m'.Records (c.next policy i) (c.cycles i) := by
  cases hi : Instr.ofOpcode? (c.byte c.pc) with
  | some i =>
    obtain ⟨m'', hstep', h'⟩ := step_records h hi policy
    rw [hstep] at hstep'
    cases hstep'
    exact ⟨i, rfl, rfl, Operation.instr?_ofInstr hi _, h'⟩
  | none =>
    have hcycle := cycle_of_unimplemented h.pc (ofInt_toNat _).symm
      ((h.byte _).symm ▸ (Instr.unimplemented_iff _).2 hi) policy
    rw [step_of_bus h.bus, hcycle] at hstep
    cases hstep

/-- Two machines that are level stay so, under whichever policies, over an instruction that leaves
no flag out. -/
theorem Level.step {p q : FlagPolicy} (h : Level m₁ m₂) (hstep : step p m₁ = .ok op m')
    (hop : ∀ i ∈ op.instr?, i.leavesFlags = false) :
    ∃ m₂', Machine.step q m₂ = .ok op m₂' ∧ Level m' m₂' := by
  obtain ⟨c, seen, h₁, h₂⟩ := h
  obtain ⟨i, hi, rfl, hinstr, h₁'⟩ := h₁.toShows.of_step hstep
  obtain ⟨m₂', hstep', h₂'⟩ := step_records h₂.toShows hi q
  rw [Chip.next_policy (hop i hinstr) p q] at h₂'
  exact ⟨m₂', hstep', _, _, h₁', h₂'⟩

/-- Two machines that are abreast stay so, under whichever policies, over an instruction that takes
no carry. -/
theorem Abreast.step {p q : FlagPolicy} (h : Abreast m₁ m₂) (hstep : step p m₁ = .ok op m')
    (hop : ∀ i ∈ op.instr?, i.takesCarry = false) :
    ∃ m₂', Machine.step q m₂ = .ok op m₂' ∧ Abreast m' m₂' := by
  obtain ⟨c, flag, seen, h₁, h₂⟩ := h
  obtain ⟨i, hi, rfl, hinstr, h₁'⟩ := h₁.toShows.of_step hstep
  obtain ⟨m₂', hstep', h₂'⟩ := step_records h₂.toShows hi q
  obtain ⟨flag', hnext⟩ := Chip.next_reflag (hop i hinstr) p q c flag
  rw [hnext, Chip.cycles_reflag] at h₂'
  exact ⟨m₂', hstep', c.next p i, flag', c.cycles i, h₁', h₂'⟩

/-- What one step keeps between machines under the two policies, for some operations, is there after
each of any number of steps with such operations from one machine. -/
theorem steps_side_by_side {R : Machine → Machine → Prop} {Allowed : Operation → Prop}
    (hfollow : ∀ m₁ m₂ op m₁', R m₁ m₂ → step .preserve m₁ = .ok op m₁' → Allowed op →
      ∃ m₂', step .clear m₂ = .ok op m₂' ∧ R m₁' m₂')
    (hR : R m m) {n : Nat} {ops : List Operation} (h : steps .preserve n m = .ok ops m')
    (hops : ∀ op ∈ ops, Allowed op) {k : Nat} (hk : k ≤ n) :
    ∃ m₁ m₂, steps .preserve k m = .ok (ops.take k) m₁ ∧ steps .clear k m = .ok (ops.take k) m₂
      ∧ R m₁ m₂ := by
  obtain ⟨m₁, htaken⟩ := steps_take h hk
  obtain ⟨m₂, hfollowed, hR'⟩ := steps_follow hfollow hR htaken
    fun op hop => hops op (List.mem_of_mem_take hop)
  exact ⟨m₁, m₂, htaken, hfollowed, hR'⟩

/-- What the codes of the two policies are after one step of an instruction. -/
theorem codes_after {i : Instr} (h₁ : m₁.Records (c.next .preserve i) seen)
    (h₂ : m₂.Records (c.next .clear i) seen) :
    (i.setsFlags = false → m₁.Alike m₂)
      ∧ (i.setsFlags = true → ∀ f, (m₂.state.cc.get f).int?
        = if i.affected.get f then (m₁.state.cc.get f).int? else some 0) := by
  constructor
  · intro hi
    rw [Chip.next_policy (Instr.leavesFlags_of_not_setsFlags hi) .preserve .clear] at h₂
    exact h₁.alike h₂
  · intro hi f
    rw [h₂.flag f, h₁.flag f, Chip.flag_next_clear hi]
    cases i.affected.get f with
    | true => rfl
    | false => rfl

/-- Under the two policies a step of a ready machine succeeds alike, with one operation, and leaves
the same registers, program counter, stack pointer, interrupt enable, memory and log; the condition
codes are the same as well unless the instruction sets flags from a result, where those it may
change are the same and clearing has zero in the others.  So the first steps under the preserving policy
are steps under the clearing one, with all but the codes the same after each of them if no carry is
taken into a register, and with everything the same if no flag is left out. -/
theorem policies_part_in_codes (h : m.Ready) :
    ((∃ op m₂, step .clear m = .ok op m₂) ↔ ∃ op m₁, step .preserve m = .ok op m₁)
    ∧ (∀ op₁ m₁ op₂ m₂, step .preserve m = .ok op₁ m₁ → step .clear m = .ok op₂ m₂ →
        op₂ = op₁ ∧ m₁.AlikeButCodes m₂
        ∧ ∃ i mask, op₁.instr? = some i ∧ op₁.affected = some mask
          ∧ (i.setsFlags = false → m₁.Alike m₂)
          ∧ (i.setsFlags = true → ∀ f, (m₂.state.cc.get f).int?
            = if mask.get f then (m₁.state.cc.get f).int? else some 0))
    ∧ ∀ n ops m', steps .preserve n m = .ok ops m' →
        ((∀ op ∈ ops, ∀ i ∈ op.instr?, i.takesCarry = false) → ∀ k ≤ n,
          ∃ m₁ m₂, steps .preserve k m = .ok (ops.take k) m₁
            ∧ steps .clear k m = .ok (ops.take k) m₂ ∧ m₁.AlikeButCodes m₂)
        ∧ ((∀ op ∈ ops, ∀ i ∈ op.instr?, i.leavesFlags = false) → ∀ k ≤ n,
          ∃ m₁ m₂, steps .preserve k m = .ok (ops.take k) m₁
            ∧ steps .clear k m = .ok (ops.take k) m₂ ∧ m₁.Alike m₂) := by
  refine ⟨?_, ?_, ?_⟩
  · constructor
    · rintro ⟨op, m', hstep⟩
      obtain ⟨i, hi, -⟩ := h.shows.of_step hstep
      obtain ⟨m₁, hstep₁, -⟩ := step_records h.shows hi .preserve
      exact ⟨_, m₁, hstep₁⟩
    · rintro ⟨op, m', hstep⟩
      obtain ⟨i, hi, -⟩ := h.shows.of_step hstep
      obtain ⟨m₂, hstep₂, -⟩ := step_records h.shows hi .clear
      exact ⟨_, m₂, hstep₂⟩
  · intro op₁ m₁ op₂ m₂ hstep₁ hstep₂
    obtain ⟨i, hi, rfl, hinstr, h₁⟩ := h.shows.of_step hstep₁
    obtain ⟨m₂', hstep₂', h₂⟩ := step_records h.shows hi .clear
    rw [hstep₂] at hstep₂'
    cases hstep₂'
    obtain ⟨hkept, hset⟩ := codes_after h₁ h₂
    obtain ⟨flag, hnext⟩ := Chip.next_either i .preserve .clear m.chip
    have habreast : Abreast m₁ m₂ := ⟨_, flag, _, h₁, hnext ▸ h₂⟩
    exact ⟨rfl, habreast.alike, i, i.affected, hinstr, rfl, hkept, hset⟩
  · intro n ops m' hsteps
    constructor
    · intro hops k hk
      obtain ⟨m₁, m₂, h₁, h₂, habreast⟩ :=
        steps_side_by_side (fun _ _ _ _ => Abreast.step) h.abreast hsteps hops hk
      exact ⟨m₁, m₂, h₁, h₂, habreast.alike⟩
    · intro hops k hk
      obtain ⟨m₁, m₂, h₁, h₂, hlevel⟩ :=
        steps_side_by_side (fun _ _ _ _ => Level.step) h.level hsteps hops hk
      exact ⟨m₁, m₂, h₁, h₂, hlevel.alike⟩

/-- An increment over a carry that is set: it counts under both policies, and the carry is gone
under one of them. -/
theorem policies_part_over_increment :
    let m : Machine :=
      { state := { cc := ConditionCodes.clear.set .cy (.int 1) }
        memory := Memory.zero.store 0 0x3C }
    ∃ op m₁ m₂, steps .preserve 1 m = .ok [op] m₁ ∧ steps .clear 1 m = .ok [op] m₂
      ∧ m₁.AlikeButCodes m₂ ∧ (m₁.state.cc.get .cy).int? = some 1
      ∧ (m₂.state.cc.get .cy).int? = some 0 := by
  intro m
  have hwhole : m.state.Whole :=
    { CpuState.whole_fresh with flag := fun f => by cases f <;> rfl }
  have hready : m.Ready := ⟨hwhole, rfl, rfl⟩
  have hbyte : m.chip.byte m.chip.pc = 0x3C := Memory.byteAt_store _ 0 0 0x3C
  have hi : Instr.ofOpcode? (m.chip.byte m.chip.pc) = some (.inr (.reg .a)) := by
    rw [hbyte]
    rfl
  obtain ⟨m₁, hstep₁, h₁⟩ := step_records hready.shows hi .preserve
  obtain ⟨m₂, hstep₂, -⟩ := step_records hready.shows hi .clear
  obtain ⟨-, hone, hmany⟩ := policies_part_in_codes hready
  obtain ⟨-, -, i, mask, hinstr, haffected, -, hset⟩ := hone _ m₁ _ m₂ hstep₁ hstep₂
  obtain rfl : Instr.inr (.reg .a) = i :=
    Option.some.inj ((Operation.instr?_ofInstr hi _).symm.trans hinstr)
  obtain rfl : (Instr.inr (.reg .a)).affected = mask := Option.some.inj haffected
  have hsteps : steps .preserve 1 m = .ok [operationOf (.inr (.reg .a)) m.chip] m₁ :=
    steps_cons hstep₁ rfl
  obtain ⟨hbut, -⟩ := hmany 1 _ m₁ hsteps
  have hops : ∀ op ∈ [operationOf (.inr (.reg .a)) m.chip], ∀ i ∈ op.instr?,
      i.takesCarry = false := by
    intro op hop i hi'
    rw [List.mem_singleton.1 hop, hinstr] at hi'
    cases hi'
    rfl
  obtain ⟨m₁', m₂', hsteps₁, hsteps₂, halike⟩ := hbut hops 1 (Nat.le_refl 1)
  cases hsteps.symm.trans hsteps₁
  cases (steps_cons hstep₂ rfl : steps .clear 1 m = .ok [_] m₂).symm.trans hsteps₂
  refine ⟨_, m₁, m₂, hsteps, hsteps₂, halike, ?_, hset rfl .cy⟩
  rw [h₁.flag .cy]
  rfl

end Machine

end Emu8080
