/-
# Emu8080.Proofs.Condition -- what a result leaves in the condition codes

A result decides the flags it affects by itself: neither the codes before it nor
the policy has a say in them.  The policy has the others, and looks at nothing
but the codes before (`IsJudged`).

All that follows about several results is read off flag by flag.  Where flags
are preserved, results that affect different flags do not see each other; and a
result that comes once more finds its own flags as it would leave them, and the
others already kept or cleared.
-/
import Emu8080.Proofs.Parity

namespace Emu8080.Alu

set_option autoImplicit false

/-- What a result says of each flag it affects, and the policy of each other flag. -/
structure IsJudged (cc : ConditionCodes) (affected : FlagMask) (value carry auxCarry : Int)
    (policy : FlagPolicy) (codes : ConditionCodes) : Prop where
  zero : affected.get .z = true → codes.get .z = .int (if value = 0 then 1 else 0)
  sign : affected.get .s = true → codes.get .s = .int (if 128 ≤ value then 1 else 0)
  parity : affected.get .p = true →
    codes.get .p = .int (if ones 16 (value % 65536).toNat % 2 = 0 then 1 else 0)
  carry : affected.get .cy = true → codes.get .cy = .int (carry % 2)
  auxCarry : affected.get .ac = true → codes.get .ac = .int (auxCarry % 2)
  preserved : policy = .preserve → ∀ f, affected.get f = false → codes.get f = cc.get f
  cleared : policy = .clear → ∀ f, affected.get f = false → codes.get f = .int 0

theorem bit_of_iff {b : Bool} {p : Prop} [Decidable p] (h : b = true ↔ p) :
    ConditionCodes.bit b = .int (if p then 1 else 0) := by
  by_cases hp : p <;> simp [ConditionCodes.bit, h, hp]

variable {affected other : FlagMask} {n c a : Int} {policy : FlagPolicy}

theorem isJudged_applyFlags (cc : ConditionCodes) (affected : FlagMask) (n c a : Int)
    (policy : FlagPolicy) :
    IsJudged cc affected n c a policy (applyFlags cc affected n c a policy) where
  zero h := by
    rw [applyFlags_affected h]
    exact bit_of_iff beq_iff_eq
  sign h := by
    rw [applyFlags_affected h]
    exact bit_of_iff decide_eq_true_iff
  parity h := by
    rw [applyFlags_affected h, flagOf, parity_eq]
    exact bit_of_iff beq_iff_eq
  carry h := by
    rw [applyFlags_affected h, flagOf, ConditionCodes.bit_low]
  auxCarry h := by
    rw [applyFlags_affected h, flagOf, ConditionCodes.bit_low]
  preserved hpolicy f h := by
    rw [applyFlags_unaffected h, hpolicy, kept]
  cleared hpolicy f h := by
    rw [applyFlags_unaffected h, hpolicy, kept]

/-- An affected flag has nothing of the codes before, whatever the policy. -/
theorem get_applyFlags_congr {f : Flag} (h : affected.get f = true) (cc cc' : ConditionCodes)
    (policy policy' : FlagPolicy) :
    (applyFlags cc' affected n c a policy').get f
      = (applyFlags cc affected n c a policy).get f := by
  rw [applyFlags_affected h, applyFlags_affected h]

/-- What is kept of codes in which the flag was kept before. -/
theorem kept_applyFlags {f : Flag} (h : affected.get f = false) (cc : ConditionCodes) :
    kept (applyFlags cc affected n c a policy) policy f = kept cc policy f := by
  cases policy with
  | preserve => exact applyFlags_unaffected h cc n c a .preserve
  | clear => rfl

/-- The same result once more changes nothing. -/
theorem applyFlags_applyFlags (cc : ConditionCodes) (affected : FlagMask) (n c a : Int)
    (policy : FlagPolicy) :
    applyFlags (applyFlags cc affected n c a policy) affected n c a policy
      = applyFlags cc affected n c a policy := by
  apply Flags.ext_get
  intro f
  by_cases h : affected.get f = true
  · exact get_applyFlags_congr h _ _ _ _
  · simp only [Bool.not_eq_true] at h
    rw [applyFlags_unaffected h, applyFlags_unaffected h, kept_applyFlags h]

/-- Where the others are preserved, results that affect different flags commute. -/
theorem applyFlags_comm (h : ∀ f, affected.get f = true → other.get f = false)
    (cc : ConditionCodes) (n c a n' c' a' : Int) :
    applyFlags (applyFlags cc affected n c a .preserve) other n' c' a' .preserve
      = applyFlags (applyFlags cc other n' c' a' .preserve) affected n c a .preserve := by
  apply Flags.ext_get
  intro f
  -- at each flag one of the two results steps aside
  by_cases hf : affected.get f = true
  · rw [applyFlags_unaffected (h f hf), kept, applyFlags_affected hf, applyFlags_affected hf]
  · simp only [Bool.not_eq_true] at hf
    rw [applyFlags_unaffected hf _ n c a, kept]
    by_cases hother : other.get f = true
    · exact get_applyFlags_congr hother _ _ _ _
    · simp only [Bool.not_eq_true] at hother
      rw [applyFlags_unaffected hother, applyFlags_unaffected hother, kept, kept,
        applyFlags_unaffected hf, kept]

variable {value carry auxCarry : Datum}

/-- **Flags are judged exactly.**  Integers of any size and sign are judged without fault, and as
an instruction judges them: each affected flag says what it is the flag of, each other one is
preserved or cleared.  So the affected flags depend on the result alone, the same result once more
changes nothing, and results that preserve each other's flags can change places. -/
theorem judgeFlags_exact (hvalue : value.int? = some n) (hcarry : carry.int? = some c)
    (haux : auxCarry.int? = some a) (cc : ConditionCodes) (affected : FlagMask)
    (policy : FlagPolicy) :
    let codes := applyFlags cc affected n c a policy
    judgeFlags cc affected value carry auxCarry policy = .ok codes
      ∧ IsJudged cc affected n c a policy codes
      ∧ (∀ cc' policy' f, affected.get f = true →
          (applyFlags cc' affected n c a policy').get f = codes.get f)
      ∧ judgeFlags codes affected value carry auxCarry policy = .ok codes
      ∧ ∀ other n' c' a', (∀ f, affected.get f = true → other.get f = false) →
          applyFlags (applyFlags cc affected n c a .preserve) other n' c' a' .preserve
            = applyFlags (applyFlags cc other n' c' a' .preserve) affected n c a .preserve := by
  intro codes
  have hjudges : ∀ cc, judgeFlags cc affected value carry auxCarry policy
      = .ok (applyFlags cc affected n c a policy) :=
    fun cc => judgeFlags_of_int? hvalue hcarry haux cc affected policy
  refine ⟨hjudges cc, isJudged_applyFlags cc affected n c a policy, ?_, ?_, ?_⟩
  · intro cc' policy' f hf
    exact get_applyFlags_congr hf cc cc' policy policy'
  · rw [hjudges codes, applyFlags_applyFlags]
  · intro other n' c' a' hdisjoint
    exact applyFlags_comm hdisjoint cc n c a n' c' a'

/-- All sixteen bits of -1 are set, yet it is below 128; a second result affects the flags that this
one leaves alone, and it is the same which of the two comes first. -/
theorem judgeFlags_exact_negative :
    let before : ConditionCodes := ⟨.int 1, .int 1, .int 0, .int 0, .int 1⟩
    let after : ConditionCodes := ⟨.int 1, .int 0, .int 1, .int 1, .int 1⟩
    let affected := FlagMask.ofList [.s, .p, .cy]
    let other := FlagMask.ofList [.z, .ac]
    judgeFlags before affected (.int (-1)) (.bool true) (.int 2) .preserve = .ok after
      ∧ IsJudged before affected (-1) 1 2 .preserve after
      ∧ judgeFlags after affected (.int (-1)) (.bool true) (.int 2) .preserve = .ok after
      ∧ applyFlags after other 7 0 0 .preserve
        = applyFlags (applyFlags before other 7 0 0 .preserve) affected (-1) 1 2 .preserve := by
  intro before after affected other
  have hafter : applyFlags before affected (-1) 1 2 .preserve = after := by rfl
  have hdisjoint : ∀ f, affected.get f = true → other.get f = false := by
    intro f
    cases f <;> decide
  have hcarry : (Datum.bool true).int? = some 1 := rfl
  obtain ⟨hjudges, hjudged, -, hagain, hcomm⟩ :=
    judgeFlags_exact (Datum.int?_int (-1)) hcarry (Datum.int?_int 2) before affected .preserve
  rw [hafter] at hjudges hjudged hagain
  have hswap := hcomm other 7 0 0 hdisjoint
  rw [hafter] at hswap
  exact ⟨hjudges, hjudged, hagain, hswap⟩

end Emu8080.Alu
