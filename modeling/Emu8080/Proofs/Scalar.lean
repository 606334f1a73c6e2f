/-
# Emu8080.Proofs.Scalar -- what plain values denote

Values without parts are compared case by case: numbers of three kinds as
numbers, texts as texts, and a NaN is found again.  All this is equality of what
they denote (`Datum.same_iff`), which is a `Scalar`.

Numbers are counted there in the least step that there is between doubles
(`Binary64.units`).  An integer is a multiple of `Binary64.unit`, and two doubles
are as many steps only if they have the same pattern or are both zero: patterns
with greater exponents are greater (`Binary64.stepsOf_lt_of_div_lt`), and within
an exponent the mantissa decides.
-/
import Emu8080.Datum.Basic

namespace Emu8080

set_option autoImplicit false

/-- What a value denotes that has no parts: nothing, a number in least steps, an infinity by its
sign, no number at all, or a text. -/
inductive Scalar
  | null
  | number (units : Int)
  | infinite (negative : Bool)
  | nan
  | text (s : Text)

/-- Whether what is denoted counts as true. -/
def Scalar.truthy : Scalar → Bool
  | .null => false
  | .number units => units != 0
  | .infinite _ => true
  | .nan => true
  | .text s => !s.isEmpty

/-! ## Numbers -/

namespace Binary64

/-- The value of a pattern without its sign, in least steps, for a mantissa of `K` patterns. -/
def stepsOf (K bits : Nat) : Nat :=
  (if bits / K = 0 then bits % K else bits % K + K) * Nat.pow 2 (bits / K - 1)

variable {K p q : Nat}

theorem stepsOf_lt (hK : 0 < K) (p : Nat) : stepsOf K p < K * Nat.pow 2 (p / K) := by
  have hlow := Nat.mod_lt p hK
  rw [stepsOf]
  by_cases hzero : p / K = 0
  · rw [if_pos hzero, hzero]
    show p % K * 1 < K * 1
    omega
  · have hpower : K * Nat.pow 2 (p / K) = (K + K) * Nat.pow 2 (p / K - 1) := by
      obtain ⟨e, he⟩ := Nat.exists_eq_succ_of_ne_zero hzero
      rw [he, Nat.succ_sub_one, Nat.pow_eq, Nat.pow_eq, Nat.pow_succ, Nat.add_mul,
        ← Nat.mul_assoc]
      omega
    rw [if_neg hzero, hpower]
    exact Nat.mul_lt_mul_of_pos_right (by omega) (Nat.two_pow_pos _)

theorem le_stepsOf (hp : p / K ≠ 0) : K * Nat.pow 2 (p / K - 1) ≤ stepsOf K p := by
  rw [stepsOf, if_neg hp]
  exact Nat.mul_le_mul_right _ (Nat.le_add_left K _)

theorem stepsOf_lt_of_div_lt (hK : 0 < K) (h : p / K < q / K) : stepsOf K p < stepsOf K q := by
  have hq : q / K ≠ 0 := Nat.ne_of_gt (Nat.lt_of_le_of_lt (Nat.zero_le _) h)
  calc stepsOf K p < K * Nat.pow 2 (p / K) := stepsOf_lt hK p
    _ ≤ K * Nat.pow 2 (q / K - 1) :=
      Nat.mul_le_mul_left K (Nat.pow_le_pow_right Nat.two_pos (Nat.le_sub_one_of_lt h))
    _ ≤ stepsOf K q := le_stepsOf hq

/-- Different patterns have different values. -/
theorem stepsOf_inj (hK : 0 < K) (h : stepsOf K p = stepsOf K q) : p = q := by
  have hdiv : p / K = q / K := by
    rcases Nat.lt_trichotomy (p / K) (q / K) with hlt | heq | hgt
    · exact absurd h (Nat.ne_of_lt (stepsOf_lt_of_div_lt hK hlt))
    · exact heq
    · exact absurd h.symm (Nat.ne_of_lt (stepsOf_lt_of_div_lt hK hgt))
  have hmod : p % K = q % K := by
    rw [stepsOf, stepsOf, hdiv] at h
    have hlow := Nat.eq_of_mul_eq_mul_right (Nat.two_pow_pos _) h
    by_cases hzero : q / K = 0
    · rwa [if_pos hzero, if_pos hzero] at hlow
    · rw [if_neg hzero, if_neg hzero] at hlow
      omega
  rw [← Nat.div_add_mod p K, ← Nat.div_add_mod q K, hdiv, hmod]

/-- How many least steps a finite number is away from zero. -/
def steps (x : Binary64) : Nat := stepsOf (Nat.pow 2 52) x.magnitudeBits

/-- A finite number in least steps. -/
def units (x : Binary64) : Int := if x.isNegative then -(x.steps : Int) else x.steps

/-- How many least steps make one.  Nothing is to compute this number. -/
@[irreducible]
def unit : Nat := Nat.pow 2 (-minExponent).toNat

theorem unit_eq : ∃ k : Nat, (k : Int) = -minExponent ∧ unit = Nat.pow 2 k := by
  unfold unit
  exact ⟨(-minExponent).toNat, rfl, rfl⟩

theorem unit_pos : 0 < unit := by
  obtain ⟨k, -, hunit⟩ := unit_eq
  rw [hunit]
  exact Nat.two_pow_pos k

/-- A number scaled by a power of two, as a quotient and in least steps. -/
theorem scaleRatio_eq (m j t : Nat) {power : Int} (h : power = (j : Int) - t) :
    (scaleRatio m 1 power).1 * Nat.pow 2 t = m * Nat.pow 2 j * (scaleRatio m 1 power).2 := by
  cases power with
  | ofNat k =>
    have hk : (k : Int) = j - t := h
    obtain rfl : j = k + t := by omega
    simp only [scaleRatio, Nat.pow_eq, Nat.mul_one, Nat.pow_add, Nat.mul_assoc]
  | negSucc k =>
    obtain rfl : t = j + (k + 1) := by omega
    simp only [scaleRatio, Nat.pow_eq, Nat.one_mul, Nat.pow_add, Nat.mul_assoc]

theorem scaleRatio_pos (m : Nat) (power : Int) : 0 < (scaleRatio m 1 power).2 := by
  cases power with
  | ofNat k => exact Nat.one_pos
  | negSucc k => exact Nat.mul_pos Nat.one_pos (Nat.two_pow_pos (k + 1))

variable {x y : Binary64}

/-- A finite number is an integer if it is as many units. -/
theorem agreesInt_iff_units (hx : x.isFinite = true) (n : Int) :
    x.agreesInt n = true ↔ x.units = n * unit := by
  have hscaled : (scaleRatio x.mantissa 1 x.exponent).1 * unit
      = x.steps * (scaleRatio x.mantissa 1 x.exponent).2 := by
    obtain ⟨k, hk, hunit⟩ := unit_eq
    rw [hunit]
    refine scaleRatio_eq _ _ _ ?_
    rw [exponent, hk]
    omega
  have hpos := scaleRatio_pos x.mantissa x.exponent
  rw [agreesInt, toRatio?, if_pos hx]
  dsimp only
  generalize scaleRatio x.mantissa 1 x.exponent = ratio at hscaled hpos
  have hunits : (if x.isNegative = true then -(ratio.1 : Int) else ratio.1) * unit
      = x.units * ratio.2 := by
    have hcast : (ratio.1 : Int) * unit = x.steps * ratio.2 := by
      rw [← Int.natCast_mul, hscaled, Int.natCast_mul]
    rw [units]
    split
    · rw [Int.neg_mul, Int.neg_mul, hcast]
    · exact hcast
  have hratio : (ratio.2 : Int) ≠ 0 := by omega
  have hunit : (unit : Int) ≠ 0 := Int.natCast_ne_zero.2 (Nat.ne_of_gt unit_pos)
  rw [beq_iff_eq]
  constructor
  · intro h
    rw [h, Int.mul_right_comm] at hunits
    exact (Int.eq_of_mul_eq_mul_right hratio hunits).symm
  · intro h
    rw [h, Int.mul_right_comm] at hunits
    exact Int.eq_of_mul_eq_mul_right hunit hunits

theorem steps_eq_iff : x.steps = y.steps ↔ x.magnitudeBits = y.magnitudeBits :=
  ⟨stepsOf_inj (Nat.two_pow_pos 52), fun h => by rw [steps, h, steps]⟩

theorem isZero_iff : x.isZero = true ↔ x.units = 0 := by
  have hzero : stepsOf (Nat.pow 2 52) 0 = 0 := by
    rw [stepsOf, Nat.zero_div, if_pos rfl, Nat.zero_mod, Nat.zero_mul]
  have hsteps : x.steps = 0 ↔ x.magnitudeBits = 0 := by
    constructor
    · intro h
      exact stepsOf_inj (Nat.two_pow_pos 52) (h.trans hzero.symm)
    · intro h
      rw [steps, h, hzero]
  rw [isZero, decide_eq_true_iff, ← hsteps, units]
  split <;> omega

/-- A number is its sign and its magnitude. -/
theorem eq_of_sign (hsign : x.isNegative = y.isNegative)
    (hmagnitude : x.magnitudeBits = y.magnitudeBits) : x = y := by
  have hx := x.bits.toNat_lt
  have hy := y.bits.toNat_lt
  have hbits : x.bits.toNat = y.bits.toNat := by
    simp only [isNegative, magnitudeBits, Nat.pow_eq, decide_eq_decide] at hsign hmagnitude
    omega
  cases x
  cases y
  exact congrArg Binary64.mk (UInt64.toNat_inj.1 hbits)

theorem isNaN_of_isFinite (h : x.isFinite = true) : x.isNaN = false := by
  rw [isFinite, decide_eq_true_iff] at h
  exact decide_eq_false (Nat.lt_asymm h)

theorem isFinite_of_isZero (h : x.isZero = true) : x.isFinite = true := by
  rw [isZero, decide_eq_true_iff] at h
  rw [isFinite, h]
  rfl

/-- Finite numbers agree if they are as many units. -/
theorem agrees_iff_units (hx : x.isFinite = true) (hy : y.isFinite = true) :
    x.agrees y = true ↔ x.units = y.units := by
  rw [agrees, isNaN_of_isFinite hx, isNaN_of_isFinite hy]
  simp only [Bool.not_false, Bool.true_and, Bool.or_eq_true, Bool.and_eq_true, beq_iff_eq,
    isZero_iff]
  constructor
  · rintro (hbits | ⟨hzero, hzero'⟩)
    · rw [units, units, isNegative, isNegative, steps, steps, magnitudeBits, magnitudeBits, hbits]
    · rw [hzero, hzero']
  · intro h
    have hsteps : x.steps = y.steps := by
      rw [units, units] at h
      split at h <;> split at h <;> omega
    by_cases hsign : x.isNegative = y.isNegative
    · exact .inl (congrArg bits (eq_of_sign hsign (steps_eq_iff.1 hsteps)))
    · have hzero : x.steps = 0 := by
        cases hneg : x.isNegative <;> cases hneg' : y.isNegative
        · exact absurd (hneg.trans hneg'.symm) hsign
        · simp only [units, hneg, hneg', Bool.false_eq_true, if_false, if_true] at h
          omega
        · simp only [units, hneg, hneg', Bool.false_eq_true, if_false, if_true] at h
          omega
        · exact absurd (hneg.trans hneg'.symm) hsign
      have hunits : x.units = 0 := by
        rw [units, hzero]
        split <;> rfl
      exact .inr ⟨hunits, h ▸ hunits⟩

/-- What a double denotes. -/
def scalar (x : Binary64) : Scalar :=
  if x.isNaN then .nan else if x.isFinite then .number x.units else .infinite x.isNegative

theorem scalar_of_isNaN (h : x.isNaN = true) : x.scalar = .nan := if_pos h

theorem scalar_of_isFinite (h : x.isFinite = true) : x.scalar = .number x.units := by
  rw [scalar, isNaN_of_isFinite h, if_neg Bool.false_ne_true, if_pos h]

/-- What is neither a NaN nor finite is an infinity. -/
theorem scalar_of_not_isFinite (hnan : x.isNaN = false) (hfinite : x.isFinite = false) :
    x.magnitudeBits = infinityBits ∧ x.scalar = .infinite x.isNegative := by
  constructor
  · rw [isNaN, decide_eq_false_iff_not] at hnan
    rw [isFinite, decide_eq_false_iff_not] at hfinite
    omega
  · rw [scalar, hnan, hfinite, if_neg Bool.false_ne_true, if_neg Bool.false_ne_true]

theorem isNaN_of_scalar (h : x.scalar = .nan) : x.isNaN = true := by
  rw [scalar] at h
  split at h
  · assumption
  · split at h <;> cases h

theorem isFinite_of_scalar {u : Int} (h : x.scalar = .number u) :
    x.isFinite = true ∧ x.units = u := by
  rw [scalar] at h
  split at h
  · cases h
  · split at h
    · cases h
      exact ⟨‹_›, rfl⟩
    · cases h

theorem infinite_of_scalar {negative : Bool} (h : x.scalar = .infinite negative) :
    x.isNaN = false ∧ x.magnitudeBits = infinityBits ∧ x.isNegative = negative := by
  cases hnan : x.isNaN with
  | true => cases (scalar_of_isNaN hnan).symm.trans h
  | false =>
    cases hfinite : x.isFinite with
    | true => cases (scalar_of_isFinite hfinite).symm.trans h
    | false =>
      obtain ⟨hmagnitude, hscalar⟩ := scalar_of_not_isFinite hnan hfinite
      cases hscalar.symm.trans h
      exact ⟨rfl, hmagnitude, rfl⟩

theorem scalar_eq_of_agrees (h : x.agrees y = true) : x.scalar = y.scalar := by
  simp only [agrees, Bool.and_eq_true, Bool.or_eq_true, beq_iff_eq] at h
  rcases h.2 with hbits | ⟨hx, hy⟩
  · have heq : x = y := congrArg Binary64.mk hbits
    rw [heq]
  · rw [scalar_of_isFinite (isFinite_of_isZero hx), scalar_of_isFinite (isFinite_of_isZero hy),
      isZero_iff.1 hx, isZero_iff.1 hy]

theorem agrees_self (h : x.isNaN = false) : x.agrees x = true := by
  rw [agrees, h, beq_self_eq_true]
  rfl

/-- Doubles are the same if they denote the same. -/
theorem same_iff_scalar :
    (x.isNaN && y.isNaN || x.agrees y) = true ↔ x.scalar = y.scalar := by
  rw [Bool.or_eq_true, Bool.and_eq_true]
  constructor
  · rintro (⟨hx, hy⟩ | hagrees)
    · rw [scalar_of_isNaN hx, scalar_of_isNaN hy]
    · exact scalar_eq_of_agrees hagrees
  · intro h
    cases hnan : x.isNaN with
    | true => exact .inl ⟨rfl, isNaN_of_scalar (h.symm.trans (scalar_of_isNaN hnan))⟩
    | false =>
      refine .inr ?_
      cases hfinite : x.isFinite with
      | true =>
        obtain ⟨hy, hunits⟩ := isFinite_of_scalar (h.symm.trans (scalar_of_isFinite hfinite))
        exact (agrees_iff_units hfinite hy).2 hunits.symm
      | false =>
        obtain ⟨hx, hscalar⟩ := scalar_of_not_isFinite hnan hfinite
        obtain ⟨-, hy, hsign⟩ := infinite_of_scalar (h.symm.trans hscalar)
        rw [eq_of_sign hsign.symm (hx.trans hy.symm)] at hnan ⊢
        exact agrees_self hnan

/-- A double counts as true unless it is a zero. -/
theorem truthy_scalar (x : Binary64) : x.scalar.truthy = !x.isZero := by
  have hzero : x.isFinite = false → x.isZero = false := by
    intro h
    refine Bool.eq_false_iff.2 fun hz => ?_
    rw [isFinite_of_isZero hz] at h
    exact nomatch h
  cases hfinite : x.isFinite with
  | true =>
    rw [scalar_of_isFinite hfinite, Scalar.truthy, Bool.eq_iff_iff]
    simp only [bne_iff_ne, ne_eq, Bool.not_eq_true', ← Bool.not_eq_true, isZero_iff]
  | false =>
    rw [hzero hfinite]
    cases hnan : x.isNaN with
    | true => rw [scalar_of_isNaN hnan]; rfl
    | false => rw [(scalar_of_not_isFinite hnan hfinite).2]; rfl

theorem scalar_ne_null : x.scalar ≠ .null := by
  rw [scalar]
  split
  · nofun
  · split <;> nofun

theorem scalar_ne_text (s : Text) : x.scalar ≠ .text s := by
  rw [scalar]
  split
  · nofun
  · split <;> nofun

theorem agreesInt_iff_scalar (n : Int) :
    x.agreesInt n = true ↔ x.scalar = .number (n * unit) := by
  cases hfinite : x.isFinite with
  | true => rw [agreesInt_iff_units hfinite, scalar_of_isFinite hfinite, Scalar.number.injEq]
  | false =>
    rw [agreesInt, toRatio?, hfinite, if_neg Bool.false_ne_true]
    refine ⟨nofun, fun h => ?_⟩
    rw [(isFinite_of_scalar h).1] at hfinite
    exact nomatch hfinite

end Binary64

/-! ## Plain values -/

namespace Datum

/-- What a value without parts denotes. -/
def scalar? : Datum → Option Scalar
  | .null => some .null
  | .bool b => some (.number ((if b then 1 else 0) * Binary64.unit))
  | .int n => some (.number (n * Binary64.unit))
  | .float x => some x.scalar
  | .str s => some (.text s)
  | .list _ | .map _ => none

variable {x y z : Datum} {a : Scalar}

theorem number_inj {m n : Int} :
    Scalar.number (m * Binary64.unit) = .number (n * Binary64.unit) ↔ m = n := by
  have hunit : (Binary64.unit : Int) ≠ 0 :=
    Int.natCast_ne_zero.2 (Nat.ne_of_gt Binary64.unit_pos)
  rw [Scalar.number.injEq]
  exact ⟨Int.eq_of_mul_eq_mul_right hunit, fun h => by rw [h]⟩

theorem agreesInt_iff (n : Int) :
    x.agreesInt n = true ↔ x.scalar? = some (.number (n * Binary64.unit)) := by
  cases x with
  | int k | bool b =>
    rw [agreesInt, beq_iff_eq, scalar?, Option.some.injEq, number_inj]
    exact eq_comm
  | float w => rw [agreesInt, Binary64.agreesInt_iff_scalar, scalar?, Option.some.injEq]
  | null | str s | list items | map entries => exact ⟨nofun, nofun⟩

theorem same_of_int? {n : Int} (h : x.int? = some n) (y : Datum) : x.same y = y.agreesInt n := by
  have hnan : x.isNaN = false := by
    cases x with
    | float w => cases h
    | null | bool b | int k | str s | list items | map entries => rfl
  rw [same, hnan, Bool.false_and, Bool.false_or, agrees_of_int? h]

theorem double_same_iff (w : Binary64) :
    (Datum.float w).same y = true ↔ y.scalar? = some w.scalar := by
  have hnumber : ∀ n, y.int? = some n → ((Datum.float w).same y = true ↔ w.agreesInt n = true) := by
    intro n hn
    cases y with
    | int k | bool b =>
      cases hn
      simp only [same, isNaN, Bool.and_false, Bool.false_or, agrees, int?]
    | null | float v | str s | list items | map entries => cases hn
  cases y with
  | int k | bool b =>
    rw [hnumber _ rfl, Binary64.agreesInt_iff_scalar, scalar?, Option.some.injEq]
    exact eq_comm
  | float v =>
    rw [same, isNaN, isNaN, agrees, Binary64.same_iff_scalar, scalar?, Option.some.injEq]
    exact eq_comm
  | null => simp [same, isNaN, agrees, int?, scalar?, Binary64.scalar_ne_null.symm]
  | str s => simp [same, isNaN, agrees, int?, scalar?, (Binary64.scalar_ne_text s).symm]
  | list items | map entries => simp [same, isNaN, agrees, int?, scalar?]

/-- A value without parts is the same as what denotes the same. -/
theorem same_iff (hx : x.scalar? = some a) : x.same y = true ↔ y.scalar? = some a := by
  cases x with
  | int k | bool b =>
    cases hx
    rw [same_of_int? rfl]
    exact agreesInt_iff _
  | float w =>
    cases hx
    exact double_same_iff w
  | null =>
    cases hx
    cases y <;> simp [same, isNaN, agrees, scalar?, Binary64.scalar_ne_null]
  | str s =>
    cases hx
    cases y with
    | str t =>
      simp only [same, isNaN, agrees, scalar?, Bool.false_and, Bool.false_or, beq_iff_eq,
        Option.some.injEq, Scalar.text.injEq]
      exact eq_comm
    | float w => simp [same, isNaN, agrees, scalar?, Binary64.scalar_ne_text]
    | null | bool b | int n | list items | map entries => simp [same, isNaN, agrees, scalar?]
  | list items | map entries => cases hx

end Datum

end Emu8080
