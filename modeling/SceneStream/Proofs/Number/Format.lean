import SceneStream.Number.Single

/-! Rounding of quotients. It sees the quotient alone, not the terms of it, and a quotient that a
format has is met exactly. -/
namespace SceneStream.Number.Format

theorem nearestScale (num den : Nat) {k : Nat} (positive : 0 < k) :
    nearest (num * k) (den * k) = nearest num den := by
  have twice : 2 * (num % den * k) = 2 * (num % den) * k := (Nat.mul_assoc ..).symm
  unfold nearest
  dsimp only
  rw [Nat.mul_div_mul_right _ _ positive, Nat.mul_mod_mul_right, twice]
  simp only [Nat.mul_lt_mul_right positive]

theorem nearestMultiple (n : Nat) {den : Nat} (positive : 0 < den) :
    nearest (n * den) den = n := by
  simp [nearest, Nat.mul_div_cancel _ positive, positive]

theorem roundScale (f : Format) (num den : Nat) {k : Nat} (positive : 0 < k) :
    f.round (num * k) (den * k) = f.round num den := by
  unfold round
  dsimp only
  rw [Nat.mul_div_mul_right _ _ positive]
  generalize (num / den).log2 + 1 - f.precision = excess
  have shifted : (den * k) <<< excess = den <<< excess * k := by
    simp only [Nat.shiftLeft_eq, Nat.mul_right_comm]
  rw [shifted, nearestScale _ _ positive]

theorem roundQuotient (f : Format) {num den num' den' : Nat} (same : num * den' = num' * den)
    (positive : 0 < den) (positive' : 0 < den') : f.round num den = f.round num' den' := by
  rw [← roundScale f num den positive', same, Nat.mul_comm den, roundScale f num' den' positive]

/-! Codes are rounded to themselves. -/

theorem stepsSmall (f : Format) {code : Nat} (small : code < 2 ^ (f.precision - 1)) :
    f.steps code = code := by
  simp [steps, Nat.div_eq_of_lt small]

theorem stepsLarge (f : Format) {code : Nat} (large : 2 ^ (f.precision - 1) ≤ code) :
    f.steps code = (2 ^ (f.precision - 1) + code % 2 ^ (f.precision - 1)) *
      2 ^ (code / 2 ^ (f.precision - 1) - 1) := by
  have exponent : code / 2 ^ (f.precision - 1) ≠ 0 :=
    Nat.ne_of_gt (Nat.div_pos large (Nat.two_pow_pos _))
  unfold steps
  dsimp only
  rw [if_neg exponent, Nat.shiftLeft_eq]

theorem log2Normal {m k half : Nat} (shift : Nat) (power : half = 2 ^ k) (fraction : m < half) :
    ((half + m) * 2 ^ shift).log2 = k + shift := by
  have some : half + m ≠ 0 := by have := Nat.two_pow_pos k; omega
  rw [Nat.log2_eq_iff (Nat.mul_ne_zero some (Nat.ne_of_gt (Nat.two_pow_pos shift)))]
  constructor
  · rw [Nat.pow_add, ← power]
    exact Nat.mul_le_mul_right _ (Nat.le_add_right half m)
  · rw [Nat.add_right_comm, Nat.pow_add]
    apply (Nat.mul_lt_mul_right (Nat.two_pow_pos shift)).mpr
    rw [Nat.pow_succ, ← power]
    omega

theorem roundSteps (f : Format) (implicit : 0 < f.precision) {code : Nat}
    (finite : code < f.infinity) : f.round (f.steps code) 1 = code := by
  obtain ⟨bits, precision⟩ : ∃ bits, f.precision = bits + 1 := ⟨f.precision - 1, by omega⟩
  have half : f.precision - 1 = bits := by omega
  by_cases small : code < 2 ^ (f.precision - 1)
  · have fits : code.log2 + 1 - f.precision = 0 := by
      by_cases zero : code = 0
      · simp [zero, precision]
      · have := (Nat.log2_lt zero).mpr small
        omega
    have met : nearest code 1 = code := by simpa using nearestMultiple code Nat.one_pos
    unfold round
    simp [stepsSmall f small, fits, met, finite]
  · have large := Nat.le_of_not_lt small
    have exponent : 0 < code / 2 ^ bits :=
      Nat.div_pos (half ▸ large) (Nat.two_pow_pos _)
    have split := Nat.div_add_mod' code (2 ^ bits)
    have log := log2Normal (code / 2 ^ bits - 1) rfl
      (Nat.mod_lt code (Nat.two_pow_pos bits))
    have steps := stepsLarge f large
    rw [half] at steps
    have excess : (f.steps code).log2 + 1 - f.precision = code / 2 ^ bits - 1 := by
      rw [steps, log, precision]
      omega
    -- The implicit bit adds one more to the exponent.
    have whole : (code / 2 ^ bits - 1) * 2 ^ bits + (2 ^ bits + code % 2 ^ bits) = code := by
      rw [← Nat.add_assoc, ← Nat.succ_mul, Nat.succ_eq_add_one, Nat.sub_add_cancel exponent, split]
    unfold round
    dsimp only
    rw [Nat.div_one, excess, half, Nat.one_shiftLeft, steps,
      nearestMultiple _ (Nat.two_pow_pos _), whole, if_pos finite]

theorem roundExact (f : Format) (implicit : 0 < f.precision) {code k : Nat}
    (finite : code < f.infinity) (positive : 0 < k) : f.round (f.steps code * k) k = code := by
  have scaled := roundScale f (f.steps code) 1 positive
  rw [Nat.one_mul] at scaled
  rw [scaled, roundSteps f implicit finite]

theorem stepsOne (f : Format) (implicit : 0 < f.precision) (deep : f.precision ≤ f.scale + 1) {code : Nat}
    (one : f.one ≤ code) : 2 ^ f.scale ≤ f.steps code := by
  have exponent : f.scale + 2 - f.precision ≤ code / 2 ^ (f.precision - 1) :=
    (Nat.le_div_iff_mul_le (Nat.two_pow_pos _)).mpr one
  have large : 2 ^ (f.precision - 1) ≤ code := by
    refine Nat.le_trans (Nat.le_mul_of_pos_left _ ?_) one
    omega
  rw [stepsLarge f large]
  calc 2 ^ f.scale
      = 2 ^ (f.precision - 1) * 2 ^ (f.scale + 1 - f.precision) := by
        rw [← Nat.pow_add]
        congr 1
        omega
    _ ≤ _ := by
        refine Nat.mul_le_mul (Nat.le_add_right ..) (Nat.pow_le_pow_right (by decide) ?_)
        omega

/-! Decimals. -/

theorem ofDecimalQuotient (f : Format) (digits : Nat) (exponent : Int) :
    f.ofDecimal digits exponent =
      f.round (digits * 10 ^ exponent.toNat * 2 ^ f.scale) (10 ^ (-exponent).toNat) := by
  cases exponent with
  | ofNat e => simp [ofDecimal, Nat.shiftLeft_eq]
  | negSucc e => simp [ofDecimal, Nat.shiftLeft_eq]

theorem ofDecimalShift (f : Format) (digits k : Nat) (exponent : Int) :
    f.ofDecimal (digits * 10 ^ k) (exponent - k) = f.ofDecimal digits exponent := by
  have powers : 10 ^ k * 10 ^ (exponent - k).toNat * 10 ^ (-exponent).toNat =
      10 ^ exponent.toNat * 10 ^ (-(exponent - k)).toNat := by
    rw [← Nat.pow_add, ← Nat.pow_add, ← Nat.pow_add]
    congr 1
    omega
  rw [ofDecimalQuotient, ofDecimalQuotient]
  refine roundQuotient f ?_ (Nat.pow_pos (by decide)) (Nat.pow_pos (by decide))
  calc digits * 10 ^ k * 10 ^ (exponent - k).toNat * 2 ^ f.scale * 10 ^ (-exponent).toNat
      = digits * (10 ^ k * 10 ^ (exponent - k).toNat * 10 ^ (-exponent).toNat) * 2 ^ f.scale := by
        simp only [Nat.mul_assoc, Nat.mul_comm (2 ^ f.scale)]
    _ = digits * (10 ^ exponent.toNat * 10 ^ (-(exponent - k)).toNat) * 2 ^ f.scale := by
        rw [powers]
    _ = digits * 10 ^ exponent.toNat * 2 ^ f.scale * 10 ^ (-(exponent - k)).toNat := by
        simp only [Nat.mul_assoc, Nat.mul_comm (2 ^ f.scale)]

end SceneStream.Number.Format

namespace SceneStream.Single
open Number

theorem roundUpPositive {x : Single} (positive : x.isPositiveCount = true) : 1 ≤ x.roundUp := by
  have one : Format.single.one ≤ x.code := by
    simp only [isPositiveCount, Bool.and_eq_true, decide_eq_true_eq] at positive
    exact positive.2
  have steps := Format.stepsOne .single (by decide) (by decide) one
  unfold roundUp
  rw [Nat.le_div_iff_mul_le (Nat.two_pow_pos _), Nat.pow_succ]
  omega

end SceneStream.Single
