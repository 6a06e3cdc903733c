import Mathlib.Algebra.Order.Group.Nat
import ConfigLoader.Number.Binary64

/-! # Steps

A finite number is a number of least steps, and no two magnitudes are the same number of them. So finite
numbers that are one integer differ in the sign of a zero at most.
-/
namespace ConfigLoader.Binary64

/-- How many times the least positive number a magnitude is. -/
def steps (x : Binary64) : Nat := x.mantissa * 2 ^ (x.exponent + 1074).toNat

theorem steps_small {x : Binary64} (h : x.exponentField = 0) :
    x.steps = x.fraction ∧ x.steps < 2 ^ 52 := by
  have hf : x.fraction < 2 ^ 52 := Nat.mod_lt _ (Nat.pow_pos (by decide))
  have hs : x.steps = x.fraction := by
    simp only [steps, mantissa, exponent, h, if_true]
    exact Nat.mul_one _
  exact ⟨hs, hs ▸ hf⟩

theorem steps_large {x : Binary64} {e : Nat} (h : x.exponentField = e + 1) :
    x.steps = (2 ^ 52 + x.fraction) * 2 ^ e ∧ 2 ^ (52 + e) ≤ x.steps ∧ x.steps < 2 ^ (53 + e) := by
  have hf : x.fraction < 2 ^ 52 := Nat.mod_lt _ (Nat.pow_pos (by decide))
  have hpos : 0 < 2 ^ e := Nat.pow_pos (by decide)
  have hs : x.steps = (2 ^ 52 + x.fraction) * 2 ^ e := by
    have hexp : ((e + 1 : Nat) - 1075 + 1074 : Int).toNat = e := by omega
    simp only [steps, mantissa, exponent, h, Nat.succ_ne_zero, if_false, hexp]
  refine ⟨hs, ?_, ?_⟩
  · rw [hs, Nat.pow_add]
    exact Nat.mul_le_mul_right _ (Nat.le_add_right _ _)
  · rw [hs, Nat.pow_add]
    exact Nat.mul_lt_mul_of_pos_right (by omega) hpos

theorem exponentField_eq {x y : Binary64} (h : x.steps = y.steps) :
    x.exponentField = y.exponentField := by
  have hlt : ∀ {x y : Binary64}, x.exponentField < y.exponentField → x.steps < y.steps := by
    intro x y hxy
    obtain ⟨f, hf⟩ : ∃ f, y.exponentField = f + 1 := ⟨y.exponentField - 1, by omega⟩
    have hy := (steps_large hf).2.1
    refine Nat.lt_of_lt_of_le ?_ hy
    cases hx : x.exponentField with
    | zero =>
      exact Nat.lt_of_lt_of_le (steps_small hx).2 (Nat.pow_le_pow_right (by decide) (by omega))
    | succ e =>
      exact Nat.lt_of_lt_of_le (steps_large hx).2.2 (Nat.pow_le_pow_right (by decide) (by omega))
  rcases Nat.lt_trichotomy x.exponentField y.exponentField with hxy | hxy | hxy
  · exact absurd h (Nat.ne_of_lt (hlt hxy))
  · exact hxy
  · exact absurd h.symm (Nat.ne_of_lt (hlt hxy))

theorem magnitude_of_steps {x y : Binary64} (h : x.steps = y.steps) :
    x.magnitude = y.magnitude := by
  have he := exponentField_eq h
  have hf : x.fraction = y.fraction := by
    cases hx : x.exponentField with
    | zero => rw [← (steps_small hx).1, ← (steps_small (he ▸ hx)).1, h]
    | succ e =>
      have hs := h
      rw [(steps_large hx).1, (steps_large (he ▸ hx)).1] at hs
      exact Nat.add_left_cancel (Nat.eq_of_mul_eq_mul_right (Nat.pow_pos (by decide)) hs)
  calc x.magnitude = 2 ^ 52 * x.exponentField + x.fraction := (Nat.div_add_mod ..).symm
    _ = 2 ^ 52 * y.exponentField + y.fraction := by rw [he, hf]
    _ = y.magnitude := Nat.div_add_mod ..

def stepsToOne : Nat := 2 ^ 1074

theorem ratio_steps (x : Binary64) : x.ratio.1 * stepsToOne = x.steps * x.ratio.2 := by
  have hle : -1074 ≤ x.exponent := by
    rw [exponent]
    split <;> omega
  have hexp : x.exponent.toNat + 1074 = (x.exponent + 1074).toNat + (-x.exponent).toNat := by omega
  calc x.mantissa * 2 ^ x.exponent.toNat * stepsToOne
      = x.mantissa * 2 ^ (x.exponent.toNat + 1074) := by
        rw [stepsToOne, Nat.pow_add, Nat.mul_assoc]
    _ = x.steps * 2 ^ (-x.exponent).toNat := by rw [hexp, Nat.pow_add, ← Nat.mul_assoc, steps]

theorem toInt?_cases {x : Binary64} {n : Int} (h : x.toInt? = some n) :
    x.isFinite = true ∧ x.ratio.1 % x.ratio.2 = 0 ∧
      n = if x.isNegative then -((x.ratio.1 / x.ratio.2 : Nat) : Int)
        else (x.ratio.1 / x.ratio.2 : Nat) := by
  rw [toInt?] at h
  split at h
  · next hfin =>
    change (if x.ratio.1 % x.ratio.2 = 0 then _ else _) = _ at h
    split at h
    · next hmod => exact ⟨hfin, hmod, (Option.some.inj h).symm⟩
    · cases h
  · cases h

theorem steps_of_toInt {x : Binary64} {n : Int} (h : x.toInt? = some n) :
    x.steps = n.natAbs * stepsToOne := by
  obtain ⟨-, hmod, hn⟩ := toInt?_cases h
  have hpos : 0 < x.ratio.2 := Nat.pow_pos (by decide)
  have hnat : n.natAbs = x.ratio.1 / x.ratio.2 := by
    rw [hn]
    split <;> simp only [Int.natAbs_neg, Int.natAbs_natCast]
  refine Nat.eq_of_mul_eq_mul_right hpos ?_
  rw [← ratio_steps, hnat, Nat.mul_right_comm, Nat.div_mul_cancel (Nat.dvd_of_mod_eq_zero hmod)]

theorem isNegative_of_toInt {x : Binary64} {n : Int} (h : x.toInt? = some n) (hn : n ≠ 0) :
    x.isNegative = decide (n < 0) := by
  obtain ⟨-, -, he⟩ := toInt?_cases h
  generalize x.ratio.1 / x.ratio.2 = q at he
  cases hs : x.isNegative with
  | true =>
    rw [hs, if_pos rfl] at he
    exact (decide_eq_true (by omega)).symm
  | false =>
    rw [hs, if_neg Bool.false_ne_true] at he
    exact (decide_eq_false (by omega)).symm

theorem bits_eq {x y : Binary64} (hm : x.magnitude = y.magnitude)
    (hs : x.isNegative = y.isNegative) : x = y := by
  have hx := x.bits.toNat_lt
  have hy := y.bits.toNat_lt
  rw [isNegative, isNegative, decide_eq_decide] at hs
  simp only [magnitude, signBit] at hm hs
  obtain ⟨a⟩ := x
  obtain ⟨b⟩ := y
  congr 1
  apply UInt64.toNat_inj.mp
  simp only at hm hs hx hy
  omega

theorem isNaN_of_isFinite {x : Binary64} (h : x.isFinite = true) : x.isNaN = false := by
  have hlt : x.magnitude / 2 ^ 52 < 2047 := of_decide_eq_true h
  have hle : x.magnitude ≤ 2047 * 2 ^ 52 := by omega
  exact decide_eq_false (Nat.not_lt.mpr hle)

theorem isZero_toInt_zero {x : Binary64} (h : x.toInt? = some 0) : x.isZero = true := by
  have h0 : x.steps = (⟨0⟩ : Binary64).steps := by
    rw [steps_of_toInt h, Int.natAbs_zero, Nat.zero_mul]
    rfl
  rw [isZero, magnitude_of_steps h0]
  rfl

theorem same_of_toInt {x y : Binary64} {n : Int} (hx : x.toInt? = some n) (hy : y.toInt? = some n) :
    x.same y = true := by
  have hm : x.magnitude = y.magnitude :=
    magnitude_of_steps ((steps_of_toInt hx).trans (steps_of_toInt hy).symm)
  have hnx := isNaN_of_isFinite (toInt?_cases hx).1
  have hny := isNaN_of_isFinite (toInt?_cases hy).1
  simp only [same, hnx, hny, Bool.not_false, Bool.true_and, Bool.or_eq_true, Bool.and_eq_true,
    beq_iff_eq]
  by_cases hn : n = 0
  · right
    rw [hn] at hx hy
    exact ⟨isZero_toInt_zero hx, isZero_toInt_zero hy⟩
  · exact .inl (bits_eq hm ((isNegative_of_toInt hx hn).trans (isNegative_of_toInt hy hn).symm))

end ConfigLoader.Binary64
