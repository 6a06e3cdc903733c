import Mathlib.Tactic.Ring
import ConfigLoader.Proofs.Number.Shortest

/-! # Whole numbers

A whole number below `2 ^ 53` is held exactly, no other natural is rounded to it, and its shortest
decimal is the number itself, so it is written in its digits.
-/
namespace ConfigLoader.Binary64

/-! ## Bits -/

theorem toNat_ofMagnitude (neg : Bool) {m : Nat} (hm : m < signBit) :
    (ofMagnitude neg m).bits.toNat = if neg then signBit + m else m := by
  rw [signBit] at hm
  rw [ofMagnitude, signBit, Nat.mod_eq_of_lt hm, UInt64.toNat_ofNat', Nat.mod_eq_of_lt]
  split <;> omega

theorem magnitude_ofMagnitude (neg : Bool) {m : Nat} (hm : m < signBit) :
    (ofMagnitude neg m).magnitude = m := by
  rw [magnitude, toNat_ofMagnitude neg hm]
  rw [signBit] at hm ⊢
  split <;> omega

theorem isNegative_ofMagnitude (neg : Bool) {m : Nat} (hm : m < signBit) :
    (ofMagnitude neg m).isNegative = neg := by
  rw [isNegative, toNat_ofMagnitude neg hm]
  rw [signBit] at hm ⊢
  cases neg
  · simp only [Bool.false_eq_true, if_false, decide_eq_false_iff_not]
    omega
  · simp only [if_true, decide_eq_true_eq]
    omega

@[simp] theorem magnitude_infinity (neg : Bool) : (infinity neg).magnitude = 2047 * 2 ^ 52 :=
  magnitude_ofMagnitude neg (by decide)

/-! ## Rounding -/

/-- A natural at the scale at which it has 53 bits. -/
def wide (n : Nat) : Nat := n * 2 ^ (52 - n.log2)

theorem log2_le {n : Nat} (h0 : 0 < n) (hn : n < 2 ^ 53) : n.log2 ≤ 52 :=
  Nat.lt_succ_iff.mp ((Nat.log2_lt (Nat.ne_of_gt h0)).mpr hn)

theorem wide_bounds {n : Nat} (h0 : 0 < n) (hn : n < 2 ^ 53) :
    2 ^ 52 ≤ wide n ∧ wide n < 2 ^ 53 := by
  have hl := log2_le h0 hn
  have hlow := Nat.log2_self_le (Nat.ne_of_gt h0)
  have hhigh := Nat.lt_log2_self (n := n)
  have h52 : 2 ^ n.log2 * 2 ^ (52 - n.log2) = 2 ^ 52 := by
    rw [← Nat.pow_add, Nat.add_sub_cancel' hl]
  have h53 : 2 ^ (n.log2 + 1) * 2 ^ (52 - n.log2) = 2 ^ 53 := by
    rw [← Nat.pow_add]
    congr 1
    omega
  have hpos : 0 < 2 ^ (52 - n.log2) := Nat.pow_pos (by decide)
  refine ⟨?_, ?_⟩
  · rw [← h52]
    exact Nat.mul_le_mul_right _ hlow
  · rw [← h53]
    exact Nat.mul_lt_mul_of_pos_right hhigh hpos

def wholeMagnitude (n : Nat) : Nat := (n.log2 + 1023) * 2 ^ 52 + (wide n - 2 ^ 52)

theorem wholeMagnitude_bounds {n : Nat} (h0 : 0 < n) (hn : n < 2 ^ 53) :
    1023 * 2 ^ 52 ≤ wholeMagnitude n ∧ wholeMagnitude n < 1076 * 2 ^ 52 := by
  have hl := log2_le h0 hn
  obtain ⟨h1, h2⟩ := wide_bounds h0 hn
  unfold wholeMagnitude
  omega

theorem log2_one : Nat.log2 1 = 0 := by decide

theorem scaleRatio_down (n k : Nat) : scaleRatio n 1 (-(k : Int)) = (n * 2 ^ k, 1) := by
  have h : (-(k : Int)).toNat = 0 := by omega
  simp [scaleRatio, h]

theorem ratioExponent_whole {n : Nat} (h0 : 0 < n) (hn : n < 2 ^ 53) :
    ratioExponent n 1 = -((52 - n.log2 : Nat) : Int) := by
  have hl := log2_le h0 hn
  have he : max ((n.log2 : Int) - (Nat.log2 1 : Int) - 53) (-1074) =
      -((53 - n.log2 : Nat) : Int) := by
    rw [log2_one]
    omega
  have hwide : 2 ^ 53 ≤ n * 2 ^ (53 - n.log2) := by
    have h := (wide_bounds h0 hn).1
    have hs : 53 - n.log2 = (52 - n.log2) + 1 := by omega
    rw [wide] at h
    rw [hs, Nat.pow_succ 2 (52 - n.log2), ← Nat.mul_assoc]
    omega
  rw [ratioExponent]
  simp only [he, scaleRatio_down, Nat.div_one, hwide, if_true]
  omega

@[simp] theorem roundDiv_one (n : Nat) : roundDiv n 1 = n := by
  simp only [roundDiv, Nat.mod_one, Nat.div_one, Nat.mul_zero, Nat.not_lt_zero, if_false,
    Nat.zero_ne_one]

theorem ofRatio_whole (neg : Bool) {n : Nat} (h0 : 0 < n) (hn : n < 2 ^ 53) :
    ofRatio neg n 1 = ofMagnitude neg (wholeMagnitude n) := by
  have hl := log2_le h0 hn
  obtain ⟨h1, h2⟩ := wide_bounds h0 hn
  have hb := (wholeMagnitude_bounds h0 hn).2
  have hexp : (-((52 - n.log2 : Nat) : Int) + 1075).toNat = n.log2 + 1023 := by omega
  have hw : n * 2 ^ (52 - n.log2) = wide n := rfl
  rw [ofRatio]
  simp only [ratioExponent_whole h0 hn, scaleRatio_down, hw, roundDiv_one, hexp,
    Nat.not_lt.mpr h1, if_false]
  rw [if_neg]
  · rfl
  · unfold wholeMagnitude at hb
    omega

theorem magnitude_ofRatio_large (neg : Bool) {n : Nat} (hn : 2 ^ 53 ≤ n) :
    1076 * 2 ^ 52 ≤ (ofRatio neg n 1).magnitude := by
  have h0 : n ≠ 0 := by omega
  have hl : 53 ≤ n.log2 := (Nat.le_log2 h0).mpr hn
  have hlow := Nat.log2_self_le h0
  obtain ⟨k, hk⟩ : ∃ k, n.log2 = 53 + k := ⟨n.log2 - 53, by omega⟩
  have he : max ((n.log2 : Int) - (Nat.log2 1 : Int) - 53) (-1074) = (k : Int) := by
    rw [log2_one]
    omega
  have hscale : ∀ j : Nat, scaleRatio n 1 (j : Int) = (n, 2 ^ j) := by
    intro j
    have h1 : (-(j : Int)).toNat = 0 := by omega
    have h2 : (j : Int).toNat = j := by omega
    rw [scaleRatio, h1, h2, Nat.pow_zero, Nat.mul_one, Nat.one_mul]
  have hbig : 2 ^ 53 ≤ n / 2 ^ k := by
    rw [Nat.le_div_iff_mul_le (Nat.pow_pos (by decide)), ← Nat.pow_add, ← hk]
    exact hlow
  have hexp : ratioExponent n 1 = ((k + 1 : Nat) : Int) := by
    rw [ratioExponent]
    simp only [he, hscale, hbig, if_true]
    omega
  have hquotient : 2 ^ 52 ≤ roundDiv n (2 ^ (k + 1)) := by
    have h : 2 ^ 52 ≤ n / 2 ^ (k + 1) := by
      rw [Nat.le_div_iff_mul_le (Nat.pow_pos (by decide)), ← Nat.pow_add]
      rwa [show 52 + (k + 1) = n.log2 by omega]
    unfold roundDiv
    dsimp only
    split
    · omega
    · split <;> omega
  rw [ofRatio]
  simp only [hexp, hscale, Nat.not_lt.mpr hquotient, if_false]
  split
  · rw [magnitude_infinity]
    omega
  · rename_i h
    rw [magnitude_ofMagnitude]
    · omega
    · rw [signBit]
      omega

theorem ofRatio_injective {neg neg' : Bool} {n k : Nat} (h0 : 0 < n) (hn : n < 2 ^ 53) (hk : 0 < k)
    (h : ofRatio neg k 1 = ofRatio neg' n 1) : k = n := by
  have hmag := congrArg magnitude h
  have hb := wholeMagnitude_bounds h0 hn
  rw [ofRatio_whole neg' h0 hn, magnitude_ofMagnitude neg' (by rw [signBit]; omega)] at hmag
  by_cases hlarge : 2 ^ 53 ≤ k
  · have hm := magnitude_ofRatio_large neg hlarge
    omega
  · have hk' : k < 2 ^ 53 := by omega
    have hbk := wholeMagnitude_bounds hk hk'
    rw [ofRatio_whole neg hk hk', magnitude_ofMagnitude neg (by rw [signBit]; omega)] at hmag
    have hwn := wide_bounds h0 hn
    have hwk := wide_bounds hk hk'
    have hlog : k.log2 = n.log2 := by
      unfold wholeMagnitude at hmag
      omega
    have hwide : wide k = wide n := by
      unfold wholeMagnitude at hmag
      omega
    rw [wide, wide, hlog] at hwide
    exact Nat.eq_of_mul_eq_mul_right (Nat.pow_pos (by decide)) hwide

/-! ## Shortest decimals -/

section Shortest
variable {neg : Bool} {n : Nat}

theorem magnitude_whole (neg : Bool) (h0 : 0 < n) (hn : n < 2 ^ 53) :
    (ofRatio neg n 1).magnitude = wholeMagnitude n := by
  have hb := wholeMagnitude_bounds h0 hn
  rw [ofRatio_whole neg h0 hn, magnitude_ofMagnitude neg (by rw [signBit]; omega)]

theorem isNegative_whole (neg : Bool) (h0 : 0 < n) (hn : n < 2 ^ 53) :
    (ofRatio neg n 1).isNegative = neg := by
  have hb := wholeMagnitude_bounds h0 hn
  rw [ofRatio_whole neg h0 hn, isNegative_ofMagnitude neg (by rw [signBit]; omega)]

theorem isZero_whole (neg : Bool) (h0 : 0 < n) (hn : n < 2 ^ 53) :
    (ofRatio neg n 1).isZero = false := by
  have hb := wholeMagnitude_bounds h0 hn
  rw [isZero, magnitude_whole neg h0 hn, beq_eq_false_iff_ne]
  omega

theorem isFinite_whole (neg : Bool) (h0 : 0 < n) (hn : n < 2 ^ 53) :
    (ofRatio neg n 1).isFinite = true := by
  have hb := wholeMagnitude_bounds h0 hn
  rw [isFinite, exponentField, magnitude_whole neg h0 hn, decide_eq_true_eq]
  omega

theorem ratio_whole (neg : Bool) (h0 : 0 < n) (hn : n < 2 ^ 53) :
    (ofRatio neg n 1).ratio = (n * 2 ^ (52 - n.log2), 2 ^ (52 - n.log2)) := by
  have hl := log2_le h0 hn
  have hw := wide_bounds h0 hn
  have hdiv : wholeMagnitude n / 2 ^ 52 = n.log2 + 1023 := by
    unfold wholeMagnitude
    omega
  have hmod : 2 ^ 52 + wholeMagnitude n % 2 ^ 52 = wide n := by
    unfold wholeMagnitude
    omega
  have hfield : (ofRatio neg n 1).exponentField = n.log2 + 1023 := by
    rw [exponentField, magnitude_whole neg h0 hn, hdiv]
  have hmantissa : (ofRatio neg n 1).mantissa = wide n := by
    rw [mantissa, hfield, if_neg (by omega), fraction, magnitude_whole neg h0 hn, hmod]
  have hexponent : (ofRatio neg n 1).exponent = -((52 - n.log2 : Nat) : Int) := by
    rw [exponent, hfield, if_neg (by omega)]
    omega
  have hup : (-((52 - n.log2 : Nat) : Int)).toNat = 0 := by omega
  have hdown : (-(-((52 - n.log2 : Nat) : Int))).toNat = 52 - n.log2 := by omega
  rw [ratio, hmantissa, hexponent, hup, hdown, Nat.pow_zero, Nat.mul_one, wide]

theorem toInt?_ofInt {k : Int} (hk : k.natAbs < 2 ^ 53) : (ofInt k).toInt? = some k := by
  by_cases h : k = 0
  · rw [h]
    decide +kernel
  · have h0 := Int.natAbs_pos.mpr h
    have hpos : 0 < 2 ^ (52 - k.natAbs.log2) := Nat.pow_pos (by decide)
    rw [ofInt, toInt?, isFinite_whole _ h0 hk, ratio_whole _ h0 hk, isNegative_whole _ h0 hk]
    simp only [if_true, Nat.mul_mod_left, Nat.mul_div_cancel _ hpos, decide_eq_true_eq,
      Option.some.injEq]
    split <;> omega

theorem scaleUp_bounds {c : Nat} (hc : 0 < c) (h0 : 0 < n) (hn : n < 10 ^ 16) (fuel : Nat)
    {k : Int} (hk : k ≤ 16) (hf : 1 ≤ k + fuel) :
    1 ≤ scaleUp (n * c) c fuel k ∧ scaleUp (n * c) c fuel k ≤ 16 := by
  induction fuel generalizing k with
  | zero => exact ⟨by simpa [scaleUp] using hf, hk⟩
  | succ fuel ih =>
    rw [scaleUp]
    split
    · rename_i h
      refine ⟨?_, hk⟩
      by_contra hlow
      have hzero : k.toNat = 0 := by omega
      rw [hzero, Nat.pow_zero, Nat.mul_one] at h
      have h1 : c ≤ n * c * 10 ^ (-k).toNat := by
        calc c = 1 * c * 1 := by omega
          _ ≤ n * c * 10 ^ (-k).toNat :=
            Nat.mul_le_mul (Nat.mul_le_mul_right c h0) (Nat.pow_pos (by decide))
      omega
    · rename_i h
      refine ih ?_ (by omega)
      by_contra htop
      obtain rfl : k = 16 := by omega
      refine h ?_
      have h2 : n * c < 10 ^ 16 * c := Nat.mul_lt_mul_of_pos_right hn hc
      simpa [Nat.mul_comm c] using h2

theorem decimalScale_bounds (h0 : 0 < n) (hn : n < 2 ^ 53) :
    1 ≤ decimalScale (n * 2 ^ (52 - n.log2)) (2 ^ (52 - n.log2)) ∧
    decimalScale (n * 2 ^ (52 - n.log2)) (2 ^ (52 - n.log2)) ≤ 16 := by
  have hl := log2_le h0 hn
  obtain ⟨h1, h2⟩ := wide_bounds h0 hn
  have hwide : (n * 2 ^ (52 - n.log2)).log2 = 52 := by
    have hne : wide n ≠ 0 := by omega
    have hle : 52 ≤ (wide n).log2 := (Nat.le_log2 hne).mpr h1
    have hlt : (wide n).log2 < 53 := (Nat.log2_lt hne).mpr h2
    have heq : (wide n).log2 = 52 := by omega
    exact heq
  rw [decimalScale, hwide, Nat.log2_two_pow]
  refine scaleUp_bounds (Nat.pow_pos (by decide)) h0 (by omega) 5 ?_ ?_ <;> omega

theorem readsBack_whole (neg : Bool) (h0 : 0 < n) (hn : n < 2 ^ 53) :
    readsBack (ofRatio neg n 1) ⟨n, 0⟩ = true := by
  have hlen : (Nat.toDigits 10 n).length ≤ 16 :=
    (Nat.length_toDigits_le_iff (by decide) (by decide)).mpr (by omega)
  rw [readsBack, isNegative_whole neg h0 hn, ofDecimal, if_neg (Nat.ne_of_gt h0), beq_iff_eq]
  dsimp only
  rw [if_neg (by omega), if_neg (by omega)]
  simp only [Int.toNat_zero, Int.neg_zero, Nat.pow_zero, Nat.mul_one]

theorem value_of_ofDecimal (h0 : 0 < n) (hn : n < 2 ^ 53) {digits : Nat} {exp : Int}
    (hd : digits ≠ 0) (he : 0 ≤ exp) (h : ofDecimal neg digits exp = ofRatio neg n 1) :
    digits * 10 ^ exp.toNat = n := by
  have hdown : (-exp).toNat = 0 := by omega
  have hlow : ¬ ((Nat.toDigits 10 digits).length : Int) + exp < -400 := by omega
  rw [ofDecimal, if_neg hd] at h
  dsimp only at h
  rw [if_neg hlow] at h
  split at h
  · have hm := congrArg magnitude h
    have hb := wholeMagnitude_bounds h0 hn
    rw [magnitude_infinity, magnitude_whole neg h0 hn] at hm
    omega
  · rw [hdown, Nat.pow_zero] at h
    exact ofRatio_injective h0 hn
      (Nat.mul_pos (Nat.pos_of_ne_zero hd) (Nat.pow_pos (by decide))) h

theorem shortest_whole (neg : Bool) (h0 : 0 < n) (hn : n < 2 ^ 53) :
    0 ≤ (ofRatio neg n 1).shortest.exp ∧
    (ofRatio neg n 1).shortest.digits * 10 ^ (ofRatio neg n 1).shortest.exp.toNat = n := by
  obtain ⟨hscale1, hscale2⟩ := decimalScale_bounds h0 hn
  have hz := isZero_whole neg h0 hn
  have hgrid := onGrid_integer (c := 2 ^ (52 - n.log2)) (Nat.pow_pos (by decide))
    (readsBack_whole neg h0 hn)
  obtain ⟨d, hd, hexp⟩ := firstGrid_integer hgrid 17 (j := 1) hscale1 (by omega)
  have hshortest : (ofRatio neg n 1).shortest = d := by
    rw [shortest, hz, ratio_whole neg h0 hn]
    simp only [Bool.false_eq_true, if_false, hd, Option.getD_some]
  have hreads := firstGrid_readsBack hd
  have hdigits := digits_ne_zero_of_readsBack hz hreads
  rw [readsBack, isNegative_whole neg h0 hn, beq_iff_eq] at hreads
  rw [hshortest]
  exact ⟨hexp, value_of_ofDecimal h0 hn hdigits hexp hreads⟩

theorem Decimal.strip_value (fuel : Nat) {d : Decimal} (he : 0 ≤ d.exp) :
    0 ≤ (d.strip fuel).exp ∧
    (d.strip fuel).digits * 10 ^ (d.strip fuel).exp.toNat = d.digits * 10 ^ d.exp.toNat := by
  induction fuel generalizing d with
  | zero => exact ⟨he, rfl⟩
  | succ fuel ih =>
    rw [Decimal.strip]
    split
    · rename_i h
      obtain ⟨h1, h2⟩ := ih (d := ⟨d.digits / 10, d.exp + 1⟩) (by dsimp only; omega)
      refine ⟨h1, h2.trans ?_⟩
      have hexp : (d.exp + 1).toNat = d.exp.toNat + 1 := by omega
      have hdigits : d.digits = d.digits / 10 * 10 := by omega
      dsimp only
      rw [hexp, Nat.pow_succ 10 d.exp.toNat, Nat.mul_comm (10 ^ d.exp.toNat), ← Nat.mul_assoc,
        ← hdigits]
    · exact ⟨he, rfl⟩

end Shortest

end ConfigLoader.Binary64
