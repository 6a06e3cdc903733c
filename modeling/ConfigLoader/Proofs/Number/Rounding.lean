import Mathlib.Tactic.Linarith
import ConfigLoader.Proofs.Number.Steps
import ConfigLoader.Proofs.Number.Whole

/-! # Rounding to the nearest number

A ratio is rounded to a magnitude, and a larger ratio never to a smaller one. The ratio of a finite
number is rounded to this number, in whatever terms it is given.
-/
namespace ConfigLoader.Binary64
variable {num den num' den' n d n' d' j : Nat}

theorem le_roundDiv (n d : Nat) : n / d ≤ roundDiv n d := by
  unfold roundDiv
  dsimp only
  split
  · omega
  · split <;> omega

theorem roundDiv_le (n d : Nat) : roundDiv n d ≤ n / d + 1 := by
  unfold roundDiv
  dsimp only
  split
  · omega
  · split <;> omega

theorem roundDiv_mul (m : Nat) (hd : 0 < d) : roundDiv (m * d) d = m := by
  unfold roundDiv
  dsimp only
  rw [Nat.mul_mod_left, Nat.mul_div_cancel m hd, if_neg (by omega), if_neg (by omega)]

theorem roundDiv_mono (hd : 0 < d) (hd' : 0 < d') (h : n * d' ≤ n' * d) :
    roundDiv n d ≤ roundDiv n' d' := by
  have hquotient : n / d ≤ n' / d' := by
    rw [Nat.le_div_iff_mul_le hd']
    refine Nat.le_of_mul_le_mul_right ?_ hd
    calc n / d * d' * d = n / d * d * d' := Nat.mul_right_comm ..
      _ ≤ n * d' := Nat.mul_le_mul_right d' (Nat.div_mul_le_self n d)
      _ ≤ n' * d := h
  rcases Nat.lt_or_ge (n / d) (n' / d') with hlt | hge
  · exact (roundDiv_le n d).trans (Nat.le_trans hlt (le_roundDiv n' d'))
  -- the quotients are one, so the remainders are in the order of the ratios
  have heq : n' / d' = n / d := Nat.le_antisymm hge hquotient
  have hrest : n % d * d' ≤ n' % d' * d := by
    have hn := Nat.div_add_mod n d
    have hn' := Nat.div_add_mod n' d'
    rw [heq] at hn'
    generalize n / d = q at hn hn'
    generalize n % d = r at *
    generalize n' % d' = r' at *
    subst hn hn'
    linarith
  have hhalf : d < 2 * (n % d) → d' < 2 * (n' % d') := by
    intro hlt
    by_contra hle
    have h1 : d * d' < 2 * (n % d) * d' := Nat.mul_lt_mul_of_pos_right hlt hd'
    have h2 : 2 * (n' % d') * d ≤ d' * d := Nat.mul_le_mul_right d (Nat.not_lt.mp hle)
    linarith
  have hhalf' : 2 * (n % d) = d → d' ≤ 2 * (n' % d') := by
    intro he
    by_contra hlt
    have h1 : 2 * (n % d) * d' = d * d' := by rw [he]
    have h2 : 2 * (n' % d') * d < d' * d := Nat.mul_lt_mul_of_pos_right (Nat.not_le.mp hlt) hd
    linarith
  unfold roundDiv
  dsimp only
  rw [heq]
  split <;> split <;> (try split) <;> (try split) <;> omega

theorem roundDiv_congr (hd : 0 < d) (hd' : 0 < d') (h : n * d' = n' * d) :
    roundDiv n d = roundDiv n' d' :=
  Nat.le_antisymm (roundDiv_mono hd hd' h.le) (roundDiv_mono hd' hd h.ge)

/-! ## Magnitudes of ratios -/

def ratioBits (num den : Nat) : Nat :=
  let e := ratioExponent num den
  let s := scaleRatio num den e
  let q := roundDiv s.1 s.2
  if q < 2 ^ 52 then q else (e + 1075).toNat * 2 ^ 52 + (q - 2 ^ 52)

theorem ofRatio_bits (neg : Bool) (num den : Nat) : ofRatio neg num den =
    if 2047 * 2 ^ 52 ≤ ratioBits num den then infinity neg else ofMagnitude neg (ratioBits num den) :=
  rfl

/-- A ratio, in least steps, has 53 bits before the place `j`, or fewer if this is the last one. -/
structure Reaches (num den j : Nat) : Prop where
  below : num * stepsToOne < 2 ^ (53 + j) * den
  above : j = 0 ∨ 2 ^ (52 + j) * den ≤ num * stepsToOne

theorem scaleRatio_steps (num den : Nat) {e : Int} (he : -1074 ≤ e) : ∃ c, 0 < c ∧
    (scaleRatio num den e).1 * c = num * stepsToOne ∧
    (scaleRatio num den e).2 * c = den * 2 ^ (e + 1074).toNat := by
  refine ⟨2 ^ (1074 - (-e).toNat), Nat.pow_pos (by decide), ?_, ?_⟩
  · rw [scaleRatio, Nat.mul_assoc, ← Nat.pow_add, stepsToOne]
    congr 2
    omega
  · rw [scaleRatio, Nat.mul_assoc, ← Nat.pow_add]
    congr 2
    omega

theorem le_scaled {e : Int} (he : -1074 ≤ e) (a : Nat) :
    a * (scaleRatio num den e).2 ≤ (scaleRatio num den e).1 ↔
      a * (den * 2 ^ (e + 1074).toNat) ≤ num * stepsToOne := by
  obtain ⟨c, hc, h1, h2⟩ := scaleRatio_steps num den he
  rw [← h1, ← h2, ← Nat.mul_assoc]
  exact (Nat.mul_le_mul_right_iff hc).symm

theorem stepsToOne_pow : ∃ s, s = 1074 ∧ stepsToOne = 2 ^ s := ⟨1074, rfl, by rw [stepsToOne]⟩

theorem stepsToOne_pos : 0 < stepsToOne := by
  obtain ⟨s, -, hs⟩ := stepsToOne_pow
  rw [hs]
  exact Nat.pow_pos Nat.two_pos

theorem le_of_log2 {k s : Nat} (hnum : 0 < num) (h : k + den.log2 + 1 ≤ num.log2 + s) :
    2 ^ k * den ≤ num * 2 ^ s := by
  have hn := Nat.log2_self_le (Nat.ne_of_gt hnum)
  have hd := Nat.lt_log2_self (n := den)
  calc 2 ^ k * den ≤ 2 ^ k * 2 ^ (den.log2 + 1) := Nat.mul_le_mul_left _ hd.le
    _ = 2 ^ (k + den.log2 + 1) := by rw [← Nat.pow_add, Nat.add_assoc]
    _ ≤ 2 ^ (num.log2 + s) := Nat.pow_le_pow_right Nat.two_pos h
    _ = 2 ^ num.log2 * 2 ^ s := Nat.pow_add ..
    _ ≤ num * 2 ^ s := Nat.mul_le_mul_right _ hn

theorem lt_of_log2 {k s : Nat} (hden : 0 < den) (h : num.log2 + 1 + s ≤ k + den.log2) :
    num * 2 ^ s < 2 ^ k * den := by
  have hn := Nat.lt_log2_self (n := num)
  have hd := Nat.log2_self_le (Nat.ne_of_gt hden)
  calc num * 2 ^ s < 2 ^ (num.log2 + 1) * 2 ^ s :=
      Nat.mul_lt_mul_of_pos_right hn (Nat.pow_pos Nat.two_pos)
    _ = 2 ^ (num.log2 + 1 + s) := (Nat.pow_add ..).symm
    _ ≤ 2 ^ (k + den.log2) := Nat.pow_le_pow_right Nat.two_pos h
    _ = 2 ^ k * 2 ^ den.log2 := Nat.pow_add ..
    _ ≤ 2 ^ k * den := Nat.mul_le_mul_left _ hd

theorem reaches_ratioExponent (hnum : 0 < num) (hden : 0 < den) : -1074 ≤ ratioExponent num den ∧
    Reaches num den (ratioExponent num den + 1074).toNat := by
  obtain ⟨s, hs, hsteps⟩ := stepsToOne_pow
  have hlower : ∀ k, k + den.log2 + 1 ≤ num.log2 + 1074 → 2 ^ k * den ≤ num * stepsToOne := by
    rw [hsteps, ← hs]
    exact fun k hk => le_of_log2 hnum hk
  have hupper : ∀ k, num.log2 + 1 + 1074 ≤ k + den.log2 → num * stepsToOne < 2 ^ k * den := by
    rw [hsteps, ← hs]
    exact fun k hk => lt_of_log2 hden hk
  rw [ratioExponent]
  generalize he : max ((num.log2 : Int) - (den.log2 : Int) - 53) (-1074) = e
  have hlow : -1074 ≤ e := he ▸ le_max_right ..
  have hscaled : 2 ^ 53 ≤ (scaleRatio num den e).1 / (scaleRatio num den e).2 ↔
      2 ^ (53 + (e + 1074).toNat) * den ≤ num * stepsToOne := by
    have hpos : 0 < (scaleRatio num den e).2 := Nat.mul_pos hden (Nat.pow_pos (by decide))
    rw [Nat.le_div_iff_mul_le hpos, le_scaled hlow, Nat.pow_add, Nat.mul_assoc, Nat.mul_comm den]
  split
  · next h =>
    rw [hscaled] at h
    have hj : (e + 1 + 1074).toNat = (e + 1074).toNat + 1 := by omega
    refine ⟨by omega, ?_, ?_⟩
    · exact hupper _ (by omega)
    · right
      have hplace : 52 + ((e + 1074).toNat + 1) = 53 + (e + 1074).toNat := by omega
      rw [hj, hplace]
      exact h
  · next h =>
    rw [hscaled, Nat.not_le] at h
    refine ⟨hlow, h, ?_⟩
    by_cases h0 : (e + 1074).toNat = 0
    · exact .inl h0
    · exact .inr (hlower _ (by omega))

/-- The place of a ratio is settled, and the places of ratios are in their order. -/
theorem Reaches.mono {j' : Nat} (h : Reaches num den j) (h' : Reaches num' den' j') (hden : 0 < den)
    (hle : num * den' ≤ num' * den) : j ≤ j' := by
  by_contra hlt
  have habove := h.above.resolve_left (by omega)
  have hpow : 2 ^ (53 + j') ≤ 2 ^ (52 + j) := Nat.pow_le_pow_right Nat.two_pos (by omega)
  have hchain : num' * stepsToOne * den < num' * stepsToOne * den := by
    calc num' * stepsToOne * den < 2 ^ (53 + j') * den' * den :=
        Nat.mul_lt_mul_of_pos_right h'.below hden
      _ ≤ 2 ^ (52 + j) * den' * den := by gcongr
      _ = 2 ^ (52 + j) * den * den' := Nat.mul_right_comm ..
      _ ≤ num * stepsToOne * den' := Nat.mul_le_mul_right _ habove
      _ = num * den' * stepsToOne := Nat.mul_right_comm ..
      _ ≤ num' * den * stepsToOne := Nat.mul_le_mul_right _ hle
      _ = num' * stepsToOne * den := Nat.mul_right_comm ..
  exact Nat.lt_irrefl _ hchain

@[simp] theorem ratioBits_zero (den : Nat) : ratioBits 0 den = 0 := by
  have hq : ∀ d, roundDiv 0 d = 0 := by
    intro d
    simp [roundDiv]
  simp [ratioBits, scaleRatio, hq]

theorem ratioBits_eq (hnum : 0 < num) (hden : 0 < den) : ∃ j, Reaches num den j ∧
    ratioBits num den = j * 2 ^ 52 + roundDiv (num * stepsToOne) (den * 2 ^ j) ∧
    roundDiv (num * stepsToOne) (den * 2 ^ j) ≤ 2 ^ 53 ∧
    (j = 0 ∨ 2 ^ 52 ≤ roundDiv (num * stepsToOne) (den * 2 ^ j)) := by
  obtain ⟨he, hj⟩ := reaches_ratioExponent hnum hden
  obtain ⟨c, hc, h1, h2⟩ := scaleRatio_steps num den he
  refine ⟨_, hj, ?_⟩
  generalize hplace : (ratioExponent num den + 1074).toNat = j at *
  have hpos : 0 < den * 2 ^ j := Nat.mul_pos hden (Nat.pow_pos Nat.two_pos)
  have hpos' : 0 < (scaleRatio num den (ratioExponent num den)).2 :=
    Nat.mul_pos hden (Nat.pow_pos Nat.two_pos)
  have hround : roundDiv (scaleRatio num den (ratioExponent num den)).1
      (scaleRatio num den (ratioExponent num den)).2 =
        roundDiv (num * stepsToOne) (den * 2 ^ j) := by
    refine roundDiv_congr hpos' hpos ?_
    rw [← h1, ← h2]
    ring
  have hhigh : roundDiv (num * stepsToOne) (den * 2 ^ j) ≤ 2 ^ 53 := by
    have hlt : num * stepsToOne / (den * 2 ^ j) < 2 ^ 53 := by
      rw [Nat.div_lt_iff_lt_mul hpos]
      refine Nat.lt_of_lt_of_eq hj.below ?_
      rw [Nat.pow_add]
      ring
    exact (roundDiv_le _ _).trans hlt
  have hlow : j = 0 ∨ 2 ^ 52 ≤ roundDiv (num * stepsToOne) (den * 2 ^ j) := by
    refine hj.above.imp_right fun habove => Nat.le_trans ?_ (le_roundDiv _ _)
    rw [Nat.le_div_iff_mul_le hpos]
    refine Nat.le_trans (Nat.le_of_eq ?_) habove
    rw [Nat.pow_add]
    ring
  refine ⟨?_, hhigh, hlow⟩
  rw [ratioBits]
  simp only [hround]
  have hexp : (ratioExponent num den + 1075).toNat = j + 1 := by omega
  rw [hexp]
  generalize roundDiv (num * stepsToOne) (den * 2 ^ j) = q at *
  split <;> omega

theorem ratioBits_mono (hden : 0 < den) (hden' : 0 < den') (h : num * den' ≤ num' * den) :
    ratioBits num den ≤ ratioBits num' den' := by
  by_cases hnum : num = 0
  · rw [hnum, ratioBits_zero]
    exact Nat.zero_le _
  have hnum' : 0 < num' := by
    by_contra h0
    have h0' : num' = 0 := by omega
    rw [h0', Nat.zero_mul] at h
    have := Nat.mul_pos (Nat.pos_of_ne_zero hnum) hden'
    omega
  obtain ⟨j, hj, heq, hhigh, -⟩ := ratioBits_eq (Nat.pos_of_ne_zero hnum) hden
  obtain ⟨j', hj', heq', -, hlow'⟩ := ratioBits_eq hnum' hden'
  rw [heq, heq']
  rcases Nat.eq_or_lt_of_le (hj.mono hj' hden h) with rfl | hlt
  · refine Nat.add_le_add_left (roundDiv_mono ?_ ?_ ?_) _
    · exact Nat.mul_pos hden (Nat.pow_pos Nat.two_pos)
    · exact Nat.mul_pos hden' (Nat.pow_pos Nat.two_pos)
    · calc num * stepsToOne * (den' * 2 ^ j) = num * den' * (stepsToOne * 2 ^ j) := by ring
        _ ≤ num' * den * (stepsToOne * 2 ^ j) := Nat.mul_le_mul_right _ h
        _ = num' * stepsToOne * (den * 2 ^ j) := by ring
  · have hlow := hlow'.resolve_left (by omega)
    omega

/-! ## Numbers as ratios -/

variable {x : Binary64}

theorem ratio_pos (x : Binary64) : 0 < x.ratio.2 := Nat.pow_pos Nat.two_pos

theorem reaches_exponent (hden : 0 < den) (h : num * stepsToOne = x.steps * den) :
    Reaches num den (x.exponent + 1074).toNat := by
  cases hf : x.exponentField with
  | zero =>
    have hplace : (x.exponent + 1074).toNat = 0 := by
      rw [exponent, hf, if_pos rfl]
      rfl
    rw [hplace]
    refine ⟨?_, .inl rfl⟩
    rw [h]
    exact Nat.mul_lt_mul_of_pos_right ((steps_small hf).2.trans (by decide)) hden
  | succ e =>
    have hplace : (x.exponent + 1074).toNat = e := by
      rw [exponent, hf, if_neg (Nat.succ_ne_zero e)]
      omega
    obtain ⟨-, hlow, hhigh⟩ := steps_large hf
    rw [hplace]
    refine ⟨?_, .inr ?_⟩
    · rw [h]
      exact Nat.mul_lt_mul_of_pos_right hhigh hden
    · rw [h]
      exact Nat.mul_le_mul_right den hlow

theorem magnitude_eq (x : Binary64) :
    x.magnitude = (x.exponent + 1074).toNat * 2 ^ 52 + x.mantissa := by
  have hsplit : 2 ^ 52 * x.exponentField + x.fraction = x.magnitude := Nat.div_add_mod ..
  rw [exponent, mantissa]
  cases hf : x.exponentField with
  | zero =>
    rw [hf] at hsplit
    simp only [if_true]
    omega
  | succ e =>
    rw [hf] at hsplit
    rw [if_neg (Nat.succ_ne_zero e), if_neg (Nat.succ_ne_zero e)]
    omega

theorem ratioBits_ratio (hden : 0 < den) (h : num * x.ratio.2 = x.ratio.1 * den) :
    ratioBits num den = x.magnitude := by
  have hsteps : num * stepsToOne = x.steps * den := by
    refine Nat.eq_of_mul_eq_mul_right (ratio_pos x) ?_
    calc num * stepsToOne * x.ratio.2 = num * x.ratio.2 * stepsToOne := Nat.mul_right_comm ..
      _ = x.ratio.1 * stepsToOne * den := by rw [h, Nat.mul_right_comm]
      _ = x.steps * den * x.ratio.2 := by rw [ratio_steps, Nat.mul_right_comm]
  rcases Nat.eq_zero_or_pos num with rfl | hnum
  · have hzero : x.steps = 0 := by
      rw [Nat.zero_mul] at hsteps
      exact (Nat.mul_eq_zero.mp hsteps.symm).resolve_right (Nat.ne_of_gt hden)
    have h0 : x.steps = (⟨0⟩ : Binary64).steps := hzero
    rw [ratioBits_zero, magnitude_of_steps h0]
    rfl
  · have hx := reaches_exponent hden hsteps
    obtain ⟨j, hj, heq, -, -⟩ := ratioBits_eq hnum hden
    obtain rfl := Nat.le_antisymm (hj.mono hx hden (Nat.le_refl _)) (hx.mono hj hden (Nat.le_refl _))
    have hpos : 0 < den * 2 ^ (x.exponent + 1074).toNat := Nat.mul_pos hden (Nat.pow_pos Nat.two_pos)
    have hgrid : num * stepsToOne = x.mantissa * (den * 2 ^ (x.exponent + 1074).toNat) := by
      rw [hsteps, steps]
      ring
    rw [heq, hgrid, roundDiv_mul x.mantissa hpos, magnitude_eq]

theorem magnitude_lt (hx : x.isFinite = true) : x.magnitude < 2047 * 2 ^ 52 := by
  have hfield : x.magnitude / 2 ^ 52 < 2047 := of_decide_eq_true hx
  omega

theorem ofRatio_ratio (hx : x.isFinite = true) (hden : 0 < den)
    (h : num * x.ratio.2 = x.ratio.1 * den) : ofRatio x.isNegative num den = x := by
  have hlt := magnitude_lt hx
  have hbound : x.magnitude < signBit := Nat.lt_trans hlt (by decide)
  rw [ofRatio_bits, ratioBits_ratio hden h, if_neg (Nat.not_le.mpr hlt)]
  refine bits_eq ?_ ?_
  · exact magnitude_ofMagnitude _ hbound
  · exact isNegative_ofMagnitude _ hbound

theorem eq_zero (hz : x.isZero = true) : x = zero x.isNegative := by
  have hm : x.magnitude = 0 := eq_of_beq hz
  refine bits_eq (hm.trans (magnitude_ofMagnitude _ (by decide)).symm) ?_
  exact (isNegative_ofMagnitude _ (by decide)).symm

theorem eq_infinity (hi : x.isInfinite = true) : x = infinity x.isNegative := by
  have hm : x.magnitude = 2047 * 2 ^ 52 := eq_of_beq hi
  refine bits_eq (hm.trans (magnitude_ofMagnitude _ (by decide)).symm) ?_
  exact (isNegative_ofMagnitude _ (by decide)).symm

end ConfigLoader.Binary64
