import ConfigLoader.Proofs.Number.Rounding
import ConfigLoader.Proofs.Text.Digits

/-! # Decimals that read back

The shortest decimal of a finite number reads back as the number, also where it is the exact value, and
also after its trailing zeros went into the exponent.
-/
namespace ConfigLoader.Binary64
variable {x : Binary64} {num den num' den' : Nat}

theorem ratioBits_congr (hden : 0 < den) (hden' : 0 < den') (h : num * den' = num' * den) :
    ratioBits num den = ratioBits num' den' :=
  Nat.le_antisymm (ratioBits_mono hden hden' h.le) (ratioBits_mono hden' hden h.ge)

theorem ofRatio_congr (neg : Bool) (hden : 0 < den) (hden' : 0 < den')
    (h : num * den' = num' * den) : ofRatio neg num den = ofRatio neg num' den' := by
  rw [ofRatio_bits, ofRatio_bits, ratioBits_congr hden hden' h]

namespace Decimal

/-- A decimal whose scale is within the range in which decimals are rounded. -/
def InRange (d : Decimal) : Prop :=
  -400 ≤ ((Nat.toDigits 10 d.digits).length : Int) + d.exp ∧
    ((Nat.toDigits 10 d.digits).length : Int) + d.exp ≤ 400

theorem ofDecimal_inRange (neg : Bool) {d : Decimal} (h0 : d.digits ≠ 0) (h : d.InRange) :
    ofDecimal neg d.digits d.exp =
      ofRatio neg (d.digits * 10 ^ d.exp.toNat) (10 ^ (-d.exp).toNat) := by
  rw [ofDecimal, if_neg h0]
  dsimp only
  rw [if_neg (Int.not_lt.mpr h.1), if_neg (Int.not_lt.mpr h.2)]

theorem length_mul_ten {n : Nat} (hn : n ≠ 0) :
    (Nat.toDigits 10 (n * 10)).length = (Nat.toDigits 10 n).length + 1 := by
  have h := congrArg List.length (Text.ofNat_mul_ten (Nat.pos_of_ne_zero hn))
  simpa [Text.ofNat] using h

/-- A zero that is moved into the exponent changes nothing. -/
theorem ofDecimal_shift (neg : Bool) {n : Nat} (hn : n ≠ 0) (e : Int) :
    ofDecimal neg n (e + 1) = ofDecimal neg (n * 10) e := by
  have htop : ((Nat.toDigits 10 (n * 10)).length : Int) + e =
      (Nat.toDigits 10 n).length + (e + 1) := by
    rw [length_mul_ten hn]
    push_cast
    ring
  rw [ofDecimal, ofDecimal, if_neg hn, if_neg (Nat.mul_ne_zero hn (by decide))]
  dsimp only
  rw [htop]
  split
  · rfl
  · split
    · rfl
    · refine ofRatio_congr neg (Nat.pow_pos (by decide)) (Nat.pow_pos (by decide)) ?_
      rcases lt_or_ge e 0 with he | he
      · obtain ⟨k, hk⟩ : ∃ k : Nat, (-e).toNat = k + 1 := ⟨(-e).toNat - 1, by omega⟩
        have h1 : (e + 1).toNat = 0 := by omega
        have h2 : (-(e + 1)).toNat = k := by omega
        have h3 : e.toNat = 0 := by omega
        rw [h1, h2, h3, hk, Nat.pow_succ]
        ring
      · have h1 : (e + 1).toNat = e.toNat + 1 := by omega
        have h2 : (-(e + 1)).toNat = 0 := by omega
        have h3 : (-e).toNat = 0 := by omega
        rw [h1, h2, h3, Nat.pow_succ]
        ring

theorem ofDecimal_zeros (neg : Bool) {n : Nat} (hn : n ≠ 0) (k : Nat) (e : Int) :
    ofDecimal neg (n * 10 ^ k) e = ofDecimal neg n (e + k) := by
  induction k generalizing e with
  | zero => rw [Nat.pow_zero, Nat.mul_one, Int.natCast_zero, Int.add_zero]
  | succ k ih =>
    have hpow : n * 10 ^ k ≠ 0 := Nat.mul_ne_zero hn (Nat.pos_iff_ne_zero.mp (Nat.pow_pos (by decide)))
    rw [Nat.pow_succ, ← Nat.mul_assoc, ← ofDecimal_shift neg hpow, ih]
    congr 1
    push_cast
    ring

theorem ofDecimal_strip (neg : Bool) (fuel : Nat) {d : Decimal} (h0 : d.digits ≠ 0) :
    ofDecimal neg (d.strip fuel).digits (d.strip fuel).exp = ofDecimal neg d.digits d.exp := by
  induction fuel generalizing d with
  | zero => rfl
  | succ fuel ih =>
    rw [strip]
    split
    · next h =>
      have hq : d.digits / 10 ≠ 0 := by omega
      have hmul : d.digits / 10 * 10 = d.digits := by omega
      rw [ih (d := ⟨d.digits / 10, d.exp + 1⟩) hq, ofDecimal_shift neg hq, hmul]
    · rfl

end Decimal

/-! ## The exact value -/

theorem mantissa_lt (x : Binary64) : x.mantissa < 2 ^ 53 := by
  have hf : x.fraction < 2 ^ 52 := Nat.mod_lt _ (Nat.pow_pos Nat.two_pos)
  rw [mantissa]
  split <;> omega

theorem exponent_bounds (hx : x.isFinite = true) : -1074 ≤ x.exponent ∧ x.exponent ≤ 971 := by
  have hfield : x.exponentField < 2047 := of_decide_eq_true hx
  rw [exponent]
  split <;> omega

theorem exactDecimal_ratio (x : Binary64) :
    x.exactDecimal.digits * 10 ^ x.exactDecimal.exp.toNat * x.ratio.2 =
      x.ratio.1 * 10 ^ (-x.exactDecimal.exp).toNat := by
  rw [exactDecimal, ratio]
  split
  · next h =>
    have h0 : (-x.exponent).toNat = 0 := by omega
    simp [h0]
  · next h =>
    have h0 : x.exponent.toNat = 0 := by omega
    have hten : (10 : Nat) ^ (-x.exponent).toNat =
        2 ^ (-x.exponent).toNat * 5 ^ (-x.exponent).toNat := by
      rw [← Nat.mul_pow]
    simp only [h0, hten, Nat.pow_zero, Nat.mul_one]
    ring

theorem two_pow_le_ten {a l : Nat} (h : a ≤ 3 * l) : 2 ^ a ≤ 10 ^ l := by
  calc 2 ^ a ≤ 2 ^ (3 * l) := Nat.pow_le_pow_right Nat.two_pos h
    _ = 8 ^ l := Nat.pow_mul 2 3 l
    _ ≤ 10 ^ l := Nat.pow_le_pow_left (by decide) l

theorem two_pow_le_five {a l : Nat} (h : a ≤ 2 * l) : 2 ^ a ≤ 5 ^ l := by
  calc 2 ^ a ≤ 2 ^ (2 * l) := Nat.pow_le_pow_right Nat.two_pos h
    _ = 4 ^ l := Nat.pow_mul 2 2 l
    _ ≤ 5 ^ l := Nat.pow_le_pow_left (by decide) l

theorem length_le {n l : Nat} (hl : 0 < l) (h : n < 10 ^ l) : (Nat.toDigits 10 n).length ≤ l :=
  (Nat.length_toDigits_le_iff (by decide) hl).mpr h

theorem lt_of_length_le {n l : Nat} (h : (Nat.toDigits 10 n).length ≤ l) : n < 10 ^ l := by
  have hl : 0 < l := Nat.lt_of_lt_of_le (Nat.length_toDigits_pos (b := 10) (n := n)) h
  exact (Nat.length_toDigits_le_iff (by decide) hl).mp h

theorem length_whole_le {m k l : Nat} (hm : m < 2 ^ 53) (hl : 0 < l) (hk : 53 + k ≤ 3 * l) :
    (Nat.toDigits 10 (m * 2 ^ k)).length ≤ l := by
  refine length_le hl ?_
  calc m * 2 ^ k < 2 ^ 53 * 2 ^ k := Nat.mul_lt_mul_of_pos_right hm (Nat.pow_pos Nat.two_pos)
    _ = 2 ^ (53 + k) := (Nat.pow_add ..).symm
    _ ≤ 10 ^ l := two_pow_le_ten hk

theorem length_part_le {m k l : Nat} (hm : m < 2 ^ 53) (hl : 53 ≤ 3 * l) :
    (Nat.toDigits 10 (m * 5 ^ k)).length ≤ l + k := by
  refine length_le (by omega) ?_
  calc m * 5 ^ k < 2 ^ 53 * 5 ^ k := Nat.mul_lt_mul_of_pos_right hm (Nat.pow_pos (by decide))
    _ ≤ 10 ^ l * 10 ^ k :=
      Nat.mul_le_mul (two_pow_le_ten hl) (Nat.pow_le_pow_left (by decide) k)
    _ = 10 ^ (l + k) := (Nat.pow_add ..).symm

/-- The powers of five alone fill the places down to a point. -/
theorem le_length_part {m k l : Nat} (hm : 0 < m) (hk : k ≤ 3 * l) :
    k < l + (Nat.toDigits 10 (m * 5 ^ k)).length := by
  by_contra hle
  obtain ⟨j, rfl⟩ : ∃ j, k = l + j := ⟨k - l, by omega⟩
  have hlt : m * 5 ^ (l + j) < 10 ^ j := lt_of_length_le (by omega)
  have hten : (10 : Nat) ^ j = 2 ^ j * 5 ^ j := by rw [← Nat.mul_pow]
  have hge : 10 ^ j ≤ m * 5 ^ (l + j) := by
    calc 10 ^ j = 2 ^ j * 5 ^ j := hten
      _ ≤ 5 ^ l * 5 ^ j := Nat.mul_le_mul_right _ (two_pow_le_five (by omega))
      _ = 5 ^ (l + j) := (Nat.pow_add ..).symm
      _ ≤ m * 5 ^ (l + j) := Nat.le_mul_of_pos_left _ hm
  omega

theorem exactDecimal_inRange (hx : x.isFinite = true) (hz : x.isZero = false) :
    x.exactDecimal.InRange := by
  obtain ⟨hlow, hhigh⟩ := exponent_bounds hx
  have hm := mantissa_lt x
  have hm0 := Nat.pos_of_ne_zero (mantissa_ne_zero hz)
  rw [exactDecimal, Decimal.InRange]
  split
  · next h =>
    have hlen := length_whole_le (k := x.exponent.toNat) (l := 400) hm (by decide) (by omega)
    dsimp only
    omega
  · next h =>
    have hlower := le_length_part (k := (-x.exponent).toNat) (l := 400) hm0 (by omega)
    have hupper := length_part_le (k := (-x.exponent).toNat) (l := 400) hm (by decide)
    dsimp only
    omega

theorem readsBack_exactDecimal (hx : x.isFinite = true) (hz : x.isZero = false) :
    readsBack x x.exactDecimal = true := by
  have hden : 0 < 10 ^ (-x.exactDecimal.exp).toNat := Nat.pow_pos (by decide)
  rw [readsBack, Decimal.ofDecimal_inRange _ (exactDecimal_digits hz) (exactDecimal_inRange hx hz),
    ofRatio_ratio hx hden (exactDecimal_ratio x), beq_self_eq_true]

theorem readsBack_shortest (hx : x.isFinite = true) (hz : x.isZero = false) :
    readsBack x x.shortest = true := by
  unfold shortest
  rw [hz]
  cases h : firstGrid x x.ratio.1 x.ratio.2 (decimalScale x.ratio.1 x.ratio.2) 17 1 with
  | some d =>
    simp only [Bool.false_eq_true, if_false, h, Option.getD_some]
    exact firstGrid_readsBack h
  | none =>
    simp only [Bool.false_eq_true, if_false, h, Option.getD_none]
    exact readsBack_exactDecimal hx hz

theorem ofDecimal_written (hx : x.isFinite = true) (hz : x.isZero = false) (fuel : Nat) :
    ofDecimal x.isNegative (x.shortest.strip fuel).digits (x.shortest.strip fuel).exp = x := by
  rw [Decimal.ofDecimal_strip _ fuel (shortest_digits hz)]
  exact eq_of_beq (readsBack_shortest hx hz)

/-! ## Integers -/

theorem ofDecimal_finite {neg : Bool} {digits : Nat} {exp : Int} (hx : x.isFinite = true)
    (hz : x.isZero = false) (h : ofDecimal neg digits exp = x) :
    digits ≠ 0 ∧ ofRatio neg (digits * 10 ^ exp.toNat) (10 ^ (-exp).toNat) = x := by
  have hzero : ∀ y, y = x → y.isZero = true → False := by
    rintro y rfl hy
    rw [hy] at hz
    cases hz
  have hinf : (infinity neg).isFinite = false := by cases neg <;> decide
  rw [ofDecimal] at h
  split at h
  · exact (hzero _ h (isZero_zero neg)).elim
  · next hd =>
    refine ⟨hd, ?_⟩
    dsimp only at h
    split at h
    · exact (hzero _ h (isZero_zero neg)).elim
    · split at h
      · rw [← h, hinf] at hx
        cases hx
      · exact h

theorem scaleUp_pos (hle : den ≤ num) (fuel : Nat) {k : Int} (hf : 1 ≤ k + fuel) :
    1 ≤ scaleUp num den fuel k := by
  induction fuel generalizing k with
  | zero => simpa [scaleUp] using hf
  | succ fuel ih =>
    rw [scaleUp]
    split
    · next h =>
      by_contra hlow
      have hzero : k.toNat = 0 := by omega
      have hpow : 0 < 10 ^ (-k).toNat := Nat.pow_pos (by decide)
      have hge : num ≤ num * 10 ^ (-k).toNat := Nat.le_mul_of_pos_right num hpow
      rw [hzero, Nat.pow_zero, Nat.mul_one] at h
      omega
    · exact ih (by omega)

theorem decimalScale_pos (hden : 0 < den) (hle : den ≤ num) : 1 ≤ decimalScale num den := by
  have hlog : den.log2 ≤ num.log2 := by
    rw [Nat.le_log2 (by omega)]
    exact (Nat.log2_self_le (by omega)).trans hle
  rw [decimalScale]
  refine scaleUp_pos hle 5 ?_
  omega

theorem ofRatio_wide (neg : Bool) (h : 2 ^ 1024 ≤ num) : ofRatio neg num 1 = infinity neg := by
  have hmono : ratioBits (2 ^ 1024) 1 ≤ ratioBits num 1 :=
    ratioBits_mono Nat.one_pos Nat.one_pos (by omega)
  have hlimit : 2047 * 2 ^ 52 ≤ ratioBits (2 ^ 1024) 1 := by decide +kernel
  rw [ofRatio_bits, if_pos (hlimit.trans hmono)]

theorem ofDecimal_whole {n : Nat} (hn : 0 < n) : ofDecimal false n 0 = ofInt n := by
  have hneg : decide ((n : Int) < 0) = false := decide_eq_false (by omega)
  have hzero : n ≠ 0 := Nat.ne_of_gt hn
  rw [ofInt, hneg, Int.natAbs_natCast, ofDecimal, if_neg hzero]
  dsimp only
  by_cases hlen : (Nat.toDigits 10 n).length ≤ 400
  · rw [if_neg (by omega), if_neg (by omega), Int.toNat_zero, Int.neg_zero, Int.toNat_zero,
      Nat.pow_zero, Nat.mul_one]
  · have hwide : 2 ^ 1024 ≤ n := by
      by_contra hlt
      have hpow : 2 ^ 1024 ≤ 10 ^ 400 := by decide +kernel
      exact hlen (length_le (by decide) (Nat.lt_of_lt_of_le (Nat.not_le.mp hlt) hpow))
    rw [if_neg (by omega), if_pos (by omega), ofRatio_wide false hwide]

theorem ratio_of_toInt {n : Int} (h : x.toInt? = some n) :
    x.ratio.1 = n.natAbs * x.ratio.2 := by
  have hsteps := ratio_steps x
  rw [steps_of_toInt h, Nat.mul_right_comm] at hsteps
  exact Nat.eq_of_mul_eq_mul_right stepsToOne_pos hsteps

theorem isZero_of_toInt {n : Int} (h : x.toInt? = some n) (hn : n ≠ 0) : x.isZero = false := by
  rw [isZero, beq_eq_false_iff_ne]
  intro hm
  have hsteps : x.steps = 0 := by
    have hexp : x.exponentField = 0 := by rw [exponentField, hm]
    rw [(steps_small hexp).1, fraction, hm]
  rw [steps_of_toInt h] at hsteps
  exact Nat.ne_of_gt (Nat.mul_pos (Int.natAbs_pos.mpr hn) stepsToOne_pos) hsteps

theorem ofInt_of_toInt {n : Int} (h : x.toInt? = some n) (hn : n ≠ 0) : ofInt n = x := by
  have hratio := ratio_of_toInt h
  rw [ofInt, ← isNegative_of_toInt h hn]
  refine ofRatio_ratio (toInt?_cases h).1 Nat.one_pos ?_
  rw [hratio, Nat.mul_one]

theorem readsBack_toInt {n : Int} (h : x.toInt? = some n) (hn : n ≠ 0) :
    readsBack x ⟨n.natAbs, 0⟩ = true := by
  have hx := (toInt?_cases h).1
  have hratio := ratio_of_toInt h
  have hrange : Decimal.InRange ⟨n.natAbs, 0⟩ := by
    have hlt : x.ratio.1 < 2 ^ (53 + x.exponent.toNat) := by
      rw [Nat.pow_add]
      exact Nat.mul_lt_mul_of_pos_right (mantissa_lt x) (Nat.pow_pos Nat.two_pos)
    have hle : n.natAbs ≤ x.ratio.1 := by
      rw [hratio]
      exact Nat.le_mul_of_pos_right _ (ratio_pos x)
    have hexp := (exponent_bounds hx).2
    obtain ⟨l, hl⟩ : ∃ l, l = 400 := ⟨_, rfl⟩
    have hlen : (Nat.toDigits 10 n.natAbs).length ≤ l := by
      refine length_le (by omega) ?_
      exact (Nat.lt_of_le_of_lt hle hlt).trans_le (two_pow_le_ten (by omega))
    rw [Decimal.InRange]
    dsimp only
    omega
  rw [readsBack, Decimal.ofDecimal_inRange _ (Int.natAbs_ne_zero.mpr hn) hrange]
  simp only [Int.toNat_zero, Int.neg_zero, Nat.pow_zero, Nat.mul_one, beq_iff_eq]
  refine ofRatio_ratio hx Nat.one_pos ?_
  rw [hratio, Nat.mul_one]

theorem shortest_exp {n : Int} (h : x.toInt? = some n) (hn : n ≠ 0) : 0 ≤ x.shortest.exp := by
  by_cases hsmall : n.natAbs < 2 ^ 53
  · rw [← ofInt_of_toInt h hn]
    exact (shortest_whole _ (Int.natAbs_pos.mpr hn) hsmall).1
  have hz := isZero_of_toInt h hn
  have hratio := ratio_of_toInt h
  have hpos := ratio_pos x
  have hgrid : onGrid x x.ratio.1 x.ratio.2 0 ≠ none := by
    rw [hratio]
    exact onGrid_integer hpos (readsBack_toInt h hn)
  have hscale : 1 ≤ decimalScale x.ratio.1 x.ratio.2 := by
    refine decimalScale_pos hpos ?_
    rw [hratio]
    exact Nat.le_mul_of_pos_left _ (Int.natAbs_pos.mpr hn)
  -- the exact value is tried last, and without a fraction it has no places after the point
  have hexponent : 0 ≤ x.exponent := by
    by_contra hneg
    have hone : x.exponent.toNat = 0 := by omega
    have hm : x.mantissa = n.natAbs * x.ratio.2 := by
      have h1 : x.ratio.1 = x.mantissa * 2 ^ x.exponent.toNat := rfl
      rwa [hone, Nat.pow_zero, Nat.mul_one, hratio, eq_comm] at h1
    have hle : n.natAbs ≤ x.mantissa := hm ▸ Nat.le_mul_of_pos_right _ hpos
    have hlt := mantissa_lt x
    omega
  unfold shortest
  rw [hz]
  cases hfirst : firstGrid x x.ratio.1 x.ratio.2 (decimalScale x.ratio.1 x.ratio.2) 17 1 with
  | some d =>
    simp only [Bool.false_eq_true, if_false, hfirst, Option.getD_some]
    exact firstGrid_exp hgrid hscale hfirst
  | none =>
    simp only [Bool.false_eq_true, if_false, hfirst, Option.getD_none, exactDecimal, hexponent,
      if_true]
    exact Int.le_refl 0

theorem magnitude_ofRatio {neg : Bool} (hx : (ofRatio neg num den).isFinite = true) :
    (ofRatio neg num den).magnitude = ratioBits num den := by
  rw [ofRatio_bits] at hx ⊢
  split at hx
  · have hinf : (infinity neg).isFinite = false := by cases neg <;> decide
    rw [hinf] at hx
    cases hx
  · next h =>
    rw [if_neg h]
    exact magnitude_ofMagnitude neg (Nat.lt_trans (Nat.not_le.mp h) (by decide))

theorem steps_of_magnitude {y : Binary64} (h : x.magnitude = y.magnitude) : x.steps = y.steps := by
  have hfield : x.exponentField = y.exponentField := by rw [exponentField, h, exponentField]
  have hfraction : x.fraction = y.fraction := by rw [fraction, h, fraction]
  rw [steps, steps, mantissa, mantissa, exponent, exponent, hfield, hfraction]

/-- What is rounded to an integer below a number that is held exactly is below it, too. -/
theorem lt_of_ofRatio {neg : Bool} {k : Nat} {n : Int} {y : Binary64} {bound : Int}
    (hy : y.toInt? = some bound) (h : x.toInt? = some n) (hn : n.natAbs < bound.natAbs)
    (hk : ofRatio neg k 1 = x) : k < bound.natAbs := by
  by_contra hge
  have hx := (toInt?_cases h).1
  have hkbits : ratioBits k 1 = x.magnitude := by
    rw [← hk, magnitude_ofRatio (hk ▸ hx)]
  have hxbits : ratioBits n.natAbs 1 = x.magnitude := by
    refine ratioBits_ratio Nat.one_pos ?_
    rw [ratio_of_toInt h, Nat.mul_one]
  have hybits : ratioBits bound.natAbs 1 = y.magnitude := by
    refine ratioBits_ratio Nat.one_pos ?_
    rw [ratio_of_toInt hy, Nat.mul_one]
  have hlow : y.magnitude ≤ x.magnitude := by
    rw [← hkbits, ← hybits]
    exact ratioBits_mono Nat.one_pos Nat.one_pos (by omega)
  have hhigh : x.magnitude ≤ y.magnitude := by
    rw [← hxbits, ← hybits]
    exact ratioBits_mono Nat.one_pos Nat.one_pos (by omega)
  have hsteps := steps_of_magnitude (Nat.le_antisymm hhigh hlow)
  rw [steps_of_toInt h, steps_of_toInt hy] at hsteps
  have heq := Nat.eq_of_mul_eq_mul_right stepsToOne_pos hsteps
  omega

end ConfigLoader.Binary64
