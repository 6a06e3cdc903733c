import ConfigLoader.Proofs.Json.Numbers
import ConfigLoader.Proofs.Number.Decimals
import ConfigLoader.Proofs.Number.Whole

/-! # Numbers that come back

A whole number below `2 ^ 53` is written in its digits, and read as the same number. Any finite number is
read as itself once it was written, or as an integer that scripts hold as this number. An integer of at
most 21 digits is read as an integer.
-/
namespace ConfigLoader.Json.Canonical
open Binary64 (ofInt ofRatio ofDecimal)

/-! ## Whole numbers -/

section
variable {n : Nat}

theorem numberText_whole (neg : Bool) (h0 : 0 < n) (hn : n < 2 ^ 53) :
    numberText (ofRatio neg n 1) =
      (if neg then [CodePoint.ofChar '-'] else []) ++ Text.ofNat n := by
  have hfinite := Binary64.isFinite_whole neg h0 hn
  have hz := Binary64.isZero_whole neg h0 hn
  have hsign := Binary64.isNegative_whole neg h0 hn
  have hb := Binary64.wholeMagnitude_bounds h0 hn
  have hnan : (ofRatio neg n 1).isNaN = false := by
    rw [Binary64.isNaN, Binary64.magnitude_whole neg h0 hn, decide_eq_false_iff_not]
    omega
  have hinf : (ofRatio neg n 1).isInfinite = false := by
    rw [Binary64.isInfinite, Binary64.magnitude_whole neg h0 hn, beq_eq_false_iff_ne]
    omega
  obtain ⟨hexp, hvalue⟩ := Binary64.shortest_whole neg h0 hn
  obtain ⟨hexp, hstrip⟩ := Binary64.Decimal.strip_value 400 hexp
  have hdigits := Binary64.Decimal.strip_digits 400 (Binary64.shortest_digits hz)
  rw [hvalue] at hstrip
  generalize hd : (ofRatio neg n 1).shortest.strip 400 = d at hexp hstrip hdigits
  have htext : Text.ofNat n =
      Text.ofNat d.digits ++ List.replicate d.exp.toNat (CodePoint.ofChar '0') := by
    rw [← hstrip, Text.ofNat_mul_pow (Nat.pos_of_ne_zero hdigits)]
  have hlen : (Text.ofNat n).length ≤ 16 := by
    rw [Text.ofNat, List.length_map]
    exact (Nat.length_toDigits_le_iff (by decide) (by decide)).mpr (by omega)
  have hpos : 0 < (Text.ofNat d.digits).length :=
    List.length_pos_iff.mpr (Text.ofNat_ne_nil _)
  rw [htext, List.length_append, List.length_replicate] at hlen
  have hlow : (-5 : Int) ≤ (Text.ofNat d.digits).length + d.exp := by omega
  have hhigh : ((Text.ofNat d.digits).length : Int) + d.exp ≤ 21 := by omega
  have hpoint : ¬ ((Text.ofNat d.digits).length : Int) + d.exp ≤ 0 := by omega
  have hwhole : ((Text.ofNat d.digits).length : Int) ≤ (Text.ofNat d.digits).length + d.exp := by
    omega
  have hzeros : (((Text.ofNat d.digits).length : Int) + d.exp -
      (Text.ofNat d.digits).length).toNat = d.exp.toNat := by omega
  rw [numberText, if_pos hfinite, Binary64.text]
  simp only [hnan, hinf, hz, hd, hsign, Bool.false_eq_true, if_false, numberStyle, hlow, hhigh,
    decide_true, Bool.and_self, if_true, Binary64.positional, hpoint, hwhole, hzeros, htext,
    List.append_nil]
  cases neg <;> rfl

theorem receivedNumber_whole (neg : Bool) (h0 : 0 < n) (hn : n < 2 ^ 53) :
    receivedNumber (ofRatio neg n 1) = .int (if neg then -(n : Int) else n) := by
  have hparts := number?_text (Numeral.plain_valid neg n) ends_nil
  have hwhole : (Numeral.plain neg n).parts.isWhole = true := rfl
  rw [List.append_nil, Numeral.plain_text, ← numberText_whole neg h0 hn] at hparts
  rw [receivedNumber, hparts]
  simp only [hwhole, if_true, Numeral.plain_int]

theorem receivedNumber_ofInt {k : Int} (hk : k.natAbs < 2 ^ 53) :
    receivedNumber (ofInt k) = .int k := by
  by_cases h0 : k = 0
  · rw [h0]
    rfl
  · rw [ofInt, receivedNumber_whole _ (Int.natAbs_pos.mpr h0) hk]
    congr 1
    by_cases hneg : k < 0
    · simp only [hneg, decide_true, if_true]
      omega
    · simp only [hneg, decide_false, Bool.false_eq_true, if_false]
      omega

end

/-! ## Finite numbers -/

variable {x : Binary64}

theorem receivedNumber_zero (hx : x.isFinite = true) (hz : x.isZero = true) :
    receivedNumber x = .int 0 := by
  rw [receivedNumber, numberText_zero hx hz]
  rfl

theorem numberText_ofInt_zero : numberText (ofInt 0) = [CodePoint.ofChar '0'] :=
  numberText_zero (by decide) (by decide)

theorem ofInt_sign (neg : Bool) {m : Nat} (hm : 0 < m) :
    ofInt (if neg then -(m : Int) else m) = ofRatio neg m 1 := by
  cases neg with
  | true =>
    have hlt : (-(m : Int)) < 0 := by omega
    simp only [if_true, ofInt, hlt, decide_true, Int.natAbs_neg, Int.natAbs_natCast]
  | false =>
    have hge : ¬ (m : Int) < 0 := by omega
    simp only [Bool.false_eq_true, if_false, ofInt, hge, decide_false, Int.natAbs_natCast]

theorem receivedNumber_written (hx : x.isFinite = true) (hz : x.isZero = false) :
    if 0 ≤ (written x).exp ∧ ((Text.ofNat (written x).digits).length + (written x).exp ≤ 21) then
      ∃ k : Int, receivedNumber x = .int k ∧ ofInt k = x
    else receivedNumber x = .float x := by
  obtain ⟨n, hn, hneg, -, htext, htells, hwhole⟩ := numberText_tells hx hz
  have hback : ofDecimal x.isNegative (written x).digits (written x).exp = x :=
    Binary64.ofDecimal_written hx hz 400
  have hparts := number?_text hn ends_nil
  rw [List.append_nil, ← htext] at hparts
  rw [← Bool.decide_and] at hwhole
  split
  · next h =>
    rw [decide_eq_true h] at hwhole
    obtain ⟨hdigits, hratio⟩ := Binary64.ofDecimal_finite hx hz hback
    have hdown : (-(written x).exp).toNat = 0 := by omega
    have hpos : 0 < (written x).digits * 10 ^ (written x).exp.toNat :=
      Nat.mul_pos (Nat.pos_of_ne_zero hdigits) (Nat.pow_pos (by decide))
    have hint : n.parts.int = if x.isNegative then
        -(((written x).digits * 10 ^ (written x).exp.toNat : Nat) : Int)
        else ((written x).digits * 10 ^ (written x).exp.toNat : Nat) := by
      rw [← hneg, ← htells.whole hwhole]
      rfl
    refine ⟨n.parts.int, ?_, ?_⟩
    · simp only [receivedNumber, hparts, hwhole, if_true]
    · rw [hint, ofInt_sign _ hpos]
      rwa [hdown, Nat.pow_zero] at hratio
  · next h =>
    rw [decide_eq_false h] at hwhole
    obtain ⟨hsum, hscale⟩ := htells.scaled hwhole
    have hfloat : n.parts.float = x := by
      refine Eq.trans ?_ hback
      rw [← hsum, ← hscale, ← hneg]
      rfl
    simp only [receivedNumber, hparts, hwhole, Bool.false_eq_true, if_false, hfloat]

theorem print_receivedNumber (hx : x.isFinite = true) :
    print (receivedNumber x) = numberText x := by
  cases hz : x.isZero with
  | true => rw [receivedNumber_zero hx hz, print, numberText_ofInt_zero, numberText_zero hx hz]
  | false =>
    have h := receivedNumber_written hx hz
    split at h
    · obtain ⟨k, hk, hback⟩ := h
      rw [hk, print, hback]
    · rw [h, print]

/-! ## Integers -/

/-- The least integer that scripts write with an exponent. -/
def integerLimit : Int := 10 ^ 21

theorem toInt?_integerLimit : (ofInt integerLimit).toInt? = some integerLimit := by decide +kernel

theorem written_integer {n : Int} (h : x.toInt? = some n) (h0 : n ≠ 0)
    (hn : n.natAbs < integerLimit.natAbs) : 0 ≤ (written x).exp ∧
      ((Text.ofNat (written x).digits).length : Int) + (written x).exp ≤ 21 := by
  have hx := (Binary64.toInt?_cases h).1
  have hz := Binary64.isZero_of_toInt h h0
  obtain ⟨hexp, -⟩ := Binary64.Decimal.strip_value 400 (Binary64.shortest_exp h h0)
  change 0 ≤ (written x).exp at hexp
  refine ⟨hexp, ?_⟩
  obtain ⟨hdigits, hratio⟩ :=
    Binary64.ofDecimal_finite hx hz (Binary64.ofDecimal_written hx hz 400)
  change (written x).digits ≠ 0 at hdigits
  change ofRatio _ ((written x).digits * 10 ^ (written x).exp.toNat)
    (10 ^ (-(written x).exp).toNat) = x at hratio
  have hdown : (-(written x).exp).toNat = 0 := by omega
  rw [hdown, Nat.pow_zero] at hratio
  have hlt := Binary64.lt_of_ofRatio toInt?_integerLimit h hn hratio
  have hlen := Binary64.length_le (l := 21) (by decide) hlt
  have hzeros := congrArg List.length (Text.ofNat_mul_pow (Nat.pos_of_ne_zero hdigits)
    (written x).exp.toNat)
  rw [List.length_append, List.length_replicate, Text.ofNat, List.length_map] at hzeros
  omega

theorem receivedNumber_integer {n : Int} (h : x.toInt? = some n)
    (hn : n.natAbs < integerLimit.natAbs) :
    ∃ k : Int, receivedNumber x = .int k ∧ (ofInt k).toInt? = some n ∧
      (n.natAbs < 2 ^ 53 → k = n) := by
  have hx := (Binary64.toInt?_cases h).1
  by_cases h0 : n = 0
  · subst h0
    refine ⟨0, receivedNumber_zero hx (Binary64.isZero_toInt_zero h), ?_, fun _ => rfl⟩
    exact Binary64.toInt?_ofInt (by decide)
  · have hw := receivedNumber_written hx (Binary64.isZero_of_toInt h h0)
    rw [if_pos (written_integer h h0 hn)] at hw
    obtain ⟨k, hk, hback⟩ := hw
    refine ⟨k, hk, by rw [hback, h], fun hsmall => ?_⟩
    rw [← Binary64.ofInt_of_toInt h h0, receivedNumber_ofInt hsmall] at hk
    exact (Value.int.inj hk).symm

end ConfigLoader.Json.Canonical
