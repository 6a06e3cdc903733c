import ConfigLoader.Json.Printer
import ConfigLoader.Proofs.Json.Parsing
import ConfigLoader.Proofs.Number.Decimals

/-! # Numbers that are printed

An integer is printed in its digits and read as itself. A number of 64 bits is printed with a point or
an exponent, or as a word, so it is read as a number of 64 bits again: itself, or the one number that
stands for all that are none.
-/
namespace ConfigLoader.Json
variable {l : Nat}
open Binary64 (ofDecimal infinity)

/-! ## Integers -/

theorem parses_ofInt {n : Int} (h : isLong n = false) :
    Parses l (Text.ofInt n) (.int n) := by
  have hl : (Text.ofNat n.natAbs).length ≤ digitLimit :=
    Nat.not_lt.mp (of_decide_eq_false h)
  have hparses := @parses_numeral l _ (Numeral.plain_valid (decide (n < 0)) n.natAbs) hl
  have hwhole : (Numeral.plain (decide (n < 0)) n.natAbs).parts.isWhole = true := rfl
  rw [hwhole, if_pos rfl, Numeral.plain_int, Numeral.plain_text] at hparses
  cases n with
  | ofNat n => exact hparses
  | negSucc n =>
    rw [decide_eq_true (Int.negSucc_lt_zero n)] at hparses
    exact hparses

/-! ## Numbers of 64 bits -/

namespace Numeral

def pointed (n : Numeral) : Numeral := { n with fraction := [CodePoint.ofChar '0'] }

variable {n : Numeral}

theorem pointed_valid (hn : n.Valid) : n.pointed.Valid where
  whole := hn.whole
  whole_ne := hn.whole_ne
  lead := hn.lead
  fraction := List.forall_mem_singleton.mpr (by decide)
  exponent := hn.exponent

theorem exponent_of_isWhole (h : n.parts.isWhole = true) : n.fraction = [] ∧ n.exponent = none := by
  simp only [NumberParts.isWhole, parts, scale, Option.isNone_map, Bool.and_eq_true,
    List.isEmpty_iff, Option.isNone_iff_eq_none] at h
  exact h

theorem pointed_text (h : n.parts.isWhole = true) : n.pointed.text = n.text ++ ".0" := by
  obtain ⟨hfraction, hexponent⟩ := exponent_of_isWhole h
  simp only [text, body, pointed, hfraction, hexponent, exponentText, pointText, List.isEmpty_nil,
    if_true, List.append_nil, List.append_assoc]
  rfl

/-- The zero moves the digits by one place, and the point moves them back. -/
theorem pointed_float (h : n.parts.isWhole = true) {digits : Nat} {exp : Int}
    (ht : n.Tells digits exp) (hd : digits ≠ 0) (he : 0 ≤ exp) :
    n.pointed.parts.float = ofDecimal n.negative digits exp := by
  obtain ⟨-, hexponent⟩ := exponent_of_isWhole h
  have hsum : Text.digitSum (n.whole ++ [CodePoint.ofChar '0']) =
      digits * 10 ^ (exp.toNat + 1) := by
    have hzero := Text.digitSum_zeros n.whole 1
    rwa [ht.whole h, Nat.pow_one, Nat.mul_assoc, ← Nat.pow_succ] at hzero
  have hscale : n.pointed.scale = none := by
    rw [scale, pointed, hexponent]
    rfl
  have hfloat : n.pointed.parts.float =
      ofDecimal n.negative (digits * 10 ^ (exp.toNat + 1)) (-1) := by
    rw [NumberParts.float, ← hsum]
    simp only [parts, hscale]
    rfl
  rw [hfloat, Binary64.Decimal.ofDecimal_zeros _ hd]
  congr 1
  omega

end Numeral

def printedStyle : Binary64.Style :=
  { Value.floatStyle with infinity := "Infinity", nan := "NaN" }

def Spells (text : Text) (x : Binary64) : Prop :=
  ∃ n : Numeral, n.Valid ∧ n.whole.length ≤ 21 ∧ text = n.text ∧ n.parts.isWhole = false ∧
    n.parts.float = x

theorem Spells.parses {text : Text} {x : Binary64} (h : Spells text x) :
    Parses l text (.float x) := by
  obtain ⟨n, hn, hl, rfl, hwhole, rfl⟩ := h
  have hparses := @parses_numeral l _ hn (hl.trans (by decide))
  rwa [hwhole, if_neg Bool.false_ne_true] at hparses

variable {x : Binary64}

theorem spells_zero (hx : x.isFinite = true) (hz : x.isZero = true) : Spells (floatText x) x := by
  have hm : x.magnitude = 0 := eq_of_beq hz
  have hinf : x.isInfinite = false := by
    rw [Binary64.isInfinite, hm]
    rfl
  refine ⟨⟨x.isNegative, [CodePoint.ofChar '0'], [CodePoint.ofChar '0'], none⟩, ?_, by simp, ?_,
    rfl, ?_⟩
  · exact ⟨List.forall_mem_singleton.mpr (by decide), List.cons_ne_nil _ _, fun _ => rfl,
      List.forall_mem_singleton.mpr (by decide), fun _ _ h => by cases h⟩
  · rw [floatText, Binary64.text]
    simp only [Binary64.isNaN_of_isFinite hx, hinf, hz, Value.floatStyle, Bool.true_or,
      Bool.and_true, if_true, Bool.false_eq_true, if_false]
    cases x.isNegative <;> rfl
  · exact (Binary64.eq_zero hz).symm

theorem spells_nonzero (hx : x.isFinite = true) (hz : x.isZero = false) :
    Spells (floatText x) x := by
  have hstyle : printedStyle.lowPoint ≤ 1 ∧ printedStyle.highPoint ≤ 21 := by decide
  have hback := Binary64.ofDecimal_written hx hz 400
  have hdigits := Binary64.Decimal.strip_digits 400 (Binary64.shortest_digits hz)
  obtain ⟨n, hn, hneg, hl, htext, htells, hwhole⟩ := text_tells hstyle.1 hstyle.2 hx hz
  rw [← hneg] at hback
  cases hw : n.parts.isWhole with
  | true =>
    rw [hw, Eq.comm, Bool.and_eq_true, decide_eq_true_eq] at hwhole
    refine ⟨n.pointed, Numeral.pointed_valid hn, hl, ?_, rfl, ?_⟩
    · rw [Numeral.pointed_text hw]
      exact htext.trans (congrArg (n.text ++ ·) (if_pos hw))
    · rw [Numeral.pointed_float hw htells hdigits hwhole.1, hback]
  | false =>
    obtain ⟨hsum, hscale⟩ := htells.scaled hw
    refine ⟨n, hn, hl, ?_, hw, ?_⟩
    · refine htext.trans ?_
      rw [Numeral.ending, hw, if_neg Bool.false_ne_true, List.append_nil]
    · refine Eq.trans ?_ hback
      rw [← hsum, ← hscale]
      rfl

/-- What a number of 64 bits is read as once it was printed. -/
def readFloat (x : Binary64) : Binary64 := if x.isNaN then .nan else x

theorem parses_float (x : Binary64) :
    Parses l (floatText x) (.float (readFloat x)) := by
  by_cases hn : x.isNaN = true
  · have htext : floatText x = "NaN" := by rw [floatText, Binary64.text, if_pos hn]
    rw [htext, readFloat, if_pos hn]
    exact parses_word (w := ("NaN", .float .nan)) (by simp [words])
  rw [readFloat, if_neg hn]
  by_cases hi : x.isInfinite = true
  · have htext : floatText x = (if x.isNegative then "-Infinity" else "Infinity") := by
      rw [floatText, Binary64.text, if_neg hn]
      simp only [hi, if_true, Value.floatStyle, Bool.true_or, Bool.and_true]
      cases x.isNegative <;> rfl
    have hx := Binary64.eq_infinity hi
    rw [htext]
    cases hneg : x.isNegative with
    | true =>
      rw [hx, hneg]
      exact parses_word (w := ("-Infinity", .float (infinity true))) (by simp [words])
    | false =>
      rw [hx, hneg]
      exact parses_word (w := ("Infinity", .float (infinity false))) (by simp [words])
  · have hx : x.isFinite = true := by
      simp only [Binary64.isNaN, Binary64.isInfinite, decide_eq_true_eq, beq_iff_eq] at hn hi
      refine decide_eq_true ?_
      rw [Binary64.exponentField]
      omega
    cases hz : x.isZero with
    | true => exact (spells_zero hx hz).parses
    | false => exact (spells_nonzero hx hz).parses

end ConfigLoader.Json
