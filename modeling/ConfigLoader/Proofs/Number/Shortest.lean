import ConfigLoader.Number.Shortest

/-! # The digits of a number

The shortest decimal of a number other than zero has digits other than zero, and keeps some when its
trailing zeros are moved into the exponent.
-/
namespace ConfigLoader.Binary64

@[simp] theorem isZero_zero (neg : Bool) : (zero neg).isZero = true := by
  cases neg <;> decide

theorem digits_ne_zero_of_readsBack {x : Binary64} {d : Decimal} (hx : x.isZero = false)
    (h : readsBack x d = true) : d.digits ≠ 0 := by
  intro h0
  rw [readsBack, ofDecimal, if_pos h0, beq_iff_eq] at h
  rw [← h, isZero_zero] at hx
  cases hx

theorem onGrid_readsBack {x : Binary64} {num den : Nat} {k : Int} {d : Decimal}
    (h : onGrid x num den k = some d) : readsBack x d = true := by
  unfold onGrid at h
  dsimp only at h
  split at h
  · rename_i h1 h2
    split at h
    · cases h
      exact h1
    · split at h
      · cases h
        exact h2
      · cases h
        split
        · exact h1
        · exact h2
  · rename_i h1 h2
    cases h
    exact h1
  · rename_i h1 h2
    cases h
    exact h2
  · cases h

theorem onGrid_exp {x : Binary64} {num den : Nat} {k : Int} {d : Decimal}
    (h : onGrid x num den k = some d) : d.exp = k := by
  unfold onGrid at h
  dsimp only at h
  split at h
  · split at h
    · cases h
      rfl
    · split at h
      · cases h
        rfl
      · cases h
        split <;> rfl
  · cases h
    rfl
  · cases h
    rfl
  · cases h

theorem firstGrid_readsBack {x : Binary64} {num den : Nat} {scale : Int} {fuel n : Nat}
    {d : Decimal} (h : firstGrid x num den scale fuel n = some d) : readsBack x d = true := by
  induction fuel generalizing n with
  | zero => cases h
  | succ fuel ih =>
    rw [firstGrid] at h
    split at h
    · rename_i d' hd
      cases h
      exact onGrid_readsBack hd
    · exact ih h

theorem onGrid_integer {x : Binary64} {n c : Nat} (hc : 0 < c)
    (h : readsBack x ⟨n, 0⟩ = true) : onGrid x (n * c) c 0 ≠ none := by
  unfold onGrid
  simp only [Int.neg_zero, Int.toNat_zero, Nat.pow_zero, Nat.mul_one, Nat.mul_div_cancel n hc, h]
  cases readsBack x ⟨n + 1, 0⟩ with
  | false => exact Option.some_ne_none _
  | true =>
    dsimp only
    split
    · exact Option.some_ne_none _
    · split <;> exact Option.some_ne_none _

/-- The first hit is on a grid of integers if the last one of these is hit. -/
theorem firstGrid_exp {x : Binary64} {num den : Nat} (h0 : onGrid x num den 0 ≠ none) {scale : Int}
    {fuel j : Nat} {d : Decimal} (hj : (j : Int) ≤ scale)
    (h : firstGrid x num den scale fuel j = some d) : 0 ≤ d.exp := by
  induction fuel generalizing j with
  | zero => cases h
  | succ fuel ih =>
    rw [firstGrid] at h
    split at h
    · next hd =>
      cases h
      rw [onGrid_exp hd]
      omega
    · next hnone =>
      have hlast : scale - j ≠ 0 := fun hzero => h0 (hzero ▸ hnone)
      exact ih (by omega) h

theorem firstGrid_integer {x : Binary64} {num den : Nat} (h0 : onGrid x num den 0 ≠ none)
    {scale : Int} (fuel : Nat) {j : Nat} (hj : (j : Int) ≤ scale) (hf : scale < j + fuel) :
    ∃ d, firstGrid x num den scale fuel j = some d ∧ 0 ≤ d.exp := by
  cases h : firstGrid x num den scale fuel j with
  | some d => exact ⟨d, rfl, firstGrid_exp h0 hj h⟩
  | none =>
    exfalso
    induction fuel generalizing j with
    | zero => omega
    | succ fuel ih =>
      rw [firstGrid] at h
      split at h
      · cases h
      · next hnone =>
        have hlast : scale - j ≠ 0 := fun hzero => h0 (hzero ▸ hnone)
        exact ih (by omega) (by omega) h

theorem mantissa_ne_zero {x : Binary64} (hx : x.isZero = false) : x.mantissa ≠ 0 := by
  have hm : x.magnitude ≠ 0 := by
    intro h0
    rw [isZero, h0] at hx
    cases hx
  unfold mantissa
  split
  · rename_i h
    rw [exponentField, Nat.div_eq_zero_iff] at h
    have hlt : x.magnitude < 2 ^ 52 := by omega
    rwa [fraction, Nat.mod_eq_of_lt hlt]
  · omega

theorem exactDecimal_digits {x : Binary64} (hx : x.isZero = false) :
    x.exactDecimal.digits ≠ 0 := by
  have hm := Nat.pos_of_ne_zero (mantissa_ne_zero hx)
  unfold exactDecimal
  split
  · exact Nat.ne_of_gt (Nat.mul_pos hm (Nat.pow_pos (by omega)))
  · exact Nat.ne_of_gt (Nat.mul_pos hm (Nat.pow_pos (by omega)))

theorem shortest_digits {x : Binary64} (hx : x.isZero = false) : x.shortest.digits ≠ 0 := by
  unfold shortest
  rw [hx]
  cases h : firstGrid x x.ratio.1 x.ratio.2 (decimalScale x.ratio.1 x.ratio.2) 17 1 with
  | some d =>
    simp only [Bool.false_eq_true, if_false, h, Option.getD_some]
    exact digits_ne_zero_of_readsBack hx (firstGrid_readsBack h)
  | none =>
    simp only [Bool.false_eq_true, if_false, h, Option.getD_none]
    exact exactDecimal_digits hx

theorem Decimal.strip_digits (fuel : Nat) {d : Decimal} (hd : d.digits ≠ 0) :
    (d.strip fuel).digits ≠ 0 := by
  induction fuel generalizing d with
  | zero => exact hd
  | succ fuel ih =>
    rw [Decimal.strip]
    split
    · refine ih ?_
      dsimp only
      omega
    · exact hd

end ConfigLoader.Binary64
