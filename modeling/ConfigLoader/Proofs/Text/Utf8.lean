import ConfigLoader.Proofs.Text.Strings
import ConfigLoader.Text.Utf8

/-! # UTF-8

A string is read back from its bytes.
-/
namespace ConfigLoader.Text.Utf8

theorem toNat_byte {n : Nat} (h : n < 256) : (UInt8.ofNat n).toNat = n := by
  rw [UInt8.toNat_ofNat']
  exact Nat.mod_eq_of_lt h

theorem isTail_byte {k : Nat} (h : k < 0x40) : isTail (UInt8.ofNat (0x80 + k)) = true := by
  rw [isTail, toNat_byte (by omega), Bool.and_eq_true, decide_eq_true_eq, decide_eq_true_eq]
  omega

theorem low_byte {k : Nat} (h : k < 0x40) : low (UInt8.ofNat (0x80 + k)) = k := by
  rw [low, toNat_byte (by omega)]
  omega

/-- The bounds of the second byte keep out characters that take fewer bytes, surrogates, and what is
no code point. -/
theorem isSecond_byte {f k : Nat} (hf : f < 256) (h : k < 0x40) (h3 : f = 0xE0 → 0x20 ≤ k)
    (hs : f = 0xED → k < 0x20) (h4 : f = 0xF0 → 0x10 ≤ k) (hend : f = 0xF4 → k < 0x10) :
    isSecond (UInt8.ofNat f) (UInt8.ofNat (0x80 + k)) = true := by
  rw [isSecond, secondRange, toNat_byte hf, toNat_byte (by omega), Bool.and_eq_true,
    decide_eq_true_eq, decide_eq_true_eq]
  split <;> dsimp only <;> omega

section Step
variable {f : Nat} (hf : f ≤ 0xF4) (r : List UInt8)
include hf

theorem step_one (h : f < 0x80) : step (UInt8.ofNat f) r = .char (.ofNat f) 1 := by
  unfold step
  simp only [toNat_byte (by omega : f < 256), h, if_true]

theorem step_two (h : 0xC2 ≤ f) (h' : f < 0xE0) {k : Nat} (hk : k < 0x40) :
    step (UInt8.ofNat f) (UInt8.ofNat (0x80 + k) :: r) =
      .char (.ofNat (f % 0x20 * 0x40 + k)) 2 := by
  have h1 : ¬ f < 0x80 := by omega
  have h2 : (decide (f < 0xC2) || decide (0xF4 < f)) = false := by simp; omega
  unfold step
  simp only [toNat_byte (by omega : f < 256), h1, h2, h', isTail_byte hk, low_byte hk, if_true,
    if_false, Bool.false_eq_true]

theorem step_three (h : 0xE0 ≤ f) (h' : f < 0xF0) {j k : Nat}
    (hj : isSecond (UInt8.ofNat f) (UInt8.ofNat (0x80 + j)) = true) (hj' : j < 0x40)
    (hk : k < 0x40) :
    step (UInt8.ofNat f) (UInt8.ofNat (0x80 + j) :: UInt8.ofNat (0x80 + k) :: r) =
      .char (.ofNat (f % 0x10 * 0x1000 + j * 0x40 + k)) 3 := by
  have h1 : ¬ f < 0x80 := by omega
  have h2 : (decide (f < 0xC2) || decide (0xF4 < f)) = false := by simp; omega
  have h3 : ¬ f < 0xE0 := by omega
  unfold step
  simp only [toNat_byte (by omega : f < 256), h1, h2, h3, h', hj, isTail_byte hk, low_byte hj',
    low_byte hk, if_true, if_false, Bool.false_eq_true, Bool.not_true]

theorem step_four (h : 0xF0 ≤ f) {i j k : Nat}
    (hi : isSecond (UInt8.ofNat f) (UInt8.ofNat (0x80 + i)) = true) (hi' : i < 0x40)
    (hj : j < 0x40) (hk : k < 0x40) :
    step (UInt8.ofNat f) (UInt8.ofNat (0x80 + i) :: UInt8.ofNat (0x80 + j) ::
        UInt8.ofNat (0x80 + k) :: r) =
      .char (.ofNat (f % 8 * 0x40000 + i * 0x1000 + j * 0x40 + k)) 4 := by
  have h1 : ¬ f < 0x80 := by omega
  have h2 : (decide (f < 0xC2) || decide (0xF4 < f)) = false := by simp; omega
  have h3 : ¬ f < 0xE0 := by omega
  have h4 : ¬ f < 0xF0 := by omega
  unfold step
  simp only [toNat_byte (by omega : f < 256), h1, h2, h3, h4, hi, isTail_byte hj, isTail_byte hk,
    low_byte hi', low_byte hj, low_byte hk, if_true, if_false, Bool.false_eq_true, Bool.not_true]

end Step

theorem step_encodeOne {c : CodePoint} (hc : c.isSurrogate = false) (r : List UInt8) :
    ∃ b s, encodeOne c = b :: s ∧ step b (s ++ r) = .char c (s.length + 1) := by
  have hlt := c.isLt
  have hof : ∀ n, n = c.val → CodePoint.ofNat n = c := by
    rintro n rfl
    rw [CodePoint.ofNat, dif_pos hlt]
  have htail : ∀ k, c.val / 0x40 ^ k % 0x40 < 0x40 := fun k => Nat.mod_lt _ (by decide)
  simp only [CodePoint.isSurrogate, Bool.and_eq_false_iff, decide_eq_false_iff_not] at hc
  unfold encodeOne
  dsimp only
  split
  · next h1 =>
    refine ⟨_, [], rfl, ?_⟩
    rw [step_one (by omega) _ h1, hof _ rfl]
    rfl
  split
  · next h1 h2 =>
    refine ⟨_, _, rfl, ?_⟩
    refine (step_two (by omega) r (by omega) (by omega) (htail 0)).trans ?_
    rw [hof _ (by omega)]
    rfl
  split
  · next h1 h2 h3 =>
    refine ⟨_, _, rfl, (step_three (by omega) r (by omega) (by omega) ?_ (htail 1) (htail 0)).trans
      ?_⟩
    · exact isSecond_byte (by omega) (htail 1) (by omega) (by omega) (by omega) (by omega)
    · rw [hof _ (by omega)]
      rfl
  · next h1 h2 h3 =>
    refine ⟨_, _, rfl, (step_four (by omega) r (by omega) ?_ (htail 2) (htail 1) (htail 0)).trans
      ?_⟩
    · exact isSecond_byte (by omega) (htail 2) (by omega) (by omega) (by omega) (by omega)
    · rw [hof _ (by omega)]
      rfl

theorem decodeFrom_encode {t : Text} (ht : t.IsString) (start : Nat) (acc : List CodePoint) :
    decodeFrom start acc (encode t) = .ok (acc.reverse ++ t) := by
  induction t generalizing start acc with
  | nil => rw [encode, List.flatMap_nil, decodeFrom, List.append_nil]
  | cons c t ih =>
    obtain ⟨hc, ht⟩ := isString_cons.mp ht
    obtain ⟨b, s, hb, hstep⟩ := step_encodeOne hc (encode t)
    have hbytes : encode (c :: t) = b :: (s ++ encode t) := by
      rw [encode, List.flatMap_cons, hb]
      rfl
    rw [hbytes, decodeFrom, hstep]
    dsimp only
    rw [Nat.add_sub_cancel, List.drop_left, ih ht, List.reverse_cons, List.append_assoc]
    rfl

theorem decode_encode {t : Text} (ht : t.IsString) : decode (encode t) = .ok t :=
  decodeFrom_encode ht 0 []

end ConfigLoader.Text.Utf8
