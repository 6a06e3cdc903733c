import ConfigLoader.Text

/-! # Numbers in digits

The digits of a number read back as the number, in base ten and in the four hexadecimal digits of an
escape. So no two numbers have the same digits.
-/
namespace ConfigLoader.Text

theorem isDigit_ofChar {c : Char} (h : c.isDigit = true) : (CodePoint.ofChar c).isDigit = true := by
  simp only [Char.isDigit, Bool.and_eq_true, decide_eq_true_eq] at h
  have h0 : 48 ≤ c.toNat := h.1
  have h9 : c.toNat ≤ 57 := h.2
  have hv : (CodePoint.ofChar c).val = c.toNat := rfl
  simp only [CodePoint.isDigit, hv, Bool.and_eq_true, decide_eq_true_eq]
  exact ⟨h0, h9⟩

theorem isDigit_of_mem_ofNat {n : Nat} {c : CodePoint} (h : c ∈ ofNat n) : c.isDigit = true := by
  obtain ⟨d, hd, rfl⟩ := List.mem_map.mp h
  exact isDigit_ofChar (Nat.isDigit_of_mem_toDigits (by omega) (by omega) hd)

theorem ofNat_ne_nil (n : Nat) : ofNat n ≠ [] := by
  simp [ofNat]

theorem head_ofNat {n : Nat} (hn : 0 < n) :
    ∃ c r, ofNat n = c :: r ∧ c ≠ CodePoint.ofChar '0' := by
  induction n using Nat.strongRecOn with
  | ind n ih =>
    by_cases h : n < 10
    · refine ⟨CodePoint.ofChar n.digitChar, [], ?_, ?_⟩
      · rw [ofNat, Nat.toDigits_of_lt_base h]
        rfl
      · intro hc
        have hv := congrArg Fin.val hc
        simp only [CodePoint.ofChar, Nat.toNat_digitChar_of_lt_ten h] at hv
        have h0 : '0'.toNat = 48 := rfl
        omega
    · obtain ⟨c, r, hc, hne⟩ := ih (n / 10) (by omega) (by omega)
      refine ⟨c, r ++ [CodePoint.ofChar (n % 10).digitChar], ?_, hne⟩
      rw [ofNat] at hc
      rw [ofNat, Nat.toDigits_of_base_le (by omega) (by omega), List.map_append, hc]
      rfl

theorem digit?_digitChar {d : Nat} (h : d < 10) :
    (CodePoint.ofChar d.digitChar).digit? 10 = some d := by
  have hv : (CodePoint.ofChar d.digitChar).val = 48 + d := by
    simp only [CodePoint.ofChar, Nat.toNat_digitChar_of_lt_ten h]
  have hd : (CodePoint.ofChar d.digitChar).isDigit = true := by
    simp only [CodePoint.isDigit, hv, Bool.and_eq_true, decide_eq_true_eq]
    omega
  simp only [CodePoint.digit?, hd, hv, if_true]
  rw [if_pos (by omega)]
  congr 1
  omega

theorem ofNat_mul_ten {n : Nat} (hn : 0 < n) :
    ofNat (n * 10) = ofNat n ++ [CodePoint.ofChar '0'] := by
  have h := Nat.toDigits_of_base_le (b := 10) (n := n * 10) (by decide) (by omega)
  rw [Nat.mul_div_cancel n (by decide), Nat.mul_mod_left] at h
  rw [ofNat, h, List.map_append]
  rfl

theorem ofNat_mul_pow {n : Nat} (hn : 0 < n) (k : Nat) :
    ofNat (n * 10 ^ k) = ofNat n ++ List.replicate k (CodePoint.ofChar '0') := by
  induction k with
  | zero => rw [Nat.pow_zero, Nat.mul_one, List.replicate_zero, List.append_nil]
  | succ k ih =>
    have hpos : 0 < n * 10 ^ k := Nat.mul_pos hn (Nat.pow_pos (by decide))
    rw [Nat.pow_succ, ← Nat.mul_assoc, ofNat_mul_ten hpos, ih, List.append_assoc,
      List.replicate_succ']

theorem val_digitChar_sub {d : Nat} (h : d < 10) :
    (CodePoint.ofChar d.digitChar).val - 48 = d := by
  have hv : (CodePoint.ofChar d.digitChar).val = 48 + d := by
    simp only [CodePoint.ofChar, Nat.toNat_digitChar_of_lt_ten h]
  omega

theorem foldl_ofNat (n : Nat) :
    (ofNat n).foldl (fun acc c => acc * 10 + (c.val - 48)) 0 = n := by
  induction n using Nat.strongRecOn with
  | ind n ih =>
    by_cases h : n < 10
    · rw [ofNat, Nat.toDigits_of_lt_base h, List.map_cons, List.map_nil, List.foldl_cons,
        List.foldl_nil, val_digitChar_sub h]
      omega
    · have hi := ih (n / 10) (by omega)
      rw [ofNat] at hi
      rw [ofNat, Nat.toDigits_of_base_le (by decide) (by omega), List.map_append, List.foldl_append,
        hi, List.map_cons, List.map_nil, List.foldl_cons, List.foldl_nil,
        val_digitChar_sub (Nat.mod_lt n (by decide))]
      omega

def digitSum (t : Text) : Nat := t.foldl (fun acc c => acc * 10 + (c.val - 48)) 0

@[simp] theorem digitSum_ofNat (n : Nat) : digitSum (ofNat n) = n := foldl_ofNat n

theorem foldl_zeros (k acc : Nat) :
    (List.replicate k (CodePoint.ofChar '0')).foldl (fun acc c => acc * 10 + (c.val - 48)) acc =
      acc * 10 ^ k := by
  have h0 : (CodePoint.ofChar '0').val = 48 := by decide
  induction k generalizing acc with
  | zero => rw [Nat.pow_zero, Nat.mul_one]; rfl
  | succ k ih =>
    rw [List.replicate_succ, List.foldl_cons, ih, h0, Nat.sub_self, Nat.add_zero, Nat.mul_assoc,
      Nat.pow_succ']

@[simp] theorem digitSum_zeros (t : Text) (k : Nat) :
    digitSum (t ++ List.replicate k (CodePoint.ofChar '0')) = digitSum t * 10 ^ k := by
  rw [digitSum, List.foldl_append, foldl_zeros, digitSum]

@[simp] theorem digitSum_zeros_append (k : Nat) (t : Text) :
    digitSum (List.replicate k (CodePoint.ofChar '0') ++ t) = digitSum t := by
  rw [digitSum, List.foldl_append, foldl_zeros, Nat.zero_mul, digitSum]

/-- The number that digits stand for behind others. -/
def extend (base : Nat) (acc : Option Nat) (c : CodePoint) : Option Nat := do
  return (← acc) * base + (← c.digit? base)

@[simp] theorem foldl_extend_none (base : Nat) (t : Text) : t.foldl (extend base) none = none := by
  induction t with
  | nil => rfl
  | cons c t ih => exact ih

theorem foldl_extend_ofNat (n : Nat) : (ofNat n).foldl (extend 10) (some 0) = some n := by
  induction n using Nat.strongRecOn with
  | ind n ih =>
    by_cases hn : n < 10
    · rw [ofNat, Nat.toDigits_of_lt_base hn]
      simp [extend, digit?_digitChar hn]
    · have hq := ih (n / 10) (by omega)
      rw [ofNat] at hq
      rw [ofNat, Nat.toDigits_of_base_le (by omega) (by omega), List.map_append, List.foldl_append,
        hq]
      have hm : n / 10 * 10 + n % 10 = n := by omega
      simp [extend, digit?_digitChar (Nat.mod_lt n (by omega : 0 < 10)), hm]

@[simp] theorem digits?_ofNat (n : Nat) : digits? 10 (ofNat n) = some n := by
  have he : (ofNat n).isEmpty = false := by
    simpa only [List.isEmpty_eq_false_iff] using ofNat_ne_nil n
  rw [digits?, he]
  exact foldl_extend_ofNat n

/-! ## Hexadecimal digits -/

theorem digit?_digitChar_hex : ∀ d : Fin 16,
    (CodePoint.ofChar (Nat.digitChar d.val)).digit? 16 = some d.val := by decide

theorem foldl_extend_toDigits (n : Nat) :
    ((Nat.toDigits 16 n).map CodePoint.ofChar).foldl (extend 16) (some 0) = some n := by
  induction n using Nat.strongRecOn with
  | ind n ih =>
    by_cases hn : n < 16
    · rw [Nat.toDigits_of_lt_base hn]
      simp [extend, digit?_digitChar_hex ⟨n, hn⟩]
    · have hq := ih (n / 16) (by omega)
      have hm : n / 16 * 16 + n % 16 = n := by omega
      have hd := digit?_digitChar_hex ⟨n % 16, Nat.mod_lt n (by omega)⟩
      rw [Nat.toDigits_of_base_le (by omega) (by omega), List.map_append, List.foldl_append, hq]
      simp [extend, hd, hm]

theorem foldl_extend_zeros {base : Nat} (hbase : 0 < base) (k : Nat) :
    (List.replicate k (CodePoint.ofChar '0')).foldl (extend base) (some 0) = some 0 := by
  have hdigit : (CodePoint.ofChar '0').isDigit = true := by decide
  have h0 : (CodePoint.ofChar '0').digit? base = some 0 := by
    have hval : (CodePoint.ofChar '0').val - 48 = 0 := by decide
    simp only [CodePoint.digit?, hdigit, if_true, hval, hbase]
  induction k with
  | zero => rfl
  | succ k ih => simpa [List.replicate_succ, extend, h0] using ih

/-- Zeros before the digits of a number change nothing. -/
@[simp] theorem digits?_padded (width n : Nat) : digits? 10 (padded width n) = some n := by
  have he : (padded width n).isEmpty = false :=
    List.isEmpty_eq_false_iff.mpr (List.append_ne_nil_of_right_ne_nil _ (ofNat_ne_nil n))
  rw [digits?, he]
  change (padded width n).foldl (extend 10) (some 0) = some n
  rw [padded, List.foldl_append, foldl_extend_zeros (by decide), foldl_extend_ofNat]

theorem length_hex {n : Nat} (hn : n < 16 ^ 4) : (hex 4 n).length = 4 := by
  have hl : (Nat.toDigits 16 n).length ≤ 4 :=
    (Nat.length_toDigits_le_iff (by omega) (by omega)).mpr hn
  simp only [hex, List.length_append, List.length_replicate, List.length_map]
  omega

/-- The four digits of an escape read back as the number. -/
theorem digits?_hex {n : Nat} (hn : n < 16 ^ 4) : digits? 16 (hex 4 n) = some n := by
  have he : (hex 4 n).isEmpty = false := by
    rw [List.isEmpty_eq_false_iff, ← List.length_pos_iff, length_hex hn]
    omega
  rw [digits?, he]
  change (hex 4 n).foldl (extend 16) (some 0) = some n
  rw [hex, List.foldl_append, foldl_extend_zeros (by decide), foldl_extend_toDigits]

/-! ## Digits in a text -/

theorem takeWhile_digits {d r : Text} (hd : ∀ c ∈ d, c.isDigit = true)
    (hr : ∀ c, r.head? = some c → c.isDigit = false) :
    (d ++ r).takeWhile CodePoint.isDigit = d := by
  rw [List.takeWhile_append_of_pos hd]
  cases r with
  | nil => exact List.append_nil d
  | cons c r =>
    rw [List.takeWhile_cons, hr c rfl]
    exact List.append_nil d

theorem takeWhile_ofNat (n : Nat) {c : CodePoint} (hc : c.isDigit = false) (r : Text) :
    (ofNat n ++ c :: r).takeWhile CodePoint.isDigit = ofNat n := by
  refine takeWhile_digits (fun d hd => isDigit_of_mem_ofNat hd) ?_
  rintro d ⟨⟩
  exact hc

end ConfigLoader.Text
