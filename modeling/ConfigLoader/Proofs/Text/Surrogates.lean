import ConfigLoader.Text

/-! # Surrogates

A text whose supplementary code points were taken apart into surrogates is put together again by
joining them.
-/
namespace ConfigLoader.Text

def highOf (c : CodePoint) : CodePoint := .ofNat (0xD800 + (c.val - 0x10000) / 0x400)

def lowOf (c : CodePoint) : CodePoint := .ofNat (0xDC00 + (c.val - 0x10000) % 0x400)

theorem val_ofNat {n : Nat} (h : n < 0x110000) : (CodePoint.ofNat n).val = n := by
  rw [CodePoint.ofNat, dif_pos h]

theorem val_highOf (c : CodePoint) :
    (highOf c).val = 0xD800 + (c.val - 0x10000) / 0x400 := by
  have hc := c.isLt
  exact val_ofNat (by omega)

theorem val_lowOf (c : CodePoint) : (lowOf c).val = 0xDC00 + (c.val - 0x10000) % 0x400 := by
  exact val_ofNat (by omega)

@[simp] theorem isHighSurrogate_highOf (c : CodePoint) : (highOf c).isHighSurrogate = true := by
  have hc := c.isLt
  simp only [CodePoint.isHighSurrogate, val_highOf, Bool.and_eq_true, decide_eq_true_eq]
  omega

@[simp] theorem isLowSurrogate_lowOf (c : CodePoint) : (lowOf c).isLowSurrogate = true := by
  simp only [CodePoint.isLowSurrogate, val_lowOf, Bool.and_eq_true, decide_eq_true_eq]
  omega

theorem ofSurrogates_highOf_lowOf {c : CodePoint} (h : 0x10000 ≤ c.val) :
    CodePoint.ofSurrogates (highOf c) (lowOf c) = c := by
  have hc := c.isLt
  apply Fin.ext
  rw [CodePoint.ofSurrogates, val_highOf, val_lowOf, val_ofNat (by omega)]
  omega

theorem not_isLowSurrogate {c : CodePoint} (h : c.isHighSurrogate = true) :
    c.isLowSurrogate = false := by
  simp only [CodePoint.isHighSurrogate, Bool.and_eq_true, decide_eq_true_eq] at h
  simp only [CodePoint.isLowSurrogate, Bool.and_eq_false_iff, decide_eq_false_iff_not]
  omega

def apart (c : CodePoint) : Text := if c.val < 0x10000 then [c] else [highOf c, lowOf c]

theorem joinSurrogates_cons {c : CodePoint} {t : Text}
    (h : c.isHighSurrogate = true → ∀ d, t.head? = some d → d.isLowSurrogate = false) :
    joinSurrogates (c :: t) = c :: joinSurrogates t := by
  cases t with
  | nil => rfl
  | cons d r =>
    rw [joinSurrogates]
    by_cases hc : c.isHighSurrogate = true
    · simp only [hc, h hc d rfl, Bool.and_false, Bool.false_eq_true, if_false]
    · simp only [hc, Bool.false_and, Bool.false_eq_true, if_false]

theorem joinSurrogates_append {s : Text} (hs : ∀ c ∈ s, c.isHighSurrogate = false) (t : Text) :
    joinSurrogates (s ++ t) = s ++ joinSurrogates t := by
  induction s with
  | nil => rfl
  | cons c s ih =>
    rw [List.cons_append, joinSurrogates_cons, ih fun d hd => hs d (List.mem_cons_of_mem _ hd),
      List.cons_append]
    intro hc
    rw [hs c (List.mem_cons_self ..)] at hc
    cases hc

theorem joinSurrogates_pair {c d : CodePoint} {t : Text} (hc : c.isHighSurrogate = true)
    (hd : d.isLowSurrogate = true) :
    joinSurrogates (c :: d :: t) = CodePoint.ofSurrogates c d :: joinSurrogates t := by
  rw [joinSurrogates]
  simp only [hc, hd, Bool.and_self, if_true]

theorem head_apart (d : CodePoint) (t : Text) :
    ∃ e, ((d :: t).flatMap apart).head? = some e ∧ e.isLowSurrogate = d.isLowSurrogate := by
  rw [List.flatMap_cons, apart]
  by_cases hd : d.val < 0x10000
  · rw [if_pos hd]
    exact ⟨d, rfl, rfl⟩
  · rw [if_neg hd]
    refine ⟨highOf d, rfl, ?_⟩
    rw [not_isLowSurrogate (isHighSurrogate_highOf d)]
    symm
    simp only [CodePoint.isLowSurrogate, Bool.and_eq_false_iff, decide_eq_false_iff_not]
    omega

/-! ## Units -/

theorem unitsOf_ofSurrogates {c d : CodePoint} (hc : c.isHighSurrogate = true)
    (hd : d.isLowSurrogate = true) : unitsOf (CodePoint.ofSurrogates c d) = unitsOf c ++ unitsOf d := by
  simp only [CodePoint.isHighSurrogate, Bool.and_eq_true, decide_eq_true_eq] at hc
  simp only [CodePoint.isLowSurrogate, Bool.and_eq_true, decide_eq_true_eq] at hd
  have hval : (CodePoint.ofSurrogates c d).val =
      0x10000 + (c.val - 0xD800) * 0x400 + (d.val - 0xDC00) := val_ofNat (by omega)
  have hhigh : 0xD800 + ((CodePoint.ofSurrogates c d).val - 0x10000) / 0x400 = c.val := by omega
  have hlow : 0xDC00 + ((CodePoint.ofSurrogates c d).val - 0x10000) % 0x400 = d.val := by omega
  rw [unitsOf, if_neg (by omega), hhigh, hlow, unitsOf, if_pos (by omega), unitsOf,
    if_pos (by omega), List.singleton_append]

@[simp] theorem units16_joinSurrogates (t : Text) : units16 (joinSurrogates t) = units16 t := by
  induction t using joinSurrogates.induct with
  | case1 => rfl
  | case2 c => rfl
  | case3 c d r h ih =>
    have hpair := Bool.and_eq_true_iff.mp h
    rw [joinSurrogates_pair hpair.1 hpair.2]
    simp only [units16, List.flatMap_cons] at ih ⊢
    rw [ih, unitsOf_ofSurrogates hpair.1 hpair.2, List.append_assoc]
  | case4 c d r h ih =>
    rw [joinSurrogates, if_neg h]
    simp only [units16, List.flatMap_cons] at ih ⊢
    rw [ih]

/-! ## Code points apart -/

@[simp] theorem joinSurrogates_apart (t : Text) : joinSurrogates (t.flatMap apart) = joinSurrogates t := by
  induction t using joinSurrogates.induct with
  | case1 => rfl
  | case2 c =>
    rw [List.flatMap_cons, List.flatMap_nil, List.append_nil, apart]
    by_cases hc : c.val < 0x10000
    · rw [if_pos hc]
    · rw [if_neg hc, joinSurrogates_pair (isHighSurrogate_highOf c) (isLowSurrogate_lowOf c),
        ofSurrogates_highOf_lowOf (by omega)]
      rfl
  | case3 c d r h ih =>
    simp only [Bool.and_eq_true] at h
    have hc : c.val < 0x10000 := by
      have hx := h.1
      simp only [CodePoint.isHighSurrogate, Bool.and_eq_true, decide_eq_true_eq] at hx
      omega
    have hd : d.val < 0x10000 := by
      have hx := h.2
      simp only [CodePoint.isLowSurrogate, Bool.and_eq_true, decide_eq_true_eq] at hx
      omega
    rw [List.flatMap_cons, List.flatMap_cons, apart, if_pos hc, apart, if_pos hd]
    simp only [List.singleton_append]
    rw [joinSurrogates_pair h.1 h.2, joinSurrogates_pair h.1 h.2, ih]
  | case4 c d r h ih =>
    have hh : c.isHighSurrogate = true → d.isLowSurrogate = false := by
      intro hc
      simpa only [hc, Bool.true_and, Bool.not_eq_true] using h
    have hj : joinSurrogates (c :: d :: r) = c :: joinSurrogates (d :: r) := by
      refine joinSurrogates_cons ?_
      rintro hc e ⟨⟩
      exact hh hc
    rw [hj, List.flatMap_cons, apart]
    by_cases hc : c.val < 0x10000
    · rw [if_pos hc, List.singleton_append, joinSurrogates_cons, ih]
      intro hs e he
      obtain ⟨e', he', hl⟩ := head_apart d r
      rw [he] at he'
      cases he'
      rw [hl, hh hs]
    · rw [if_neg hc, List.cons_append, List.singleton_append,
        joinSurrogates_pair (isHighSurrogate_highOf c) (isLowSurrogate_lowOf c),
        ofSurrogates_highOf_lowOf (by omega), ih]

end ConfigLoader.Text
