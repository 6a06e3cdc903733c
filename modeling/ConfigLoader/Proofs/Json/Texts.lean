import ConfigLoader.Json.Canonical
import ConfigLoader.Json.Strict
import ConfigLoader.Proofs.Text.Digits
import ConfigLoader.Proofs.Text.Surrogates

/-! # Texts in quotes

Both printers write each code point as it is, as a short escape, or as an escape with four digits.
Both readers read such forms back; surrogates that come to stand side by side are joined.
-/
namespace ConfigLoader.Json

theorem Place.skip_append (i : Nat) (s r : Text) {n : Nat} (hn : s.length = n) :
    (⟨i, s ++ r⟩ : Place).skip n = ⟨i + n, r⟩ := by
  subst hn
  rw [Place.skip, List.drop_left]

@[simp] theorem Place.skip_cons (i n : Nat) (c : CodePoint) (r : Text) :
    (⟨i, c :: r⟩ : Place).skip (n + 1) = (⟨i + 1, r⟩ : Place).skip n := by
  simp only [Place.skip, List.drop_succ_cons, Place.mk.injEq, and_true]
  omega

@[simp] theorem Place.skip_zero (p : Place) : p.skip 0 = p := rfl

/-- A form of a code point in quotes. -/
inductive Written (c : CodePoint) : Text → Prop
  | plain (hq : c ≠ CodePoint.ofChar '"') (hb : c ≠ CodePoint.ofChar '\\') (hc : 32 ≤ c.val) :
      Written c [c]
  | short {e : CodePoint} (he : simpleEscape? e = some c) :
      Written c [CodePoint.ofChar '\\', e]
  | unicode (hc : c.val < 0x10000) : Written c (unicodeEscape c.val)

theorem not_u_of_simpleEscape? {c e : CodePoint} (h : simpleEscape? e = some c) :
    e ≠ CodePoint.ofChar 'u' := by
  rintro rfl
  have hu : simpleEscape? (CodePoint.ofChar 'u') = none := by decide
  rw [hu] at h
  cases h

theorem Written.length_pos {c : CodePoint} {w : Text} (h : Written c w) : 0 < w.length := by
  cases h with
  | plain => exact Nat.one_pos
  | short => exact Nat.succ_pos 1
  | unicode => exact Nat.succ_pos _

theorem unicodeEscape_eq (n : Nat) :
    unicodeEscape n = CodePoint.ofChar '\\' :: CodePoint.ofChar 'u' :: Text.hex 4 n := rfl

/-- The short escapes and the plain form, as both printers choose them. -/
theorem escapeOne_written {ascii : Bool} {c : CodePoint} (h : c.val < 0x10000 ∨ ascii = false) :
    Written c (escapeOne ascii c) := by
  unfold escapeOne
  by_cases hq : c = CodePoint.ofChar '"'
  · rw [if_pos hq]
    exact .short (by rw [hq]; decide)
  rw [if_neg hq]
  by_cases hb : c = CodePoint.ofChar '\\'
  · rw [if_pos hb]
    exact .short (by rw [hb]; decide)
  rw [if_neg hb]
  by_cases h10 : c.val = 10
  · rw [if_pos h10, show c = 10 from Fin.ext h10]
    exact .short (by decide)
  rw [if_neg h10]
  by_cases h13 : c.val = 13
  · rw [if_pos h13, show c = 13 from Fin.ext h13]
    exact .short (by decide)
  rw [if_neg h13]
  by_cases h9 : c.val = 9
  · rw [if_pos h9, show c = 9 from Fin.ext h9]
    exact .short (by decide)
  rw [if_neg h9]
  by_cases h12 : c.val = 12
  · rw [if_pos h12, show c = 12 from Fin.ext h12]
    exact .short (by decide)
  rw [if_neg h12]
  by_cases h8 : c.val = 8
  · rw [if_pos h8, show c = 8 from Fin.ext h8]
    exact .short (by decide)
  rw [if_neg h8]
  by_cases h32 : c.val < 32
  · rw [if_pos h32]
    exact .unicode (by omega)
  rw [if_neg h32]
  by_cases hp : (!ascii || decide (c.val < 127)) = true
  · rw [if_pos hp]
    exact .plain hq hb (by omega)
  rw [if_neg hp]
  have hc : c.val < 0x10000 := by
    rcases h with h | rfl
    · exact h
    · exact absurd rfl hp
  rw [if_pos hc]
  exact .unicode hc

theorem escapeOne_of_le {ascii : Bool} {c : CodePoint} (h : 127 ≤ c.val) :
    escapeOne ascii c =
      if !ascii then [c]
      else if c.val < 0x10000 then unicodeEscape c.val
      else unicodeEscape (Text.highOf c).val ++ unicodeEscape (Text.lowOf c).val := by
  have hq : c ≠ CodePoint.ofChar '"' := by rintro rfl; revert h; decide
  have hb : c ≠ CodePoint.ofChar '\\' := by rintro rfl; revert h; decide
  have hn : ¬ c.val < 127 := by omega
  unfold escapeOne
  rw [if_neg hq, if_neg hb, if_neg (by omega), if_neg (by omega), if_neg (by omega),
    if_neg (by omega), if_neg (by omega), if_neg (by omega), Text.val_highOf, Text.val_lowOf]
  simp only [hn, decide_false, Bool.or_false]

/-- Within ASCII, a supplementary code point is written as its surrogates are. -/
theorem flatMap_escapeOne_apart (t : Text) :
    t.flatMap (escapeOne true) = (t.flatMap Text.apart).flatMap (escapeOne true) := by
  induction t with
  | nil => rfl
  | cons c t ih =>
    rw [List.flatMap_cons, List.flatMap_cons, List.flatMap_append, ih]
    congr 1
    rw [Text.apart]
    by_cases hc : c.val < 0x10000
    · rw [if_pos hc, List.flatMap_cons, List.flatMap_nil, List.append_nil]
    · have hh := Text.val_highOf c
      have hl := Text.val_lowOf c
      have hlt := c.isLt
      have h127 : 127 ≤ c.val := by omega
      have hh127 : 127 ≤ (Text.highOf c).val := by omega
      have hl127 : 127 ≤ (Text.lowOf c).val := by omega
      have hh16 : (Text.highOf c).val < 0x10000 := by omega
      have hl16 : (Text.lowOf c).val < 0x10000 := by omega
      rw [if_neg hc, List.flatMap_cons, List.flatMap_cons, List.flatMap_nil, List.append_nil,
        escapeOne_of_le h127, escapeOne_of_le hh127, escapeOne_of_le hl127]
      simp only [Bool.not_true, Bool.false_eq_true, if_false, hc, hh16, hl16, if_true]

theorem val_lt_of_mem_apart {c : CodePoint} {t : Text} (h : c ∈ t.flatMap Text.apart) :
    c.val < 0x10000 := by
  obtain ⟨d, -, hd⟩ := List.mem_flatMap.mp h
  have hlt := d.isLt
  rw [Text.apart] at hd
  by_cases hc : d.val < 0x10000
  · rw [if_pos hc, List.mem_singleton] at hd
    rwa [hd]
  · rw [if_neg hc, List.mem_cons, List.mem_singleton] at hd
    rcases hd with hd | hd
    · rw [hd, Text.val_highOf]
      omega
    · rw [hd, Text.val_lowOf]
      omega

namespace Canonical

theorem escapeOne_written (c : CodePoint) : Written c (escapeOne c) := by
  unfold escapeOne
  by_cases hs : c.isSurrogate = true
  · rw [if_pos hs]
    simp only [CodePoint.isSurrogate, Bool.and_eq_true, decide_eq_true_eq] at hs
    exact .unicode (by omega)
  · rw [if_neg hs]
    exact Json.escapeOne_written (.inr rfl)

end Canonical

/-! ## The strict reader -/

namespace Strict

theorem readHex_digits {ds : Text} {acc m : Nat} (i : Nat) (r : Text)
    (h : ds.foldl (Text.extend 16) (some acc) = some m) :
    readHex ⟨i, ds ++ r⟩ ds.length acc = .ok (m, ⟨i + ds.length, r⟩) := by
  induction ds generalizing i acc with
  | nil =>
    obtain rfl : acc = m := Option.some.inj h
    rfl
  | cons c ds ih =>
    rw [List.foldl_cons] at h
    cases hd : c.digit? 16 with
    | none =>
      rw [Text.extend, hd] at h
      exact absurd (h.symm.trans (Text.foldl_extend_none 16 ds)) (by simp)
    | some d =>
      have he : Text.extend 16 (some acc) c = some (acc * 16 + d) := by rw [Text.extend, hd]; rfl
      rw [he] at h
      have hi := ih (i + 1) h
      simp only [List.cons_append, List.length_cons, readHex, List.head?_cons, Option.bind_some, hd,
        Place.skip_cons, Place.skip_zero, hi]
      rw [show i + 1 + ds.length = i + (ds.length + 1) by omega]

theorem readHex_hex {n : Nat} (hn : n < 0x10000) (i : Nat) (r : Text) :
    readHex ⟨i, Text.hex 4 n ++ r⟩ 4 0 = .ok (n, ⟨i + 4, r⟩) := by
  have hl := Text.length_hex (n := n) hn
  have hf : (Text.hex 4 n).foldl (Text.extend 16) (some 0) = some n := by
    rw [Text.hex, List.foldl_append, Text.foldl_extend_zeros (by decide),
      Text.foldl_extend_toDigits]
  have h := readHex_digits i r hf
  rwa [hl] at h

theorem readString_written {c : CodePoint} {w : Text} (hw : Written c w) (fuel i : Nat)
    (acc r : Text) :
    readString (fuel + 1) acc ⟨i, w ++ r⟩ =
      readString fuel (c :: acc) ⟨i + w.length, r⟩ := by
  cases hw with
  | plain hq hb hc =>
    have h32 : ¬ c.val < 32 := by omega
    simp only [List.singleton_append, readString, hq, hb, h32, if_false, Place.skip_cons,
      Place.skip_zero, List.length_singleton]
  | @short e he =>
    have hu := not_u_of_simpleEscape? he
    have hq : CodePoint.ofChar '\\' ≠ CodePoint.ofChar '"' := by decide
    simp only [List.cons_append, List.nil_append, readString, hq, hu, he, if_true, if_false,
      Place.skip_cons, Place.skip_zero, List.length_cons, List.length_nil, Nat.add_assoc]
  | unicode hc =>
    have hq : CodePoint.ofChar '\\' ≠ CodePoint.ofChar '"' := by decide
    have hn : CodePoint.ofNat c.val = c := by rw [CodePoint.ofNat, dif_pos c.isLt]
    rw [unicodeEscape_eq]
    simp only [List.cons_append, readString, hq, if_true, if_false, Place.skip_cons,
      Place.skip_zero, readHex_hex hc]
    simp only [bind, Except.bind, hn, List.length_cons, Text.length_hex (n := c.val) hc,
      Nat.add_assoc]

theorem readString_all {escape : CodePoint → Text} {t : Text}
    (ht : ∀ c ∈ t, Written c (escape c)) (fuel i : Nat) (acc r : Text) (hf : t.length < fuel) :
    readString fuel acc ⟨i, t.flatMap escape ++ CodePoint.ofChar '"' :: r⟩ =
      .ok (Text.joinSurrogates (acc.reverse ++ t), ⟨i + (t.flatMap escape).length + 1, r⟩) := by
  induction t generalizing fuel i acc with
  | nil =>
    obtain ⟨k, rfl⟩ := Nat.exists_eq_succ_of_ne_zero (Nat.ne_of_gt hf)
    simp only [List.flatMap_nil, List.nil_append, readString, if_true, List.append_nil,
      Place.skip_cons, Place.skip_zero, List.length_nil, Nat.add_zero]
  | cons c t ih =>
    obtain ⟨k, rfl⟩ := Nat.exists_eq_succ_of_ne_zero (Nat.ne_of_gt (Nat.lt_of_le_of_lt
      (Nat.zero_le _) hf))
    have hc := ht c (List.mem_cons_self ..)
    rw [List.flatMap_cons, List.append_assoc, readString_written hc,
      ih (fun d hd => ht d (List.mem_cons_of_mem _ hd)) k _ _ (by simpa using hf)]
    simp only [List.reverse_cons, List.append_assoc, List.singleton_append, List.length_append,
      Nat.add_assoc]

theorem length_le_flatMap {escape : CodePoint → Text} {t : Text}
    (ht : ∀ c ∈ t, Written c (escape c)) : t.length ≤ (t.flatMap escape).length := by
  induction t with
  | nil => exact Nat.zero_le _
  | cons c t ih =>
    have hc := (ht c (List.mem_cons_self ..)).length_pos
    have hi := ih fun d hd => ht d (List.mem_cons_of_mem _ hd)
    rw [List.flatMap_cons, List.length_append, List.length_cons]
    omega

/-- A text that is written within ASCII is read back, its surrogates joined. -/
@[simp] theorem readText_quote (i : Nat) (t r : Text) :
    readText ⟨i, quote true t ++ r⟩ =
      .ok (Text.joinSurrogates t, ⟨i + (quote true t).length, r⟩) := by
  have hw : ∀ c ∈ t.flatMap Text.apart, Written c (Json.escapeOne true c) := fun c hc =>
    Json.escapeOne_written (.inl (val_lt_of_mem_apart hc))
  have hq : quote true t = CodePoint.ofChar '"' ::
      ((t.flatMap Text.apart).flatMap (Json.escapeOne true) ++ [CodePoint.ofChar '"']) := by
    rw [quote, flatMap_escapeOne_apart]
    rfl
  have hl := length_le_flatMap hw
  rw [hq, readText, List.cons_append, List.append_assoc, List.singleton_append, Place.skip_cons,
    Place.skip_zero, readString_all hw _ _ _ _
      (by simp only [List.length_cons, List.length_append]; omega)]
  simp only [List.reverse_nil, List.nil_append, Text.joinSurrogates_apart, List.length_cons,
    List.length_append, List.length_nil]
  rw [show ∀ n, i + 1 + n + 1 = i + (n + (0 + 1) + 1) by omega]

end Strict

/-! ## The lenient reader -/

theorem hexValue?_hex {n : Nat} (hn : n < 0x10000) (r : Text) :
    hexValue? ((Text.hex 4 n ++ r).take 4) = some n := by
  have hl := Text.length_hex (n := n) hn
  rw [List.take_left' hl, hexValue?, if_pos hl, Text.digits?_hex hn]

theorem lowEscape_unicode {d : CodePoint} (hd : d.val < 0x10000) {r : Text} (hr : r ≠ []) :
    lowEscape (unicodeEscape d.val ++ r) =
      .ok (if d.isLowSurrogate then some d else none) := by
  have hl := Text.length_hex (n := d.val) hd
  have hp := List.length_pos_iff.mpr hr
  have hn : CodePoint.ofNat d.val = d := by rw [CodePoint.ofNat, dif_pos d.isLt]
  rw [unicodeEscape_eq, List.cons_append, List.cons_append, lowEscape]
  simp only [List.length_append, hl, hexValue?_hex hd, hn, decide_true, Bool.true_and,
    decide_eq_true_eq, if_pos (show 4 < 4 + r.length by omega)]
  split <;> rfl

theorem lowEscape_written {d : CodePoint} {w : Text} (hw : Written d w)
    (hd : d.isLowSurrogate = false) {r : Text} (hr : r ≠ []) :
    lowEscape (w ++ r) = .ok none := by
  cases hw with
  | plain hq hb hc =>
    cases r with
    | nil => exact absurd rfl hr
    | cons e r =>
      simp only [List.singleton_append, lowEscape, hb, decide_false, Bool.false_and,
        Bool.false_eq_true, if_false]
  | @short e he =>
    have hu := not_u_of_simpleEscape? he
    simp only [List.cons_append, List.nil_append, lowEscape, hu, decide_false, Bool.and_false,
      Bool.false_and, Bool.false_eq_true, if_false]
  | unicode hc =>
    rw [lowEscape_unicode hc hr, hd]
    rfl

theorem lowEscape_quote (r : Text) : lowEscape (CodePoint.ofChar '"' :: r) = .ok none := by
  cases r with
  | nil => rfl
  | cons c r => rfl

theorem readString_written {c : CodePoint} {w : Text} (hw : Written c w) (start : Place)
    (fuel i : Nat) (acc : Text) {r : Text} (hr : r ≠ [])
    (hl : c.isHighSurrogate = true → lowEscape r = .ok none) :
    readString start (fuel + 1) acc ⟨i, w ++ r⟩ =
      readString start fuel (c :: acc) ⟨i + w.length, r⟩ := by
  have hq : CodePoint.ofChar '\\' ≠ CodePoint.ofChar '"' := by decide
  cases hw with
  | plain hq hb hc =>
    have h32 : ¬ c.val < 32 := by omega
    simp only [List.singleton_append, readString, hq, hb, h32, if_false, Place.skip_cons,
      Place.skip_zero, List.length_singleton]
  | @short e he =>
    have hu := not_u_of_simpleEscape? he
    simp only [List.cons_append, List.nil_append, readString, hq, hu, he, if_true, if_false,
      Place.skip_cons, Place.skip_zero, List.length_cons, List.length_nil, Nat.add_assoc]
  | unicode hc =>
    have hlen := Text.length_hex (n := c.val) hc
    have hp := List.length_pos_iff.mpr hr
    have hn : CodePoint.ofNat c.val = c := by rw [CodePoint.ofNat, dif_pos c.isLt]
    have hs : (⟨i, unicodeEscape c.val ++ r⟩ : Place).skip 6 = ⟨i + 6, r⟩ :=
      Place.skip_append i _ r (by rw [unicodeEscape_eq]; simp [hlen])
    have h6 : (unicodeEscape c.val).length = 6 := by rw [unicodeEscape_eq]; simp [hlen]
    rw [h6]
    rw [unicodeEscape_eq, List.cons_append, List.cons_append] at hs ⊢
    simp only [readString, hq, if_true, if_false, List.length_append, hlen,
      if_pos (show 4 < 4 + r.length by omega), hexValue?_hex hc, hn, hs]
    by_cases hh : c.isHighSurrogate = true
    · simp only [hh, if_true, hl hh]
    · simp only [hh, Bool.false_eq_true, if_false]

theorem readString_pair {c d : CodePoint} (hc : c.isHighSurrogate = true)
    (hd : d.isLowSurrogate = true) (start : Place) (fuel i : Nat) (acc : Text) {r : Text}
    (hr : r ≠ []) :
    readString start (fuel + 1) acc ⟨i, unicodeEscape c.val ++ (unicodeEscape d.val ++ r)⟩ =
      readString start fuel (CodePoint.ofSurrogates c d :: acc) ⟨i + 12, r⟩ := by
  have hq : CodePoint.ofChar '\\' ≠ CodePoint.ofChar '"' := by decide
  have hc16 : c.val < 0x10000 := by
    have hx := hc
    simp only [CodePoint.isHighSurrogate, Bool.and_eq_true, decide_eq_true_eq] at hx
    omega
  have hd16 : d.val < 0x10000 := by
    have hx := hd
    simp only [CodePoint.isLowSurrogate, Bool.and_eq_true, decide_eq_true_eq] at hx
    omega
  have hlen := Text.length_hex (n := c.val) hc16
  have hlen' := Text.length_hex (n := d.val) hd16
  have hn : CodePoint.ofNat c.val = c := by rw [CodePoint.ofNat, dif_pos c.isLt]
  have hs : (⟨i, unicodeEscape c.val ++ (unicodeEscape d.val ++ r)⟩ : Place).skip 6 =
      ⟨i + 6, unicodeEscape d.val ++ r⟩ :=
    Place.skip_append i _ _ (by rw [unicodeEscape_eq]; simp [hlen])
  have hs' : (⟨i + 6, unicodeEscape d.val ++ r⟩ : Place).skip 6 = ⟨i + 12, r⟩ :=
    Place.skip_append (i + 6) _ _ (by rw [unicodeEscape_eq]; simp [hlen'])
  have hlow := lowEscape_unicode hd16 hr
  rw [unicodeEscape_eq c.val, List.cons_append, List.cons_append] at hs ⊢
  have h4 : 4 < 4 + (unicodeEscape d.val ++ r).length := by
    rw [unicodeEscape_eq]
    simp
  simp only [readString, hq, if_true, if_false, @List.length_append _ (Text.hex 4 c.val), hlen,
    if_pos h4, hexValue?_hex hc16, hn, hs, hc, hlow, hd, hs']

namespace Canonical

theorem escapeOne_surrogate {c : CodePoint} (h : c.isHighSurrogate = true ∨ c.isLowSurrogate = true) :
    escapeOne c = unicodeEscape c.val := by
  have hs : c.isSurrogate = true := by
    simp only [CodePoint.isHighSurrogate, CodePoint.isLowSurrogate, CodePoint.isSurrogate,
      Bool.and_eq_true, decide_eq_true_eq] at h ⊢
    omega
  rw [escapeOne, if_pos hs]

theorem length_unicodeEscape {c : CodePoint} (h : c.isHighSurrogate = true ∨ c.isLowSurrogate = true) :
    (unicodeEscape c.val).length = 6 := by
  have hc : c.val < 0x10000 := by
    simp only [CodePoint.isHighSurrogate, CodePoint.isLowSurrogate, Bool.and_eq_true,
      decide_eq_true_eq] at h
    omega
  rw [unicodeEscape_eq, List.length_cons, List.length_cons, Text.length_hex hc]

theorem readString_all (start : Place) (t : Text) (fuel i : Nat) (acc r : Text)
    (hf : t.length < fuel) :
    readString start fuel acc ⟨i, t.flatMap escapeOne ++ CodePoint.ofChar '"' :: r⟩ =
      .ok (acc.reverse ++ Text.joinSurrogates t, ⟨i + (t.flatMap escapeOne).length + 1, r⟩) := by
  have hne : ∀ s : Text, s ++ CodePoint.ofChar '"' :: r ≠ [] := by simp
  induction t using Text.joinSurrogates.induct generalizing fuel i acc with
  | case1 =>
    obtain ⟨k, rfl⟩ := Nat.exists_eq_succ_of_ne_zero (Nat.ne_of_gt hf)
    simp only [List.flatMap_nil, List.nil_append, readString, if_true, Text.joinSurrogates,
      List.append_nil, Place.skip_cons, Place.skip_zero, List.length_nil, Nat.add_zero]
  | case2 c =>
    obtain ⟨k, rfl⟩ : ∃ k, fuel = k + 2 := ⟨fuel - 2, by simp at hf; omega⟩
    rw [List.flatMap_cons, List.flatMap_nil, List.append_nil,
      readString_written (escapeOne_written c) start (k + 1) i acc (List.cons_ne_nil _ r)
        (fun _ => lowEscape_quote r)]
    simp only [readString, if_true, Text.joinSurrogates, List.reverse_cons, Place.skip_cons,
      Place.skip_zero]
  | case3 c d t h ih =>
    obtain ⟨k, rfl⟩ : ∃ k, fuel = k + 1 := ⟨fuel - 1, by simp at hf; omega⟩
    simp only [Bool.and_eq_true] at h
    rw [List.flatMap_cons, List.flatMap_cons, escapeOne_surrogate (.inl h.1),
      escapeOne_surrogate (.inr h.2), List.append_assoc, List.append_assoc,
      readString_pair h.1 h.2 start k i acc (hne _), ih k _ _ (by simp at hf; omega),
      Text.joinSurrogates_pair h.1 h.2]
    simp only [List.reverse_cons, List.append_assoc, List.singleton_append, List.length_append,
      length_unicodeEscape (.inl h.1), length_unicodeEscape (.inr h.2)]
    rw [show ∀ n, i + 12 + n + 1 = i + (6 + (6 + n)) + 1 by omega]
  | case4 c d t h ih =>
    obtain ⟨k, rfl⟩ : ∃ k, fuel = k + 1 := ⟨fuel - 1, by simp at hf; omega⟩
    have hh : c.isHighSurrogate = true → d.isLowSurrogate = false := by
      intro hc
      simpa only [hc, Bool.true_and, Bool.not_eq_true] using h
    have hlow : c.isHighSurrogate = true →
        lowEscape ((d :: t).flatMap escapeOne ++ CodePoint.ofChar '"' :: r) = .ok none := by
      intro hc
      rw [List.flatMap_cons, List.append_assoc]
      exact lowEscape_written (escapeOne_written d) (hh hc) (hne _)
    have hj : Text.joinSurrogates (c :: d :: t) = c :: Text.joinSurrogates (d :: t) := by
      refine Text.joinSurrogates_cons ?_
      rintro hc e ⟨⟩
      exact hh hc
    rw [List.flatMap_cons, List.append_assoc,
      readString_written (escapeOne_written c) start k i acc (hne _) hlow,
      ih k _ _ (by simp at hf ⊢; omega), hj]
    simp only [List.reverse_cons, List.append_assoc, List.singleton_append, List.length_append]
    rw [show ∀ m n, i + m + n + 1 = i + (m + n) + 1 by omega]

@[simp] theorem readText_quote (i : Nat) (t r : Text) :
    readText ⟨i, quote t ++ r⟩ = .ok (Text.joinSurrogates t, ⟨i + (quote t).length, r⟩) := by
  have hl := Strict.length_le_flatMap (t := t) fun c _ => escapeOne_written c
  have hq : quote t ++ r =
      CodePoint.ofChar '"' :: (t.flatMap escapeOne ++ CodePoint.ofChar '"' :: r) := by
    simp only [quote, List.append_assoc]
    rfl
  have hn : (quote t).length = (t.flatMap escapeOne).length + 2 := by
    simp only [quote, List.length_append]
    have h1 : (Text.ofString "\"").length = 1 := rfl
    omega
  rw [hq, readText, Place.skip_cons, Place.skip_zero,
    readString_all _ t _ _ _ _ (by simp only [List.length_cons, List.length_append]; omega), hn]
  rw [show ∀ n, i + 1 + n + 1 = i + (n + 2) by omega]
  rfl

end Canonical

end ConfigLoader.Json
