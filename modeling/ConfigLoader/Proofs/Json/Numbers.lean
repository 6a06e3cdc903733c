import ConfigLoader.Json.Canonical
import ConfigLoader.Json.Reader
import ConfigLoader.Proofs.Number.Shortest
import ConfigLoader.Proofs.Text.Digits

/-! # Numbers in documents

Every finite number is written as a numeral: whole digits without a leading zero, perhaps a fraction,
perhaps an exponent. A numeral is read back in its parts wherever the text after it cannot belong to
it.
-/
namespace ConfigLoader.Json

structure Numeral where
  negative : Bool
  whole : Text
  fraction : Text
  exponent : Option (Bool × Text)

namespace Numeral

def pointText (fraction : Text) : Text :=
  if fraction.isEmpty then [] else CodePoint.ofChar '.' :: fraction

def exponentText (exponent : Option (Bool × Text)) : Text :=
  match exponent with
  | none => []
  | some (down, ds) => CodePoint.ofChar 'e' :: CodePoint.ofChar (if down then '-' else '+') :: ds

def body (n : Numeral) : Text := n.whole ++ (pointText n.fraction ++ exponentText n.exponent)

def text (n : Numeral) : Text := (if n.negative then [CodePoint.ofChar '-'] else []) ++ n.body

structure Valid (n : Numeral) : Prop where
  whole : ∀ c ∈ n.whole, c.isDigit = true
  whole_ne : n.whole ≠ []
  lead : n.whole.head? = some (CodePoint.ofChar '0') → n.whole = [CodePoint.ofChar '0']
  fraction : ∀ c ∈ n.fraction, c.isDigit = true
  exponent : ∀ down ds, n.exponent = some (down, ds) → ds ≠ [] ∧ ∀ c ∈ ds, c.isDigit = true

def scale (n : Numeral) : Option Int :=
  n.exponent.map fun e =>
    let k := (Text.digits? 10 e.2).getD 0
    if e.1 then -(k : Int) else k

def parts (n : Numeral) : NumberParts := ⟨n.negative, n.whole, n.fraction, n.scale, n.text.length⟩

/-- What a numeral stands for: whole digits alone have the zeros of their scale behind them. -/
structure Tells (n : Numeral) (digits : Nat) (exp : Int) : Prop where
  whole : n.parts.isWhole = true → Text.digitSum n.whole = digits * 10 ^ exp.toNat
  scaled : n.parts.isWhole = false →
    Text.digitSum (n.whole ++ n.fraction) = digits ∧ n.scale.getD 0 - n.fraction.length = exp

end Numeral

def Ends (r : Text) : Prop :=
  ∀ c, r.head? = some c → c.isDigit = false ∧ c ≠ CodePoint.ofChar '.' ∧
    c ≠ CodePoint.ofChar 'e' ∧ c ≠ CodePoint.ofChar 'E'

theorem ends_nil : Ends [] := by
  rintro c ⟨⟩

theorem ends_cons {c : CodePoint} (r : Text)
    (hc : c.isDigit = false ∧ c ≠ CodePoint.ofChar '.' ∧ c ≠ CodePoint.ofChar 'e' ∧
      c ≠ CodePoint.ofChar 'E') : Ends (c :: r) := by
  rintro d ⟨⟩
  exact hc

theorem digits?_isSome {ds : Text} (hne : ds ≠ []) (hd : ∀ c ∈ ds, c.isDigit = true) :
    ∃ k, Text.digits? 10 ds = some k := by
  have hfold : ∀ (t : Text) (acc : Nat), (∀ c ∈ t, c.isDigit = true) →
      ∃ k, t.foldl (Text.extend 10) (some acc) = some k := by
    intro t
    induction t with
    | nil => exact fun acc _ => ⟨acc, rfl⟩
    | cons c t ih =>
      intro acc ht
      have hc := ht c (List.mem_cons_self ..)
      have hv : ∃ d, c.digit? 10 = some d := by
        have hx := hc
        simp only [CodePoint.isDigit, Bool.and_eq_true, decide_eq_true_eq] at hx
        refine ⟨c.val - 48, ?_⟩
        simp only [CodePoint.digit?, hc, if_true]
        rw [if_pos (by omega)]
      obtain ⟨d, hv⟩ := hv
      obtain ⟨k, hk⟩ := ih (acc * 10 + d) fun e he => ht e (List.mem_cons_of_mem _ he)
      refine ⟨k, ?_⟩
      rw [List.foldl_cons, Text.extend, hv]
      exact hk
  obtain ⟨k, hk⟩ := hfold ds 0 hd
  have he : ds.isEmpty = false := by rwa [List.isEmpty_eq_false_iff]
  exact ⟨k, by rw [Text.digits?, he]; exact hk⟩

@[simp] theorem not_isDigit_point : (CodePoint.ofChar '.').isDigit = false := by decide

@[simp] theorem not_isDigit_e : (CodePoint.ofChar 'e').isDigit = false := by decide

section Read
variable {n : Numeral} {r : Text}

theorem Numeral.after_whole (hr : Ends r) :
    ∀ c, (Numeral.pointText n.fraction ++ (Numeral.exponentText n.exponent ++ r)).head? = some c →
      c.isDigit = false := by
  intro c hc
  cases hf : n.fraction with
  | cons d ds =>
    rw [hf, Numeral.pointText] at hc
    cases hc
    exact not_isDigit_point
  | nil =>
    rw [hf] at hc
    cases he : n.exponent with
    | none =>
      rw [he] at hc
      exact (hr c hc).1
    | some e =>
      rw [he] at hc
      cases hc
      exact not_isDigit_e

theorem fraction_pointText (hn : n.Valid) (hr : Ends r) :
    fraction (Numeral.pointText n.fraction ++ (Numeral.exponentText n.exponent ++ r)) =
      n.fraction := by
  have hd := hn.fraction
  have hafter : ∀ c, (Numeral.exponentText n.exponent ++ r).head? = some c →
      c.isDigit = false ∧ c ≠ CodePoint.ofChar '.' := by
    intro c hc
    cases he : n.exponent with
    | none =>
      rw [he] at hc
      exact ⟨(hr c hc).1, (hr c hc).2.1⟩
    | some e =>
      rw [he] at hc
      cases hc
      exact ⟨not_isDigit_e, by decide⟩
  cases hf : n.fraction with
  | nil =>
    change fraction (Numeral.exponentText n.exponent ++ r) = []
    cases hc : Numeral.exponentText n.exponent ++ r with
    | nil => rfl
    | cons c t =>
      rw [hc] at hafter
      rw [fraction, if_neg (hafter c rfl).2]
  | cons d ds =>
    rw [hf] at hd
    change fraction (CodePoint.ofChar '.' :: ((d :: ds) ++ _)) = d :: ds
    rw [fraction, if_pos rfl]
    exact Text.takeWhile_digits hd fun c hc => (hafter c hc).1

theorem exponent?_exponentText (hn : n.Valid) (hr : Ends r) :
    exponent? (Numeral.exponentText n.exponent ++ r) =
      n.scale.map fun e => (e, (Numeral.exponentText n.exponent).length) := by
  cases he : n.exponent with
  | none =>
    simp only [Numeral.scale, he, Option.map_none, Numeral.exponentText, List.nil_append]
    cases r with
    | nil => rfl
    | cons c r =>
      obtain ⟨-, -, h1, h2⟩ := hr c rfl
      simp only [exponent?, h1, h2, decide_false, Bool.or_self, Bool.false_eq_true, if_false]
  | some e =>
    obtain ⟨down, ds⟩ := e
    obtain ⟨hne, hd⟩ := hn.exponent down ds he
    obtain ⟨k, hk⟩ := digits?_isSome hne hd
    have ht : (ds ++ r).takeWhile CodePoint.isDigit = ds :=
      Text.takeWhile_digits hd fun c hc => (hr c hc).1
    have hplus : CodePoint.ofChar '+' ≠ CodePoint.ofChar '-' := by decide
    cases down with
    | true =>
      simp only [Numeral.scale, he, Numeral.exponentText, exponent?, List.cons_append, if_true,
        decide_true, Bool.true_or, List.drop_succ_cons, List.drop_zero, ht, hk, Option.map_some,
        List.length_cons, Option.getD_some]
      rw [show 1 + 1 + ds.length = ds.length + 1 + 1 by omega]
      rfl
    | false =>
      simp only [Numeral.scale, he, Numeral.exponentText, exponent?, List.cons_append, if_true,
        decide_true, Bool.true_or, Bool.false_eq_true, if_false, hplus, List.drop_succ_cons,
        List.drop_zero, ht, hk, Option.map_some, List.length_cons, Option.getD_some]
      rw [show 1 + 1 + ds.length = ds.length + 1 + 1 by omega]
      rfl

theorem Numeral.sign (hn : n.Valid) (r : Text) :
    ((n.text ++ r).head? = some (CodePoint.ofChar '-') ↔ n.negative = true) ∧
    (n.text ++ r).drop (if n.negative then 1 else 0) = n.body ++ r := by
  cases hneg : n.negative with
  | true =>
    simp only [Numeral.text, hneg, if_true]
    exact ⟨⟨fun _ => trivial, fun _ => rfl⟩, rfl⟩
  | false =>
    simp only [Numeral.text, hneg, Bool.false_eq_true, if_false, iff_false]
    refine ⟨?_, rfl⟩
    cases hw : n.whole with
    | nil => exact absurd hw hn.whole_ne
    | cons c w =>
      have hc : c.isDigit = true := hn.whole c (by rw [hw]; exact List.mem_cons_self ..)
      have hm : c ≠ CodePoint.ofChar '-' := by
        rintro rfl
        revert hc
        decide
      have hhead : ([] ++ n.body ++ r).head? = some c := by
        rw [Numeral.body, hw]
        rfl
      rw [hhead]
      exact fun h => hm (Option.some.inj h)

theorem number?_text (hn : n.Valid) (hr : Ends r) : number? (n.text ++ r) = some n.parts := by
  obtain ⟨hneg, hdrop⟩ := n.sign hn r
  have hafter : (n.body ++ r).drop n.whole.length =
      Numeral.pointText n.fraction ++ (Numeral.exponentText n.exponent ++ r) := by
    simp only [Numeral.body, List.append_assoc, List.drop_left]
  obtain ⟨c, w, hwhole⟩ := List.exists_cons_of_ne_nil hn.whole_ne
  have hbody : n.body ++ r = c :: (w ++
      (Numeral.pointText n.fraction ++ (Numeral.exponentText n.exponent ++ r))) := by
    simp only [Numeral.body, List.append_assoc, hwhole, List.cons_append]
  rw [hbody] at hdrop hafter
  have hw : (if c = CodePoint.ofChar '0' then [c] else (c :: (w ++ (Numeral.pointText n.fraction ++
      (Numeral.exponentText n.exponent ++ r)))).takeWhile fun x => x.isDigit) = n.whole := by
    by_cases hc : c = CodePoint.ofChar '0'
    · rw [if_pos hc, hn.lead (by rw [hwhole, hc]; rfl), hc]
    · have htake := Text.takeWhile_digits hn.whole (n.after_whole hr)
      rw [if_neg hc]
      rwa [hwhole] at htake ⊢
  have hne : n.whole.isEmpty = false := List.isEmpty_eq_false_iff.mpr hn.whole_ne
  have hfrac := fraction_pointText hn hr
  have hpoint : (if n.fraction.isEmpty = true then 0 else 1 + n.fraction.length) =
      (Numeral.pointText n.fraction).length := by
    cases n.fraction with
    | nil => rfl
    | cons c t => simp [Numeral.pointText]; omega
  have hlen : (if n.negative = true then 1 else 0) + n.whole.length +
      (Numeral.pointText n.fraction).length + (Numeral.exponentText n.exponent).length =
        n.text.length := by
    have hs : (if n.negative then [CodePoint.ofChar '-'] else []).length =
        if n.negative = true then 1 else 0 := by
      cases n.negative <;> rfl
    rw [Numeral.text, Numeral.body, List.length_append, hs, List.length_append, List.length_append]
    omega
  unfold number?
  simp only [hneg, hdrop, hw, hne, hafter, hfrac, hpoint, List.drop_left,
    exponent?_exponentText hn hr, Bool.false_eq_true, if_false]
  cases hs : n.scale with
  | some e => simp only [Option.map_some, hlen, Numeral.parts, hs, Bool.decide_eq_true]
  | none =>
    have he : n.exponent = none := by
      rwa [Numeral.scale, Option.map_eq_none_iff] at hs
    rw [he] at hlen
    simp only [Option.map_none, Numeral.parts, hs, Bool.decide_eq_true, ← hlen,
      Numeral.exponentText, List.length_nil, Nat.add_zero]

end Read

/-! ## Integers as numerals -/

def Numeral.plain (negative : Bool) (n : Nat) : Numeral := ⟨negative, Text.ofNat n, [], none⟩

namespace Numeral
variable (negative : Bool) (n : Nat)

theorem plain_valid : (plain negative n).Valid where
  whole _ hc := Text.isDigit_of_mem_ofNat hc
  whole_ne := Text.ofNat_ne_nil n
  lead hz := by
    rcases Nat.eq_zero_or_pos n with rfl | hn
    · rfl
    · obtain ⟨c, r, hc, hne⟩ := Text.head_ofNat hn
      have hz : (Text.ofNat n).head? = some (CodePoint.ofChar '0') := hz
      rw [hc] at hz
      exact absurd (Option.some.inj hz) hne
  fraction := nofun
  exponent := nofun

theorem plain_text : (plain negative n).text =
    (if negative then [CodePoint.ofChar '-'] else []) ++ Text.ofNat n :=
  congrArg (_ ++ ·) (List.append_nil _)

theorem plain_int : (plain negative n).parts.int = if negative then -(n : Int) else n := by
  rw [NumberParts.int]
  exact congrArg (fun k : Nat => if negative then -(k : Int) else (k : Int)) (Text.foldl_ofNat n)

end Numeral

/-! ## Numbers as numerals -/

section Layout
open Binary64 (positional scientific Style)

def Numeral.ending (style : Style) (n : Numeral) : Text :=
  if n.parts.isWhole then style.wholeEnd else []

@[simp] theorem isDigit_zero : (CodePoint.ofChar '0').isDigit = true := by decide

theorem isDigit_zeros {k : Nat} {c : CodePoint}
    (hc : c ∈ List.replicate k (CodePoint.ofChar '0')) : c.isDigit = true := by
  rw [List.eq_of_mem_replicate hc]
  exact isDigit_zero

/-- The numeral without a sign, of given digits at a given scale, that is laid out as a text. -/
structure Numeral.Lays (n : Numeral) (style : Style) (text : Text) (digits : Nat) (exp : Int)
    (isWhole : Bool) : Prop where
  valid : n.Valid
  unsigned : n.negative = false
  short : n.whole.length ≤ 21
  text : text = n.body ++ n.ending style
  tells : n.Tells digits exp
  isWhole : n.parts.isWhole = isWhole

theorem lays_fraction (style : Style) {whole fraction : Text} {exp : Int}
    (hvalid : (⟨false, whole, fraction, none⟩ : Numeral).Valid) (hshort : whole.length ≤ 21)
    (hfraction : fraction ≠ []) (hexp : -(fraction.length : Int) = exp) :
    (⟨false, whole, fraction, none⟩ : Numeral).Lays style (whole ++ CodePoint.ofChar '.' :: fraction)
      (Text.digitSum (whole ++ fraction)) exp false := by
  have he : fraction.isEmpty = false := List.isEmpty_eq_false_iff.mpr hfraction
  have hpart : (⟨false, whole, fraction, none⟩ : Numeral).parts.isWhole = false := by
    simp only [NumberParts.isWhole, Numeral.parts, he, Bool.false_and]
  refine ⟨hvalid, rfl, hshort, ?_, ⟨?_, fun _ => ⟨rfl, ?_⟩⟩, hpart⟩
  · simp only [Numeral.ending, hpart, Numeral.body, Numeral.pointText, he, Numeral.exponentText,
      Bool.false_eq_true, if_false, List.append_nil]
  · rw [hpart]
    rintro ⟨⟩
  · rw [← hexp]
    exact Int.zero_sub _

section Positional
variable {ds : Text} {point : Int} (style : Style) (hd : ∀ c ∈ ds, c.isDigit = true) (hne : ds ≠ [])

include hd hne in
theorem positional_before (hp : point ≤ 0) :
    ∃ n : Numeral, n.Lays style (positional style ds point) (Text.digitSum ds) (point - ds.length)
      false := by
  have hvalid : (⟨false, [CodePoint.ofChar '0'],
      List.replicate (-point).toNat (CodePoint.ofChar '0') ++ ds, none⟩ : Numeral).Valid := by
    refine ⟨by simp [isDigit_zero], List.cons_ne_nil _ _, fun _ => rfl, ?_, by rintro _ _ ⟨⟩⟩
    intro c hc
    rcases List.mem_append.mp hc with hc | hc
    · exact isDigit_zeros hc
    · exact hd c hc
  have hexp : -((List.replicate (-point).toNat (CodePoint.ofChar '0') ++ ds).length : Int) =
      point - ds.length := by
    rw [List.length_append, List.length_replicate]
    omega
  have hlays := lays_fraction style hvalid (by simp) (List.append_ne_nil_of_right_ne_nil _ hne) hexp
  have hsum : Text.digitSum ([CodePoint.ofChar '0'] ++
      (List.replicate (-point).toNat (CodePoint.ofChar '0') ++ ds)) = Text.digitSum ds :=
    Text.digitSum_zeros_append ((-point).toNat + 1) ds
  have htext : positional style ds point = [CodePoint.ofChar '0'] ++
      CodePoint.ofChar '.' :: (List.replicate (-point).toNat (CodePoint.ofChar '0') ++ ds) := by
    rw [positional, if_pos hp, List.append_assoc]
    rfl
  rw [hsum] at hlays
  exact ⟨_, htext ▸ hlays⟩

include hd hne in
theorem positional_behind (hlead : ds.head? ≠ some (CodePoint.ofChar '0')) (hp : point ≤ 21)
    (hl : (ds.length : Int) ≤ point) :
    ∃ n : Numeral, n.Lays style (positional style ds point) (Text.digitSum ds) (point - ds.length)
      true := by
  have hpos : 0 < ds.length := List.length_pos_iff.mpr hne
  have h0 : ¬ point ≤ 0 := by omega
  refine ⟨⟨false, ds ++ List.replicate (point - ds.length).toNat (CodePoint.ofChar '0'), [], none⟩,
    ?_, rfl, ?_, ?_, ⟨fun _ => Text.digitSum_zeros ds _, fun h => by cases h⟩, rfl⟩
  · refine ⟨?_, List.append_ne_nil_of_left_ne_nil hne _, ?_, by simp, by rintro _ _ ⟨⟩⟩
    · intro c hc
      rcases List.mem_append.mp hc with hc | hc
      · exact hd c hc
      · exact isDigit_zeros hc
    · intro hz
      obtain ⟨c, r, rfl⟩ := List.exists_cons_of_ne_nil hne
      exact absurd hz hlead
  · simp only [List.length_append, List.length_replicate]
    omega
  · simp only [positional, h0, hl, if_true, if_false, Numeral.body, Numeral.pointText,
      List.isEmpty_nil, Numeral.exponentText, List.append_nil]
    rfl

include hd in
theorem positional_within (hlead : ds.head? ≠ some (CodePoint.ofChar '0')) (hp : point ≤ 21)
    (h0 : ¬ point ≤ 0) (hl : ¬ (ds.length : Int) ≤ point) :
    ∃ n : Numeral, n.Lays style (positional style ds point) (Text.digitSum ds) (point - ds.length)
      false := by
  have hvalid : (⟨false, ds.take point.toNat, ds.drop point.toNat, none⟩ : Numeral).Valid := by
    refine ⟨fun c hc => hd c (List.mem_of_mem_take hc), ?_, ?_,
      fun c hc => hd c (List.mem_of_mem_drop hc), by rintro _ _ ⟨⟩⟩
    · have hlen : 0 < (ds.take point.toNat).length := by
        rw [List.length_take]
        omega
      exact List.length_pos_iff.mp hlen
    · intro hz
      rw [List.head?_take, if_neg (by omega)] at hz
      exact absurd hz hlead
  have hshort : (ds.take point.toNat).length ≤ 21 := by
    rw [List.length_take]
    omega
  have hfraction : ds.drop point.toNat ≠ [] := by
    rw [Ne, List.drop_eq_nil_iff]
    omega
  have hexp : -((ds.drop point.toNat).length : Int) = point - ds.length := by
    rw [List.length_drop]
    omega
  have hlays := lays_fraction style hvalid hshort hfraction hexp
  rw [List.take_append_drop] at hlays
  have htext : positional style ds point =
      ds.take point.toNat ++ CodePoint.ofChar '.' :: ds.drop point.toNat := by
    rw [positional, if_neg h0, if_neg hl, List.append_assoc]
    rfl
  exact ⟨_, htext ▸ hlays⟩

include hd hne in
theorem positional_numeral (hlead : ds.head? ≠ some (CodePoint.ofChar '0')) (hp : point ≤ 21) :
    ∃ n : Numeral, n.Lays style (positional style ds point) (Text.digitSum ds) (point - ds.length)
      (decide ((ds.length : Int) ≤ point)) := by
  have hpos : 0 < ds.length := List.length_pos_iff.mpr hne
  by_cases hl : (ds.length : Int) ≤ point
  · rw [decide_eq_true hl]
    exact positional_behind style hd hne hlead hp hl
  · rw [decide_eq_false hl]
    by_cases h0 : point ≤ 0
    · exact positional_before style hd hne h0
    · exact positional_within style hd hlead hp h0 hl

end Positional

theorem isDigit_of_mem_padded {width n : Nat} {c : CodePoint} (hc : c ∈ Text.padded width n) :
    c.isDigit = true := by
  rw [Text.padded] at hc
  rcases List.mem_append.mp hc with hc | hc
  · exact isDigit_zeros hc
  · exact Text.isDigit_of_mem_ofNat hc

theorem scientific_numeral (style : Style) {ds : Text} (hd : ∀ c ∈ ds, c.isDigit = true) (hne : ds ≠ [])
    (hlead : ds.head? ≠ some (CodePoint.ofChar '0')) (e : Int) :
    ∃ n : Numeral, n.Lays style (scientific style ds e) (Text.digitSum ds) (e + 1 - ds.length) false := by
  obtain ⟨c, r, rfl⟩ := List.exists_cons_of_ne_nil hne
  have hscale : (Numeral.scale
      ⟨false, [c], r, some (decide (e < 0), Text.padded style.exponentWidth e.natAbs)⟩) = some e := by
    simp only [Numeral.scale, Option.map_some, Text.digits?_padded, Option.getD_some, decide_eq_true_eq]
    by_cases he : e < 0
    · rw [if_pos he, Int.ofNat_natAbs_of_nonpos (Int.le_of_lt he), Int.neg_neg]
    · rw [if_neg he, Int.natAbs_of_nonneg (Int.not_lt.mp he)]
  have hpart : (Numeral.parts ⟨false, [c], r,
      some (decide (e < 0), Text.padded style.exponentWidth e.natAbs)⟩).isWhole = false := by
    rw [NumberParts.isWhole, Numeral.parts, hscale]
    exact Bool.and_false _
  refine ⟨⟨false, [c], r, some (decide (e < 0), Text.padded style.exponentWidth e.natAbs)⟩, ?_, rfl,
    by simp, ?_, ⟨?_, fun _ => ⟨rfl, ?_⟩⟩, hpart⟩
  · refine ⟨?_, List.cons_ne_nil _ _, ?_, fun d h => hd d (List.mem_cons_of_mem _ h), ?_⟩
    · intro d h
      rw [List.mem_singleton.mp h]
      exact hd c (List.mem_cons_self ..)
    · intro hz
      exact absurd hz hlead
    · rintro down ds ⟨⟩
      refine ⟨?_, fun d h => isDigit_of_mem_padded h⟩
      rw [Text.padded]
      exact List.append_ne_nil_of_right_ne_nil _ (Text.ofNat_ne_nil _)
  · have hs : (if e < 0 then Text.ofString "-" else Text.ofString "+") =
        [CodePoint.ofChar (if decide (e < 0) = true then '-' else '+')] := by
      by_cases he : e < 0
      · simp only [he, if_true, decide_true]
        rfl
      · simp only [he, if_false, decide_false, Bool.false_eq_true]
        rfl
    rw [Numeral.ending, hpart, if_neg Bool.false_ne_true, List.append_nil]
    cases r with
    | nil =>
      simp only [scientific, hs, Numeral.body, Numeral.pointText, List.isEmpty_nil, if_true,
        Numeral.exponentText, List.append_assoc]
      rfl
    | cons d r =>
      simp only [scientific, hs, Numeral.body, Numeral.pointText, List.isEmpty_cons,
        Bool.false_eq_true, if_false, Numeral.exponentText, List.append_assoc]
      rfl
  · rw [hpart]
    rintro ⟨⟩
  · rw [hscale, Option.getD_some, List.length_cons]
    push_cast
    omega

def layout (style : Style) (ds : Text) (place : Int) : Text :=
  if (decide (style.lowPoint ≤ place) && decide (place ≤ style.highPoint)) = true then
    positional style ds place
  else scientific style ds (place - 1)

theorem text_layout (style : Style) {x : Binary64} (hx : x.isFinite = true) (hz : x.isZero = false) :
    x.text style = (if x.isNegative then [CodePoint.ofChar '-'] else []) ++
      layout style (Text.ofNat (x.shortest.strip 400).digits)
        ((Text.ofNat (x.shortest.strip 400).digits).length + (x.shortest.strip 400).exp) := by
  have hmag : x.magnitude < 2047 * 2 ^ 52 := by
    have hf : x.magnitude / 2 ^ 52 < 2047 := of_decide_eq_true hx
    exact (Nat.div_lt_iff_lt_mul (by decide)).mp hf
  have hnan : x.isNaN = false := by
    simp only [Binary64.isNaN, decide_eq_false_iff_not]
    omega
  have hinf : x.isInfinite = false := by
    simp only [Binary64.isInfinite, beq_eq_false_iff_ne]
    omega
  rw [Binary64.text]
  simp only [hnan, hinf, hz, Bool.false_eq_true, if_false, Bool.not_false, Bool.or_true, Bool.and_true]
  rw [layout]
  exact (apply_ite _ _ _ _).symm

/-- Digits are laid out as a numeral, and as a whole one if the point comes behind all of them and not
beyond the highest position. -/
theorem layout_numeral {style : Style} (hlow : style.lowPoint ≤ 1) (hhigh : style.highPoint ≤ 21)
    {m : Nat} (hm : m ≠ 0) (e : Int) :
    ∃ n : Numeral, n.Lays style (layout style (Text.ofNat m) ((Text.ofNat m).length + e)) m e
      (decide (0 ≤ e) && decide ((Text.ofNat m).length + e ≤ style.highPoint)) := by
  have hall : ∀ c ∈ Text.ofNat m, c.isDigit = true := fun c hc => Text.isDigit_of_mem_ofNat hc
  have hne := Text.ofNat_ne_nil m
  have hlead : (Text.ofNat m).head? ≠ some (CodePoint.ofChar '0') := by
    obtain ⟨c, r, hc, hne⟩ := Text.head_ofNat (Nat.pos_of_ne_zero hm)
    rw [hc]
    exact fun h => hne (Option.some.inj h)
  have hpos : 0 < (Text.ofNat m).length := List.length_pos_iff.mpr hne
  unfold layout
  by_cases hp : (decide (style.lowPoint ≤ (Text.ofNat m).length + e) &&
      decide ((Text.ofNat m).length + e ≤ style.highPoint)) = true
  · rw [if_pos hp]
    simp only [Bool.and_eq_true, decide_eq_true_eq] at hp
    obtain ⟨n, hn⟩ := positional_numeral style hall hne hlead (Int.le_trans hp.2 hhigh)
    have hexp : ((Text.ofNat m).length : Int) + e - (Text.ofNat m).length = e := by omega
    have hwhole : decide (((Text.ofNat m).length : Int) ≤ (Text.ofNat m).length + e) =
        (decide (0 ≤ e) && decide ((Text.ofNat m).length + e ≤ style.highPoint)) := by
      rw [decide_eq_true hp.2, Bool.and_true, decide_eq_decide]
      omega
    rw [Text.digitSum_ofNat, hexp, hwhole] at hn
    exact ⟨n, hn⟩
  · rw [if_neg hp]
    obtain ⟨n, hn⟩ := scientific_numeral style hall hne hlead ((Text.ofNat m).length + e - 1)
    have hexp : ((Text.ofNat m).length : Int) + e - 1 + 1 - (Text.ofNat m).length = e := by omega
    have hwhole : false =
        (decide (0 ≤ e) && decide ((Text.ofNat m).length + e ≤ style.highPoint)) := by
      symm
      rw [Bool.and_eq_false_iff, decide_eq_false_iff_not, decide_eq_false_iff_not]
      simp only [Bool.and_eq_true, decide_eq_true_eq] at hp
      omega
    rw [Text.digitSum_ofNat, hexp, hwhole] at hn
    exact ⟨n, hn⟩

/-- Every finite number but zero is laid out as a numeral, and as a whole one if its point comes behind
all digits and not beyond the highest position. -/
theorem text_tells {style : Style} (hlow : style.lowPoint ≤ 1) (hhigh : style.highPoint ≤ 21)
    {x : Binary64} (hx : x.isFinite = true) (hz : x.isZero = false) :
    ∃ n : Numeral, n.Valid ∧ n.negative = x.isNegative ∧ n.whole.length ≤ 21 ∧
      x.text style = n.text ++ n.ending style ∧
      n.Tells (x.shortest.strip 400).digits (x.shortest.strip 400).exp ∧
      n.parts.isWhole = (decide (0 ≤ (x.shortest.strip 400).exp) &&
        decide ((Text.ofNat (x.shortest.strip 400).digits).length + (x.shortest.strip 400).exp ≤
          style.highPoint)) := by
  have hdigits := Binary64.Decimal.strip_digits 400 (Binary64.shortest_digits hz)
  obtain ⟨n, hn, -, hl, hb, ht, hw⟩ := layout_numeral hlow hhigh hdigits (x.shortest.strip 400).exp
  refine ⟨{ n with negative := x.isNegative }, ⟨hn.1, hn.2, hn.3, hn.4, hn.5⟩, rfl, hl, ?_,
    ⟨ht.1, ht.2⟩, hw⟩
  rw [text_layout style hx hz, hb, Numeral.text, List.append_assoc]
  rfl

end Layout

/-! ## Numbers of scripts -/

namespace Canonical

def written (x : Binary64) : Binary64.Decimal := x.shortest.strip 400

theorem numberText_tells {x : Binary64} (hx : x.isFinite = true) (hz : x.isZero = false) :
    ∃ n : Numeral, n.Valid ∧ n.negative = x.isNegative ∧ n.whole.length ≤ 21 ∧
      numberText x = n.text ∧ n.Tells (written x).digits (written x).exp ∧
      n.parts.isWhole = (decide (0 ≤ (written x).exp) &&
        decide ((Text.ofNat (written x).digits).length + (written x).exp ≤ 21)) := by
  have hstyle : numberStyle.lowPoint ≤ 1 ∧ numberStyle.highPoint ≤ 21 := by decide
  obtain ⟨n, hn, hneg, hl, htext, htells, hwhole⟩ :=
    text_tells hstyle.1 hstyle.2 hx hz
  have hend : n.ending numberStyle = [] := ite_self _
  rw [hend, List.append_nil] at htext
  exact ⟨n, hn, hneg, hl, by rw [numberText, if_pos hx, htext], htells, hwhole⟩

theorem numberText_zero {x : Binary64} (hx : x.isFinite = true) (hz : x.isZero = true) :
    numberText x = [CodePoint.ofChar '0'] := by
  have hm : x.magnitude = 0 := by
    rwa [Binary64.isZero, beq_iff_eq] at hz
  have hnan : x.isNaN = false := by
    rw [Binary64.isNaN, hm]
    rfl
  have hinf : x.isInfinite = false := by
    rw [Binary64.isInfinite, hm]
    rfl
  rw [numberText, if_pos hx, Binary64.text]
  simp only [hnan, hinf, hz, if_true, Bool.false_eq_true, if_false, numberStyle, Bool.not_true,
    Bool.or_self, Bool.and_false]
  rfl

theorem numberText_numeral {x : Binary64} (hx : x.isFinite = true) :
    ∃ n : Numeral, n.Valid ∧ n.whole.length ≤ 21 ∧ numberText x = n.text := by
  cases hz : x.isZero with
  | true =>
    refine ⟨⟨false, [CodePoint.ofChar '0'], [], none⟩, ?_, by simp, numberText_zero hx hz⟩
    exact ⟨by simp [isDigit_zero], List.cons_ne_nil _ _, fun _ => rfl, by simp, by rintro _ _ ⟨⟩⟩
  | false =>
    obtain ⟨n, hn, -, hl, htext, -⟩ := numberText_tells hx hz
    exact ⟨n, hn, hl, htext⟩

/-- What a number is read as once it was written: a fraction or an exponent makes it a number of 64
bits, and what is not finite is null. -/
def receivedNumber (x : Binary64) : Value :=
  match number? (numberText x) with
  | some n => if n.isWhole then .int n.int else .float n.float
  | none => .null

end Canonical

theorem readNumber_text {n : Numeral} (hn : n.Valid) (hl : n.whole.length ≤ digitLimit) {r : Text}
    (hr : Ends r) (i : Nat) :
    readNumber ⟨i, n.text ++ r⟩ =
      .ok (if n.parts.isWhole then .int n.parts.int else .float n.parts.float,
        ⟨i + n.text.length, r⟩) := by
  have hs : (⟨i, n.text ++ r⟩ : Place).skip n.parts.length = ⟨i + n.text.length, r⟩ := by
    rw [Place.skip, Numeral.parts, List.drop_left]
  have hlim : ¬ digitLimit < n.parts.whole.length := Nat.not_lt.mpr hl
  rw [readNumber, number?_text hn hr]
  by_cases hw : n.parts.isWhole = true
  · simp only [hw, if_true, hlim, if_false, hs]
  · simp only [hw, Bool.false_eq_true, if_false, hs]

theorem startsWith_cons_ne {a b : CodePoint} (p t : Text) (h : a ≠ b) :
    Text.startsWith (a :: p) (b :: t) = false := by
  rw [Text.startsWith, Text.afterStart?, if_neg h]
  rfl

@[simp] theorem startsWith_cons (a : CodePoint) (p t : Text) :
    Text.startsWith (a :: p) (a :: t) = Text.startsWith p t := by
  rw [Text.startsWith, Text.afterStart?, if_pos rfl]
  rfl

theorem word?_text {n : Numeral} (hn : n.Valid) (i : Nat) (r : Text) :
    word? ⟨i, n.text ++ r⟩ = none := by
  obtain ⟨c, w, hw⟩ := List.exists_cons_of_ne_nil hn.whole_ne
  have hc : c.isDigit = true := hn.whole c (by rw [hw]; exact List.mem_cons_self ..)
  have hne : ∀ d : CodePoint, d.isDigit = false → d ≠ c := by
    rintro d hd rfl
    rw [hc] at hd
    cases hd
  have hbody : ∃ t, n.body ++ r = c :: t := ⟨_, by rw [Numeral.body, hw]; rfl⟩
  obtain ⟨t, ht⟩ := hbody
  have hfind : words.find? (fun w => Text.startsWith w.1 (n.text ++ r)) = none := by
    rw [List.find?_eq_none]
    intro w hm
    simp only [words, List.mem_cons, List.not_mem_nil, or_false] at hm
    cases hneg : n.negative with
    | false =>
      have htext : n.text ++ r = c :: t := by
        rw [Numeral.text, hneg, ← ht]
        rfl
      rw [htext, Bool.not_eq_true]
      rcases hm with rfl | rfl | rfl | rfl | rfl | rfl <;>
        exact startsWith_cons_ne _ _ (hne _ (by decide))
    | true =>
      have htext : n.text ++ r = CodePoint.ofChar '-' :: c :: t := by
        rw [Numeral.text, hneg, ← ht]
        rfl
      rw [htext, Bool.not_eq_true]
      rcases hm with rfl | rfl | rfl | rfl | rfl | rfl
      · exact startsWith_cons_ne _ _ (by decide)
      · exact startsWith_cons_ne _ _ (by decide)
      · exact startsWith_cons_ne _ _ (by decide)
      · exact startsWith_cons_ne _ _ (by decide)
      · exact startsWith_cons_ne _ _ (by decide)
      · exact (startsWith_cons _ _ _).trans (startsWith_cons_ne _ _ (hne _ (by decide)))
  rw [word?, hfind]
  rfl

end ConfigLoader.Json
