import Mathlib.Data.List.Forall2
import ConfigLoader.Proofs.Json.Numbers
import ConfigLoader.Proofs.Json.Texts

/-! # Reading items and members

A text is read as a value wherever it stands, if what follows it cannot belong to it. Lists and mappings
are made of such texts, with or without spaces between them. Each takes one of the levels that there is
room for, and where none is left the whole text is not read.
-/
namespace ConfigLoader.Json

def Starts (text : Text) : Prop :=
  ∃ c r, text = c :: r ∧ isSpace c = false ∧ c ≠ CodePoint.ofChar ']' ∧ c.val < 128

/-- A text that is read as a value, up to what follows it, where so many levels are left. -/
structure Parses (levels : Nat) (text : Text) (v : Value) : Prop where
  head : Starts text
  reads : ∀ fuel i r, text.length ≤ fuel → Ends r →
    readValue levels fuel ⟨i, text ++ r⟩ = .ok (v, ⟨i + text.length, r⟩)

structure Overflows (levels : Nat) (text : Text) : Prop where
  head : Starts text
  fails : ∀ fuel i r, text.length ≤ fuel →
    ∃ isMapping j, readValue levels fuel ⟨i, text ++ r⟩ = .error ⟨.tooDeep isMapping, j⟩

structure ParsesName (text name : Text) : Prop where
  head : ∃ r, text = CodePoint.ofChar '"' :: r
  reads : ∀ i r, readText ⟨i, text ++ r⟩ = .ok (name, ⟨i + text.length, r⟩)

inductive ParsesMember (levels : Nat) (gap : Text) : Text → Text × Value → Prop
  | mk {q u name : Text} {v : Value} (hname : ParsesName q name) (hv : Parses levels u v) :
    ParsesMember levels gap (q ++ CodePoint.ofChar ':' :: (gap ++ u)) (name, v)

inductive OverflowsMember (levels : Nat) (gap : Text) : Text → Prop
  | mk {q u name : Text} (hname : ParsesName q name) (hv : Overflows levels u) :
    OverflowsMember levels gap (q ++ CodePoint.ofChar ':' :: (gap ++ u))

def IsBlank (t : Text) : Prop := ∀ c ∈ t, isSpace c = true

/-! ## Spaces -/

theorem isBlank_nil : IsBlank [] := nofun

theorem skipSpace_blank {gap : Text} (hgap : IsBlank gap) {c : CodePoint} (hc : isSpace c = false)
    (i : Nat) (r : Text) : skipSpace ⟨i, gap ++ c :: r⟩ = ⟨i + gap.length, c :: r⟩ := by
  have htake : (gap ++ c :: r).takeWhile isSpace = gap := by
    rw [List.takeWhile_append_of_pos hgap, List.takeWhile_cons, hc]
    exact List.append_nil gap
  rw [skipSpace, htake, Place.skip_append i gap _ rfl]

theorem skipSpace_cons {c : CodePoint} (hc : isSpace c = false) (i : Nat) (r : Text) :
    skipSpace ⟨i, c :: r⟩ = ⟨i, c :: r⟩ := skipSpace_blank isBlank_nil hc i r

theorem isSpace_of_isDigit {c : CodePoint} (hc : c.isDigit = true) : isSpace c = false := by
  simp only [CodePoint.isDigit, Bool.and_eq_true, decide_eq_true_eq] at hc
  simp only [isSpace, Bool.or_eq_false_iff, decide_eq_false_iff_not]
  omega

theorem ends_blank {gap r : Text} (hgap : IsBlank gap) (hr : Ends r) : Ends (gap ++ r) := by
  cases gap with
  | nil => exact hr
  | cons c gap =>
    have hc := hgap c (List.mem_cons_self ..)
    refine ends_cons _ ⟨?_, ?_, ?_, ?_⟩
    · cases hd : c.isDigit with
      | false => rfl
      | true => cases hc.symm.trans (isSpace_of_isDigit hd)
    all_goals
      rintro rfl
      revert hc
      decide

theorem ends_comma (r : Text) : Ends (CodePoint.ofChar ',' :: r) := ends_cons r (by decide)

theorem ends_bracket (r : Text) : Ends (CodePoint.ofChar ']' :: r) := ends_cons r (by decide)

theorem ends_brace (r : Text) : Ends (CodePoint.ofChar '\x7d' :: r) := ends_cons r (by decide)

/-! ## Leaves -/

variable {levels : Nat}

theorem numeral_head {n : Numeral} (hn : n.Valid) :
    ∃ c t, n.text = c :: t ∧ (c.isDigit = true ∨ c = CodePoint.ofChar '-') := by
  obtain ⟨c, w, hw⟩ := List.exists_cons_of_ne_nil hn.whole_ne
  have hc : c.isDigit = true := hn.whole c (by rw [hw]; exact List.mem_cons_self ..)
  cases hneg : n.negative with
  | true => exact ⟨CodePoint.ofChar '-', n.body, by rw [Numeral.text, hneg]; rfl, .inr rfl⟩
  | false =>
    refine ⟨c, w ++ (Numeral.pointText n.fraction ++ Numeral.exponentText n.exponent), ?_, .inl hc⟩
    rw [Numeral.text, hneg, Numeral.body, hw]
    rfl

theorem parses_numeral {n : Numeral} (hn : n.Valid) (hl : n.whole.length ≤ digitLimit) :
    Parses levels n.text (if n.parts.isWhole then .int n.parts.int else .float n.parts.float) := by
  obtain ⟨c, t, ht, hc⟩ := numeral_head hn
  refine ⟨⟨c, t, ht, ?_⟩, fun fuel i r hf hr => ?_⟩
  · rcases hc with hc | rfl
    · refine ⟨isSpace_of_isDigit hc, ?_, ?_⟩
      · rintro rfl
        revert hc
        decide
      · simp only [CodePoint.isDigit, Bool.and_eq_true, decide_eq_true_eq] at hc
        omega
    · decide
  · have hread := readNumber_text hn hl hr i
    have hword := word?_text hn i r
    have hne : c ≠ CodePoint.ofChar '"' ∧ c ≠ CodePoint.ofChar '[' ∧
        c ≠ CodePoint.ofChar '\x7b' := by
      rcases hc with hc | rfl
      · refine ⟨?_, ?_, ?_⟩ <;>
        · rintro rfl
          revert hc
          decide
      · decide
    rw [ht] at hf hread hword ⊢
    rw [List.length_cons] at hf
    obtain ⟨k, rfl⟩ : ∃ k, fuel = k + 1 := ⟨fuel - 1, by omega⟩
    rw [List.cons_append] at hread hword ⊢
    simp only [readValue, hne.1, hne.2.1, hne.2.2, if_false, hword, hread]

theorem parses_word {w : Text × Value} (h : w ∈ words) : Parses levels w.1 w.2 := by
  simp only [words, List.mem_cons, List.not_mem_nil, or_false] at h
  rcases h with rfl | rfl | rfl | rfl | rfl | rfl
  all_goals
    refine ⟨⟨_, _, rfl, by decide, by decide, by decide⟩, fun fuel i r hf _ => ?_⟩
    obtain ⟨k, rfl⟩ := Nat.exists_eq_succ_of_ne_zero (Nat.ne_of_gt (Nat.lt_of_lt_of_le
      (Nat.succ_pos _) hf))
    rfl

theorem ParsesName.parses {q name : Text} (h : ParsesName q name) : Parses levels q (.text name) := by
  obtain ⟨x, hx⟩ := h.head
  refine ⟨⟨_, x, hx, by decide, by decide, by decide⟩, fun fuel i r hf _ => ?_⟩
  have htext := h.reads i r
  rw [hx] at hf htext ⊢
  rw [List.length_cons] at hf
  obtain ⟨k, rfl⟩ : ∃ k, fuel = k + 1 := ⟨fuel - 1, by omega⟩
  rw [List.cons_append] at htext ⊢
  simp only [readValue, if_true, htext, Except.map]

theorem parses_nil : Parses (levels + 1) [CodePoint.ofChar '[', CodePoint.ofChar ']'] (.list []) := by
  refine ⟨⟨_, _, rfl, by decide, by decide, by decide⟩, fun fuel i r hf _ => ?_⟩
  obtain ⟨k, rfl⟩ : ∃ k, fuel = k + 1 := ⟨fuel - 1, by simp at hf; omega⟩
  rfl

theorem parses_empty :
    Parses (levels + 1) [CodePoint.ofChar '\x7b', CodePoint.ofChar '\x7d'] (.mapping []) := by
  refine ⟨⟨_, _, rfl, by decide, by decide, by decide⟩, fun fuel i r hf _ => ?_⟩
  obtain ⟨k, rfl⟩ : ∃ k, fuel = k + 1 := ⟨fuel - 1, by simp at hf; omega⟩
  rfl

/-! ## Joined texts -/

@[simp] theorem join_singleton (sep t : Text) : Text.join sep [t] = t := List.append_nil t

@[simp] theorem join_cons (sep t u : Text) (ts : List Text) :
    Text.join sep (t :: u :: ts) = t ++ (sep ++ Text.join sep (u :: ts)) := rfl

theorem join_head (sep : Text) {t : Text} {c : CodePoint} {r : Text} (ht : t = c :: r)
    (ts : List Text) : ∃ u, Text.join sep (t :: ts) = c :: u := by
  subst ht
  cases ts with
  | nil => exact ⟨r, join_singleton sep _⟩
  | cons u ts => exact ⟨_, join_cons sep _ u ts⟩

/-! ## Lists -/

section
variable {gap last : Text} (hgap : IsBlank gap) (hlast : IsBlank last)
include hgap hlast

theorem readItems_join {t : Text} {v : Value} (ht : Parses levels t v) {ts : List Text}
    {vs : List Value} (h : List.Forall₂ (Parses levels) ts vs) (fuel i : Nat) (acc : List Value) (r : Text)
    (hf : (Text.join (CodePoint.ofChar ',' :: gap) (t :: ts)).length < fuel) :
    readItems levels fuel acc ⟨i, Text.join (CodePoint.ofChar ',' :: gap) (t :: ts) ++
        (last ++ CodePoint.ofChar ']' :: r)⟩ =
      .ok (acc.reverse ++ v :: vs,
        ⟨i + (Text.join (CodePoint.ofChar ',' :: gap) (t :: ts)).length + (last.length + 1),
          r⟩) := by
  have hcomma : isSpace (CodePoint.ofChar ',') = false := by decide
  have hbracket : isSpace (CodePoint.ofChar ']') = false := by decide
  have hne : CodePoint.ofChar ',' ≠ CodePoint.ofChar ']' := by decide
  induction h generalizing t v fuel i acc with
  | nil =>
    obtain ⟨k, rfl⟩ := Nat.exists_eq_succ_of_ne_zero (Nat.ne_of_gt (Nat.lt_of_le_of_lt
      (Nat.zero_le _) hf))
    rw [join_singleton] at hf ⊢
    have hr := ht.reads k i _ (Nat.lt_succ_iff.mp hf) (ends_blank hlast (ends_bracket r))
    simp only [readItems, hr, bind, Except.bind, skipSpace_blank hlast hbracket, if_true,
      Place.skip_cons, Place.skip_zero, List.reverse_cons]
    rw [Nat.add_assoc (i + t.length)]
  | @cons u w ts vs hu h ih =>
    obtain ⟨k, rfl⟩ := Nat.exists_eq_succ_of_ne_zero (Nat.ne_of_gt (Nat.lt_of_le_of_lt
      (Nat.zero_le _) hf))
    rw [join_cons, List.cons_append] at hf ⊢
    rw [List.length_append, List.length_cons, List.length_append] at hf
    obtain ⟨c, x, hc, hs, -⟩ := hu.head
    obtain ⟨y, hy⟩ := join_head (CodePoint.ofChar ',' :: gap) hc ts
    have hr := ht.reads k i _ (by omega) (ends_comma
      (gap ++ (Text.join (CodePoint.ofChar ',' :: gap) (u :: ts) ++
        (last ++ CodePoint.ofChar ']' :: r))))
    have hi := ih hu k (i + t.length + 1 + gap.length) (v :: acc) (by omega)
    have hskip : skipSpace ⟨i + t.length + 1, gap ++
        (Text.join (CodePoint.ofChar ',' :: gap) (u :: ts) ++
          (last ++ CodePoint.ofChar ']' :: r))⟩ =
        ⟨i + t.length + 1 + gap.length, Text.join (CodePoint.ofChar ',' :: gap) (u :: ts) ++
          (last ++ CodePoint.ofChar ']' :: r)⟩ := by
      rw [hy]
      exact skipSpace_blank hgap hs _ _
    simp only [List.append_assoc, List.cons_append, readItems, hr, bind, Except.bind,
      skipSpace_cons hcomma, hne, if_true, if_false, Place.skip_cons, Place.skip_zero, hskip, hi]
    simp only [List.reverse_cons, List.append_assoc, List.singleton_append, List.length_append,
      List.length_cons]
    rw [show ∀ a b c, i + a + 1 + b + c = i + (a + (b + c + 1)) by omega]

theorem parses_list {ts : List Text} {vs : List Value} (h : List.Forall₂ (Parses levels) ts vs)
    (hne : ts ≠ []) :
    Parses (levels + 1) (CodePoint.ofChar '[' :: (gap ++ (Text.join (CodePoint.ofChar ',' :: gap) ts ++
      (last ++ [CodePoint.ofChar ']'])))) (.list vs) where
  head := ⟨_, _, rfl, by decide, by decide, by decide⟩
  reads := by
    intro fuel i r hf hr
    have hq : CodePoint.ofChar '[' ≠ CodePoint.ofChar '"' := by decide
    cases h with
    | nil => exact absurd rfl hne
    | @cons t v ts vs ht h =>
      simp only [List.length_cons, List.length_append, List.length_nil] at hf
      obtain ⟨k, rfl⟩ : ∃ k, fuel = k + 1 := ⟨fuel - 1, by omega⟩
      obtain ⟨c, x, hc, hs, hne, -⟩ := ht.head
      have hne : ¬ some c = some (CodePoint.ofChar ']') := fun h => hne (Option.some.inj h)
      obtain ⟨y, hy⟩ := join_head (CodePoint.ofChar ',' :: gap) hc ts
      have hitems := readItems_join hgap hlast ht h k (i + 1 + gap.length) [] r (by omega)
      rw [hy] at hitems ⊢
      simp only [List.cons_append, List.append_assoc, List.nil_append] at hitems ⊢
      simp only [readValue, hq, if_true, if_false, Place.skip_cons, Place.skip_zero,
        skipSpace_blank hgap hs, List.head?_cons, hne, hitems, Except.map, List.reverse_nil,
        List.nil_append, List.length_cons, List.length_append, List.length_nil]
      rw [show ∀ a b, i + 1 + gap.length + (a + 1) + (b + 1) =
        i + (gap.length + (a + (b + (0 + 1)) + 1) + 1) by omega]

end

/-! ## Mappings -/

theorem ParsesMember.quoted {gap t : Text} {m : Text × Value} (h : ParsesMember levels gap t m) :
    ∃ x, t = CodePoint.ofChar '"' :: x := by
  obtain ⟨hname, -⟩ := h
  obtain ⟨x, rfl⟩ := hname.head
  exact ⟨_, rfl⟩

theorem OverflowsMember.quoted {gap t : Text} (h : OverflowsMember levels gap t) :
    ∃ x, t = CodePoint.ofChar '"' :: x := by
  obtain ⟨hname, -⟩ := h
  obtain ⟨x, rfl⟩ := hname.head
  exact ⟨_, rfl⟩

theorem readMembers_member {gap after text : Text} {m : Text × Value} (hgap : IsBlank gap)
    (hafter : IsBlank after) (h : ParsesMember levels gap text m) {c : CodePoint} (hc : isSpace c = false)
    {r : Text} (hr : Ends (c :: r)) (es : Entries) (i : Nat) {k : Nat}
    (hf : text.length ≤ k) :
    readMembers levels (k + 1) es ⟨i, text ++ (after ++ c :: r)⟩ =
      (let q : Place := ⟨i + text.length + after.length, c :: r⟩
      let es := es.put (.text m.1) m.2
      if c = CodePoint.ofChar '\x7d' then .ok (es, q.skip 1)
      else if c = CodePoint.ofChar ',' then readMembers levels k es (skipSpace (q.skip 1))
      else q.fail .expectingComma) := by
  have hcolon : isSpace (CodePoint.ofChar ':') = false := by decide
  obtain ⟨hname, hv⟩ := h
  rename_i q u name v
  obtain ⟨x, hx⟩ := hname.head
  obtain ⟨d, y, hd, hs, -⟩ := hv.head
  have htext := hname.reads i (CodePoint.ofChar ':' :: (gap ++ (u ++ (after ++ c :: r))))
  have hskip : skipSpace ⟨i + q.length + 1, gap ++ (u ++ (after ++ c :: r))⟩ =
      ⟨i + q.length + 1 + gap.length, u ++ (after ++ c :: r)⟩ := by
    rw [hd]
    exact skipSpace_blank hgap hs _ _
  simp only [List.length_append, List.length_cons] at hf
  have hval := hv.reads k (i + q.length + 1 + gap.length) (after ++ c :: r) (by omega)
    (ends_blank hafter hr)
  have hlen : i + q.length + 1 + gap.length + u.length =
      i + (q ++ CodePoint.ofChar ':' :: (gap ++ u)).length := by
    simp only [List.length_append, List.length_cons]
    omega
  rw [hlen] at hval
  have htotal : (q ++ CodePoint.ofChar ':' :: (gap ++ u)) ++ (after ++ c :: r) =
      q ++ CodePoint.ofChar ':' :: (gap ++ (u ++ (after ++ c :: r))) := by
    simp only [List.append_assoc, List.cons_append]
  have hhead : q ++ CodePoint.ofChar ':' :: (gap ++ (u ++ (after ++ c :: r))) =
      CodePoint.ofChar '"' :: (x ++ CodePoint.ofChar ':' :: (gap ++ (u ++ (after ++ c :: r)))) := by
    rw [hx]
    rfl
  rw [htotal, hhead]
  rw [hhead] at htext
  simp only [readMembers, if_true, htext, bind, Except.bind, skipSpace_cons hcolon, List.head?_cons,
    Place.skip_cons, Place.skip_zero, hskip, hval, skipSpace_blank hafter hc]

section
variable {gap between last : Text} (hgap : IsBlank gap) (hbetween : IsBlank between)
  (hlast : IsBlank last)
include hgap hbetween hlast

theorem readMembers_join {t : Text} {m : Text × Value} (ht : ParsesMember levels gap t m)
    {ts : List Text} {ms : List (Text × Value)} (h : List.Forall₂ (ParsesMember levels gap) ts ms)
    (fuel i : Nat) (es : Entries) (r : Text)
    (hf : (Text.join (CodePoint.ofChar ',' :: between) (t :: ts)).length < fuel) :
    readMembers levels fuel es ⟨i, Text.join (CodePoint.ofChar ',' :: between) (t :: ts) ++
        (last ++ CodePoint.ofChar '\x7d' :: r)⟩ =
      .ok ((m :: ms).foldl (fun es m => es.put (.text m.1) m.2) es,
        ⟨i + (Text.join (CodePoint.ofChar ',' :: between) (t :: ts)).length + (last.length + 1),
          r⟩) := by
  have hcomma : isSpace (CodePoint.ofChar ',') = false := by decide
  have hbrace : isSpace (CodePoint.ofChar '\x7d') = false := by decide
  have hquote : isSpace (CodePoint.ofChar '"') = false := by decide
  have hne : CodePoint.ofChar ',' ≠ CodePoint.ofChar '\x7d' := by decide
  induction h generalizing t m fuel i es with
  | nil =>
    obtain ⟨k, rfl⟩ := Nat.exists_eq_succ_of_ne_zero (Nat.ne_of_gt (Nat.lt_of_le_of_lt
      (Nat.zero_le _) hf))
    rw [join_singleton] at hf ⊢
    rw [readMembers_member hgap hlast ht hbrace (ends_brace r) es i (Nat.lt_succ_iff.mp hf)]
    simp only [if_true, Place.skip_cons, Place.skip_zero]
    rw [Nat.add_assoc (i + t.length)]
    rfl
  | @cons u n ts ms hu h ih =>
    obtain ⟨k, rfl⟩ := Nat.exists_eq_succ_of_ne_zero (Nat.ne_of_gt (Nat.lt_of_le_of_lt
      (Nat.zero_le _) hf))
    rw [join_cons, List.cons_append] at hf ⊢
    rw [List.length_append, List.length_cons, List.length_append] at hf
    obtain ⟨x, hx⟩ := hu.quoted
    obtain ⟨y, hy⟩ := join_head (CodePoint.ofChar ',' :: between) hx ts
    have hi := ih hu k (i + t.length + 1 + between.length) (es.put (.text m.1) m.2) (by omega)
    have hskip : skipSpace ⟨i + t.length + 1, between ++
        (Text.join (CodePoint.ofChar ',' :: between) (u :: ts) ++
          (last ++ CodePoint.ofChar '\x7d' :: r))⟩ =
        ⟨i + t.length + 1 + between.length,
          Text.join (CodePoint.ofChar ',' :: between) (u :: ts) ++
            (last ++ CodePoint.ofChar '\x7d' :: r)⟩ := by
      rw [hy]
      exact skipSpace_blank hbetween hquote _ _
    have hm := readMembers_member hgap isBlank_nil ht hcomma (ends_comma
      (between ++ (Text.join (CodePoint.ofChar ',' :: between) (u :: ts) ++
        (last ++ CodePoint.ofChar '\x7d' :: r)))) es i (k := k) (by omega)
    simp only [List.nil_append, List.length_nil, Nat.add_zero, hne, if_true, if_false,
      Place.skip_cons, Place.skip_zero, hskip, hi] at hm
    simp only [List.append_assoc, List.cons_append, hm]
    simp only [List.length_append, List.length_cons]
    rw [show ∀ a b c, i + a + 1 + b + c = i + (a + (b + c + 1)) by omega]
    rfl

theorem parses_mapping {ts : List Text} {ms : List (Text × Value)}
    (h : List.Forall₂ (ParsesMember levels gap) ts ms) (hne : ts ≠ []) :
    Parses (levels + 1) (CodePoint.ofChar '\x7b' :: (between ++
        (Text.join (CodePoint.ofChar ',' :: between) ts ++ (last ++ [CodePoint.ofChar '\x7d']))))
      (.mapping (Entries.ofPairs (ms.map fun m => (.text m.1, m.2)))) where
  head := ⟨_, _, rfl, by decide, by decide, by decide⟩
  reads := by
    intro fuel i r hf hr
    have hq : CodePoint.ofChar '\x7b' ≠ CodePoint.ofChar '"' := by decide
    have hb : CodePoint.ofChar '\x7b' ≠ CodePoint.ofChar '[' := by decide
    have hs : isSpace (CodePoint.ofChar '"') = false := by decide
    have hclose : ¬ some (CodePoint.ofChar '"') = some (CodePoint.ofChar '\x7d') := by decide
    cases h with
    | nil => exact absurd rfl hne
    | @cons t m ts ms ht h =>
      simp only [List.length_cons, List.length_append, List.length_nil] at hf
      obtain ⟨k, rfl⟩ : ∃ k, fuel = k + 1 := ⟨fuel - 1, by omega⟩
      obtain ⟨x, hx⟩ := ht.quoted
      obtain ⟨y, hy⟩ := join_head (CodePoint.ofChar ',' :: between) hx ts
      have hmembers := readMembers_join hgap hbetween hlast ht h k (i + 1 + between.length) [] r
        (by omega)
      rw [hy] at hmembers ⊢
      simp only [List.cons_append, List.append_assoc, List.nil_append] at hmembers ⊢
      simp only [readValue, hq, hb, if_true, if_false, Place.skip_cons, Place.skip_zero,
        skipSpace_blank hbetween hs, List.head?_cons, hclose, hmembers, Except.map,
        Entries.ofPairs, List.foldl_map, List.length_cons, List.length_append, List.length_nil]
      rw [show ∀ a b, i + 1 + between.length + (a + 1) + (b + 1) =
        i + (between.length + (a + (b + (0 + 1)) + 1) + 1) by omega]

end

/-! ## Documents -/

theorem load_parses {text : Text} {v : Value} (h : Parses levels text v) :
    load levels (text ++ "\n") = .ok v := by
  obtain ⟨c, t, hc, hs, -, hascii⟩ := h.head
  have hmark : c ≠ 0xFEFF := by
    rintro rfl
    revert hascii
    decide
  have hends : Ends (Text.ofString "\n") := ends_cons [] (by decide)
  have hr := h.reads (2 * (text ++ Text.ofString "\n").length + 2) 0 _
    (by rw [List.length_append]; omega) hends
  have hend : ∀ i, skipSpace ⟨i, Text.ofString "\n"⟩ = ⟨i + 1, []⟩ := fun _ => rfl
  have hhead : (text ++ Text.ofString "\n").head? ≠ some 0xFEFF := by
    rw [hc]
    exact fun h => hmark (Option.some.inj h)
  have hskip : skipSpace ⟨0, text ++ Text.ofString "\n"⟩ = ⟨0, text ++ Text.ofString "\n"⟩ := by
    rw [hc]
    exact skipSpace_cons hs 0 _
  simp only [load, parse, hhead, if_false, hskip, hr, bind, Except.bind, hend]
  rfl

end ConfigLoader.Json
