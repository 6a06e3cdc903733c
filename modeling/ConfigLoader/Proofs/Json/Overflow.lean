import ConfigLoader.Proofs.Json.Documents

/-! # Documents that lie too deep

A list or a mapping takes one of the levels that are left for it. What a script writes of a value is read
where there are as many levels as lie in the value; with fewer, reading ends at the first list or mapping
that no level is left for.
-/
namespace ConfigLoader.Json

/-! ## Lists and mappings -/

section
variable {levels : Nat} {α : Type} {text : α → Text}

theorem join_starts {t : Text} (ht : Starts t) (sep : Text) (ts : List Text) :
    Starts (Text.join sep (t :: ts)) := by
  obtain ⟨c, r, hc, hrest⟩ := ht
  obtain ⟨u, hu⟩ := join_head sep hc ts
  exact ⟨c, u, hu, hrest⟩

theorem skipSpace_starts {t : Text} (ht : Starts t) (i : Nat) (r : Text) :
    skipSpace ⟨i, t ++ r⟩ = ⟨i, t ++ r⟩ := by
  obtain ⟨c, u, rfl, hs, -⟩ := ht
  exact skipSpace_cons hs i (u ++ r)

/-- Of items one of which does not fit, those before the first such are read. By induction on the
items. -/
theorem readItems_overflows (items : List α)
    (h : ∀ a ∈ items, (∃ v, Parses levels (text a) v) ∨ Overflows levels (text a))
    (hdeep : ∃ a ∈ items, Overflows levels (text a)) (fuel i : Nat) (acc : List Value) (r : Text)
    (hf : (Text.join [CodePoint.ofChar ','] (items.map text)).length < fuel) :
    ∃ isMapping j,
      readItems levels fuel acc ⟨i, Text.join [CodePoint.ofChar ','] (items.map text) ++ r⟩ =
        .error ⟨.tooDeep isMapping, j⟩ := by
  induction items generalizing fuel i acc with
  | nil =>
    obtain ⟨a, ha, -⟩ := hdeep
    cases ha
  | cons a items ih =>
    obtain ⟨k, rfl⟩ := Nat.exists_eq_succ_of_ne_zero (Nat.ne_of_gt (Nat.lt_of_le_of_lt
      (Nat.zero_le _) hf))
    by_cases ha : Overflows levels (text a)
    · obtain ⟨rest, hrest⟩ : ∃ rest, Text.join [CodePoint.ofChar ','] ((a :: items).map text) =
          text a ++ rest := by
        cases items with
        | nil => exact ⟨[], rfl⟩
        | cons b items => exact ⟨_, join_cons ..⟩
      rw [hrest] at hf ⊢
      rw [List.length_append] at hf
      obtain ⟨m, j, hm⟩ := ha.fails k i (rest ++ r) (by omega)
      refine ⟨m, j, ?_⟩
      simp only [List.append_assoc, readItems, hm, bind, Except.bind]
    · obtain ⟨v, hv⟩ := (h a (List.mem_cons_self ..)).resolve_right ha
      obtain ⟨b, hb, hbdeep⟩ := hdeep
      have hb : b ∈ items := (List.mem_cons.mp hb).resolve_left fun hba => ha (hba ▸ hbdeep)
      cases items with
      | nil => cases hb
      | cons c items =>
        have hc : Starts (text c) := by
          rcases h c (List.mem_cons_of_mem _ (List.mem_cons_self ..)) with ⟨w, hw⟩ | hw
          · exact hw.head
          · exact hw.head
        have hcomma : isSpace (CodePoint.ofChar ',') = false := by decide
        have hne : CodePoint.ofChar ',' ≠ CodePoint.ofChar ']' := by decide
        rw [List.map_cons, List.map_cons, join_cons, List.singleton_append] at hf ⊢
        rw [List.length_append, List.length_cons] at hf
        obtain ⟨m, j, hm⟩ := ih (fun d hd => h d (List.mem_cons_of_mem _ hd)) ⟨b, hb, hbdeep⟩ k
          (i + (text a).length + 1) (v :: acc) (by rw [List.map_cons]; omega)
        rw [List.map_cons] at hm
        have hread := hv.reads k i _ (by omega) (ends_comma
          (Text.join [CodePoint.ofChar ','] (text c :: items.map text) ++ r))
        refine ⟨m, j, ?_⟩
        simp only [List.append_assoc, List.cons_append, readItems, hread, bind, Except.bind,
          skipSpace_cons hcomma, hne, if_true, if_false, Place.skip_cons, Place.skip_zero,
          skipSpace_starts (join_starts hc _ _), hm]

theorem readMembers_overflows (items : List α)
    (h : ∀ a ∈ items, (∃ m, ParsesMember levels [] (text a) m) ∨ OverflowsMember levels [] (text a))
    (hdeep : ∃ a ∈ items, OverflowsMember levels [] (text a)) (fuel i : Nat) (es : Entries) (r : Text)
    (hf : (Text.join [CodePoint.ofChar ','] (items.map text)).length < fuel) :
    ∃ isMapping j,
      readMembers levels fuel es ⟨i, Text.join [CodePoint.ofChar ','] (items.map text) ++ r⟩ =
        .error ⟨.tooDeep isMapping, j⟩ := by
  induction items generalizing fuel i es with
  | nil =>
    obtain ⟨a, ha, -⟩ := hdeep
    cases ha
  | cons a items ih =>
    obtain ⟨k, rfl⟩ := Nat.exists_eq_succ_of_ne_zero (Nat.ne_of_gt (Nat.lt_of_le_of_lt
      (Nat.zero_le _) hf))
    by_cases ha : OverflowsMember levels [] (text a)
    · obtain ⟨rest, hrest⟩ : ∃ rest, Text.join [CodePoint.ofChar ','] ((a :: items).map text) =
          text a ++ rest := by
        cases items with
        | nil => exact ⟨[], rfl⟩
        | cons b items => exact ⟨_, join_cons ..⟩
      rw [hrest] at hf ⊢
      generalize text a = t at ha hf
      obtain ⟨hname, hv⟩ := ha
      rename_i q u name
      obtain ⟨x, hx⟩ := hname.head
      have hcolon : isSpace (CodePoint.ofChar ':') = false := by decide
      simp only [List.length_append, List.length_cons, List.nil_append] at hf
      have htext := hname.reads i (CodePoint.ofChar ':' :: (u ++ (rest ++ r)))
      obtain ⟨m, j, hm⟩ := hv.fails k (i + q.length + 1) (rest ++ r) (by omega)
      refine ⟨m, j, ?_⟩
      have htotal : (q ++ CodePoint.ofChar ':' :: ([] ++ u)) ++ rest ++ r =
          CodePoint.ofChar '"' :: (x ++ CodePoint.ofChar ':' :: (u ++ (rest ++ r))) := by
        rw [hx]
        simp only [List.append_assoc, List.cons_append, List.nil_append]
      rw [hx, List.cons_append] at htext
      rw [htotal]
      simp only [readMembers, if_true, htext, bind, Except.bind, skipSpace_cons hcolon,
        List.head?_cons, Place.skip_cons, Place.skip_zero, ← hx, skipSpace_starts hv.head, hm]
    · obtain ⟨m, hm⟩ := (h a (List.mem_cons_self ..)).resolve_right ha
      obtain ⟨b, hb, hbdeep⟩ := hdeep
      have hb : b ∈ items := (List.mem_cons.mp hb).resolve_left fun hba => ha (hba ▸ hbdeep)
      cases items with
      | nil => cases hb
      | cons c items =>
        have hcomma : isSpace (CodePoint.ofChar ',') = false := by decide
        have hne : CodePoint.ofChar ',' ≠ CodePoint.ofChar '\x7d' := by decide
        have hc : Starts (text c) := by
          have hquoted : ∃ x, text c = CodePoint.ofChar '"' :: x := by
            rcases h c (List.mem_cons_of_mem _ (List.mem_cons_self ..)) with ⟨_, hn⟩ | hn
            · exact hn.quoted
            · exact hn.quoted
          obtain ⟨x, hx⟩ := hquoted
          exact ⟨_, x, hx, by decide, by decide, by decide⟩
        rw [List.map_cons, List.map_cons, join_cons, List.singleton_append] at hf ⊢
        rw [List.length_append, List.length_cons] at hf
        obtain ⟨isMapping, j, hj⟩ := ih (fun d hd => h d (List.mem_cons_of_mem _ hd)) ⟨b, hb, hbdeep⟩
          k (i + (text a).length + 1) (es.put (.text m.1) m.2) (by rw [List.map_cons]; omega)
        rw [List.map_cons] at hj
        have hread := readMembers_member isBlank_nil isBlank_nil hm hcomma (ends_comma
          (Text.join [CodePoint.ofChar ','] (text c :: items.map text) ++ r)) es i (k := k) (by omega)
        simp only [List.nil_append, List.length_nil, Nat.add_zero, hne, if_true, if_false,
          Place.skip_cons, Place.skip_zero, skipSpace_starts (join_starts hc _ _), hj] at hread
        refine ⟨isMapping, j, ?_⟩
        simp only [List.append_assoc, List.cons_append, hread]

theorem overflows_zero (t : Text) :
    Overflows 0 (CodePoint.ofChar '[' :: t) ∧ Overflows 0 (CodePoint.ofChar '\x7b' :: t) := by
  constructor
  all_goals
    refine ⟨⟨_, _, rfl, by decide, by decide, by decide⟩, fun fuel i r hf => ?_⟩
    obtain ⟨k, rfl⟩ := Nat.exists_eq_succ_of_ne_zero (Nat.ne_of_gt (Nat.lt_of_lt_of_le
      (Nat.succ_pos _) hf))
    exact ⟨_, i, rfl⟩

theorem overflows_list (items : List α)
    (h : ∀ a ∈ items, (∃ v, Parses levels (text a) v) ∨ Overflows levels (text a))
    (hdeep : ∃ a ∈ items, Overflows levels (text a)) :
    Overflows (levels + 1) (CodePoint.ofChar '[' ::
      (Text.join [CodePoint.ofChar ','] (items.map text) ++ [CodePoint.ofChar ']'])) where
  head := ⟨_, _, rfl, by decide, by decide, by decide⟩
  fails := by
    intro fuel i r hf
    have hq : CodePoint.ofChar '[' ≠ CodePoint.ofChar '"' := by decide
    simp only [List.length_cons, List.length_append, List.length_nil] at hf
    obtain ⟨k, rfl⟩ : ∃ k, fuel = k + 1 := ⟨fuel - 1, by omega⟩
    obtain ⟨m, j, hm⟩ := readItems_overflows items h hdeep k (i + 1) []
      (CodePoint.ofChar ']' :: r) (by omega)
    cases items with
    | nil =>
      obtain ⟨a, ha, -⟩ := hdeep
      cases ha
    | cons a items =>
      have ha : Starts (text a) := by
        rcases h a (List.mem_cons_self ..) with ⟨w, hw⟩ | hw
        · exact hw.head
        · exact hw.head
      have hstart := join_starts ha [CodePoint.ofChar ','] (items.map text)
      obtain ⟨c, u, hu, hs, hne, -⟩ := hstart
      have hne : ¬ some c = some (CodePoint.ofChar ']') := fun h => hne (Option.some.inj h)
      refine ⟨m, j, ?_⟩
      rw [List.map_cons] at hm ⊢
      rw [hu] at hm ⊢
      simp only [List.cons_append, List.append_assoc, List.nil_append] at hm ⊢
      simp only [readValue, hq, if_true, if_false, Place.skip_cons, Place.skip_zero,
        skipSpace_cons hs, List.head?_cons, hne, hm, Except.map]

theorem overflows_mapping (items : List α)
    (h : ∀ a ∈ items, (∃ m, ParsesMember levels [] (text a) m) ∨ OverflowsMember levels [] (text a))
    (hdeep : ∃ a ∈ items, OverflowsMember levels [] (text a)) :
    Overflows (levels + 1) (CodePoint.ofChar '\x7b' ::
      (Text.join [CodePoint.ofChar ','] (items.map text) ++ [CodePoint.ofChar '\x7d'])) where
  head := ⟨_, _, rfl, by decide, by decide, by decide⟩
  fails := by
    intro fuel i r hf
    have hq : CodePoint.ofChar '\x7b' ≠ CodePoint.ofChar '"' := by decide
    have hb : CodePoint.ofChar '\x7b' ≠ CodePoint.ofChar '[' := by decide
    have hs : isSpace (CodePoint.ofChar '"') = false := by decide
    have hclose : ¬ some (CodePoint.ofChar '"') = some (CodePoint.ofChar '\x7d') := by decide
    simp only [List.length_cons, List.length_append, List.length_nil] at hf
    obtain ⟨k, rfl⟩ : ∃ k, fuel = k + 1 := ⟨fuel - 1, by omega⟩
    obtain ⟨m, j, hm⟩ := readMembers_overflows items h hdeep k (i + 1) []
      (CodePoint.ofChar '\x7d' :: r) (by omega)
    cases items with
    | nil =>
      obtain ⟨a, ha, -⟩ := hdeep
      cases ha
    | cons a items =>
      obtain ⟨x, hx⟩ := (h a (List.mem_cons_self ..)).elim (fun ⟨_, hn⟩ => hn.quoted)
        fun hn => hn.quoted
      obtain ⟨u, hu⟩ := join_head [CodePoint.ofChar ','] hx (items.map text)
      refine ⟨m, j, ?_⟩
      rw [List.map_cons] at hm ⊢
      rw [hu] at hm ⊢
      simp only [List.cons_append, List.append_assoc, List.nil_append] at hm ⊢
      simp only [readValue, hq, hb, if_true, if_false, Place.skip_cons, Place.skip_zero,
        skipSpace_cons hs, List.head?_cons, hclose, hm, Except.map]

/-- A document that lies too deep is not read. -/
theorem load_overflows {t : Text} (h : Overflows levels t) :
    ∃ f, load levels (t ++ "\n") = .error f ∧ f.kind = .recursionError := by
  obtain ⟨c, u, hc, hs, -, hascii⟩ := h.head
  have hmark : c ≠ 0xFEFF := by
    rintro rfl
    revert hascii
    decide
  obtain ⟨m, j, hm⟩ := h.fails (2 * (t ++ Text.ofString "\n").length + 2) 0 (Text.ofString "\n")
    (by rw [List.length_append]; omega)
  have hhead : (t ++ Text.ofString "\n").head? ≠ some 0xFEFF := by
    rw [hc]
    exact fun h => hmark (Option.some.inj h)
  refine ⟨Error.fault (t ++ Text.ofString "\n") ⟨.tooDeep m, j⟩, ?_, rfl⟩
  simp only [load, parse, hhead, if_false, skipSpace_starts h.head, hm, bind, Except.bind]
  rfl

end

/-! ## What a script writes -/

namespace Canonical

theorem parses_or_overflows {v : Value} {l : Nat} (h : l < levels v → Overflows l (print v)) :
    (∃ w, Parses l (print v) w) ∨ Overflows l (print v) :=
  (Nat.lt_or_ge l (levels v)).elim (fun hl => .inr (h hl)) fun hl => .inl ⟨_, parses_print v hl⟩

mutual

/-- What is written of a value is not read where more levels lie in it than are left. -/
theorem print_overflows : (v : Value) → {l : Nat} → l < levels v → Overflows l (print v)
  | .list vs, 0, _ => (overflows_zero _).1
  | .list vs, l + 1, h => by
    have hdeep : ∃ v ∈ vs, l < levels v := by
      by_contra hall
      push Not at hall
      exact Nat.lt_irrefl _ (Nat.lt_of_lt_of_le (Nat.lt_of_succ_lt_succ h) (itemLevels_le.mpr hall))
    obtain ⟨v, hv, hl⟩ := hdeep
    rw [print_list]
    exact overflows_list vs (fun a ha => parses_or_overflows (items_overflow vs a ha))
      ⟨v, hv, items_overflow vs v hv hl⟩
  | .mapping es, 0, _ => by
    rw [print_mapping]
    exact (overflows_zero _).2
  | .mapping es, l + 1, h => by
    have hdeep : ∃ m ∈ members es, l < levels m.2 := by
      by_contra hall
      push Not at hall
      exact Nat.lt_irrefl _
        (Nat.lt_of_lt_of_le (Nat.lt_of_succ_lt_succ h) (memberLevels_le_members.mpr hall))
    obtain ⟨m, hm, hl⟩ := hdeep
    have hperm := order_perm Prod.fst (members es)
    have hmember : ∀ m ∈ members es, l < levels m.2 → OverflowsMember l [] (memberText m) :=
      fun m hm hl => .mk (parses_quote m.1) (members_overflow es m hm hl)
    rw [print_mapping]
    refine overflows_mapping (order Prod.fst (members es)) (fun a ha => ?_)
      ⟨m, hperm.mem_iff.mpr hm, hmember m hm hl⟩
    have ha := hperm.mem_iff.mp ha
    rcases Nat.lt_or_ge l (levels a.2) with hla | hla
    · exact .inr (hmember a ha hla)
    · exact .inl ⟨_, parses_member (parses_print a.2 hla)⟩
  | .null, _, h | .bool _, _, h | .int _, _, h | .float _, _, h | .text _, _, h | .bytes _, _, h
  | .date _, _, h | .dateTime _, _, h | .tuple _, _, h | .set _, _, h | .cycle _, _, h =>
    absurd h (Nat.not_lt_zero _)

theorem items_overflow : (vs : List Value) → {l : Nat} → ∀ v ∈ vs, l < levels v →
    Overflows l (print v)
  | v :: vs, _, w, hw, h => by
    rcases List.mem_cons.mp hw with hwv | hw
    · rw [hwv] at h ⊢
      exact print_overflows v h
    · exact items_overflow vs w hw h

theorem members_overflow : (es : List (Value × Value)) → {l : Nat} → ∀ m ∈ members es,
    l < levels m.2 → Overflows l (print m.2)
  | (_, v) :: es, _, m, hm, h => by
    rcases List.mem_cons.mp hm with rfl | hm
    · exact print_overflows v h
    · exact members_overflow es m hm h

end

theorem load_line_cases (l : Nat) (v : Value) :
    (levels v ≤ l ∧ load l (print v ++ "\n") = .ok (received v)) ∨
    (l < levels v ∧
      ∃ f, load l (print v ++ "\n") = .error f ∧ f.kind = .recursionError) :=
  (Nat.lt_or_ge l (levels v)).elim
    (fun h => .inr ⟨h, load_overflows (print_overflows v h)⟩) fun h => .inl ⟨h, load_line h⟩

end Canonical
end ConfigLoader.Json
