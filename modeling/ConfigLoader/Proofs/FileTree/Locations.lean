import ConfigLoader.FileTree

/-! # Places as paths

The place that a path names is made of proper names: none is empty, dots or holds a slash. Such a
place is named by its own path.
-/
namespace ConfigLoader.Path

structure IsProper (n : Text) : Prop where
  nonempty : n ≠ []
  noDot : n ≠ Text.ofString "."
  noDots : n ≠ Text.ofString ".."
  noSlash : CodePoint.ofChar '/' ∉ n

abbrev AreProper (l : Location) : Prop := ∀ n ∈ l, IsProper n

theorem AreProper.concat {l : Location} (hl : AreProper l) {n : Text} (hn : IsProper n) :
    AreProper (l ++ [n]) := by
  intro m hm
  rcases List.mem_append.mp hm with hm | hm
  · exact hl m hm
  · rw [List.mem_singleton.mp hm]
    exact hn

theorem splitAt_ne_nil (c : CodePoint) (t : Text) : Text.splitAt c t ≠ [] := by
  cases t with
  | nil => simp [Text.splitAt]
  | cons d r =>
    unfold Text.splitAt
    split
    · simp
    · split <;> simp

/-- No part of a text that is taken apart holds what it is taken apart at. -/
theorem not_mem_splitAt (c : CodePoint) {t p : Text} (hp : p ∈ Text.splitAt c t) : c ∉ p := by
  induction t generalizing p with
  | nil =>
    simp only [Text.splitAt, List.mem_singleton] at hp
    simp [hp]
  | cons d r ih =>
    unfold Text.splitAt at hp
    split at hp
    · rcases List.mem_cons.mp hp with rfl | hp
      · simp
      · exact ih hp
    · rename_i hd
      cases hs : Text.splitAt c r with
      | nil => exact absurd hs (splitAt_ne_nil c r)
      | cons q qs =>
        rw [hs] at hp ih
        rcases List.mem_cons.mp hp with rfl | hp
        · intro hc
          rcases List.mem_cons.mp hc with rfl | hc
          · exact hd rfl
          · exact ih (List.mem_cons_self ..) hc
        · exact ih (List.mem_cons_of_mem _ hp)

/-- A text without the separator stays whole in front of one. -/
theorem splitAt_append {c : CodePoint} {n : Text} (hn : c ∉ n) (t : Text) :
    Text.splitAt c (n ++ c :: t) = n :: Text.splitAt c t := by
  induction n with
  | nil => simp [Text.splitAt]
  | cons d r ih =>
    have hd : d ≠ c := fun h => hn (h ▸ List.mem_cons_self ..)
    have hr : c ∉ r := fun h => hn (List.mem_cons_of_mem _ h)
    simp only [List.cons_append, Text.splitAt, hd, if_false, ih hr]

theorem splitAt_whole {c : CodePoint} {n : Text} (hn : c ∉ n) : Text.splitAt c n = [n] := by
  induction n with
  | nil => rfl
  | cons d r ih =>
    have hd : d ≠ c := fun h => hn (h ▸ List.mem_cons_self ..)
    have hr : c ∉ r := fun h => hn (List.mem_cons_of_mem _ h)
    simp only [Text.splitAt, hd, if_false, ih hr]

theorem mem_names {p n : Text} (hn : n ∈ names p) :
    n ≠ [] ∧ n ≠ Text.ofString "." ∧ CodePoint.ofChar '/' ∉ n := by
  obtain ⟨hs, hf⟩ := List.mem_filter.mp hn
  simp only [Bool.and_eq_true, Bool.not_eq_true', bne_iff_ne, ne_eq] at hf
  exact ⟨by simpa using hf.1, hf.2, not_mem_splitAt _ hs⟩

theorem takeName_name (absolute : Bool) (before : List Text) {n : Text}
    (hn : n ≠ Text.ofString "..") : takeName absolute before n = n :: before := by
  have hb : (n == Text.ofString "..") = false := by simpa using hn
  simp only [takeName, hb, Bool.false_eq_true, if_false]

/-- Taking a name adds no pair of dots to an absolute path, and no name but the one taken. -/
theorem mem_takeName {before : List Text} (hb : ∀ m ∈ before, m ≠ Text.ofString "..")
    {n m : Text} (hm : m ∈ takeName true before n) :
    (m = n ∨ m ∈ before) ∧ m ≠ Text.ofString ".." := by
  by_cases hn : n = Text.ofString ".."
  · subst hn
    cases before with
    | nil => simp [takeName] at hm
    | cons k r =>
      have hk : (k == Text.ofString "..") = false := by simpa using hb k (List.mem_cons_self ..)
      simp only [takeName, beq_self_eq_true, if_true, hk, Bool.false_eq_true, if_false] at hm
      have hr := List.mem_cons_of_mem k hm
      exact ⟨.inr hr, hb m hr⟩
  · rw [takeName_name true before hn] at hm
    rcases List.mem_cons.mp hm with rfl | hm
    · exact ⟨.inl rfl, hn⟩
    · exact ⟨.inr hm, hb m hm⟩

theorem mem_foldl_takeName {ns before : List Text}
    (hb : ∀ m ∈ before, m ≠ Text.ofString "..") {m : Text}
    (hm : m ∈ ns.foldl (takeName true) before) :
    (m ∈ ns ∨ m ∈ before) ∧ m ≠ Text.ofString ".." := by
  induction ns generalizing before with
  | nil => exact ⟨.inr hm, hb m hm⟩
  | cons n ns ih =>
    obtain ⟨h1, h2⟩ := ih (fun k hk => (mem_takeName hb hk).2) hm
    refine ⟨?_, h2⟩
    rcases h1 with h1 | h1
    · exact .inl (List.mem_cons_of_mem _ h1)
    · rcases (mem_takeName hb h1).1 with rfl | h1
      · exact .inl (List.mem_cons_self ..)
      · exact .inr h1

/-- What is left of an absolute path holds no pair of dots, and no name that was not there. -/
theorem mem_collapse {ns : List Text} {n : Text} (hn : n ∈ collapse true ns) :
    n ∈ ns ∧ n ≠ Text.ofString ".." := by
  obtain ⟨h1, h2⟩ := mem_foldl_takeName (by simp) (List.mem_reverse.mp hn)
  exact ⟨h1.resolve_right (by simp), h2⟩

theorem foldl_takeName_names {absolute : Bool} {ns : List Text}
    (hns : ∀ n ∈ ns, n ≠ Text.ofString "..") (before : List Text) :
    ns.foldl (takeName absolute) before = ns.reverse ++ before := by
  induction ns generalizing before with
  | nil => rfl
  | cons n ns ih =>
    rw [List.foldl_cons, takeName_name _ _ (hns n (List.mem_cons_self ..)),
      ih (fun k hk => hns k (List.mem_cons_of_mem _ hk)), List.reverse_cons, List.append_assoc]
    rfl

theorem collapse_names {absolute : Bool} {ns : List Text}
    (hns : ∀ n ∈ ns, n ≠ Text.ofString "..") : collapse absolute ns = ns := by
  rw [collapse, foldl_takeName_names hns, List.append_nil, List.reverse_reverse]

/-- The place that a path names is made of proper names. -/
theorem toLocation_proper (p : Text) : AreProper (toLocation p) := by
  intro n hn
  obtain ⟨hnames, hdots⟩ := mem_collapse hn
  obtain ⟨h1, h2, h3⟩ := mem_names hnames
  exact ⟨h1, h2, hdots, h3⟩

theorem names_proper {l : Location} (hl : AreProper l) : names l.text = l := by
  have hfilter : l.filter (fun n => !n.isEmpty && n != Text.ofString ".") = l := by
    refine List.filter_eq_self.mpr fun n hn => ?_
    simp [(hl n hn).nonempty, (hl n hn).noDot]
  have hsplit : ∀ l : Location, l ≠ [] → (∀ n ∈ l, CodePoint.ofChar '/' ∉ n) →
      Text.splitAt '/' (l.flatMap fun n => '/' :: n) = [] :: l := by
    intro l
    induction l with
    | nil => exact fun h => absurd rfl h
    | cons n l ih =>
      intro _ hslash
      have hn := hslash n (List.mem_cons_self ..)
      cases l with
      | nil => simp [Text.splitAt, splitAt_whole hn]
      | cons m r =>
        have hrest := ih (by simp) fun k hk => hslash k (List.mem_cons_of_mem _ hk)
        simp only [List.flatMap_cons, List.cons_append] at hrest ⊢
        simp only [Text.splitAt, if_true, List.cons.injEq, true_and] at hrest ⊢
        rw [splitAt_append hn, hrest]
  cases l with
  | nil => rfl
  | cons n r =>
    have hs := hsplit (n :: r) (by simp) fun m hm => (hl m hm).noSlash
    show ((Text.splitAt '/' ((n :: r).flatMap fun n => '/' :: n)).filter _) = _
    rw [hs, List.filter_cons]
    simpa using hfilter

@[simp] theorem isAbsolute_text (l : Location) : isAbsolute l.text = true := by
  cases l <;> rfl

/-- A place of proper names is named by its own path. -/
theorem toLocation_text {l : Location} (hl : AreProper l) : toLocation l.text = l := by
  rw [toLocation, names_proper hl, collapse_names fun n hn => (hl n hn).noDots]

end ConfigLoader.Path

theorem ConfigLoader.FileTree.at?_mem (t : FileTree) {l : Location} {e : Entry} (hl : l ≠ [])
    (h : t.at? l = some e) : (l, e) ∈ t.entries := by
  cases l with
  | nil => exact absurd rfl hl
  | cons n r =>
    obtain ⟨x, hx, rfl⟩ := Option.map_eq_some_iff.mp h
    have hplace : x.1 = n :: r := by simpa using List.find?_some hx
    exact hplace ▸ List.mem_of_find?_eq_some hx

theorem ConfigLoader.FileTree.hasFile_eq (t : FileTree) (p : Text) :
    t.hasFile p = (t.text? p).isSome := by
  unfold hasFile text? bytes
  cases t.stat p with
  | error e => rfl
  | ok e => cases e <;> rfl
