import ConfigLoader.Proofs.Modules.Paths

/-! # Sources of modules

A module of a TypeScript file is compiled when its evaluation begins, from the text that the file
holds then. Nothing else is compiled for modules.
-/
namespace ConfigLoader.Modules
open TypeScript.Project (Kept)

/-! ## Names of TypeScript files -/

/-- A name with something before one of the endings of TypeScript files. -/
def IsTypeScriptName (name : Text) : Prop :=
  ∃ stem e, stem ≠ [] ∧ e ∈ compiledExtensions ∧ name = stem ++ e

def allExtensions : List Text := ([".js", ".json", ".node"] : List Text) ++ compiledExtensions

theorem allExtensions_dots : ∀ e ∈ allExtensions, ∃ r, e = CodePoint.ofChar '.' :: r ∧
    CodePoint.ofChar '.' ∉ r := by
  have h : ∀ e ∈ allExtensions, e.head? = some (CodePoint.ofChar '.') ∧
      CodePoint.ofChar '.' ∉ e.tail := by decide
  intro e he
  obtain ⟨h1, h2⟩ := h e he
  cases e with
  | nil => cases h1
  | cons d r =>
    cases h1
    exact ⟨r, rfl, h2⟩

theorem compiled_subset {e : Text} (h : e ∈ compiledExtensions) : e ∈ allExtensions :=
  List.mem_append_right _ h

/-- Of what stands behind the dots of a name only one part is an extension. -/
theorem drop_extension {stem e : Text} {i : Nat} (he : e ∈ allExtensions)
    (hdot : (stem ++ e)[i]? = some (CodePoint.ofChar '.'))
    (hext : (stem ++ e).drop i ∈ allExtensions) : (stem ++ e).drop i = e := by
  obtain ⟨r, rfl, hr⟩ := allExtensions_dots e he
  obtain ⟨q, hq, hnot⟩ := allExtensions_dots _ hext
  rcases Nat.lt_trichotomy i stem.length with hlt | heq | hgt
  · -- the dot of the ending stands within the longer part
    refine absurd (List.mem_of_getElem? (i := stem.length - i - 1) ?_) hnot
    have h : ((stem ++ CodePoint.ofChar '.' :: r).drop i)[stem.length - i]? =
        some (CodePoint.ofChar '.') := by
      rw [List.getElem?_drop, Nat.add_sub_cancel' (Nat.le_of_lt hlt)]
      simp
    rw [hq, ← Nat.sub_add_cancel (Nat.sub_pos_of_lt hlt)] at h
    simpa using h
  · rw [heq, List.drop_left]
  · -- the other dot stands within the ending
    refine absurd (List.mem_of_getElem? (i := i - stem.length - 1) ?_) hr
    rw [List.getElem?_append_right (Nat.le_of_lt hgt),
      ← Nat.sub_add_cancel (Nat.sub_pos_of_lt hgt)] at hdot
    simpa using hdot

/-- The ending that a name is read with is one of a TypeScript file if and only if the name is one
of such a file: no shorter and no longer ending is handled. -/
theorem extensionOf_compiled (name : Text) :
    extensionOf allExtensions name ∈ compiledExtensions ↔ IsTypeScriptName name := by
  have hdefault : Text.ofString ".js" ∉ compiledExtensions := by decide
  unfold extensionOf
  dsimp only
  constructor
  · intro h
    cases hf : (((List.range name.length).filter fun i => 0 < i &&
        name[i]? = some (CodePoint.ofChar '.')).map fun i => name.drop i).find?
          allExtensions.contains with
    | none =>
      rw [hf] at h
      exact absurd h hdefault
    | some e =>
      rw [hf] at h
      obtain ⟨i, hi, rfl⟩ := List.mem_map.mp (List.mem_of_find?_eq_some hf)
      obtain ⟨hlt, hpos⟩ := List.mem_filter.mp hi
      simp only [Bool.and_eq_true, decide_eq_true_eq] at hpos
      refine ⟨name.take i, name.drop i, fun htake => ?_, h, (List.take_append_drop i name).symm⟩
      have hlength := congrArg List.length htake
      rw [List.length_take, List.length_nil] at hlength
      have hrange := List.mem_range.mp hlt
      omega
  · rintro ⟨stem, e, hstem, he, rfl⟩
    have hmem : e ∈ ((List.range (stem ++ e).length).filter fun i => 0 < i &&
        (stem ++ e)[i]? = some (CodePoint.ofChar '.')).map fun i => (stem ++ e).drop i := by
      obtain ⟨r, rfl, -⟩ := allExtensions_dots e (compiled_subset he)
      refine List.mem_map.mpr ⟨stem.length, List.mem_filter.mpr ⟨?_, ?_⟩, by simp⟩
      · simp
      · simp [List.length_pos_iff.mpr hstem]
    have honly : ∀ a ∈ ((List.range (stem ++ e).length).filter fun i => 0 < i &&
        (stem ++ e)[i]? = some (CodePoint.ofChar '.')).map fun i => (stem ++ e).drop i,
        allExtensions.contains a = true → a = e := by
      intro a ha hext
      obtain ⟨i, hi, rfl⟩ := List.mem_map.mp ha
      have hdot : (stem ++ e)[i]? = some (CodePoint.ofChar '.') := by
        have h := (List.mem_filter.mp hi).2
        simp only [Bool.and_eq_true, decide_eq_true_eq] at h
        exact h.2
      exact drop_extension (compiled_subset he) hdot (by simpa using hext)
    cases hf : (((List.range (stem ++ e).length).filter fun i => 0 < i &&
        (stem ++ e)[i]? = some (CodePoint.ofChar '.')).map fun i => (stem ++ e).drop i).find?
          allExtensions.contains with
    | none =>
      have h := List.find?_eq_none.mp hf e hmem
      simp [compiled_subset he] at h
    | some a =>
      have h := honly a (List.mem_of_find?_eq_some hf) (List.find?_some hf)
      rw [Option.getD_some, h]
      exact he

/-! ## Compiled modules -/

variable {c : Surroundings} {learn : Text → Text → Kept → Kept} {x y : Standing}
  {before after : List Event} {file source : Text}

theorem Path.compiled {kept : Kept}
    (h : Path c learn x (before ++ .compiled file source kept :: after) y) (hx : x.due = none) :
    (∃ earlier, before = earlier ++ [.began file]) ∧ sourceOf? c file = some source := by
  obtain ⟨z, h1, h2⟩ := h.split
  cases h2 with
  | cons step rest =>
    cases step with
    | compiled hdue hfile =>
      rcases List.eq_nil_or_concat before with rfl | ⟨earlier, e, rfl⟩
      · cases h1
        rw [hx] at hdue
        cases hdue
      · rw [List.concat_eq_append] at h1 ⊢
        obtain ⟨u, -, h3⟩ := h1.split
        cases h3 with
        | cons last none =>
          cases none
          cases last with
          | began hnone hnew =>
            cases hfile
            exact ⟨⟨earlier, rfl⟩, hdue⟩
          | compiled _ _ => cases hdue
          | asked _ _ hnone | opened _ hnone | reused hnone _ | completed hnone _ | stopped hnone _ =>
            cases hnone.symm.trans hdue

theorem Path.compiles (h : Path c learn x (before ++ .began file :: after) y) (hy : y.due = none)
    (hsource : sourceOf? c file = some source) :
    ∃ kept later, after = .compiled file source kept :: later := by
  obtain ⟨z, -, h2⟩ := h.split
  cases h2 with
  | cons step rest =>
    cases step with
    | began hdue hnew =>
      have hnext : sourceOf? c file ≠ none := by simp [hsource]
      cases rest with
      | nil => exact absurd hy hnext
      | cons step rest =>
        cases step with
        | compiled hdue hfile =>
          cases hfile
          have hdue := hsource.symm.trans hdue
          cases hdue
          exact ⟨_, _, rfl⟩
        | asked _ _ hnone | opened _ hnone | reused hnone _ | began hnone _ | completed hnone _
        | stopped hnone _ =>
          exact absurd hnone hnext

end ConfigLoader.Modules
