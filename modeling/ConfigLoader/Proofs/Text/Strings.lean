import Mathlib.Data.List.Basic
import ConfigLoader.Text.Printable

/-! # Texts that are strings

A text is a string if it has no surrogates. What is put together from strings, digits and escapes is one.
-/
namespace ConfigLoader

def Text.IsString (t : Text) : Prop := ∀ c ∈ t, c.isSurrogate = false

namespace Text
variable {t u : Text} {c : CodePoint}

@[simp] theorem isString_nil : IsString [] := nofun

@[simp] theorem isString_cons : IsString (c :: t) ↔ c.isSurrogate = false ∧ t.IsString :=
  List.forall_mem_cons

@[simp] theorem isString_append : IsString (t ++ u) ↔ t.IsString ∧ u.IsString :=
  List.forall_mem_append

@[simp] theorem isString_ite {p : Prop} [Decidable p] :
    IsString (if p then t else u) ↔ (p → t.IsString) ∧ (¬p → u.IsString) := by
  split
  · next hp => exact ⟨fun h => ⟨fun _ => h, fun hn => absurd hp hn⟩, fun h => h.1 hp⟩
  · next hp => exact ⟨fun h => ⟨fun h' => absurd h' hp, fun _ => h⟩, fun h => h.2 hp⟩

theorem IsString.sublist (h : u.IsString) (hs : t.Sublist u) : t.IsString :=
  fun c hc => h c (hs.subset hc)

theorem isString_replicate (n : Nat) (h : c.isSurrogate = false) :
    IsString (List.replicate n c) := by
  intro d hd
  rw [List.eq_of_mem_replicate hd]
  exact h

theorem isString_flatMap {f : CodePoint → Text} (h : ∀ c ∈ t, (f c).IsString) :
    IsString (t.flatMap f) := by
  intro d hd
  obtain ⟨c, hc, hd⟩ := List.mem_flatMap.mp hd
  exact h c hc d hd

@[simp] theorem isSurrogate_ofChar (c : Char) : (CodePoint.ofChar c).isSurrogate = false := by
  have h := c.valid
  simp only [UInt32.isValidChar, Nat.isValidChar] at h
  have hv : (CodePoint.ofChar c).val = c.val.toNat := rfl
  rw [CodePoint.isSurrogate, hv, Bool.and_eq_false_iff, decide_eq_false_iff_not,
    decide_eq_false_iff_not]
  omega

theorem isString_map_ofChar (cs : List Char) : IsString (cs.map CodePoint.ofChar) := by
  intro d hd
  obtain ⟨c, -, rfl⟩ := List.mem_map.mp hd
  exact isSurrogate_ofChar c

@[simp] theorem isString_ofString (s : String) : IsString (ofString s) := isString_map_ofChar _

@[simp] theorem isString_ofNat (n : Nat) : IsString (ofNat n) := isString_map_ofChar _

@[simp] theorem isString_ofInt (n : Int) : IsString (ofInt n) := by
  cases n with
  | ofNat n => exact isString_ofNat n
  | negSucc n => exact isString_cons.mpr ⟨isSurrogate_ofChar '-', isString_ofNat (n + 1)⟩

@[simp] theorem isString_hex (width n : Nat) : IsString (hex width n) :=
  isString_append.mpr ⟨isString_replicate _ (isSurrogate_ofChar '0'), isString_map_ofChar _⟩

@[simp] theorem isString_padded (width n : Nat) : IsString (padded width n) :=
  isString_append.mpr ⟨isString_replicate _ (isSurrogate_ofChar '0'), isString_ofNat n⟩

theorem isString_join {sep : Text} (hsep : sep.IsString) {parts : List Text} :
    IsString (join sep parts) ↔ ∀ p ∈ parts, p.IsString := by
  unfold join
  induction parts with
  | nil => exact ⟨fun _ => nofun, fun _ => isString_nil⟩
  | cons p parts ih =>
    cases parts with
    | nil => simp [List.intersperse]
    | cons q parts =>
      rw [List.intersperse_cons_cons, List.flatten_cons, List.flatten_cons, isString_append,
        isString_append, ih]
      simp only [List.forall_mem_cons]
      exact and_congr_right fun _ => and_iff_right hsep

theorem not_isSurrogate_of_isPrintable (h : c.isPrintable = true) : c.isSurrogate = false := by
  by_contra hs
  rw [Bool.not_eq_false, CodePoint.isSurrogate, Bool.and_eq_true, decide_eq_true_eq,
    decide_eq_true_eq] at hs
  have hhidden : CodePoint.hiddenRanges.any (fun r => r.1 ≤ c.val && c.val ≤ r.2) = true := by
    refine List.any_eq_true.mpr ⟨(55292, 63743), by decide, ?_⟩
    rw [Bool.and_eq_true, decide_eq_true_eq, decide_eq_true_eq]
    omega
  rw [CodePoint.isPrintable, hhidden, Bool.not_true, Bool.or_false, Bool.and_eq_true,
    decide_eq_true_eq, decide_eq_true_eq] at h
  omega

end Text
end ConfigLoader
