import Mathlib.Data.List.Basic
import ConfigLoader.Json.Canonical

/-! # The order of names

Ordering items by their names only moves them, and items in order stay where they are.
-/
namespace ConfigLoader.Json.Canonical
variable {α : Type} {name : α → Text}

/-- The items whose names are indices, in ascending order. -/
def indexed (name : α → Text) (l : List α) (acc : List (Nat × α)) : List (Nat × α) :=
  l.foldl (fun acc a => match index? (name a) with
    | some n => insertIndexed n a acc
    | none => acc) acc

theorem order_eq (name : α → Text) (l : List α) :
    order name l = (indexed name l []).map Prod.snd ++ l.filter fun a => (index? (name a)).isNone :=
  rfl

theorem indexed_some {a : α} {n : Nat} (h : index? (name a) = some n) (l : List α)
    (acc : List (Nat × α)) : indexed name (a :: l) acc = indexed name l (insertIndexed n a acc) := by
  rw [indexed, List.foldl_cons, h]
  rfl

theorem indexed_none {a : α} (h : index? (name a) = none) (l : List α) (acc : List (Nat × α)) :
    indexed name (a :: l) acc = indexed name l acc := by
  rw [indexed, List.foldl_cons, h]
  rfl

theorem insertIndexed_perm (n : Nat) (a : α) (l : List (Nat × α)) :
    (insertIndexed n a l).Perm ((n, a) :: l) := by
  induction l with
  | nil => exact .refl _
  | cons p l ih =>
    rw [insertIndexed]
    split
    · exact .refl _
    · exact (ih.cons p).trans (.swap ..)

theorem indexed_perm (l : List α) (acc : List (Nat × α)) : ((indexed name l acc).map Prod.snd).Perm
    (acc.map Prod.snd ++ l.filter fun a => !(index? (name a)).isNone) := by
  induction l generalizing acc with
  | nil => rw [List.filter_nil, List.append_nil]; exact .refl _
  | cons a l ih =>
    cases h : index? (name a) with
    | none =>
      rw [indexed_none h, List.filter_cons_of_neg (by simp [h])]
      exact ih acc
    | some n =>
      rw [indexed_some h, List.filter_cons_of_pos (by simp [h])]
      refine (ih _).trans ?_
      have hinsert := ((insertIndexed_perm n a acc).map Prod.snd).append_right
        (l.filter fun a => !(index? (name a)).isNone)
      exact hinsert.trans List.perm_middle.symm

theorem order_perm (name : α → Text) (l : List α) : (order name l).Perm l := by
  rw [order_eq]
  refine ((indexed_perm l []).append_right _).trans ?_
  exact List.perm_append_comm.trans (List.filter_append_perm ..)

/-! ## Items in order -/

/-- Items with their indices in ascending order, equal ones allowed. -/
def Ascends (name : α → Text) (l : List (Nat × α)) : Prop :=
  l.Pairwise (fun p q => p.1 ≤ q.1) ∧ ∀ p ∈ l, index? (name p.2) = some p.1

theorem insertIndexed_ascends {n : Nat} {a : α} (h : index? (name a) = some n) {l : List (Nat × α)}
    (hl : Ascends name l) : Ascends name (insertIndexed n a l) := by
  constructor
  · induction l with
    | nil => exact List.pairwise_singleton ..
    | cons p l ih =>
      obtain ⟨hp, hrest⟩ := List.pairwise_cons.mp hl.1
      rw [insertIndexed]
      split
      · next hlt =>
        refine List.pairwise_cons.mpr ⟨fun q hq => ?_, hl.1⟩
        rcases List.mem_cons.mp hq with rfl | hq
        · exact Nat.le_of_lt hlt
        · exact Nat.le_trans (Nat.le_of_lt hlt) (hp q hq)
      · next hge =>
        have htail := ih ⟨hrest, fun q hq => hl.2 q (List.mem_cons_of_mem _ hq)⟩
        refine List.pairwise_cons.mpr ⟨fun q hq => ?_, htail⟩
        rcases List.mem_cons.mp ((insertIndexed_perm n a l).mem_iff.mp hq) with rfl | hq
        · exact Nat.not_lt.mp hge
        · exact hp q hq
  · intro p hp
    rcases List.mem_cons.mp ((insertIndexed_perm n a l).mem_iff.mp hp) with rfl | hp
    · exact h
    · exact hl.2 p hp

theorem indexed_ascends (l : List α) {acc : List (Nat × α)} (hacc : Ascends name acc) :
    Ascends name (indexed name l acc) := by
  induction l generalizing acc with
  | nil => exact hacc
  | cons a l ih =>
    cases h : index? (name a) with
    | none => rw [indexed_none h]; exact ih hacc
    | some n => rw [indexed_some h]; exact ih (insertIndexed_ascends h hacc)

/-- An item is put behind those that it does not precede. -/
theorem insertIndexed_last {n : Nat} (a : α) {l : List (Nat × α)} (h : ∀ p ∈ l, p.1 ≤ n) :
    insertIndexed n a l = l ++ [(n, a)] := by
  induction l with
  | nil => rfl
  | cons p l ih =>
    rw [insertIndexed, if_neg (Nat.not_lt.mpr (h p (List.mem_cons_self ..))),
      ih fun q hq => h q (List.mem_cons_of_mem _ hq)]
    rfl

theorem indexed_sorted (l acc : List (Nat × α)) (h : Ascends name (acc ++ l)) :
    indexed name (l.map Prod.snd) acc = acc ++ l := by
  induction l generalizing acc with
  | nil => rw [List.append_nil]; rfl
  | cons p l ih =>
    have hp : index? (name p.2) = some p.1 :=
      h.2 p (List.mem_append_right _ (List.mem_cons_self ..))
    have hbefore : ∀ q ∈ acc, q.1 ≤ p.1 := fun q hq =>
      (List.pairwise_append.mp h.1).2.2 q hq p (List.mem_cons_self ..)
    have hshift : acc ++ p :: l = acc ++ [p] ++ l := (List.append_cons ..)
    rw [List.map_cons, indexed_some hp, insertIndexed_last p.2 hbefore, hshift]
    exact ih (acc ++ [p]) (hshift ▸ h)

theorem indexed_append (l m : List α) (acc : List (Nat × α)) :
    indexed name (l ++ m) acc = indexed name m (indexed name l acc) := List.foldl_append ..

theorem indexed_unindexed (l : List α) (acc : List (Nat × α)) :
    indexed name (l.filter fun a => (index? (name a)).isNone) acc = acc := by
  induction l with
  | nil => rfl
  | cons a l ih =>
    cases h : index? (name a) with
    | none => rw [List.filter_cons_of_pos (by simp [h]), indexed_none h, ih]
    | some n => rw [List.filter_cons_of_neg (by simp [h]), ih]

theorem order_order (name : α → Text) (l : List α) : order name (order name l) = order name l := by
  have hasc : Ascends name (indexed name l []) :=
    indexed_ascends l ⟨List.Pairwise.nil, fun _ h => absurd h List.not_mem_nil⟩
  have hsorted := indexed_sorted (indexed name l []) [] (by rwa [List.nil_append])
  have hindexed : ∀ a ∈ (indexed name l []).map Prod.snd, ¬ (index? (name a)).isNone = true := by
    intro a ha
    obtain ⟨p, hp, rfl⟩ := List.mem_map.mp ha
    simp [hasc.2 p hp]
  rw [order_eq name (order name l), order_eq name l, indexed_append, hsorted, indexed_unindexed,
    List.filter_append, List.filter_eq_nil_iff.mpr hindexed, List.nil_append, List.filter_filter,
    List.nil_append]
  simp only [Bool.and_self]

/-! ## Other items -/

theorem insertIndexed_map {β : Type} (f : α → β) (n : Nat) (a : α) (l : List (Nat × α)) :
    insertIndexed n (f a) (l.map fun p => (p.1, f p.2)) =
      (insertIndexed n a l).map fun p => (p.1, f p.2) := by
  induction l with
  | nil => rfl
  | cons p l ih =>
    obtain ⟨m, b⟩ := p
    rw [List.map_cons, insertIndexed, insertIndexed]
    by_cases h : n < m
    · rw [if_pos h, if_pos h]
      rfl
    · rw [if_neg h, if_neg h, ih]
      rfl

theorem indexed_map {β : Type} (name : β → Text) (f : α → β) (l : List α) (acc : List (Nat × α)) :
    indexed name (l.map f) (acc.map fun p => (p.1, f p.2)) =
      (indexed (name ∘ f) l acc).map fun p => (p.1, f p.2) := by
  induction l generalizing acc with
  | nil => rfl
  | cons a l ih =>
    cases h : index? (name (f a)) with
    | none =>
      have hsource : index? ((name ∘ f) a) = none := h
      rw [List.map_cons, indexed_none h, indexed_none hsource, ih]
    | some n =>
      have hsource : index? ((name ∘ f) a) = some n := h
      rw [List.map_cons, indexed_some h, indexed_some hsource, insertIndexed_map, ih]

/-- Items are ordered by their names, whatever else they hold. -/
theorem order_map {β : Type} (name : β → Text) (f : α → β) (l : List α) :
    order name (l.map f) = (order (fun a => name (f a)) l).map f := by
  have h := indexed_map name f l []
  rw [List.map_nil] at h
  rw [order_eq, order_eq, h, List.map_append, List.map_map, List.map_map, List.filter_map]
  rfl

end ConfigLoader.Json.Canonical
