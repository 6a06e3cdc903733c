import Mathlib.Data.List.Nodup
import Mathlib.Logic.Relation
import ConfigLoader.Proofs.Value.Keys
import ConfigLoader.Value.Store

/-! # Unfolding a store without cycles

Where every reference leads to a lower rank, unfolding meets no container again, and the value of a cell
is its contents with the values of its slots.
-/
namespace ConfigLoader
open Relation

/-- Values that stand in a slot themselves: neither containers nor marks of a cycle. -/
def Value.IsLeaf : Value → Prop
  | .list _ | .tuple _ | .set _ | .mapping _ | .cycle _ => False
  | _ => True

def Cell.slots : Cell → List Slot
  | .list items | .tuple items => items
  | .set _ => []
  | .mapping es => es.map Prod.snd

def Cell.valueBy (f : Slot → Value) : Cell → Value
  | .list items => .list (items.map f)
  | .tuple items => .tuple (items.map f)
  | .set keys => .set keys
  | .mapping es => .mapping (Keyed.mapped f es)

theorem Cell.valueBy_congr {f g : Slot → Value} {c : Cell} (h : ∀ x ∈ c.slots, f x = g x) :
    c.valueBy f = c.valueBy g := by
  cases c with
  | list items | tuple items => exact congrArg _ (List.map_congr_left h)
  | set keys => rfl
  | mapping es =>
    refine congrArg _ (List.map_congr_left fun e he => ?_)
    rw [h e.2 (List.mem_map_of_mem he)]

namespace Store
variable {s t : Store} {rank : Nat → Nat} {again again' : Nat → Value} {i j : Nat} {c : Cell} {x : Slot}

def Refers (s : Store) (i j : Nat) : Prop := ∃ c, s.cells[i]? = some c ∧ Slot.ref j ∈ c.slots

abbrev Below (s : Store) : Nat → Nat → Prop := ReflTransGen s.Refers

def Under (s : Store) (x : Slot) (j : Nat) : Prop := ∃ i, x = .ref i ∧ s.Below i j

def Ranked (s : Store) (rank : Nat → Nat) : Prop := ∀ ⦃i j⦄, s.Refers i j → rank j < rank i

theorem lt_size (h : s.cells[i]? = some c) : i < s.cells.size := by
  by_contra hn
  rw [Array.getElem?_eq_none (Nat.le_of_not_lt hn)] at h
  cases h

theorem refers_of (h : s.cells[i]? = some c) (hx : .ref j ∈ c.slots) : s.Refers i j := ⟨c, h, hx⟩

theorem Ranked.not_cyclic (h : s.Ranked rank) (i : Nat) : ¬ TransGen s.Refers i i := by
  have hlt : ∀ {i j}, TransGen s.Refers i j → rank j < rank i := fun hij => by
    induction hij with
    | single hr => exact h hr
    | tail _ hr ih => exact (h hr).trans ih
  exact fun hi => Nat.lt_irrefl _ (hlt hi)

@[simp] theorem unfoldFrom_leaf (s : Store) (again : Nat → Value) (fuel : Nat) (path : List Nat)
    (v : Value) : s.unfoldFrom again fuel path (.leaf v) = v := by
  cases fuel <;> rfl

@[simp] theorem unfold_leaf (s : Store) (v : Value) : s.unfold (.leaf v) = v :=
  unfoldFrom_leaf ..

@[simp] theorem dump_leaf (s : Store) (v : Value) : s.dump (.leaf v) = v :=
  unfoldFrom_leaf ..

theorem unfoldFrom_ref {fuel : Nat} {path : List Nat} (hc : s.cells[i]? = some c) :
    s.unfoldFrom again (fuel + 1) path (.ref i) =
      if i ∈ path then again i else c.valueBy (s.unfoldFrom again fuel (i :: path)) := by
  rw [unfoldFrom, hc]
  by_cases hi : i ∈ path
  · simp [hi]
  · cases c <;> simp [hi, Cell.valueBy, Keyed.mapped]

theorem unfoldFrom_missing {fuel : Nat} {path : List Nat} (hc : s.cells[i]? = none) :
    s.unfoldFrom again (fuel + 1) path (.ref i) = if i ∈ path then again i else .null := by
  rw [unfoldFrom, hc]
  simp

theorem unfoldFrom_cell {fuel : Nat} {path : List Nat} (hc : s.cells[i]? = some c)
    (hi : i ∉ path) :
    s.unfoldFrom again (fuel + 1) path (.ref i) =
      c.valueBy (s.unfoldFrom again fuel (i :: path)) := by
  rw [unfoldFrom_ref hc, if_neg hi]

theorem length_le_size {path : List Nat} (hn : path.Nodup) (hp : ∀ a ∈ path, a < s.cells.size) :
    path.length ≤ s.cells.size := by
  have hsub : path ⊆ List.range s.cells.size := fun a ha => List.mem_range.mpr (hp a ha)
  have hle := hn.length_le_of_subset hsub
  rwa [List.length_range] at hle

/-- Fuel for all cells that are not above the slot is enough, also where containers lie within
themselves. -/
theorem unfoldFrom_fuel {fuel fuel' : Nat} {path : List Nat} (hn : path.Nodup)
    (hp : ∀ a ∈ path, a < s.cells.size) (h : s.cells.size < fuel + path.length)
    (h' : s.cells.size < fuel' + path.length) :
    s.unfoldFrom again fuel path x = s.unfoldFrom again fuel' path x := by
  induction fuel generalizing fuel' path x with
  | zero =>
    have := length_le_size hn hp
    omega
  | succ fuel ih =>
    have hle := length_le_size hn hp
    obtain ⟨fuel', rfl⟩ := Nat.exists_eq_add_one_of_ne_zero (n := fuel') (by omega)
    cases x with
    | leaf v => rw [unfoldFrom_leaf, unfoldFrom_leaf]
    | ref i =>
      cases hc : s.cells[i]? with
      | none => rw [unfoldFrom_missing hc, unfoldFrom_missing hc]
      | some c =>
        rw [unfoldFrom_ref hc, unfoldFrom_ref hc]
        by_cases hi : i ∈ path
        · rw [if_pos hi, if_pos hi]
        · rw [if_neg hi, if_neg hi]
          refine Cell.valueBy_congr fun x _ => ih (List.nodup_cons.mpr ⟨hi, hn⟩) ?_ ?_ ?_
          · exact List.forall_mem_cons.mpr ⟨lt_size hc, hp⟩
          all_goals
            rw [List.length_cons]
            omega

/-- What is known of the containers above a slot: they are cells of higher rank, each once, and the fuel is
enough for all others. -/
structure Above (s : Store) (rank : Nat → Nat) (fuel : Nat) (path : List Nat) (x : Slot) : Prop where
  nodup : path.Nodup
  cells : ∀ a ∈ path, a < s.cells.size
  higher : ∀ i, x = .ref i → ∀ a ∈ path, rank i < rank a
  enough : s.cells.size < fuel + path.length

theorem Above.length_le {fuel : Nat} {path : List Nat} (h : s.Above rank fuel path x) :
    path.length ≤ s.cells.size :=
  length_le_size h.nodup h.cells

theorem above_nil (s : Store) (rank : Nat → Nat) (x : Slot) :
    s.Above rank (s.cells.size + 1) [] x :=
  ⟨.nil, nofun, fun _ _ => nofun, Nat.lt_succ_self _⟩

theorem Above.slot {fuel : Nat} {path : List Nat} (hr : s.Ranked rank)
    (h : s.Above rank (fuel + 1) path (.ref i)) (hc : s.cells[i]? = some c) (hx : x ∈ c.slots) :
    s.Above rank fuel (i :: path) x where
  nodup := List.nodup_cons.mpr ⟨fun hi => Nat.lt_irrefl _ (h.higher i rfl i hi), h.nodup⟩
  cells a ha := by
    rcases List.mem_cons.mp ha with rfl | ha
    · exact lt_size hc
    · exact h.cells a ha
  higher j hj a ha := by
    have hij := hr (refers_of hc (hj ▸ hx))
    rcases List.mem_cons.mp ha with rfl | ha
    · exact hij
    · exact hij.trans (h.higher i rfl a ha)
  enough := by
    have := h.enough
    rw [List.length_cons]
    omega

/-- How deep a slot lies does not change its value, nor does what is shown of containers that are met
again. -/
theorem unfoldFrom_eq (hr : s.Ranked rank) {fuel fuel' : Nat} {path path' : List Nat}
    (h : s.Above rank fuel path x) (h' : s.Above rank fuel' path' x) :
    s.unfoldFrom again fuel path x = s.unfoldFrom again' fuel' path' x := by
  induction hn : (match x with | .leaf _ => 0 | .ref i => rank i) using Nat.strong_induction_on
    generalizing x fuel fuel' path path' with
  | _ n ih =>
    cases x with
    | leaf v => rw [unfoldFrom_leaf, unfoldFrom_leaf]
    | ref i =>
      have hle := h.length_le
      have hle' := h'.length_le
      obtain ⟨fuel, rfl⟩ := Nat.exists_eq_add_one_of_ne_zero (n := fuel)
        (by have := h.enough; omega)
      obtain ⟨fuel', rfl⟩ := Nat.exists_eq_add_one_of_ne_zero (n := fuel')
        (by have := h'.enough; omega)
      have hi : i ∉ path := fun hi => Nat.lt_irrefl _ (h.higher i rfl i hi)
      have hi' : i ∉ path' := fun hi => Nat.lt_irrefl _ (h'.higher i rfl i hi)
      cases hc : s.cells[i]? with
      | none => rw [unfoldFrom_missing hc, unfoldFrom_missing hc, if_neg hi, if_neg hi']
      | some c =>
        rw [unfoldFrom_cell hc hi, unfoldFrom_cell hc hi']
        refine Cell.valueBy_congr fun x hx => ?_
        cases x with
        | leaf v => rw [unfoldFrom_leaf, unfoldFrom_leaf]
        | ref j =>
          refine ih (rank j) ?_ (h.slot hr hc hx) (h'.slot hr hc hx) rfl
          rw [← hn]
          exact hr (refers_of hc hx)

theorem unfold_ref (hr : s.Ranked rank) (hc : s.cells[i]? = some c) :
    s.unfold (.ref i) = c.valueBy s.unfold := by
  rw [unfold, unfoldFrom_cell hc List.not_mem_nil]
  refine Cell.valueBy_congr fun x hx => ?_
  exact unfoldFrom_eq hr ((above_nil s rank (.ref i)).slot hr hc hx) (above_nil s rank x)

theorem unfold_missing (hc : s.cells[i]? = none) : s.unfold (.ref i) = .null := by
  rw [unfold, unfoldFrom_missing hc, if_neg List.not_mem_nil]

theorem dump_eq (hr : s.Ranked rank) (x : Slot) : s.dump x = s.unfold x :=
  unfoldFrom_eq hr (above_nil s rank x) (above_nil s rank x)

/-! ## What a change elsewhere leaves -/

theorem Under.of_mem (hc : s.cells[i]? = some c) (hx : x ∈ c.slots) (h : s.Under x j) :
    s.Below i j := by
  obtain ⟨k, rfl, hk⟩ := h
  exact .head (refers_of hc hx) hk

theorem below_same (hs : ∀ j, s.Below i j → t.cells[j]? = s.cells[j]?) (h : s.Below i j) :
    t.Below i j := by
  induction h with
  | refl => exact .refl
  | tail hb hr ih =>
    obtain ⟨c, hc, hx⟩ := hr
    exact ih.tail (refers_of ((hs _ hb).trans hc) hx)

/-- A slot keeps what it shows if all cells under it stay, whatever lies above it. -/
theorem unfoldFrom_same {fuel : Nat} {path : List Nat}
    (hs : ∀ j, s.Under x j → t.cells[j]? = s.cells[j]?)
    (hagain : ∀ j, s.Under x j → again' j = again j) :
    t.unfoldFrom again' fuel path x = s.unfoldFrom again fuel path x := by
  induction fuel generalizing path x with
  | zero =>
    cases x with
    | leaf v => rw [unfoldFrom_leaf, unfoldFrom_leaf]
    | ref i => exact hagain i ⟨i, rfl, .refl⟩
  | succ fuel ih =>
    cases x with
    | leaf v => rw [unfoldFrom_leaf, unfoldFrom_leaf]
    | ref i =>
      have hi := hs i ⟨i, rfl, .refl⟩
      have hshown := hagain i ⟨i, rfl, .refl⟩
      cases hc : s.cells[i]? with
      | none => rw [unfoldFrom_missing (hi.trans hc), unfoldFrom_missing hc, hshown]
      | some c =>
        have hinner : ∀ {x}, x ∈ c.slots → ∀ k, s.Under x k → s.Under (.ref i) k :=
          fun hx k hk => ⟨i, rfl, hk.of_mem hc hx⟩
        have hsame : c.valueBy (t.unfoldFrom again' fuel (i :: path)) =
            c.valueBy (s.unfoldFrom again fuel (i :: path)) :=
          Cell.valueBy_congr fun x hx =>
            ih (fun k hk => hs k (hinner hx k hk)) fun k hk => hagain k (hinner hx k hk)
        rw [unfoldFrom_ref (hi.trans hc), unfoldFrom_ref hc, hshown, hsame]

theorem unfold_same (hsize : s.cells.size ≤ t.cells.size)
    (hs : ∀ j, s.Under x j → t.cells[j]? = s.cells[j]?) : t.unfold x = s.unfold x := by
  have hmark : ∀ j, s.Under x j → t.mark j = s.mark j := by
    intro j hj
    rw [mark, mark, mapping?, mapping?, hs j hj]
  rw [unfold, unfoldFrom_same hs hmark]
  exact unfoldFrom_fuel .nil nofun (Nat.lt_succ_of_le hsize) (Nat.lt_succ_self _)

theorem Under.trans (h : s.Under x i) (h' : s.Under (.ref i) j) : s.Under x j := by
  obtain ⟨k, rfl, hk⟩ := h
  obtain ⟨_, hi, hj⟩ := h'
  cases hi
  exact ⟨k, rfl, ReflTransGen.trans hk hj⟩

theorem dump_same (hsize : s.cells.size ≤ t.cells.size)
    (hs : ∀ j, s.Under x j → t.cells[j]? = s.cells[j]?) : t.dump x = s.dump x := by
  rw [dump, unfoldFrom_same hs fun j hj => unfold_same hsize fun k hk => hs k (hj.trans hk)]
  exact unfoldFrom_fuel .nil nofun (Nat.lt_succ_of_le hsize) (Nat.lt_succ_self _)

/-! ## Putting a slot and a cell -/

@[simp] theorem getSlot?_eq (es : List (Value × Slot)) (k : Value) : getSlot? es k = Keyed.get? es k :=
  rfl

@[simp] theorem putSlot_eq (es : List (Value × Slot)) (k : Value) (v : Slot) :
    putSlot es k v = Keyed.put es k v := by
  induction es with
  | nil => rfl
  | cons e es ih => rw [putSlot, Keyed.put, ih]

theorem put_self (hi : i < s.cells.size) (c : Cell) : (s.put i c).cells[i]? = some c := by
  rw [put, Array.getElem?_setIfInBounds_self, if_pos hi]

theorem put_other (c : Cell) (h : i ≠ j) : (s.put i c).cells[j]? = s.cells[j]? :=
  Array.getElem?_setIfInBounds_ne h

@[simp] theorem size_put (s : Store) (i : Nat) (c : Cell) :
    (s.put i c).cells.size = s.cells.size :=
  Array.size_setIfInBounds

theorem put_same (hc : s.cells[i]? = some c) : s.put i c = s := by
  obtain ⟨cells⟩ := s
  refine congrArg Store.mk (Array.ext_getElem? fun j => ?_)
  by_cases h : i = j
  · subst h
    exact (put_self (s := ⟨cells⟩) (lt_size hc) c).trans hc.symm
  · exact put_other c h

@[simp] theorem mapping?_eq {es : List (Value × Slot)} :
    s.mapping? i = some es ↔ s.cells[i]? = some (.mapping es) := by
  rw [mapping?]
  constructor
  · intro h
    split at h
    · next he =>
      cases h
      exact he
    · cases h
  · intro h
    rw [h]

end Store
end ConfigLoader
