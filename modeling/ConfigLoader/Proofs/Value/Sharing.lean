import ConfigLoader.Proofs.Value.Cells
import ConfigLoader.Proofs.Value.Merge

/-! # Merging mappings that are shared

A mapping that several registers share stands at one place in all of them: the path of keys that leads to
it from a register. A merge works on two mappings of one place, so what it changes lies under the one and
not under the other, and no mapping can come to lie within itself.
-/
namespace ConfigLoader
open Keyed Relation

theorem Value.IsLeaf.wellFormed {v : Value} (h : v.IsLeaf) : v.WellFormed := by
  cases v <;> first | exact h.elim | trivial

theorem Value.IsLeaf.isDict {v : Value} (h : v.IsLeaf) : v.isDict = false := by
  cases v <;> first | exact h.elim | rfl

namespace Store
variable {s t : Store} {i j a b c d : Nat} {p q : List Value} {es base : List (Value × Slot)}
  {e : Value × Slot} {k : Value} {x y v : Slot}

/-! ## Places -/

/-- The place of each mapping that a merge may reach, and the ranks of all other cells. -/
structure Layout where
  place : Nat → Option (List Value)
  rank : Nat → Nat

/-- What stands under a key of the mapping at a place: a mapping that has its own place, or a container
that has none, or a value. -/
def Hangs (s : Store) (lay : Layout) (p : List Value) (e : Value × Slot) : Prop :=
  match e.2 with
  | .leaf v => v.IsLeaf
  | .ref d => d < s.cells.size ∧ lay.place d = (s.mapping? d).map fun _ => p ++ [e.1.keyForm]

/-- What stands in a container without a place: a lower container without one, or a value. -/
def Loose (lay : Layout) (i : Nat) : Slot → Prop
  | .leaf v => v.IsLeaf
  | .ref d => lay.rank d < lay.rank i ∧ lay.place d = none

/-- Every mapping that a merge may reach has one place, the same on every way to it. -/
structure Laid (s : Store) (lay : Layout) : Prop where
  placed : ∀ (i : Nat) (p : List Value), lay.place i = some p →
    ∃ es, s.cells[i]? = some (Cell.mapping es) ∧ ∀ e ∈ es, s.Hangs lay p e
  unplaced : ∀ (i : Nat) (c : Cell), s.cells[i]? = some c → lay.place i = none →
    ∀ x ∈ c.slots, Loose lay i x
  distinct : ∀ (i : Nat) (es : List (Value × Slot)), s.cells[i]? = some (.mapping es) → Distinct es

def Layout.Within (lay : Layout) (bound : Nat) : Prop :=
  ∀ i p, lay.place i = some p → p.length < bound

/-- No place is deeper, and no rank higher, than there are cells. -/
structure Shallow (s : Store) (lay : Layout) : Prop where
  depth : lay.Within s.cells.size
  low : ∀ i, lay.rank i ≤ s.cells.size

variable {lay : Layout}

theorem Shallow.of_size (h : s.Shallow lay) (hsize : t.cells.size = s.cells.size) :
    t.Shallow lay :=
  ⟨fun i p hp => hsize ▸ h.depth i p hp, fun i => hsize ▸ h.low i⟩

/-- Cells with a place rank by their depth, above those without one. -/
def Layout.height (lay : Layout) (size : Nat) (i : Nat) : Nat :=
  match lay.place i with
  | some p => 2 * size + 1 - p.length
  | none => lay.rank i

namespace Laid

theorem hangs (h : s.Laid lay) (hp : lay.place i = some p)
    (hes : s.cells[i]? = some (.mapping es)) (he : e ∈ es) : s.Hangs lay p e := by
  obtain ⟨es', hes', hall⟩ := h.placed i p hp
  cases hes.symm.trans hes'
  exact hall e he

theorem place_of_mem {es' : List (Value × Slot)} (h : s.Laid lay) (hp : lay.place i = some p)
    (hes : s.cells[i]? = some (.mapping es)) (he : (k, .ref j) ∈ es)
    (hj : s.cells[j]? = some (.mapping es')) : lay.place j = some (p ++ [k.keyForm]) := by
  rw [(h.hangs hp hes he).2, mapping?_eq.mpr hj, Option.map_some]

theorem refers (h : s.Laid lay) (hp : lay.place i = some p) (hr : s.Refers i j) :
    ∃ es, s.cells[i]? = some (.mapping es) ∧ ∃ e ∈ es, e.2 = .ref j ∧ j < s.cells.size ∧
      lay.place j = (s.mapping? j).map fun _ => p ++ [e.1.keyForm] := by
  obtain ⟨es, hes, hall⟩ := h.placed i p hp
  obtain ⟨c, hc, hx⟩ := hr
  cases hes.symm.trans hc
  obtain ⟨e, he, hej⟩ := List.mem_map.mp hx
  have hh := hall e he
  rw [Hangs, hej] at hh
  exact ⟨es, hes, e, he, hej, hh⟩

theorem refers_unplaced (h : s.Laid lay) (hp : lay.place i = none) (hr : s.Refers i j) :
    lay.rank j < lay.rank i ∧ lay.place j = none := by
  obtain ⟨c, hc, hx⟩ := hr
  exact h.unplaced i c hc hp _ hx

theorem ranked (h : s.Laid lay) (hs : s.Shallow lay) : s.Ranked (lay.height s.cells.size) := by
  intro i j hr
  cases hi : lay.place i with
  | none =>
    obtain ⟨hlt, hj⟩ := h.refers_unplaced hi hr
    simpa only [Layout.height, hi, hj] using hlt
  | some p =>
    obtain ⟨-, -, e, -, -, -, hplace⟩ := h.refers hi hr
    have hp := hs.depth i p hi
    cases hm : s.mapping? j with
    | none =>
      rw [hm, Option.map_none] at hplace
      have hj := hs.low j
      simp only [Layout.height, hi, hplace]
      omega
    | some es =>
      rw [hm, Option.map_some] at hplace
      simp only [Layout.height, hi, hplace, List.length_append, List.length_singleton]
      omega

theorem below_unplaced (h : s.Laid lay) (hb : s.Below i j) (hi : lay.place i = none) :
    lay.place j = none := by
  induction hb with
  | refl => exact hi
  | tail _ hr ih => exact (h.refers_unplaced ih hr).2

theorem below_placed (h : s.Laid lay) (hb : s.Below i j) (hi : lay.place i = some p)
    (hj : lay.place j = some q) : p <+: q := by
  induction hb using ReflTransGen.head_induction_on generalizing p with
  | refl =>
    rw [hi] at hj
    exact Option.some.inj hj ▸ List.prefix_refl p
  | head hr hb ih =>
    obtain ⟨-, -, e, -, -, -, hplace⟩ := h.refers hi hr
    cases hm : s.mapping? _ with
    | none =>
      rw [hm, Option.map_none] at hplace
      rw [h.below_unplaced hb hplace] at hj
      cases hj
    | some es =>
      rw [hm, Option.map_some] at hplace
      exact (List.prefix_append p _).trans (ih hplace)

theorem under (h : s.Laid lay) (hi : lay.place i = some p)
    (hes : s.cells[i]? = some (.mapping es)) (he : e ∈ es) (hu : s.Under e.2 j) :
    lay.place j = none ∨ ∃ q, lay.place j = some (p ++ e.1.keyForm :: q) := by
  obtain ⟨d, hd, hb⟩ := hu
  have hh := h.hangs hi hes he
  rw [Hangs, hd] at hh
  obtain ⟨-, hplace⟩ := hh
  cases hm : s.mapping? d with
  | none =>
    rw [hm, Option.map_none] at hplace
    exact .inl (h.below_unplaced hb hplace)
  | some es' =>
    rw [hm, Option.map_some] at hplace
    cases hj : lay.place j with
    | none => exact .inl rfl
    | some q =>
      obtain ⟨r, rfl⟩ := h.below_placed hb hplace hj
      exact .inr ⟨r, by rw [List.append_assoc]; rfl⟩

theorem not_under (h : s.Laid lay) (hi : lay.place i = some p)
    (hes : s.cells[i]? = some (.mapping es)) (he : e ∈ es) (hj : lay.place j = some p) :
    ¬ s.Under e.2 j := by
  intro hu
  rcases h.under hi hes he hu with hn | ⟨q, hq⟩
  · rw [hj] at hn
    cases hn
  · rw [hj] at hq
    have := congrArg List.length (Option.some.inj hq)
    rw [List.length_append, List.length_cons] at this
    omega

theorem eq_of_below (h : s.Laid lay) (hi : lay.place i = some p) (hj : lay.place j = some p)
    (hb : s.Below i j) : i = j := by
  rcases hb.cases_head with heq | ⟨d, hr, hb⟩
  · exact heq
  · obtain ⟨es, hes, e, he, hed, -⟩ := h.refers hi hr
    exact absurd ⟨d, hed, hb⟩ (h.not_under hi hes he hj)

theorem below_key (h : s.Laid lay) (hi : lay.place i = some p)
    (hes : s.cells[i]? = some (.mapping es)) (he : e ∈ es)
    (hj : lay.place j = some (p ++ e.1.keyForm :: q)) (hb : s.Below i j) : s.Under e.2 j := by
  rcases hb.cases_head with rfl | ⟨d, hr, hb⟩
  · rw [hi] at hj
    have := congrArg List.length (Option.some.inj hj)
    rw [List.length_append, List.length_cons] at this
    omega
  · obtain ⟨es', hes', e', he', hed, -⟩ := h.refers hi hr
    cases hes.symm.trans hes'
    rcases h.under hi hes he' ⟨d, hed, hb⟩ with hn | ⟨r, hr'⟩
    · rw [hj] at hn
      cases hn
    · rw [hj] at hr'
      have hf := (List.cons.inj (List.append_cancel_left (Option.some.inj hr'))).1
      obtain rfl := (h.distinct i es hes).eq_of_form he he' hf
      exact ⟨d, hed, hb⟩

/-! ### Values -/

theorem leaf_of_mem {cell : Cell} {v : Value} (h : s.Laid lay) (hc : s.cells[i]? = some cell)
    (hx : .leaf v ∈ cell.slots) : v.IsLeaf := by
  cases hi : lay.place i with
  | none => exact h.unplaced i cell hc hi _ hx
  | some p =>
    obtain ⟨es, hes, hall⟩ := h.placed i p hi
    cases hes.symm.trans hc
    obtain ⟨e, he, hev⟩ := List.mem_map.mp hx
    have hh := hall e he
    rw [Hangs, hev] at hh
    exact hh

theorem wellFormed (h : s.Laid lay) (hs : s.Shallow lay) (hx : ∀ v, x = .leaf v → v.IsLeaf) :
    (s.unfold x).WellFormed := by
  have hr := h.ranked hs
  induction hn : (match x with | .leaf _ => 0 | .ref i => lay.height s.cells.size i) using
    Nat.strong_induction_on generalizing x with
  | _ n ih =>
    cases x with
    | leaf v =>
      rw [unfold_leaf]
      exact (hx v rfl).wellFormed
    | ref i =>
      cases hc : s.cells[i]? with
      | none =>
        rw [unfold_missing hc]
        trivial
      | some cell =>
        have hslot : ∀ x ∈ cell.slots, (s.unfold x).WellFormed := by
          intro x hx
          cases x with
          | leaf v =>
            rw [unfold_leaf]
            exact (h.leaf_of_mem hc hx).wellFormed
          | ref j =>
            refine ih (lay.height s.cells.size j) ?_ (x := .ref j) nofun rfl
            rw [← hn]
            exact hr (refers_of hc hx)
        rw [unfold_ref hr hc]
        cases cell with
        | list items => exact Value.allWellFormed_iff.mpr (List.forall_mem_map.mpr hslot)
        | tuple items => exact Value.allWellFormed_iff.mpr (List.forall_mem_map.mpr hslot)
        | set keys => trivial
        | mapping es =>
          refine ⟨(distinct_mapped _).mpr (h.distinct i es hc), ?_⟩
          refine Value.entriesWellFormed_iff.mpr (List.forall_mem_map.mpr fun e he => ?_)
          exact hslot e.2 (List.mem_map_of_mem he)

end Laid

theorem isDict_unfold (h : s.Laid lay) (hs : s.Shallow lay)
    (hx : ∀ v, x = .leaf v → v.IsLeaf) : (s.unfold x).isDict = (s.slotDict? x).isSome := by
  cases x with
  | leaf v =>
    rw [unfold_leaf]
    exact (hx v rfl).isDict
  | ref i =>
    rw [slotDict?, mapping?]
    cases hc : s.cells[i]? with
    | none =>
      rw [unfold_missing hc]
      rfl
    | some cell =>
      rw [unfold_ref (h.ranked hs) hc]
      cases cell <;> rfl

end Store
end ConfigLoader
