import Mathlib.Data.List.Pairwise
import ConfigLoader.Proofs.Value.Cells

/-! # How values lie in a store

What is taken into a store lies in it in post-order: the cells of each slot follow those of the slot
before it, and a container follows all that it holds. So each cell has one slot that refers to it.
-/
namespace ConfigLoader

def Value.IsContainer : Value → Prop
  | .list _ | .tuple _ | .set _ | .mapping _ => True
  | _ => False

namespace Store
variable {s t u : Store} {i j d lo mid hi : Nat} {c : Cell} {x : Slot} {xs ys : List Slot}

/-! ## Stores that grow -/

def Extends (s t : Store) : Prop := ∀ ⦃i : Nat⦄ ⦃c : Cell⦄,
  s.cells[i]? = some c → t.cells[i]? = some c

theorem Extends.refl (s : Store) : s.Extends s := fun _ _ h => h

theorem Extends.trans (h : s.Extends t) (h' : t.Extends u) : s.Extends u := fun _ _ hc => h' (h hc)

@[simp] theorem push_snd_self (s : Store) (c : Cell) : (s.push c).2.cells[s.cells.size]? = some c :=
  Array.getElem?_push_size

@[simp] theorem size_push (s : Store) (c : Cell) : (s.push c).2.cells.size = s.cells.size + 1 :=
  Array.size_push ..

theorem extends_push (s : Store) (c : Cell) : s.Extends (s.push c).2 := by
  intro i c' h
  rw [push, Array.getElem?_push, if_neg (Nat.ne_of_lt (lt_size h))]
  exact h

/-! ## Chains of cells -/

/-- The cells from `lo` up to `hi` are those of the slots, one slot after the other, each container after
what it holds. -/
inductive Chain (t : Store) : Nat → List Slot → Nat → Prop
  | nil (lo : Nat) : Chain t lo [] lo
  | leaf {lo hi : Nat} {v : Value} {xs : List Slot} (hv : ¬ v.IsContainer) (h : Chain t lo xs hi) :
    Chain t lo (.leaf v :: xs) hi
  | cell {lo d hi : Nat} {c : Cell} {xs : List Slot} (hc : t.cells[d]? = some c)
    (inner : Chain t lo c.slots d) (rest : Chain t (d + 1) xs hi) : Chain t lo (.ref d :: xs) hi

namespace Chain

theorem le (h : t.Chain lo xs hi) : lo ≤ hi := by
  induction h with
  | nil => exact Nat.le_refl _
  | leaf _ _ ih => exact ih
  | cell _ _ _ ih ih' => exact ih.trans ((Nat.le_succ _).trans ih')

theorem mono (h : t.Chain lo xs hi) (he : t.Extends u) : u.Chain lo xs hi := by
  induction h with
  | nil => exact .nil _
  | leaf hv _ ih => exact .leaf hv ih
  | cell hc _ _ ih ih' => exact .cell (he hc) ih ih'

theorem congr (h : t.Chain lo xs hi) (hs : ∀ i, lo ≤ i → i < hi → u.cells[i]? = t.cells[i]?) :
    u.Chain lo xs hi := by
  induction h with
  | nil => exact .nil _
  | leaf hv _ ih => exact .leaf hv (ih hs)
  | cell hc inner rest ih ih' =>
    have hin := inner.le
    have hrest := rest.le
    refine .cell ((hs _ hin hrest).trans hc) (ih fun i hlo hhi => hs i hlo ?_)
      (ih' fun i hlo hhi => hs i ?_ hhi)
    · omega
    · omega

theorem append (h : t.Chain lo xs mid) (h' : t.Chain mid ys hi) : t.Chain lo (xs ++ ys) hi := by
  induction h with
  | nil => exact h'
  | leaf hv _ ih => exact .leaf hv (ih h')
  | cell hc inner _ _ ih => exact .cell hc inner (ih h')

theorem bounds (h : t.Chain lo xs hi) (hd : .ref d ∈ xs) : lo ≤ d ∧ d < hi := by
  induction h with
  | nil => cases hd
  | leaf _ _ ih => exact ih ((List.mem_cons.mp hd).resolve_left nofun)
  | cell _ inner rest _ ih =>
    rcases List.mem_cons.mp hd with heq | hd
    · cases heq
      exact ⟨inner.le, rest.le⟩
    · exact ⟨inner.le.trans ((Nat.le_succ _).trans (ih hd).1), (ih hd).2⟩

theorem within (h : t.Chain lo xs hi) (hlo : lo ≤ i) (hhi : i < hi) (hc : t.cells[i]? = some c) :
    ∃ mid, lo ≤ mid ∧ t.Chain mid c.slots i := by
  induction h with
  | nil => exact absurd hhi (Nat.not_lt.mpr hlo)
  | leaf _ _ ih => exact ih hlo hhi
  | @cell lo d hi c' xs hd inner rest ih ih' =>
    rcases Nat.lt_trichotomy i d with hlt | rfl | hlt
    · exact ih hlo hlt
    · cases hd.symm.trans hc
      exact ⟨lo, Nat.le_refl _, inner⟩
    · obtain ⟨mid, hmid, hch⟩ := ih' hlt hhi
      exact ⟨mid, inner.le.trans ((Nat.le_succ _).trans hmid), hch⟩

theorem leaf_of_mem {v : Value} (h : t.Chain lo xs hi) (hv : .leaf v ∈ xs) : ¬ v.IsContainer := by
  induction h with
  | nil => cases hv
  | leaf hv' _ ih =>
    rcases List.mem_cons.mp hv with heq | hv
    · cases heq
      exact hv'
    · exact ih hv
  | cell _ _ _ _ ih => exact ih ((List.mem_cons.mp hv).resolve_left nofun)

theorem once (h : t.Chain lo xs hi) :
    xs.Pairwise fun x y => ∀ d, x = .ref d → y ≠ .ref d := by
  induction h with
  | nil => exact .nil
  | leaf _ _ ih => exact List.pairwise_cons.mpr ⟨fun _ _ _ => nofun, ih⟩
  | cell _ _ rest _ ih =>
    refine List.pairwise_cons.mpr ⟨fun y hy d hd hyd => ?_, ih⟩
    cases hd
    exact Nat.lt_irrefl _ (rest.bounds (hyd ▸ hy)).1

theorem entry_once {es : List (Value × Slot)} {e f : Value × Slot}
    (h : t.Chain lo (es.map Prod.snd) hi) (he : e ∈ es) (hf : f ∈ es) (hed : e.2 = .ref d)
    (hfd : f.2 = .ref d) : e = f := by
  by_contra hne
  have hsymm : Std.Symm fun a b : Value × Slot => ∀ d, a.2 = .ref d → b.2 ≠ .ref d :=
    ⟨fun _ _ h d hb ha => h d ha hb⟩
  exact (List.pairwise_map.mp h.once).forall he hf hne d hed hfd

theorem refers (h : t.Chain lo xs hi) (hlo : lo ≤ i) (hhi : i < hi) (hr : t.Refers i d) :
    lo ≤ d ∧ d < i := by
  obtain ⟨c, hc, hd⟩ := hr
  obtain ⟨mid, hmid, hch⟩ := h.within hlo hhi hc
  obtain ⟨hle, hlt⟩ := hch.bounds hd
  exact ⟨hmid.trans hle, hlt⟩

theorem not_refers (h : t.Chain lo xs hi) (hd : .ref d ∈ xs) (hlo : lo ≤ i) (hhi : i < hi) :
    ¬ t.Refers i d := by
  induction h with
  | nil => cases hd
  | leaf _ _ ih => exact ih ((List.mem_cons.mp hd).resolve_left nofun) hlo hhi
  | cell hc inner rest ih ih' =>
    intro hr
    rcases List.mem_cons.mp hd with heq | hd
    · cases heq
      -- The cell referred to lies before the one that refers, and so that is one of the rest.
      rcases Nat.lt_or_ge i d with hlt | hge
      · exact Nat.lt_irrefl _ ((inner.refers hlo hlt hr).2.trans hlt)
      · rcases Nat.eq_or_lt_of_le hge with rfl | hlt
        · obtain ⟨c', hc', hd'⟩ := hr
          cases hc.symm.trans hc'
          exact Nat.lt_irrefl _ (inner.bounds hd').2
        · exact Nat.lt_irrefl _ (rest.refers hlt hhi hr).1
    · have hgt := (rest.bounds hd).1
      rcases Nat.lt_or_ge _ i with hlt | hge
      · exact ih' hd hlt hhi hr
      · rcases Nat.eq_or_lt_of_le hge with rfl | hlt
        · obtain ⟨c', hc', hd'⟩ := hr
          cases hc.symm.trans hc'
          exact Nat.lt_asymm (inner.bounds hd').2 hgt
        · exact Nat.lt_asymm ((inner.refers hlo hlt hr).2.trans hlt) hgt

/-- Of two cells of a chain, not both refer to one cell. -/
theorem refers_once (h : t.Chain lo xs hi) (hlo : lo ≤ i) (hij : i < j) (hhi : j < hi)
    (hri : t.Refers i d) : ¬ t.Refers j d := by
  rintro ⟨c, hc, hd⟩
  obtain ⟨mid, -, hch⟩ := h.within (hlo.trans (Nat.le_of_lt hij)) hhi hc
  rcases Nat.lt_or_ge i mid with hlt | hge
  · have hdi := (h.refers hlo (hij.trans hhi) hri).2
    exact Nat.lt_irrefl _ ((hch.bounds hd).1.trans_lt (hdi.trans hlt))
  · exact hch.not_refers hd hge hij hri

end Chain

/-! ## Taking values in -/

theorem add_list (s : Store) (vs : List Value) : s.add (.list vs) =
    (.ref (s.addAll vs).2.cells.size, ((s.addAll vs).2.push (.list (s.addAll vs).1)).2) := by
  rw [add]
  rfl

theorem add_tuple (s : Store) (vs : List Value) : s.add (.tuple vs) =
    (.ref (s.addAll vs).2.cells.size, ((s.addAll vs).2.push (.tuple (s.addAll vs).1)).2) := by
  rw [add]
  rfl

theorem add_set (s : Store) (vs : List Value) :
    s.add (.set vs) = (.ref s.cells.size, (s.push (.set vs)).2) := by
  rw [add]
  rfl

theorem add_mapping (s : Store) (es : List (Value × Value)) : s.add (.mapping es) =
    (.ref (s.addEntries es).2.cells.size,
      ((s.addEntries es).2.push (.mapping (s.addEntries es).1)).2) := by
  rw [add]
  rfl

theorem Chain.push (h : t.Chain lo c.slots t.cells.size) :
    (t.push c).2.Chain lo [.ref t.cells.size] (t.push c).2.cells.size :=
  .cell (push_snd_self t c) (h.mono (extends_push t c)) (size_push t c ▸ .nil _)

mutual

theorem add_chain (s : Store) : (v : Value) → s.Extends (s.add v).2 ∧
    (s.add v).2.Chain s.cells.size [(s.add v).1] (s.add v).2.cells.size
  | .list vs => by
    obtain ⟨he, hc⟩ := addAll_chain s vs
    rw [add_list]
    exact ⟨he.trans (extends_push ..), Chain.push (c := .list _) hc⟩
  | .tuple vs => by
    obtain ⟨he, hc⟩ := addAll_chain s vs
    rw [add_tuple]
    exact ⟨he.trans (extends_push ..), Chain.push (c := .tuple _) hc⟩
  | .set vs => by
    rw [add_set]
    exact ⟨extends_push .., Chain.push (c := .set _) (.nil _)⟩
  | .mapping es => by
    obtain ⟨he, hc⟩ := addEntries_chain s es
    rw [add_mapping]
    exact ⟨he.trans (extends_push ..), Chain.push (c := .mapping _) hc⟩
  | .null | .bool _ | .int _ | .float _ | .text _ | .bytes _ | .date _ | .dateTime _ | .cycle _ =>
    ⟨.refl s, .leaf id (.nil _)⟩

theorem addAll_chain (s : Store) : (vs : List Value) → s.Extends (s.addAll vs).2 ∧
    (s.addAll vs).2.Chain s.cells.size (s.addAll vs).1 (s.addAll vs).2.cells.size
  | [] => ⟨.refl s, .nil _⟩
  | v :: vs => by
    obtain ⟨he, hc⟩ := add_chain s v
    obtain ⟨he', hc'⟩ := addAll_chain (s.add v).2 vs
    rw [addAll]
    exact ⟨he.trans he', (hc.mono he').append hc'⟩

theorem addEntries_chain (s : Store) : (es : List (Value × Value)) →
    s.Extends (s.addEntries es).2 ∧ (s.addEntries es).2.Chain s.cells.size
      ((s.addEntries es).1.map Prod.snd) (s.addEntries es).2.cells.size
  | [] => ⟨.refl s, .nil _⟩
  | (k, v) :: es => by
    obtain ⟨he, hc⟩ := add_chain s v
    obtain ⟨he', hc'⟩ := addEntries_chain (s.add v).2 es
    rw [addEntries]
    exact ⟨he.trans he', (hc.mono he').append hc'⟩

end

theorem addMapping_chain (s : Store) (es : List (Value × Value)) :
    s.Extends (s.addMapping es).2 ∧ (s.addMapping es).2.Chain s.cells.size
      [.ref (s.addMapping es).1] (s.addMapping es).2.cells.size := by
  obtain ⟨he, hc⟩ := addEntries_chain s es
  exact ⟨he.trans (extends_push ..), Chain.push (c := .mapping _) hc⟩

end Store
end ConfigLoader
