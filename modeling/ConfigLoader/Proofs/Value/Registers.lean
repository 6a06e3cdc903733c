import Mathlib.Data.Finset.Card
import Mathlib.Data.Finset.Range
import Mathlib.Data.List.Induction
import ConfigLoader.Proofs.Value.Chains
import ConfigLoader.Proofs.Value.InPlace

/-! # Merging registers into each other

Registers begin as mappings in cells of their own, so that one path of keys leads to each mapping in them.
From then on merges in place do what laying values over each other does, whatever the registers come to
share, if no path is longer than a merge can follow.
-/
namespace ConfigLoader
open Keyed Relation

namespace Store
variable {s t : Store} {rank : Nat → Nat} {roots : List Nat} {i j d lo hi : Nat}
  {p q : List Value} {es es' : List (Value × Slot)} {k : Value} {xs : List Slot}

/-! ## The value of what was taken in -/

mutual

theorem unfold_add (s : Store) {t : Store} (hr : t.Ranked rank) : (v : Value) →
    (s.add v).2.Extends t → t.unfold (s.add v).1 = v
  | .list vs, he => by
    rw [add_list] at he ⊢
    rw [unfold_ref hr (he (push_snd_self ..)), Cell.valueBy,
      unfold_addAll s hr vs ((extends_push ..).trans he)]
  | .tuple vs, he => by
    rw [add_tuple] at he ⊢
    rw [unfold_ref hr (he (push_snd_self ..)), Cell.valueBy,
      unfold_addAll s hr vs ((extends_push ..).trans he)]
  | .set vs, he => by
    rw [add_set] at he ⊢
    rw [unfold_ref hr (he (push_snd_self ..)), Cell.valueBy]
  | .mapping es, he => by
    rw [add_mapping] at he ⊢
    rw [unfold_ref hr (he (push_snd_self ..)), Cell.valueBy,
      unfold_addEntries s hr es ((extends_push ..).trans he)]
  | .null, _ | .bool _, _ | .int _, _ | .float _, _ | .text _, _ | .bytes _, _ | .date _, _
  | .dateTime _, _ | .cycle _, _ => unfold_leaf t _

theorem unfold_addAll (s : Store) {t : Store} (hr : t.Ranked rank) : (vs : List Value) →
    (s.addAll vs).2.Extends t → (s.addAll vs).1.map t.unfold = vs
  | [], _ => rfl
  | v :: vs, he => by
    rw [addAll] at he ⊢
    rw [List.map_cons, unfold_add s hr v ((addAll_chain _ vs).1.trans he), unfold_addAll _ hr vs he]

theorem unfold_addEntries (s : Store) {t : Store} (hr : t.Ranked rank) :
    (es : List (Value × Value)) → (s.addEntries es).2.Extends t →
      mapped t.unfold (s.addEntries es).1 = es
  | [], _ => rfl
  | (k, v) :: es, he => by
    rw [addEntries] at he ⊢
    rw [mapped_cons, unfold_add s hr v ((addEntries_chain _ es).1.trans he),
      unfold_addEntries _ hr es he]

end

theorem slot_wellFormed {c : Cell} {f : Slot → Value} {x : Slot} (h : (c.valueBy f).WellFormed)
    (hx : x ∈ c.slots) : (f x).WellFormed := by
  cases c with
  | list items | tuple items => exact Value.allWellFormed_iff.mp h _ (List.mem_map_of_mem hx)
  | set keys => cases hx
  | mapping es =>
    obtain ⟨e, he, rfl⟩ := List.mem_map.mp hx
    exact Value.entriesWellFormed_iff.mp h.2 _ (List.mem_map_of_mem he)

theorem Chain.wellFormed (h : t.Chain lo xs hi) (hr : t.Ranked rank)
    (hxs : ∀ x ∈ xs, (t.unfold x).WellFormed) (hlo : lo ≤ i) (hhi : i < hi) :
    (t.unfold (.ref i)).WellFormed := by
  induction h with
  | nil => exact absurd hhi (Nat.not_lt.mpr hlo)
  | leaf _ _ ih => exact ih (fun x hx => hxs x (List.mem_cons_of_mem _ hx)) hlo hhi
  | @cell lo d hi c xs hc inner rest ih ih' =>
    rcases Nat.lt_trichotomy i d with hlt | rfl | hlt
    · refine ih (fun x hx => slot_wellFormed ?_ hx) hlo hlt
      rw [← unfold_ref hr hc]
      exact hxs _ List.mem_cons_self
    · exact hxs _ List.mem_cons_self
    · exact ih' (fun x hx => hxs x (List.mem_cons_of_mem _ hx)) hlt hhi

end Store

namespace Registers
open Store

variable {r r' : Registers} {lay : Layout} {depth i j d m n : Nat} {p q : List Value}

/-! ## Registers that share no mapping -/

/-- The registers hold finite mappings, and no mapping is shared: one slot or one register refers to it.
Keys are no NaN and hold none. -/
structure Separate (r : Registers) : Prop where
  held : ∀ i ∈ r.roots, ∃ es, r.store.cells[i]? = some (.mapping es)
  inside : ∀ {i j : Nat}, r.store.Refers i j → j < r.store.cells.size
  finite : ∀ i, ¬ TransGen r.store.Refers i i
  keys : ∀ {i : Nat} {es : List (Value × Slot)}, r.store.cells[i]? = some (.mapping es) → Distinct es
  leaves : ∀ {i : Nat} {c : Cell} {v : Value}, r.store.cells[i]? = some c → .leaf v ∈ c.slots → v.IsLeaf
  unreferred : ∀ i ∈ r.roots, ∀ j, ¬ r.store.Refers j i
  alone : ∀ {i j d : Nat}, (r.store.mapping? d).isSome → r.store.Refers i d → r.store.Refers j d → i = j
  once : ∀ {i d : Nat} {es : List (Value × Slot)} {e f : Value × Slot}, (r.store.mapping? d).isSome →
    r.store.cells[i]? = some (.mapping es) → e ∈ es → f ∈ es → e.2 = .ref d → f.2 = .ref d → e = f

/-- A path of keys leads through mappings from a register to a mapping. -/
inductive Reached (r : Registers) : Nat → List Value → Prop
  | root {i : Nat} (hi : i ∈ r.roots) : Reached r i []
  | key {i j : Nat} {p : List Value} {es es' : List (Value × Slot)} {k : Value}
    (h : Reached r i p) (hes : r.store.cells[i]? = some (.mapping es)) (he : (k, .ref j) ∈ es)
    (hj : r.store.cells[j]? = some (.mapping es')) : Reached r j (p ++ [k.keyForm])

/-- The registers nest mappings less than `depth` deep, themselves not counted. -/
def Nests (r : Registers) (depth : Nat) : Prop := ∀ {i p}, r.Reached i p → p.length < depth

open Classical in
noncomputable def belowCells (r : Registers) (i : Nat) : Finset Nat :=
  {j ∈ Finset.range r.store.cells.size | TransGen r.store.Refers i j}

open Classical in
/-- Each mapping that is reached has its path as its place; the cells rank by how many lie below them. -/
noncomputable def layout (r : Registers) : Layout where
  place i := if h : ∃ p, r.Reached i p then some h.choose else none
  rank i := (r.belowCells i).card

open Classical in
theorem mem_belowCells :
    j ∈ r.belowCells i ↔ j < r.store.cells.size ∧ TransGen r.store.Refers i j := by
  rw [belowCells, Finset.mem_filter, Finset.mem_range]

namespace Separate

theorem rank_lt (h : r.Separate) (hr : r.store.Refers i j) : r.layout.rank j < r.layout.rank i := by
  have hsub : r.belowCells j ⊆ r.belowCells i := fun d hd =>
    mem_belowCells.mpr ((mem_belowCells.mp hd).imp id (.head hr))
  refine Finset.card_lt_card ((Finset.ssubset_iff_of_subset hsub).mpr ⟨j, ?_, fun hj => ?_⟩)
  · exact mem_belowCells.mpr ⟨h.inside hr, .single hr⟩
  · exact h.finite j (mem_belowCells.mp hj).2

theorem belowCells_subset (r : Registers) (i : Nat) :
    r.belowCells i ⊆ Finset.range r.store.cells.size := fun _ hj =>
  Finset.mem_range.mpr (mem_belowCells.mp hj).1

theorem rank_le (r : Registers) (i : Nat) : r.layout.rank i ≤ r.store.cells.size :=
  (Finset.card_le_card (belowCells_subset r i)).trans_eq (Finset.card_range _)

theorem rank_lt_size (h : r.Separate) (hi : i < r.store.cells.size) :
    r.layout.rank i < r.store.cells.size := by
  have hsub : r.belowCells i ⊂ Finset.range r.store.cells.size :=
    (Finset.ssubset_iff_of_subset (belowCells_subset r i)).mpr
      ⟨i, Finset.mem_range.mpr hi, fun hm => h.finite i (mem_belowCells.mp hm).2⟩
  exact (Finset.card_lt_card hsub).trans_eq (Finset.card_range _)

theorem kind (h : r.Separate) (hp : r.Reached i p) :
    ∃ es, r.store.cells[i]? = some (.mapping es) := by
  cases hp with
  | root hi => exact h.held i hi
  | key _ _ _ hj => exact ⟨_, hj⟩

theorem reached_unique (h : r.Separate) (hp : r.Reached i p) (hq : r.Reached i q) : p = q := by
  induction hp generalizing q with
  | root hi =>
    cases hq with
    | root => rfl
    | key _ hes he => exact absurd (refers_of hes (List.mem_map_of_mem he)) (h.unreferred _ hi _)
  | key _ hes he hj ih =>
    have hra := refers_of hes (List.mem_map_of_mem he)
    cases hq with
    | root hi => exact absurd hra (h.unreferred _ hi _)
    | key hq hfs hf _ =>
      -- One cell refers to the mapping, and that one does it under one key.
      have hm := Option.isSome_of_eq_some (mapping?_eq.mpr hj)
      obtain rfl := h.alone hm hra (refers_of hfs (List.mem_map_of_mem hf))
      cases hes.symm.trans hfs
      cases h.once hm hes he hf rfl rfl
      rw [ih hq]

theorem place_eq_some (h : r.Separate) : r.layout.place i = some p ↔ r.Reached i p := by
  constructor
  · intro hp
    rw [layout] at hp
    dsimp only at hp
    split at hp
    · next hex =>
      cases hp
      exact hex.choose_spec
    · cases hp
  · intro hp
    have hex : ∃ p, r.Reached i p := ⟨p, hp⟩
    exact (dif_pos hex).trans (congrArg some (h.reached_unique hex.choose_spec hp))

theorem place_eq_none (hno : ∀ p, ¬ r.Reached i p) : r.layout.place i = none :=
  dif_neg fun hex => hno _ hex.choose_spec

theorem reached_lt (h : r.Separate) (hp : r.Reached i p) :
    r.layout.rank i + p.length < r.store.cells.size := by
  induction hp with
  | root hi =>
    obtain ⟨es, hes⟩ := h.held _ hi
    exact h.rank_lt_size (lt_size hes)
  | key _ hes he _ ih =>
    have := h.rank_lt (refers_of hes (List.mem_map_of_mem he))
    rw [List.length_append, List.length_singleton]
    omega

theorem shallow (h : r.Separate) : r.store.Shallow r.layout := by
  refine ⟨fun i p hp => ?_, rank_le r⟩
  have := h.reached_lt (h.place_eq_some.mp hp)
  omega

theorem laid (h : r.Separate) : r.store.Laid r.layout := by
  refine ⟨fun i p hp => ?_, fun i c hc hi x hx => ?_, fun i es hes => h.keys hes⟩
  · have hp := h.place_eq_some.mp hp
    obtain ⟨es, hes⟩ := h.kind hp
    refine ⟨es, hes, fun e he => ?_⟩
    obtain ⟨k, x⟩ := e
    cases x with
    | leaf v => exact h.leaves hes (List.mem_map_of_mem he)
    | ref d =>
      refine ⟨h.inside (refers_of hes (List.mem_map_of_mem he)), ?_⟩
      cases hm : r.store.mapping? d with
      | some es' => exact h.place_eq_some.mpr (.key hp hes he (mapping?_eq.mp hm))
      | none =>
        refine place_eq_none fun q hq => ?_
        obtain ⟨es', hes'⟩ := h.kind hq
        rw [mapping?_eq.mpr hes'] at hm
        cases hm
  · cases x with
    | leaf v => exact h.leaves hc hx
    | ref d =>
      have hr := refers_of hc hx
      refine ⟨h.rank_lt hr, place_eq_none fun q hq => ?_⟩
      cases hq with
      | root hd => exact h.unreferred d hd i hr
      | key hq hes he hd =>
        obtain rfl := h.alone (Option.isSome_of_eq_some (mapping?_eq.mpr hd)) hr
          (refers_of hes (List.mem_map_of_mem he))
        rw [h.place_eq_some.mpr hq] at hi
        cases hi

end Separate

/-! ## Registers at the beginning -/

theorem ofEntries_concat (ms : List Entries) (es : Entries) : ofEntries (ms ++ [es]) =
    ⟨((ofEntries ms).store.addMapping es).2,
      (ofEntries ms).roots ++ [((ofEntries ms).store.addMapping es).1]⟩ := by
  rw [ofEntries, List.foldl_append]
  rfl

structure Begun (r : Registers) (ms : List Entries) : Prop where
  chain : r.store.Chain 0 (r.roots.map .ref) r.store.cells.size
  values : ∀ {t : Store} {rank : Nat → Nat}, r.store.Extends t → t.Ranked rank →
    r.roots.map (fun i => t.unfold (.ref i)) = ms.map .mapping

theorem begun_ofEntries (ms : List Entries) : (ofEntries ms).Begun ms := by
  induction ms using List.reverseRecOn with
  | nil => exact ⟨.nil 0, fun _ _ => rfl⟩
  | append_singleton ms es ih =>
    obtain ⟨he, hc⟩ := addMapping_chain (ofEntries ms).store es
    rw [ofEntries_concat]
    refine ⟨?_, fun ht hr => ?_⟩
    · rw [List.map_append]
      exact (ih.chain.mono he).append hc
    · rw [List.map_append, List.map_append, ih.values (he.trans ht) hr]
      refine congrArg (_ ++ [·]) ?_
      exact unfold_add (ofEntries ms).store hr (.mapping es) (add_mapping .. ▸ ht)

namespace Begun
variable {ms : List Entries}

theorem ranked (h : r.Begun ms) : r.store.Ranked id := fun i _ hr =>
  (h.chain.refers (Nat.zero_le i) (lt_size hr.choose_spec.1) hr).2

theorem root_value (h : r.Begun ms) (hi : i ∈ r.roots) :
    ∃ es ∈ ms, r.store.unfold (.ref i) = .mapping es := by
  have hm : r.store.unfold (.ref i) ∈ ms.map .mapping :=
    h.values (.refl _) h.ranked ▸ List.mem_map_of_mem hi
  obtain ⟨es, hes, he⟩ := List.mem_map.mp hm
  exact ⟨es, hes, he.symm⟩

theorem wellFormed (h : r.Begun ms) (hms : ∀ es ∈ ms, (Value.mapping es).WellFormed)
    (hi : i < r.store.cells.size) : (r.store.unfold (.ref i)).WellFormed := by
  refine h.chain.wellFormed h.ranked (fun x hx => ?_) (Nat.zero_le i) hi
  obtain ⟨j, hj, rfl⟩ := List.mem_map.mp hx
  obtain ⟨es, hes, hv⟩ := h.root_value hj
  exact hv ▸ hms es hes

theorem separate (h : r.Begun ms) (hms : ∀ es ∈ ms, (Value.mapping es).WellFormed) :
    r.Separate := by
  have hcell : ∀ {i : Nat} {c : Cell}, r.store.cells[i]? = some c →
      (c.valueBy r.store.unfold).WellFormed := fun hc =>
    unfold_ref h.ranked hc ▸ h.wellFormed hms (lt_size hc)
  have hwithin : ∀ {i : Nat} {c : Cell}, r.store.cells[i]? = some c →
      ∃ mid, r.store.Chain mid c.slots i := fun hc =>
    (h.chain.within (Nat.zero_le _) (lt_size hc) hc).imp fun _ hm => hm.2
  have hrefers : ∀ {i j : Nat}, r.store.Refers i j → i < r.store.cells.size := fun hr =>
    lt_size hr.choose_spec.1
  refine ⟨fun i hi => ?_, fun hr => (h.ranked hr).trans (hrefers hr), h.ranked.not_cyclic,
    fun hes => (distinct_mapped _).mp (hcell hes).1, fun {i c v} hc hv => ?_, fun i hi j hr => ?_,
    fun {i j d} _ hi hj => ?_, fun _ hes he hf => ?_⟩
  · obtain ⟨es, -, hv⟩ := h.root_value hi
    cases hc : r.store.cells[i]? with
    | none =>
      rw [unfold_missing hc] at hv
      cases hv
    | some c =>
      rw [unfold_ref h.ranked hc] at hv
      cases c with
      | mapping es => exact ⟨es, rfl⟩
      | _ => cases hv
  · obtain ⟨mid, hch⟩ := hwithin hc
    have hno := hch.leaf_of_mem hv
    have hvw := slot_wellFormed (hcell hc) hv
    rw [unfold_leaf] at hvw
    cases v <;> first | exact absurd trivial hno | exact hvw.elim | trivial
  · exact h.chain.not_refers (List.mem_map_of_mem hi) (Nat.zero_le j) (hrefers hr) hr
  · rcases Nat.lt_trichotomy i j with hlt | heq | hlt
    · exact absurd hj (h.chain.refers_once (Nat.zero_le i) hlt (hrefers hj) hi)
    · exact heq
    · exact absurd hi (h.chain.refers_once (Nat.zero_le j) hlt (hrefers hi) hj)
  · obtain ⟨mid, hch⟩ := hwithin hes
    exact hch.entry_once he hf

end Begun

/-! ## Merges -/

/-- A register from which a container is reached that lies below itself. -/
def Cyclic (r : Registers) (n : Nat) : Prop :=
  ∃ i, r.store.Below (r.root n) i ∧ TransGen r.store.Refers i i

/-- Registers of which the mappings have places, their own being the empty path. -/
structure Placed (r : Registers) (lay : Layout) : Prop where
  laid : r.store.Laid lay
  shallow : r.store.Shallow lay
  roots : ∀ i ∈ r.roots, lay.place i = some []

theorem Separate.placed (h : r.Separate) : r.Placed r.layout :=
  ⟨h.laid, h.shallow, fun _ hi => h.place_eq_some.mpr (.root hi)⟩

theorem Separate.within (h : r.Separate) (hdepth : r.Nests depth) : r.layout.Within depth :=
  fun _ _ hp => hdepth (h.place_eq_some.mp hp)

namespace Placed

theorem not_cyclic (h : r.Placed lay) (n : Nat) : ¬ r.Cyclic n := fun ⟨i, _, hi⟩ =>
  (h.laid.ranked h.shallow).not_cyclic i hi

theorem root_placed (h : r.Placed lay) (hn : n < r.roots.length) :
    lay.place (r.root n) = some [] := by
  refine h.roots _ ?_
  rw [root, List.getElem?_eq_getElem hn, Option.getD_some]
  exact List.getElem_mem hn

theorem merge (h : r.Placed lay) (hdepth : lay.Within depth) (hm : m < r.roots.length)
    (hn : n < r.roots.length) :
    ∃ r', r.merge depth m n = .ok r' ∧ r'.Placed lay ∧ r'.roots = r.roots ∧
      r'.value m = (r.value m).overlay (r.value n) ∧ r'.value n = r.value n ∧
      r'.merge depth m n = .ok r' := by
  have hpm := h.root_placed hm
  have hpn := h.root_placed hn
  obtain ⟨t, ht, hmerged⟩ := mergeFrom_merged hdepth h.laid h.shallow hpm hpn (Nat.le_add_right _ _)
  have hst := h.shallow.of_size hmerged.size
  have hagain := hmerged.settled.mergeFrom_eq hmerged.laid hdepth hpm hpn (Nat.le_add_right _ _)
  refine ⟨⟨t, r.roots⟩, ?_, ⟨hmerged.laid, hst, h.roots⟩, rfl, hmerged.value, ?_, ?_⟩
  · rw [Registers.merge, ht]
    rfl
  · refine unfold_same hmerged.size.ge fun c hc => ?_
    obtain ⟨i, hi, hb⟩ := hc
    cases hi
    exact same_of_frame (fun c hc => (hmerged.frame c hc).2) hb
  · rw [Registers.merge]
    exact congrArg (fun x => x >>= fun t => pure (⟨t, r.roots⟩ : Registers)) hagain

theorem mergeAll (h : r.Placed lay) (hdepth : lay.Within depth) {steps : List (Nat × Nat)}
    (hsteps : ∀ step ∈ steps, step.1 < r.roots.length ∧ step.2 < r.roots.length) :
    ∃ r', r.mergeAll depth steps = .ok r' ∧ r'.Placed lay ∧ r'.roots = r.roots := by
  induction steps generalizing r with
  | nil => exact ⟨r, rfl, h, rfl⟩
  | cons step steps ih =>
    obtain ⟨hstep, hsteps⟩ := List.forall_mem_cons.mp hsteps
    obtain ⟨r', hr', hplaced, hroots, -⟩ := h.merge hdepth hstep.1 hstep.2
    obtain ⟨r'', hr'', hplaced', hroots'⟩ := ih hplaced (hroots ▸ hsteps)
    refine ⟨r'', ?_, hplaced', hroots'.trans hroots⟩
    rw [Registers.mergeAll, List.foldlM_cons, hr']
    exact hr''

end Placed

/-- Merging registers in place, in any order and into themselves, is laying their values over each
other, if mappings are nested no deeper than a merge can follow. -/
theorem merges_are_overlays {r : Registers} (h : r.Separate) {depth : Nat} (hdepth : r.Nests depth)
    {steps : List (Nat × Nat)}
    (hsteps : ∀ step ∈ steps, step.1 < r.roots.length ∧ step.2 < r.roots.length) :
    ∃ r', r.mergeAll depth steps = .ok r' ∧ (∀ n, ¬ r'.Cyclic n) ∧
      ∀ m < r.roots.length, ∀ n < r.roots.length, ∃ r'', r'.merge depth m n = .ok r'' ∧
        (∀ l, ¬ r''.Cyclic l) ∧
        r''.value m = (r'.value m).overlay (r'.value n) ∧
        r''.value n = r'.value n ∧
        ∃ again, r''.merge depth m n = .ok again ∧ ∀ l, again.value l = r''.value l := by
  have hwithin := h.within hdepth
  obtain ⟨r', hr', hplaced, hroots⟩ := h.placed.mergeAll hwithin hsteps
  refine ⟨r', hr', hplaced.not_cyclic, fun m hm n hn => ?_⟩
  obtain ⟨r'', hr'', hplaced', -, hvalue, hsource, hagain⟩ :=
    hplaced.merge hwithin (hroots ▸ hm) (hroots ▸ hn)
  exact ⟨r'', hr'', hplaced'.not_cyclic, hvalue, hsource, r'', hagain, fun _ => rfl⟩

/-- Three registers, of which the third comes to share a mapping with the first. -/
def sharing : Registers :=
  ofEntries [[(.text "a", .mapping [(.text "x", .int 1)])], [(.text "a", .mapping [(.text "y", .int 2)])], []]

theorem separate_sharing : sharing.Separate :=
  (begun_ofEntries _).separate fun es hes => by
    simp only [List.mem_cons, List.not_mem_nil, or_false] at hes
    rcases hes with rfl | rfl | rfl <;>
      simp [Value.WellFormed, Value.EntriesWellFormed, distinct_cons, distinct_nil, Value.IsKey]

/-- A path that is longer than there are cells would lead to a cell twice. -/
theorem Separate.nests (h : r.Separate) : r.Nests r.store.cells.size := fun hp =>
  Nat.lt_of_le_of_lt (Nat.le_add_left _ _) (h.reached_lt hp)

theorem merges_are_overlays_shared :
    sharing.Separate ∧ sharing.Nests 5 ∧
      (∀ step ∈ [(2, 0)], step.1 < sharing.roots.length ∧ step.2 < sharing.roots.length) ∧
      ∃ r', sharing.mergeAll 5 [(2, 0)] = .ok r' ∧ (∀ n, ¬ r'.Cyclic n) ∧
        ∃ r'', r'.merge 5 2 1 = .ok r'' ∧
          r''.value 2 = (r'.value 2).overlay (r'.value 1) ∧ r''.value 1 = r'.value 1 := by
  have hnests : sharing.Nests 5 := separate_sharing.nests
  have hsteps : ∀ step ∈ [(2, 0)], step.1 < sharing.roots.length ∧ step.2 < sharing.roots.length := by
    decide
  obtain ⟨r', hr', hcyclic, hmerge⟩ := merges_are_overlays separate_sharing hnests hsteps
  obtain ⟨r'', hr'', -, hvalue, hsource, -⟩ := hmerge 2 (by decide) 1 (by decide)
  exact ⟨separate_sharing, hnests, hsteps, r', hr', hcyclic, r'', hr'', hvalue, hsource⟩

/-- What the third register brings to the shared mapping shows in the first. -/
example : (sharing.mergeAll 2 [(2, 0), (2, 1)]).map (·.value 0) =
    .ok (.mapping [(.text "a", .mapping [(.text "x", .int 1), (.text "y", .int 2)])]) := by
  rfl

/-! ## Mappings that are nested too deep -/

def nested : Nat → Entries
  | 0 => []
  | n + 1 => [(.text "n", .mapping (nested n))]

theorem wellFormed_nested (n : Nat) : (Value.mapping (nested n)).WellFormed := by
  induction n with
  | zero => simp [nested, Value.WellFormed, Value.EntriesWellFormed, distinct_nil]
  | succ n ih =>
    simpa [nested, Value.WellFormed, Value.EntriesWellFormed, distinct_cons, distinct_nil,
      Value.IsKey] using ih

/-- The one slot of a cell that shows a nested mapping refers to a cell that shows the mapping inside. -/
theorem Separate.nested_cell (h : r.Separate) {n : Nat}
    (hv : r.store.unfold (.ref i) = .mapping (nested (n + 1))) :
    ∃ j, r.store.cells[i]? = some (.mapping [(.text "n", .ref j)]) ∧
      r.store.unfold (.ref j) = .mapping (nested n) := by
  have hr := h.laid.ranked h.shallow
  cases hc : r.store.cells[i]? with
  | none =>
    rw [unfold_missing hc] at hv
    cases hv
  | some c =>
    rw [unfold_ref hr hc] at hv
    cases c with
    | mapping es =>
      rw [Cell.valueBy, nested, Value.mapping.injEq, mapped, List.map_eq_singleton_iff] at hv
      obtain ⟨⟨k, x⟩, rfl, he⟩ := hv
      obtain ⟨rfl, hx⟩ := Prod.mk.inj he
      cases x with
      | leaf v =>
        have hleaf := h.leaves hc (v := v) List.mem_cons_self
        rw [unfold_leaf] at hx
        rw [hx] at hleaf
        exact hleaf.elim
      | ref j => exact ⟨j, rfl, hx⟩
    | _ => cases hv

theorem Separate.mergeFrom_nested (h : r.Separate) {n : Nat} : ∀ {i j : Nat},
    r.store.unfold (.ref i) = .mapping (nested n) → r.store.unfold (.ref j) = .mapping (nested n) →
      r.store.mergeFrom n i j = .error tooDeep := by
  induction n with
  | zero => exact fun _ _ => rfl
  | succ n ih =>
    intro i j hi hj
    obtain ⟨a, ha, hav⟩ := h.nested_cell hi
    obtain ⟨b, hb, hbv⟩ := h.nested_cell hj
    have hmapping : ∀ {c}, r.store.unfold (.ref c) = .mapping (nested n) →
        r.store.slotDict? (.ref c) = some c := by
      intro c hc
      have hdict := isDict_unfold h.laid h.shallow (x := .ref c) nofun
      rw [hc] at hdict
      obtain ⟨d, hd⟩ := Option.isSome_iff_exists.mp hdict.symm
      cases (slotDict?_eq_some.mp hd).1
      exact hd
    have hentry : mergeEntry (mergeFrom n) r.store i (.text "n") (.ref b) = .error tooDeep := by
      rw [mergeEntry_into ha (c := a) (d := b) ?_ (hmapping hbv), ih hav hbv]
      exact hmapping hav
    rw [mergeFrom_eq hb, List.length_singleton]
    refine (mergeEntries_cons hb (List.suffix_refl [_])).trans ?_
    rw [hentry]
    rfl

def nestedPair (depth : Nat) : Registers := ofEntries [nested depth, nested depth]

theorem merge_nestedPair (depth : Nat) :
    (nestedPair depth).Separate ∧ (nestedPair depth).merge depth 0 1 = .error tooDeep := by
  have hbegun := begun_ofEntries [nested depth, nested depth]
  have hseparate := hbegun.separate fun es hes => by
    simp only [List.mem_cons, List.not_mem_nil, or_false, or_self] at hes
    exact hes ▸ wellFormed_nested depth
  have hvalues := hbegun.values (.refl _) hbegun.ranked
  rw [← nestedPair] at hseparate hvalues
  generalize nestedPair depth = r at hseparate hvalues
  refine ⟨hseparate, ?_⟩
  obtain ⟨i, rest, hroots, hi, hrest⟩ := List.map_eq_cons_iff.mp hvalues
  obtain ⟨j, rest, rfl, hj, hnil⟩ := List.map_eq_cons_iff.mp hrest
  rw [Registers.merge, root, root, hroots]
  exact congrArg (· >>= _) (hseparate.mergeFrom_nested hi hj)

theorem merge_reaches_limit :
    (nestedPair Limits.usual.merging).Separate ∧
      (nestedPair Limits.usual.merging).merge Limits.usual.merging 0 1 = .error tooDeep :=
  merge_nestedPair _

end Registers
end ConfigLoader
