import ConfigLoader.Proofs.Settings.Sections
import ConfigLoader.Proofs.Value.Registers

/-! # Merging over a mapping that holds an empty one

A mapping merged over another gives each key its own slot. Only where both have a mapping under a key do
the entries of the new one come into the old one, and an empty one takes them as they are. All that the
merged mapping refers to keeps its value, so this also is said of keys that are not the same as themselves.
-/
namespace ConfigLoader
open Keyed

namespace Store
variable {s t u : Store} {rank : Nat → Nat} {again again' : Nat → Value} {fuel i j c m o d : Nat}
  {x : Slot} {f : Slot → Value} {es base done os : List (Value × Slot)} {k l : Value}

/-! ## Values in a store that grows -/

theorem Extends.size_le (h : s.Extends t) : s.cells.size ≤ t.cells.size := by
  by_contra hlt
  have hat := h (Array.getElem?_eq_getElem (Nat.lt_of_not_le hlt))
  exact absurd (lt_size hat) (Nat.lt_irrefl _)

/-- A slot unfolds as before, also under containers that are new. -/
theorem unfoldFrom_extends (hw : s.Whole) (he : s.Extends t)
    (hagain : ∀ i < s.cells.size, again' i = again i) {above : List Nat}
    (habove : ∀ a ∈ above, s.cells.size ≤ a) (path : List Nat) (hx : x.Fits s.cells.size) :
    t.unfoldFrom again' fuel (path ++ above) x = s.unfoldFrom again fuel path x := by
  induction fuel generalizing path x with
  | zero =>
    cases x with
    | leaf v => rw [unfoldFrom_leaf, unfoldFrom_leaf]
    | ref i => exact hagain i hx
  | succ fuel ih =>
    cases x with
    | leaf v => rw [unfoldFrom_leaf, unfoldFrom_leaf]
    | ref i =>
      have hi : i < s.cells.size := hx
      have hcell := Array.getElem?_eq_getElem hi
      have hno : i ∉ above := fun ha => absurd (habove i ha) (Nat.not_le.mpr hi)
      have hmem : i ∈ path ++ above ↔ i ∈ path := by simp [hno]
      have hsame : (s.cells[i]).valueBy (t.unfoldFrom again' fuel (i :: (path ++ above))) =
          (s.cells[i]).valueBy (s.unfoldFrom again fuel (i :: path)) :=
        Cell.valueBy_congr fun x hx => ih (i :: path) (hw i _ hcell x hx)
      rw [unfoldFrom_ref (he hcell), unfoldFrom_ref hcell, hsame, hagain i hi]
      exact if_congr hmem rfl rfl

theorem Extends.mark_eq (he : s.Extends t) (hi : i < s.cells.size) : t.mark i = s.mark i := by
  have hcell := Array.getElem?_eq_getElem hi
  rw [mark, mark, mapping?, mapping?, he hcell, hcell]

theorem Whole.unfoldFrom_eq (hw : s.Whole) (he : s.Extends t) {above : List Nat}
    (habove : ∀ a ∈ above, s.cells.size ≤ a) (hfuel : s.cells.size < fuel) (hx : x.Fits s.cells.size) :
    t.unfoldFrom t.mark fuel above x = s.unfold x :=
  (unfoldFrom_extends hw he (fun _ => he.mark_eq) habove [] hx).trans
    (unfoldFrom_fuel .nil nofun hfuel (Nat.lt_succ_self _))

theorem Whole.unfold_eq (hw : s.Whole) (he : s.Extends t) (hx : x.Fits s.cells.size) :
    t.unfold x = s.unfold x :=
  hw.unfoldFrom_eq he nofun (Nat.lt_succ_of_le he.size_le) hx

theorem Whole.dump_eq (hw : s.Whole) (he : s.Extends t) (hx : x.Fits s.cells.size) :
    t.dump x = s.dump x := by
  have hnone : ∀ a ∈ ([] : List Nat), s.cells.size ≤ a := nofun
  exact (unfoldFrom_extends hw he (fun _ hi => hw.unfold_eq he (x := .ref _) hi) hnone [] hx).trans
    (unfoldFrom_fuel .nil nofun (Nat.lt_succ_of_le he.size_le) (Nat.lt_succ_self _))

theorem Whole.fits (hw : s.Whole) (hj : s.cells[j]? = some (.mapping es)) (hx : get? es k = some x) :
    x.Fits s.cells.size := by
  obtain ⟨l, hmem, -⟩ := get?_mem hx
  exact hw j _ hj x (List.mem_map.mpr ⟨(l, x), hmem, rfl⟩)

theorem Whole.under_lt (hw : s.Whole) (hx : x.Fits s.cells.size) (h : s.Under x j) :
    j < s.cells.size := by
  obtain ⟨i, rfl, hb⟩ := h
  induction hb with
  | refl => exact hx
  | tail _ hr ih => exact hw.closed _ ih _ hr

theorem isContainer_unfold (hi : i < s.cells.size) : (s.unfold (.ref i)).IsContainer := by
  rw [unfold, unfoldFrom_cell (Array.getElem?_eq_getElem hi) List.not_mem_nil]
  cases s.cells[i] <;> exact trivial

/-- Finite data: no container lies within itself, and no mapping has a key twice. -/
structure IsData (s : Store) : Prop where
  whole : s.Whole
  acyclic : ∃ rank, s.Ranked rank
  apart : ∀ (i : Nat) (es : List (Value × Slot)), s.cells[i]? = some (.mapping es) → Apart es

theorem IsData.sound (h : s.IsData) : s.Sound := ⟨h.whole, h.apart⟩

theorem isData_of_earlier (h : ∀ (i : Nat) (c : Cell), s.cells[i]? = some c →
    (∀ x ∈ c.slots, x.Fits i) ∧ ∀ es, c = .mapping es → Apart es) : s.IsData where
  whole i c hc x hx := ((h i c hc).1 x hx).mono (Nat.le_of_lt (lt_size hc))
  acyclic := ⟨id, fun i _ ⟨c, hc, hj⟩ => (h i c hc).1 _ hj⟩
  apart i es hc := (h i _ hc).2 es rfl

theorem slotDict?_extends (he : s.Extends t) (hx : x.Fits s.cells.size) :
    t.slotDict? x = s.slotDict? x := by
  cases x with
  | leaf v => rfl
  | ref i =>
    have hi : i < s.cells.size := hx
    have hcell : s.cells[i]? = some s.cells[i] := Array.getElem?_eq_getElem hx
    simp only [slotDict?, mapping?, hcell, he hcell]

/-! ## Values entry by entry -/

def spread (s : Store) (f : Slot → Value) (x : Slot) : Value :=
  match (s.slotDict? x).bind s.mapping? with
  | some es => .mapping (mapped f es)
  | none => s.unfold x

theorem spread_ref (hi : s.cells[i]? = some (.mapping es)) :
    s.spread f (.ref i) = .mapping (mapped f es) := by
  have hx : s.slotDict? (.ref i) = some i := slotDict?_eq_some.mpr ⟨rfl, es, hi⟩
  rw [spread, hx, Option.bind_some, mapping?_eq.mpr hi]

theorem spread_other (hx : s.slotDict? x = none) : s.spread f x = s.unfold x := by
  rw [spread, hx]
  rfl

theorem spread_eq (hr : s.Ranked rank) (x : Slot) : s.spread s.dump x = s.unfold x := by
  cases hx : s.slotDict? x with
  | none => exact spread_other hx
  | some i =>
    obtain ⟨rfl, es, hi⟩ := slotDict?_eq_some.mp hx
    rw [spread_ref hi, unfold_ref hr hi, funext (dump_eq hr)]
    rfl

theorem spread_same (hsize : s.cells.size ≤ t.cells.size)
    (hs : ∀ k, s.Under x k → t.cells[k]? = s.cells[k]?) : t.spread t.dump x = s.spread s.dump x := by
  cases hx : s.slotDict? x with
  | some i =>
    obtain ⟨rfl, es, hi⟩ := slotDict?_eq_some.mp hx
    rw [spread_ref hi, spread_ref ((hs i ⟨i, rfl, .refl⟩).trans hi)]
    refine congrArg _ (List.map_congr_left fun e he => ?_)
    rw [dump_same hsize fun k hk => hs k ⟨i, rfl, hk.of_mem hi (List.mem_map_of_mem he)⟩]
  | none =>
    have ht : t.slotDict? x = none := by
      cases x with
      | leaf v => rfl
      | ref i =>
        rw [slotDict?, mapping?] at hx ⊢
        rw [hs i ⟨i, rfl, .refl⟩]
        exact hx
    rw [spread_other hx, spread_other ht, unfold_same hsize hs]

/-! ## Merging over an empty mapping -/

@[simp] theorem put_put (s : Store) (i : Nat) (c c' : Cell) : (s.put i c).put i c' = s.put i c' := by
  simp [put]

theorem mergeFrom_empty {depth : Nat} (hc : s.cells[c]? = some (.mapping []))
    (ho : s.cells[o]? = some (.mapping os)) (hco : c ≠ o) (hos : Apart os) :
    s.mergeFrom (depth + 1) c o = .ok (s.put c (.mapping os)) := by
  have hrun : ∃ t, mergeEntries (mergeFrom depth) c o os.length os.length s = .ok t ∧
      ∃ done, os = done ++ [] ∧ t = s.put c (.mapping done) := by
    refine mergeEntries_run (fun rest t => ∃ done, os = done ++ rest ∧ t = s.put c (.mapping done))
      ?_ ?_ List.suffix_rfl ⟨[], rfl, (put_same hc).symm⟩
    · rintro rest t ⟨done, -, rfl⟩
      rw [put_other _ hco, ho]
    · rintro k x rest t - ⟨done, rfl, rfl⟩
      have hnew : get? done k = none := hos.get?_before
      refine ⟨_, mergeEntry_put (put_self (lt_size hc) _) (.inl ?_), done ++ [(k, x)], ?_, ?_⟩
      · rw [hnew, Option.bind_none]
      · rw [List.append_assoc, List.singleton_append]
      · rw [put_put, put_new hnew]
  obtain ⟨t, ht, done, rfl, rfl⟩ := hrun
  rw [mergeFrom_eq ho, ht, List.append_nil]

/-- What a key refers to after a merge that finds `old` under it and brings a new slot. -/
def mergedSlot (s : Store) (old : Option Slot) (x : Slot) : Slot :=
  match old.bind s.slotDict?, s.slotDict? x with
  | some c, some _ => .ref c
  | _, _ => x

def entriesUnder (s : Store) (es : List (Value × Slot)) (k : Value) : List (Value × Slot) :=
  (((get? es k).bind s.slotDict?).bind s.mapping?).getD []

/-- A mapping in cell `m` whose only mapping inside is the empty one in cell `c`, under the key `k`. -/
structure Ready (s : Store) (base : List (Value × Slot)) (k : Value) (c m : Nat) : Prop where
  top : s.cells[m]? = some (.mapping base)
  inner : s.cells[c]? = some (.mapping [])
  only : ∀ l b, (get? base l).bind s.slotDict? = some b ↔ l.sameKey k = true ∧ b = c

/-- A mapping elsewhere, which may bring another one under the key `k`. -/
structure Brought (s : Store) (es : List (Value × Slot)) (k : Value) (c m j : Nat) : Prop where
  cell : s.cells[j]? = some (.mapping es)
  away : j ≠ c ∧ j ≠ m
  apart : Apart es
  inner : ∀ x o, get? es k = some x → s.slotDict? x = some o →
    o ≠ c ∧ o ≠ m ∧ ∀ os, s.cells[o]? = some (.mapping os) → Apart os

/-- Where the walk through the mapping that is brought stands, with the entries `done` behind it. -/
structure Over (s t : Store) (base done : List (Value × Slot)) (k : Value) (c m : Nat) : Prop where
  size : t.cells.size = s.cells.size
  others : ∀ i, i ≠ c → i ≠ m → t.cells[i]? = s.cells[i]?
  inner : t.cells[c]? = some (.mapping (s.entriesUnder done k))
  top : ∃ ms, t.cells[m]? = some (.mapping ms) ∧
    ∀ l, get? ms l = ((get? done l).map (s.mergedSlot (get? base l))).or (get? base l)

theorem Over.slotDict?_eq (h : s.Over t base done k c m) (hr : s.Ready base k c m) (x : Slot) :
    t.slotDict? x = s.slotDict? x := by
  obtain ⟨ms, hms, -⟩ := h.top
  cases x with
  | leaf v => rfl
  | ref i =>
    rw [slotDict?, slotDict?]
    by_cases hic : i = c
    · subst hic
      rw [mapping?_eq.mpr h.inner, mapping?_eq.mpr hr.inner]
      rfl
    · by_cases him : i = m
      · subst him
        rw [mapping?_eq.mpr hms, mapping?_eq.mpr hr.top]
        rfl
      · rw [mapping?, mapping?, h.others i hic him]

theorem entriesUnder_append (hnew : get? done l = none) (s : Store) (x : Slot) :
    s.entriesUnder (done ++ [(l, x)]) k =
      if l.sameKey k then ((s.slotDict? x).bind s.mapping?).getD [] else s.entriesUnder done k := by
  rw [entriesUnder, entriesUnder, get?_append, get?_cons]
  by_cases hl : l.sameKey k = true
  · rw [if_pos hl, if_pos hl, ← get?_congr hl, hnew]
    rfl
  · rw [if_neg hl, if_neg hl]
    exact congrArg (fun o => ((o.bind s.slotDict?).bind s.mapping?).getD []) (Option.or_none ..)

theorem lookup_append {f : Option Slot → Slot → Slot} (hnew : get? done l = none) (x : Slot) (l' : Value) :
    ((get? (done ++ [(l, x)]) l').map (f (get? base l'))).or (get? base l') =
      if l.sameKey l' then some (f (get? base l) x)
      else ((get? done l').map (f (get? base l'))).or (get? base l') := by
  rw [get?_append, get?_cons]
  by_cases hl : l.sameKey l' = true
  · rw [if_pos hl, if_pos hl, ← get?_congr hl, ← get?_congr hl, hnew]
    rfl
  · rw [if_neg hl, if_neg hl]
    simp [get?]

theorem mergedSlot_put {old : Option Slot} (h : old.bind s.slotDict? = none ∨ s.slotDict? x = none) :
    s.mergedSlot old x = x := by
  rw [mergedSlot]
  rcases h with h | h
  · rw [h]
  · rw [h]
    split
    · next hx => cases hx
    · rfl

section Walk
variable (h : s.Over t base done k c m) (hr : s.Ready base k c m) (hcm : c ≠ m)
  (hnew : get? done l = none)
include h hr hcm hnew

theorem Over.step_into {depth : Nat} (hl : l.sameKey k = true) (hx : s.slotDict? x = some o)
    (ho : s.cells[o]? = some (.mapping os)) (hos : Apart os) (hoc : o ≠ c) (hom : o ≠ m) :
    ∃ u, mergeEntry (mergeFrom (depth + 1)) t m l x = .ok u ∧
      s.Over u base (done ++ [(l, x)]) k c m := by
  obtain ⟨ms, hms, hlookup⟩ := h.top
  have hbase : (get? base l).bind s.slotDict? = some c := (hr.only l c).mpr ⟨hl, rfl⟩
  have hold : get? ms l = get? base l := by
    rw [hlookup, hnew]
    rfl
  have hempty : t.cells[c]? = some (.mapping []) := by
    rw [h.inner, entriesUnder, ← get?_congr hl, hnew]
    rfl
  refine ⟨t.put c (.mapping os), ?_, ?_, ?_, ?_, ms, ?_, ?_⟩
  · rw [mergeEntry_into hms (c := c) (d := o)]
    · exact mergeFrom_empty hempty ((h.others o hoc hom).trans ho) hoc.symm hos
    · rw [hold, ← hbase]
      exact congrArg (get? base l).bind (funext (h.slotDict?_eq hr))
    · rw [h.slotDict?_eq hr, hx]
  · rw [size_put, h.size]
  · intro i hic him
    rw [put_other _ (Ne.symm hic), h.others i hic him]
  · rw [put_self (lt_size h.inner), entriesUnder_append hnew, if_pos hl, hx, Option.bind_some,
      mapping?_eq.mpr ho]
    rfl
  · rw [put_other _ hcm, hms]
  · intro l'
    rw [lookup_append hnew, hlookup]
    split
    · next hl' =>
      -- the key refers to the inner mapping, before and after
      obtain ⟨y, hy, hyc⟩ := Option.bind_eq_some_iff.mp hbase
      rw [← get?_congr hl', ← get?_congr hl', hnew, mergedSlot, hbase, hx, hy, (slotDict?_eq_some.mp hyc).1]
      rfl
    · rfl

theorem Over.step_put {into : Store → Nat → Nat → Except Fault Store}
    (hput : (get? base l).bind s.slotDict? = none ∨ s.slotDict? x = none) :
    ∃ u, mergeEntry into t m l x = .ok u ∧ s.Over u base (done ++ [(l, x)]) k c m := by
  obtain ⟨ms, hms, hlookup⟩ := h.top
  have hold : get? ms l = get? base l := by
    rw [hlookup, hnew]
    rfl
  have hput' : (get? ms l).bind t.slotDict? = none ∨ t.slotDict? x = none := by
    rw [hold, h.slotDict?_eq hr, funext (h.slotDict?_eq hr)]
    exact hput
  refine ⟨_, mergeEntry_put hms hput', ?_, ?_, ?_, _, put_self (lt_size hms) _, ?_⟩
  · rw [size_put, h.size]
  · intro i hic him
    rw [put_other _ (Ne.symm him), h.others i hic him]
  · rw [put_other _ hcm.symm, h.inner, entriesUnder_append hnew]
    split
    · next hl =>
      have hbase := (hr.only l c).mpr ⟨hl, rfl⟩
      have hx : s.slotDict? x = none := hput.resolve_left (by simp [hbase])
      rw [hx, entriesUnder, ← get?_congr hl, hnew]
      rfl
    · rfl
  · intro l'
    rw [lookup_append hnew, get?_put, hlookup]
    split
    · rw [mergedSlot_put hput]
    · rfl

end Walk

/-- One entry: where it brings a mapping under the key, its entries come into the inner mapping, and
otherwise it is put into the outer one. -/
theorem Over.step {depth : Nat} (h : s.Over t base done k c m) (hr : s.Ready base k c m)
    (hb : s.Brought es k c m j) (hcm : c ≠ m) {rest : List (Value × Slot)}
    (hes : es = done ++ (l, x) :: rest) :
    ∃ u, mergeEntry (mergeFrom (depth + 1)) t m l x = .ok u ∧
      s.Over u base (done ++ [(l, x)]) k c m := by
  have hnew : get? done l = none := Apart.get?_before (hes ▸ hb.apart)
  by_cases hput : (get? base l).bind s.slotDict? = none ∨ s.slotDict? x = none
  · exact h.step_put hr hcm hnew hput
  · rw [not_or] at hput
    obtain ⟨b, hinto⟩ := Option.ne_none_iff_exists'.mp hput.1
    obtain ⟨o, ho⟩ := Option.ne_none_iff_exists'.mp hput.2
    obtain ⟨hl, rfl⟩ := (hr.only l b).mp hinto
    have hx : get? es k = some x := by
      rw [← get?_congr hl, hes, get?_append, hnew, get?_cons, if_pos]
      · rfl
      · rw [Value.sameKey_left hl]
        exact hl
    obtain ⟨-, os, hos⟩ := slotDict?_eq_some.mp ho
    obtain ⟨hoc, hom, hapart⟩ := hb.inner x o hx ho
    exact h.step_into hr hcm hnew hl ho hos (hapart os hos) hoc hom

theorem Ready.over (hr : s.Ready base k c m) : s.Over s base [] k c m where
  size := rfl
  others _ _ _ := rfl
  inner := hr.inner
  top := ⟨base, hr.top, fun _ => rfl⟩

/-- The walk as a whole, by induction on the entries to come. -/
theorem Ready.merge {limit : Nat} (hlimit : 2 ≤ limit) (hr : s.Ready base k c m)
    (hb : s.Brought es k c m j) (hcm : c ≠ m) :
    ∃ t, s.mergeFrom limit m j = .ok t ∧ s.Over t base es k c m := by
  obtain ⟨depth, rfl⟩ := Nat.exists_eq_add_of_le' hlimit
  have hrun : ∃ t, mergeEntries (mergeFrom (depth + 1)) m j es.length es.length s = .ok t ∧
      ∃ done, es = done ++ [] ∧ s.Over t base done k c m := by
    refine mergeEntries_run (fun rest t => ∃ done, es = done ++ rest ∧ s.Over t base done k c m)
      ?_ ?_ List.suffix_rfl ⟨[], rfl, hr.over⟩
    · rintro rest t ⟨done, -, h⟩
      rw [h.others j hb.away.1 hb.away.2, hb.cell]
    · rintro l x rest t - ⟨done, hes, h⟩
      obtain ⟨u, hu, h'⟩ := h.step hr hb hcm hes
      refine ⟨u, hu, done ++ [(l, x)], ?_, h'⟩
      rw [hes, List.append_assoc, List.singleton_append]
  obtain ⟨t, ht, done, rfl, h⟩ := hrun
  rw [List.append_nil] at *
  refine ⟨t, ?_, h⟩
  rw [mergeFrom_eq hb.cell, ht]

end Store

end ConfigLoader
