import ConfigLoader.Proofs.Value.Filling
import ConfigLoader.Settings.Shared

/-! # Settings with and without the defaults

The table of defaults and the defaults of the record are two lists of the same things. Merged over the
table, user settings have under each name what they had, or else the default, so both readings agree. A
merge over the table follows no more than two mappings.
-/
namespace ConfigLoader
open Keyed

namespace Entries
open Value

theorem get?_deepMerge {base es : Entries} (h : Apart es) (t : Text) :
    (deepMerge base es).get? (.text t) =
      ((es.get? (.text t)).map (mergedWith (base.get? (.text t)))).or (base.get? (.text t)) := by
  induction es generalizing base with
  | nil => rw [deepMerge]; rfl
  | cons e es ih =>
    obtain ⟨k, v⟩ := e
    rw [deepMerge, ih (List.pairwise_cons.mp h).2, Entries.get?_put, Entries.get?_eq ((k, v) :: es),
      Keyed.get?_cons]
    by_cases hk : k.sameKey (.text t) = true
    · have hrest : Entries.get? es (.text t) = none := h.get?_after hk
      have hbase : base.get? k = base.get? (.text t) := Keyed.get?_congr hk
      simp only [hrest, hk, hbase, if_true, Option.map_none, Option.none_or, Option.map_some, Option.some_or]
    · rw [if_neg hk, if_neg hk]
      rfl

theorem deepMerge_new {base es : Entries} (h : Apart (base ++ es)) : deepMerge base es = base ++ es := by
  induction es generalizing base with
  | nil => rw [deepMerge, List.append_nil]
  | cons e es ih =>
    obtain ⟨k, v⟩ := e
    have hnew : Keyed.get? base k = none := h.get?_before
    have hv : mergedWith (base.get? k) v = v := by
      rw [Entries.get?_eq, hnew]
      exact mergedWith_plain (.inl nofun)
    rw [deepMerge, hv, Entries.put_eq, put_new hnew, ih (by simpa using h), List.append_assoc]
    rfl

end Entries

namespace Settings
open Validation Value

/-- Under every name stands what stood there before, or else the default. -/
def Filled (es es' : Entries) : Prop :=
  ∀ name, Entries.getText? es' name = (Entries.getText? es name).or (Entries.getText? defaultEntries name)

theorem field_filled {α : Type} {es es' : Entries} {name : String} {a : α} {v : Value} {reader : Reader α}
    (h : Filled es es') (hv : Entries.getText? defaultEntries name = some v) (ha : reader v = .ok a) :
    field es' name (some a) reader = field es name (some a) reader := by
  unfold field
  rw [h name, hv]
  cases Entries.getText? es name with
  | some w => rfl
  | none =>
    simp only [Option.none_or]
    rw [ha]

/-- Every default of the table is read as the record's own default for its field. -/
theorem ofEntries_filled {es es' : Entries} (h : Filled es es') : ofEntries es' = ofEntries es := by
  have hnode : field es' "node_executable" (some default.nodeExecutable) Validation.text =
      field es "node_executable" (some default.nodeExecutable) Validation.text := field_filled h rfl rfl
  have htypescript : field es' "typescript" (some default.typescript) Validation.text =
      field es "typescript" (some default.typescript) Validation.text := field_filled h rfl rfl
  have hcwd : field es' "cwd" (some default.cwd) (Validation.optional Validation.text) =
      field es "cwd" (some default.cwd) (Validation.optional Validation.text) := field_filled h rfl rfl
  have hcheck : field es' "type_check" (some default.typeCheck) boolean =
      field es "type_check" (some default.typeCheck) boolean := field_filled h rfl rfl
  have hoptions : field es' "compiler_options" (some default.compilerOptions) Validation.mapping =
      field es "compiler_options" (some default.compilerOptions) Validation.mapping :=
    field_filled h rfl rfl
  simp only [ofEntries, hnode, htypescript, hcwd, hcheck, hoptions]

theorem default_mapping {t : Text} {v : Value} (h : Entries.get? defaultEntries (.text t) = some v)
    (hv : v.isDict = true) : t = "compiler_options" ∧ v = .mapping [] := by
  obtain ⟨k, hmem, hk⟩ := get?_mem h
  rw [sameKey_text] at hk
  subst hk
  simp only [defaultEntries, List.mem_cons, List.not_mem_nil, or_false, Prod.mk.injEq, text.injEq] at hmem
  rcases hmem with ⟨-, rfl⟩ | ⟨-, rfl⟩ | ⟨-, rfl⟩ | ⟨-, rfl⟩ | ⟨rfl, rfl⟩
  · cases hv
  · cases hv
  · cases hv
  · cases hv
  · exact ⟨rfl, rfl⟩

theorem mergedWith_default {t : Text} {v : Value}
    (h : t = "compiler_options" → ∀ os, v = .mapping os → Apart os) :
    mergedWith (Entries.get? defaultEntries (.text t)) v = v := by
  cases hd : Entries.get? defaultEntries (.text t) with
  | none => exact mergedWith_plain (.inl nofun)
  | some d =>
    by_cases hdict : d.isDict = true
    · obtain ⟨ht, rfl⟩ := default_mapping hd hdict
      cases v with
      | mapping os =>
        have hnil : Apart (([] : Entries) ++ os) := h ht os rfl
        rw [mergedWith, Entries.deepMerge_new hnil, List.nil_append]
      | _ => exact mergedWith_plain (.inr rfl)
    · refine mergedWith_plain (.inl ?_)
      rintro _ ⟨⟩
      simpa using hdict

theorem filled_deepMerge {es : Entries} (h : Apart es)
    (hos : ∀ os, Entries.getText? es "compiler_options" = some (.mapping os) → Apart os) :
    Filled es (Entries.deepMerge defaultEntries es) := by
  intro name
  rw [Entries.getText?, Entries.getText?, Entries.getText?, Entries.get?_deepMerge h]
  cases hv : Entries.get? es (.text name) with
  | none => rfl
  | some v =>
    rw [Option.map_some, mergedWith_default]
    intro ht os hos'
    refine hos os ?_
    rw [Entries.getText?, ← hos', ← hv]
    exact congrArg (fun t : Text => Entries.get? es (.text t)) ht.symm

end Settings

namespace Settings
open Store Validation
variable {limits : Limits} {s u : Store} {d j : Nat} {es : List (Value × Slot)} {f : Slot → Value}

def defaultSlots (c : Nat) : List (Value × Slot) := [
  ("node_executable", .leaf "node"),
  ("typescript", .leaf "typescript"),
  ("cwd", .leaf .null),
  ("type_check", .leaf (.bool true)),
  ("compiler_options", .ref c)]

theorem addMapping_defaults (s : Store) : s.addMapping defaultEntries =
    (s.cells.size + 1,
      ⟨(s.cells.push (.mapping [])).push (.mapping (defaultSlots s.cells.size))⟩) := by
  simp [addMapping, defaultEntries, addEntries, add, Store.push, defaultSlots]

theorem defaultSlots_ref {b c : Nat} {k : Value} (h : get? (defaultSlots c) k = some (.ref b)) :
    k.sameKey "compiler_options" = true ∧ b = c := by
  obtain ⟨l, hmem, hl⟩ := get?_mem h
  simp only [defaultSlots, List.mem_cons, List.not_mem_nil, Prod.mk.injEq, reduceCtorEq, and_false,
    false_or, or_false, Slot.ref.injEq] at hmem
  obtain ⟨rfl, rfl⟩ := hmem
  exact ⟨Value.sameKey_symm hl, rfl⟩

theorem ready_defaults (u : Store) : (u.addMapping defaultEntries).2.Ready
    (defaultSlots u.cells.size) "compiler_options" u.cells.size (u.cells.size + 1) := by
  have hinner : (u.addMapping defaultEntries).2.cells[u.cells.size]? = some (.mapping []) := by
    have hne : u.cells.size ≠ (u.cells.push (.mapping [])).size := by
      rw [Array.size_push]
      omega
    rw [addMapping_defaults]
    dsimp only
    rw [Array.getElem?_push, if_neg hne, Array.getElem?_push_size]
  refine ⟨?_, hinner, ?_⟩
  · rw [addMapping_defaults]
    simp [Array.getElem_push]
  · intro l b
    constructor
    · intro h
      obtain ⟨y, hy, hb⟩ := Option.bind_eq_some_iff.mp h
      rw [(slotDict?_eq_some.mp hb).1] at hy
      exact defaultSlots_ref hy
    · rintro ⟨hl, rfl⟩
      rw [get?_congr hl]
      exact slotDict?_eq_some.mpr ⟨rfl, [], hinner⟩

theorem unfold_defaults (s : Store) :
    (s.addMapping defaultEntries).2.unfold (.ref (s.addMapping defaultEntries).1) =
      .mapping defaultEntries := by
  obtain ⟨htop, hinner, -⟩ := ready_defaults s
  have hfst : (s.addMapping defaultEntries).1 = s.cells.size + 1 := by rw [addMapping_defaults]
  have hsize : (s.addMapping defaultEntries).2.cells.size = s.cells.size + 1 + 1 := by
    simp [addMapping_defaults]
  have hempty : (s.addMapping defaultEntries).2.unfoldFrom (s.addMapping defaultEntries).2.mark
      (s.addMapping defaultEntries).2.cells.size [s.cells.size + 1] (.ref s.cells.size) = .mapping [] := by
    rw [hsize, unfoldFrom_cell hinner (by simp)]
    rfl
  rw [hfst, unfold_mapping htop]
  simp only [mapped, defaultSlots, List.map_cons, List.map_nil, unfoldFrom_leaf, hempty]
  rfl

theorem brought_raw (hs : s.Sound) (he : s.Extends u)
    (hj : s.cells[j]? = some (.mapping es)) :
    (u.addMapping defaultEntries).2.Brought es "compiler_options" u.cells.size (u.cells.size + 1) j := by
  have he' : s.Extends (u.addMapping defaultEntries).2 := he.trans (addMapping_chain u defaultEntries).1
  have hold : ∀ i, i < s.cells.size → i ≠ u.cells.size ∧ i ≠ u.cells.size + 1 := by
    intro i hi
    have := he.size_le
    omega
  refine ⟨he' hj, hold j (lt_size hj), hs.apart j es hj, ?_⟩
  intro x o hx ho
  have hfits := hs.whole.fits hj hx
  rw [slotDict?_extends he' hfits] at ho
  obtain ⟨rfl, os, hos⟩ := slotDict?_eq_some.mp ho
  obtain ⟨hoc, hom⟩ := hold o hfits
  refine ⟨hoc, hom, ?_⟩
  intro os' hos'
  rw [he' hos] at hos'
  cases hos'
  exact hs.apart o os hos

theorem fits_of_defaults (hd : s.unfold (.ref d) = .mapping defaultEntries) :
    (Slot.ref d).Fits s.cells.size := by
  by_contra hlt
  rw [unfold_missing (Array.getElem?_eq_none (Nat.le_of_not_lt hlt))] at hd
  cases hd

theorem layered_over (limits : Limits) (hs : s.Sound) (he : s.Extends u)
    (hd : u.unfold (.ref d) = .mapping defaultEntries) (hj : s.cells[j]? = some (.mapping es)) :
    ∃ w, layered limits d (.ref j) u = .ok (u.cells.size + 1, w) ∧
      (u.addMapping defaultEntries).2.Over w (defaultSlots u.cells.size) es "compiler_options"
        u.cells.size (u.cells.size + 1) := by
  have hcopy : u.copyMapping d = u.addMapping defaultEntries := by
    rw [copyMapping, hd]
  have hfst : (u.addMapping defaultEntries).1 = u.cells.size + 1 := by rw [addMapping_defaults]
  have hraw : (u.addMapping defaultEntries).2.slotDict? (.ref j) = some j :=
    slotDict?_eq_some.mpr ⟨rfl, es, (he.trans (addMapping_chain u defaultEntries).1) hj⟩
  obtain ⟨w, hw, hover⟩ :=
    (ready_defaults u).merge limits.enough.2.2.1 (brought_raw hs he hj) (Nat.ne_of_lt (Nat.lt_succ_self _))
  refine ⟨w, ?_, hover⟩
  simp only [layered, hcopy, hraw, hfst, hw]
  rfl

theorem extends_over {w : Store} {base done : List (Value × Slot)} {k : Value}
    (hover : (u.addMapping defaultEntries).2.Over w base done k u.cells.size (u.cells.size + 1)) :
    u.Extends w := by
  intro i c hc
  have hi : i < u.cells.size := lt_size hc
  rw [hover.others i (by omega) (by omega)]
  exact (addMapping_chain u defaultEntries).1 hc

def valueUnder (f : Slot → Value) (s : Store) (k : Value) (x : Slot) : Value :=
  if k.sameKey "compiler_options" then s.spread f x else s.unfold x

def valuesBy (f : Slot → Value) (s : Store) (es : List (Value × Slot)) : Entries :=
  es.map fun e => (e.1, valueUnder f s e.1 e.2)

def valuesOf (s : Store) (es : List (Value × Slot)) : Entries := valuesBy s.dump s es

theorem valuesBy_cons (f : Slot → Value) (s : Store) (e : Value × Slot) (es : List (Value × Slot)) :
    valuesBy f s (e :: es) = (e.1, valueUnder f s e.1 e.2) :: valuesBy f s es :=
  rfl

theorem get?_valuesBy (f : Slot → Value) (s : Store) (es : List (Value × Slot)) (k : Value) :
    get? (valuesBy f s es) k = (get? es k).map (valueUnder f s k) := by
  induction es with
  | nil => rfl
  | cons e es ih =>
    rw [valuesBy_cons, get?_cons, get?_cons]
    split
    · next hk =>
      rw [Option.map_some, valueUnder, valueUnder, Value.sameKey_right hk]
    · exact ih

theorem apart_valuesBy (f : Slot → Value) (s : Store) (es : List (Value × Slot)) :
    Apart (valuesBy f s es) ↔ Apart es :=
  List.pairwise_map

theorem mapping_valuesOf {rank : Nat → Nat} (hr : s.Ranked rank) (hj : s.cells[j]? = some (.mapping es)) :
    .mapping (valuesOf s es) = s.unfold (.ref j) := by
  have hvalue : ∀ k x, valueUnder s.dump s k x = s.unfold x := by
    intro k x
    rw [valueUnder, spread_eq hr, ite_self]
  rw [unfold_ref hr hj, Cell.valueBy, valuesOf, valuesBy, mapped]
  simp only [hvalue]

theorem get?_defaultEntries (c : Nat) (k : Value) : Entries.get? defaultEntries k =
    (get? (defaultSlots c) k).map fun
      | .leaf v => v
      | .ref _ => .mapping [] := by
  rw [← get?_mapped]
  rfl

section Over
variable {w : Store} {c m : Nat} {es ms : List (Value × Slot)}

theorem inner_value (hw : s.Whole) (he : s.Extends w) (hc : s.cells.size ≤ c) (hm : s.cells.size ≤ m)
    (hcm : c ≠ m) (hsize : s.cells.size + 1 < w.cells.size) {os : List (Value × Slot)}
    (hinner : w.cells[c]? = some (.mapping os)) (hos : ∀ e ∈ os, e.2.Fits s.cells.size) :
    w.unfoldFrom w.mark w.cells.size [m] (.ref c) = .mapping (mapped s.unfold os) := by
  obtain ⟨fuel, hfuel⟩ := Nat.exists_eq_add_one_of_ne_zero (Nat.ne_zero_of_lt hsize)
  have hno : c ∉ [m] := by simpa using hcm
  rw [hfuel, unfoldFrom_cell hinner hno]
  refine Cell.valueBy_congr (f := w.unfoldFrom w.mark fuel [c, m]) (c := .mapping os) ?_
  intro x hx
  obtain ⟨e, hmem, rfl⟩ := List.mem_map.mp hx
  refine hw.unfoldFrom_eq he ?_ (by omega) (hos e hmem)
  intro a ha
  simp only [List.mem_cons, List.not_mem_nil, or_false] at ha
  rcases ha with rfl | rfl
  · exact hc
  · exact hm

section Unfolding
variable (hw : s.Whole) (he : s.Extends u)
  (hover : (u.addMapping defaultEntries).2.Over w (defaultSlots u.cells.size) es "compiler_options"
    u.cells.size (u.cells.size + 1))
include hover

theorem size_over : w.cells.size = u.cells.size + 2 := by
  rw [hover.size, addMapping_defaults]
  simp

include hw he

theorem unfold_raw {x : Slot} (hx : x.Fits s.cells.size) :
    w.unfoldFrom w.mark w.cells.size [u.cells.size + 1] x = s.unfold x := by
  have hle := he.size_le
  have hsize := size_over hover
  refine hw.unfoldFrom_eq (he.trans (extends_over hover)) ?_ (by omega) hx
  simp only [List.mem_singleton]
  omega

theorem unfold_inner {os : List (Value × Slot)} (hfits : ∀ e ∈ os, e.2.Fits s.cells.size)
    (hos : (u.addMapping defaultEntries).2.entriesUnder es "compiler_options" = os) :
    w.unfoldFrom w.mark w.cells.size [u.cells.size + 1] (.ref u.cells.size) =
      .mapping (mapped s.unfold os) := by
  have hle := he.size_le
  have hsize := size_over hover
  exact inner_value hw (he.trans (extends_over hover)) hle (by omega) (by omega) (by omega)
    (hos ▸ hover.inner) hfits

theorem unfold_default {k : Value} {y : Slot} (hx : get? es k = none)
    (hy : get? (defaultSlots u.cells.size) k = some y) :
    some (w.unfoldFrom w.mark w.cells.size [u.cells.size + 1] y) = Entries.get? defaultEntries k := by
  rw [get?_defaultEntries u.cells.size, hy]
  cases y with
  | leaf v =>
    rw [unfoldFrom_leaf]
    rfl
  | ref b =>
    obtain ⟨hkey, rfl⟩ := defaultSlots_ref hy
    have hempty : (u.addMapping defaultEntries).2.entriesUnder es "compiler_options" = [] := by
      rw [entriesUnder, ← get?_congr hkey, hx]
      rfl
    rw [unfold_inner hw he hover (fun e he => absurd he List.not_mem_nil) hempty]
    rfl

theorem unfold_merged (hj : s.cells[j]? = some (.mapping es)) {k : Value} {x : Slot}
    (hx : get? es k = some x) :
    w.unfoldFrom w.mark w.cells.size [u.cells.size + 1] ((u.addMapping defaultEntries).2.mergedSlot
      (get? (defaultSlots u.cells.size) k) x) = valueUnder s.unfold s k x := by
  have hfits := hw.fits hj hx
  have het : s.Extends (u.addMapping defaultEntries).2 :=
    he.trans (addMapping_chain u defaultEntries).1
  have hdict := slotDict?_extends het hfits
  have honly := (ready_defaults u).only k
  by_cases hk : k.sameKey "compiler_options" = true
  · have hinto := (honly _).mpr ⟨hk, rfl⟩
    rw [valueUnder, if_pos hk]
    cases ho : s.slotDict? x with
    | none => rw [mergedSlot_put (.inr (hdict.trans ho)), unfold_raw hw he hover hfits, spread_other ho]
    | some o =>
      obtain ⟨rfl, os, hos⟩ := slotDict?_eq_some.mp ho
      have hentries : (u.addMapping defaultEntries).2.entriesUnder es "compiler_options" = os := by
        rw [entriesUnder, ← get?_congr hk, hx, Option.bind_some, hdict, ho, Option.bind_some,
          mapping?_eq.mpr (het hos)]
        rfl
      have hosfits : ∀ e ∈ os, e.2.Fits s.cells.size := fun e he =>
        hw o _ hos e.2 (List.mem_map.mpr ⟨e, he, rfl⟩)
      rw [mergedSlot, hinto, hdict, ho, spread_ref hos]
      exact unfold_inner hw he hover hosfits hentries
  · have hnone := Option.eq_none_iff_forall_ne_some.mpr fun b hb => hk ((honly b).mp hb).1
    rw [valueUnder, if_neg hk, mergedSlot_put (.inl hnone), unfold_raw hw he hover hfits]

theorem filled_over (hj : s.cells[j]? = some (.mapping es))
    (hms : ∀ l, get? ms l = ((get? es l).map ((u.addMapping defaultEntries).2.mergedSlot
      (get? (defaultSlots u.cells.size) l))).or (get? (defaultSlots u.cells.size) l)) :
    Filled (valuesBy s.unfold s es) (mapped (w.unfoldFrom w.mark w.cells.size [u.cells.size + 1]) ms) := by
  intro name
  rw [Entries.getText?, Entries.getText?, Entries.getText?, Entries.get?_eq, Entries.get?_eq,
    get?_valuesBy, get?_mapped, hms]
  cases hx : get? es (.text name) with
  | none =>
    rw [Option.map_none, Option.none_or, Option.map_none, Option.none_or]
    cases hy : get? (defaultSlots u.cells.size) (.text name) with
    | none =>
      rw [get?_defaultEntries u.cells.size, hy]
      rfl
    | some y => exact unfold_default hw he hover hx hy
  | some x =>
    rw [Option.map_some, Option.some_or, Option.map_some, Option.map_some, Option.some_or]
    exact congrArg some (unfold_merged hw he hover hj hx)

end Unfolding
end Over

theorem read_filled {es es' : Entries} (h : Filled es es') : read (.mapping es') = read (.mapping es) := by
  simp only [read, record, ofEntries_filled h]

theorem build_read {es : Entries} (h : Apart es)
    (hos : ∀ os, Entries.getText? es "compiler_options" = some (.mapping os) → Apart os) :
    build (.mapping es) = read (.mapping es) :=
  read_filled (filled_deepMerge h hos)

theorem options_valuesBy (hes : ∀ x, get? es "compiler_options" = some x → x.Fits s.cells.size) :
    (get? es "compiler_options" = none ∧
      ∀ f, Entries.getText? (valuesBy f s es) "compiler_options" = none) ∨
    (∃ o os, get? es "compiler_options" = some (.ref o) ∧ s.cells[o]? = some (.mapping os) ∧
      ∀ f, Entries.getText? (valuesBy f s es) "compiler_options" = some (.mapping (mapped f os))) ∨
    ∃ x, get? es "compiler_options" = some x ∧ (s.unfold x).isDict = false ∧
      ∀ f, Entries.getText? (valuesBy f s es) "compiler_options" = some (s.unfold x) := by
  have hkey : (Value.text "compiler_options").sameKey "compiler_options" = true :=
    Value.sameKey_self trivial
  have hvalue : ∀ f, Entries.getText? (valuesBy f s es) "compiler_options" =
      (get? es "compiler_options").map (s.spread f) := by
    intro f
    rw [Entries.getText?, Entries.get?_eq, get?_valuesBy]
    refine Option.map_congr fun x _ => ?_
    rw [valueUnder, if_pos hkey]
  simp only [hvalue]
  cases hx : get? es "compiler_options" with
  | none => exact .inl ⟨rfl, fun _ => rfl⟩
  | some x =>
    cases ho : s.slotDict? x with
    | none =>
      have hdict := isDict_unfold_of_fits (hes x hx)
      rw [ho] at hdict
      exact .inr (.inr ⟨x, rfl, hdict, fun _ => congrArg some (spread_other ho)⟩)
    | some o =>
      obtain ⟨rfl, os, hos⟩ := slotDict?_eq_some.mp ho
      exact .inr (.inl ⟨o, os, rfl, hos, fun _ => congrArg some (spread_ref hos)⟩)

theorem apart_options (hs : s.Sound)
    (hes : ∀ x, get? es "compiler_options" = some x → x.Fits s.cells.size) {os : Entries}
    (h : Entries.getText? (valuesOf s es) "compiler_options" = some (.mapping os)) : Apart os := by
  rcases options_valuesBy hes with ⟨-, hv⟩ | ⟨o, os', -, hos, hv⟩ | ⟨x, -, hdict, hv⟩
  · cases (hv _).symm.trans h
  · rw [← Value.mapping.inj (Option.some.inj ((hv _).symm.trans h)), apart_mapped]
    exact hs.apart o os' hos
  · rw [Option.some.inj ((hv _).symm.trans h)] at hdict
    cases hdict

theorem build_valuesOf (hs : s.Sound) (hj : s.cells[j]? = some (.mapping es)) :
    build (.mapping (valuesOf s es)) = read (.mapping (valuesOf s es)) :=
  build_read ((apart_valuesBy s.dump s es).mpr (hs.apart j es hj)) fun _ =>
    apart_options hs fun _ => hs.whole.fits hj

/-! ## Options as the record shows them -/

theorem and_ok_iff {α β γ : Type} {f : α → β → γ} {c : Checked α} {r : Except Problem β} {x : γ} :
    c.and f r = .ok x ↔ ∃ a b, c = .ok a ∧ r = .ok b ∧ f a b = x := by
  cases c <;> cases r <;> simp [Checked.and]

theorem field_congr {α : Type} {es es' : Entries} {name : String} {reader : Reader α} {a : α}
    (h : Entries.getText? es' name = Entries.getText? es name) :
    field es' name (some a) reader = field es name (some a) reader := by
  unfold field
  rw [h]
  cases Entries.getText? es name <;> rfl

theorem field_of_some {α : Type} {es : Entries} {name : String} {reader : Reader α} {a : Option α}
    {v : Value} (h : Entries.getText? es name = some v) :
    field es name a reader = (reader v).mapError fun rule => ⟨rule, [name], v⟩ := by
  unfold field
  rw [h]
  dsimp only
  cases reader v <;> rfl

theorem field_of_none {α : Type} {es : Entries} {name : String} {reader : Reader α} {a : α}
    (h : Entries.getText? es name = none) : field es name (some a) reader = .ok a := by
  unfold field
  rw [h]

def withOptions (os : Entries) (r : Settings) : Settings := { r with compilerOptions := os }

section Options
variable {es es' os os' : Entries}
  (hother : ∀ name : String, (Value.text name).sameKey "compiler_options" = false →
    Entries.getText? es' name = Entries.getText? es name)
include hother

theorem ofEntries_other : ∃ c : Checked (Entries → Settings),
    ofEntries es = c.and (fun f a => f a)
      (field es "compiler_options" (some default.compilerOptions) Validation.mapping) ∧
    ofEntries es' = c.and (fun f a => f a)
      (field es' "compiler_options" (some default.compilerOptions) Validation.mapping) ∧
    ∀ f, c = .ok f → ∀ os os', f os' = withOptions os' (f os) := by
  refine ⟨_, rfl, ?_, ?_⟩
  · rw [ofEntries, field_congr (hother "node_executable" rfl), field_congr (hother "typescript" rfl),
      field_congr (hother "cwd" rfl), field_congr (hother "type_check" rfl)]
  · intro f hf os os'
    simp only [and_ok_iff] at hf
    obtain ⟨_, _, ⟨_, _, ⟨_, _, ⟨_, _, h, -, rfl⟩, -, rfl⟩, -, rfl⟩, -, rfl⟩ := hf
    cases h
    rfl

/-- Two records that are alike but for their options, both mappings, are read alike but for them. -/
theorem read_options
    (h : field es "compiler_options" (some default.compilerOptions) Validation.mapping = .ok os)
    (h' : field es' "compiler_options" (some default.compilerOptions) Validation.mapping = .ok os') :
    (read (.mapping es)).map (withOptions os') = read (.mapping es') := by
  obtain ⟨c, hc, hc', hf⟩ := ofEntries_other hother
  rw [read, read, record, record, hc, hc', h, h']
  cases c with
  | error ps => rfl
  | ok f => exact congrArg Except.ok (hf f rfl os os').symm

theorem read_refused {p : Problem}
    (h : field es "compiler_options" (some default.compilerOptions) Validation.mapping = .error p)
    (h' : field es' "compiler_options" (some default.compilerOptions) Validation.mapping = .error p) :
    (read (.mapping es)).map (withOptions os') = read (.mapping es') := by
  obtain ⟨c, hc, hc', -⟩ := ofEntries_other hother
  rw [read, read, record, record, hc, hc', h, h']
  cases c <;> rfl

end Options

theorem optionsIn_eq {m : Nat} {ms : List (Value × Slot)} (hm : s.cells[m]? = some (.mapping ms)) :
    optionsIn m s = mapped s.dump (s.entriesUnder ms "compiler_options") := by
  rw [optionsIn, mapping?_eq.mpr hm]
  rfl

theorem entriesUnder_over {w : Store} {ms : List (Value × Slot)}
    (hover : (u.addMapping defaultEntries).2.Over w (defaultSlots u.cells.size) es "compiler_options"
      u.cells.size (u.cells.size + 1))
    (hms : ∀ l, get? ms l = ((get? es l).map ((u.addMapping defaultEntries).2.mergedSlot
      (get? (defaultSlots u.cells.size) l))).or (get? (defaultSlots u.cells.size) l))
    (hdict : ∀ x, get? es "compiler_options" = some x →
      ((u.addMapping defaultEntries).2.slotDict? x).isSome) :
    w.entriesUnder ms "compiler_options" =
      (u.addMapping defaultEntries).2.entriesUnder es "compiler_options" := by
  have hready := ready_defaults u
  have hbase := (hready.only "compiler_options" _).mpr ⟨Value.sameKey_self trivial, rfl⟩
  have hslot : get? ms "compiler_options" = some (.ref u.cells.size) := by
    rw [hms]
    cases hx : get? es "compiler_options" with
    | none =>
      obtain ⟨y, hy, hyc⟩ := Option.bind_eq_some_iff.mp hbase
      rw [Option.map_none, Option.none_or, hy, (slotDict?_eq_some.mp hyc).1]
    | some x =>
      obtain ⟨o, ho⟩ := Option.isSome_iff_exists.mp (hdict x hx)
      rw [Option.map_some, Option.some_or, mergedSlot, hbase, ho]
  have hinner := slotDict?_eq_some.mpr ⟨rfl, _, hover.inner⟩
  rw [entriesUnder, hslot, Option.bind_some, hinner, Option.bind_some, mapping?_eq.mpr hover.inner,
    Option.getD_some]

theorem read_shown {w : Store} {ms : List (Value × Slot)} (hs : s.Sound) (he : s.Extends u)
    (hj : s.cells[j]? = some (.mapping es))
    (hover : (u.addMapping defaultEntries).2.Over w (defaultSlots u.cells.size) es "compiler_options"
      u.cells.size (u.cells.size + 1))
    (hm : w.cells[u.cells.size + 1]? = some (.mapping ms))
    (hms : ∀ l, get? ms l = ((get? es l).map ((u.addMapping defaultEntries).2.mergedSlot
      (get? (defaultSlots u.cells.size) l))).or (get? (defaultSlots u.cells.size) l)) :
    (read (.mapping (valuesBy s.unfold s es))).map (withOptions (optionsIn (u.cells.size + 1) w)) =
      read (.mapping (valuesOf s es)) := by
  have het : s.Extends (u.addMapping defaultEntries).2 := he.trans (addMapping_chain u defaultEntries).1
  have hfits : ∀ {k x}, get? es k = some x → x.Fits s.cells.size := hs.whole.fits hj
  have hother : ∀ name : String, (Value.text name).sameKey "compiler_options" = false →
      Entries.getText? (valuesOf s es) name = Entries.getText? (valuesBy s.unfold s es) name := by
    intro name hname
    rw [valuesOf, Entries.getText?, Entries.getText?, Entries.get?_eq, Entries.get?_eq, get?_valuesBy,
      get?_valuesBy]
    refine Option.map_congr fun x _ => ?_
    rw [valueUnder, valueUnder, if_neg (Bool.eq_false_iff.mp hname), if_neg (Bool.eq_false_iff.mp hname)]
  have hentries := entriesUnder_over hover hms
  rcases options_valuesBy (fun _ => hfits) with ⟨hx, hv⟩ | ⟨o, os, hx, hos, hv⟩ | ⟨x, hx, hdict, hv⟩
  · -- nothing under the key: the options are the empty ones of the defaults
    have hempty : (u.addMapping defaultEntries).2.entriesUnder es "compiler_options" = [] := by
      rw [entriesUnder, hx]
      rfl
    have hno : ∀ x, get? es "compiler_options" = some x →
        ((u.addMapping defaultEntries).2.slotDict? x).isSome := by simp [hx]
    rw [optionsIn_eq hm, hentries hno, hempty]
    exact read_options hother (field_of_none (hv _)) (field_of_none (hv _))
  · have hinto := (slotDict?_extends het (hfits hx)).trans (slotDict?_eq_some.mpr ⟨rfl, os, hos⟩)
    have hunder : (u.addMapping defaultEntries).2.entriesUnder es "compiler_options" = os := by
      rw [entriesUnder, hx, Option.bind_some, hinto, Option.bind_some, mapping?_eq.mpr (het hos)]
      rfl
    have hmapping : ∀ x, get? es "compiler_options" = some x →
        ((u.addMapping defaultEntries).2.slotDict? x).isSome := by simp [hx, hinto]
    have hdump : mapped w.dump os = mapped s.dump os := by
      refine List.map_congr_left fun e hmem => ?_
      rw [hs.whole.dump_eq (he.trans (extends_over hover))
        (hs.whole o _ hos e.2 (List.mem_map_of_mem hmem))]
    rw [optionsIn_eq hm, hentries hmapping, hunder, hdump]
    exact read_options hother (field_of_some (hv _)) (field_of_some (hv _))
  · have hrefused : Validation.mapping (s.unfold x) = .error .mappingType := by
      cases hu : s.unfold x with
      | mapping vs =>
        rw [hu] at hdict
        cases hdict
      | _ => rfl
    have hfield : ∀ f, field (valuesBy f s es) "compiler_options" (some default.compilerOptions)
        Validation.mapping = .error ⟨.mappingType, ["compiler_options"], s.unfold x⟩ := by
      intro f
      rw [field_of_some (hv f), hrefused]
      rfl
    exact read_refused hother (hfield _) (hfield _)

theorem buildIn_read (limits : Limits) (hs : s.Sound) (he : s.Extends u)
    (hd : u.unfold (.ref d) = .mapping defaultEntries) (hj : s.cells[j]? = some (.mapping es)) :
    ∃ w, buildIn limits d (.ref j) u = (read (.mapping (valuesOf s es)), w) ∧ s.Extends w := by
  obtain ⟨w, hlayered, hover⟩ := layered_over limits hs he hd hj
  obtain ⟨ms, hm, hms⟩ := hover.top
  refine ⟨w, ?_, he.trans (extends_over hover)⟩
  rw [buildIn, hlayered]
  simp only [unfold_mapping hm]
  rw [read_filled (filled_over hs.whole he hover hj hms)]
  exact congrArg (·, w) (read_shown hs he hj hover hm hms)

theorem buildFrom_read (limits : Limits) (hs : s.Sound) (hj : s.cells[j]? = some (.mapping es)) :
    buildFrom limits (.ref j) s = read (.mapping (valuesOf s es)) := by
  obtain ⟨w, hbuilt, -⟩ := buildIn_read limits hs (addMapping_chain s defaultEntries).1
    (unfold_defaults s) hj
  rw [buildFrom]
  exact congrArg Prod.fst hbuilt

theorem buildAll_read (limits : Limits) (hs : s.IsData) (he : s.Extends u)
    (hd : s.unfold (.ref d) = .mapping defaultEntries) {raws : List Nat} (hraws : ∀ j ∈ raws, (s.mapping? j).isSome) :
    ∃ w, buildAll limits d (raws.map .ref) u = (raws.map fun j => read (s.unfold (.ref j)), w) ∧
      s.Extends w := by
  obtain ⟨rank, hr⟩ := hs.acyclic
  induction raws generalizing u with
  | nil => exact ⟨u, rfl, he⟩
  | cons j raws ih =>
    obtain ⟨hj, hraws⟩ := List.forall_mem_cons.mp hraws
    obtain ⟨es, hes⟩ := exists_of_isSome hj
    have hdu := (hs.whole.unfold_eq he (fits_of_defaults hd)).trans hd
    obtain ⟨v, hv, hev⟩ := buildIn_read limits hs.sound he hdu hes
    obtain ⟨w, hw, hew⟩ := ih hev hraws
    refine ⟨w, ?_, hew⟩
    simp only [List.map_cons, buildAll, hv, hw, mapping_valuesOf hr hes]

/-- The entries of the mapping under a name of the mapping in a cell. -/
def entriesAt? (s : Store) (i : Nat) (name : String) : Option (List (Value × Slot)) := do
  let es ← s.mapping? i
  let o ← s.slotDict? (← getSlot? es name)
  s.mapping? o

theorem layered_options (limits : Limits) (hs : s.IsData) (he : s.Extends u)
    (hd : s.unfold (.ref d) = .mapping defaultEntries) {os : List (Value × Slot)}
    (hos : entriesAt? s j "compiler_options" = some os) :
    ∃ m w, layered limits d (.ref j) u = .ok (m, w) ∧ entriesAt? w m "compiler_options" = some os := by
  simp only [entriesAt?, Option.bind_eq_bind, Option.bind_eq_some_iff, getSlot?_eq] at hos
  obtain ⟨es, hes, x, hx, o, ho, hos⟩ := hos
  have hj := mapping?_eq.mp hes
  have hdu := (hs.whole.unfold_eq he (fits_of_defaults hd)).trans hd
  obtain ⟨w, hw, hover⟩ := layered_over limits hs.sound he hdu hj
  obtain ⟨ms, hm, hms⟩ := hover.top
  have hready := ready_defaults u
  have het : s.Extends (u.addMapping defaultEntries).2 := he.trans (addMapping_chain u defaultEntries).1
  have hxt : (u.addMapping defaultEntries).2.slotDict? x = some o := by
    rw [slotDict?_extends het (hs.whole.fits hj hx), ho]
  have hbase := (hready.only "compiler_options" _).mpr ⟨Value.sameKey_self trivial, rfl⟩
  have hentries : (u.addMapping defaultEntries).2.entriesUnder es "compiler_options" = os := by
    rw [entriesUnder, hx, Option.bind_some, hxt, Option.bind_some,
      mapping?_eq.mpr (het (mapping?_eq.mp hos))]
    rfl
  have hslot : getSlot? ms "compiler_options" = some (.ref u.cells.size) := by
    rw [getSlot?_eq, hms, hx, Option.map_some, Option.some_or, mergedSlot, hbase, hxt]
  have hinner := hover.inner
  rw [hentries] at hinner
  refine ⟨_, w, hw, ?_⟩
  rw [entriesAt?, mapping?_eq.mpr hm, Option.bind_eq_bind, Option.bind_some, hslot]
  simp [slotDict?, mapping?_eq.mpr hinner]

/-- Merging user settings over the defaults and reading the result is reading the user settings, for every
sequence of calls. After each of them the defaults and all user settings are what they were, and options
that are merged over the default ones stand there as they are, key by key and slot by slot. -/
theorem building_is_reading (limits : Limits) {s : Store} (hs : s.IsData) {d : Nat}
    (hd : s.unfold (.ref d) = .mapping defaultEntries) {raws : List Nat}
    (hraws : ∀ j ∈ raws, (s.mapping? j).isSome) :
    (buildAll limits d (raws.map .ref) s).1 = raws.map (fun j => read (s.unfold (.ref j))) ∧
    (∀ j ∈ raws, build (s.unfold (.ref j)) = read (s.unfold (.ref j))) ∧
    ∀ before after t, raws = before ++ after → t = (buildAll limits d (before.map .ref) s).2 →
      s.Extends t ∧ t.unfold (.ref d) = .mapping defaultEntries ∧
      (∀ j ∈ raws, t.unfold (.ref j) = s.unfold (.ref j)) ∧
      ∀ j ∈ raws, ∀ os, entriesAt? s j "compiler_options" = some os →
        ∃ m u, layered limits d (.ref j) t = .ok (m, u) ∧ entriesAt? u m "compiler_options" = some os := by
  refine ⟨?_, ?_, ?_⟩
  · obtain ⟨w, hw, -⟩ := buildAll_read limits hs (.refl s) hd hraws
    rw [hw]
  · intro j hj
    obtain ⟨es, hes⟩ := exists_of_isSome (hraws j hj)
    obtain ⟨rank, hr⟩ := hs.acyclic
    rw [← mapping_valuesOf hr hes]
    exact build_valuesOf hs.sound hes
  · rintro before after t rfl rfl
    have hbefore : ∀ j ∈ before, (s.mapping? j).isSome := fun j hj =>
      hraws j (List.mem_append_left _ hj)
    obtain ⟨w, hw, he⟩ := buildAll_read limits hs (.refl s) hd hbefore
    rw [hw]
    refine ⟨he, ?_, ?_, ?_⟩
    · rw [hs.whole.unfold_eq he (fits_of_defaults hd), hd]
    · intro j hj
      obtain ⟨es, hes⟩ := exists_of_isSome (hraws j hj)
      exact hs.whole.unfold_eq he (lt_size hes)
    · intro j hj os hos
      exact layered_options limits hs he hd hos

/-- Defaults in cell 1, and user settings in cells 3 and 4: the one are invalid, and the other have
options of their own that the defaults and the first ones share. -/
def sharedSettings : Store := ⟨#[
  .mapping [],
  .mapping (defaultSlots 0),
  .mapping [("strict", .leaf (.bool true)), (.float .nan, .leaf .null)],
  .mapping [("compiler_options", .ref 2), ("type_check", .leaf "sometimes")],
  .mapping [("compiler_options", .ref 0), ("extra", .ref 2), ("cwd", .leaf "/site")]]⟩

theorem isData_sharedSettings : sharedSettings.IsData := by
  apply isData_of_earlier
  intro i c hc
  match i with
  | 0 | 1 | 2 | 3 | 4 =>
    cases hc
    constructor
    · simp [sharedSettings, Cell.slots, defaultSlots, Slot.Fits, Value.IsLeaf]
    · rintro _ ⟨⟩
      decide
  | i + 5 => cases hc

theorem building_is_reading_shared :
    (buildAll .usual 1 [.ref 3, .ref 4, .ref 3] sharedSettings).1 =
      [read (sharedSettings.unfold (.ref 3)), read (sharedSettings.unfold (.ref 4)),
        read (sharedSettings.unfold (.ref 3))] := by
  have hraws : ∀ j ∈ [3, 4, 3], (sharedSettings.mapping? j).isSome := by decide
  exact (building_is_reading .usual isData_sharedSettings rfl hraws).1

end Settings
end ConfigLoader
