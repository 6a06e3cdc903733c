import ConfigLoader.Proofs.Value.Keys
import ConfigLoader.Value

/-! # What a deep merge is

Merging key by key comes to this: the keys of the left side in their order, each with both values laid over
each other, and then the keys of the right side that the left side lacks, in theirs.
-/
namespace ConfigLoader
open Keyed

@[simp] theorem Entries.put_eq (es : Entries) (k v : Value) : es.put k v = Keyed.put es k v := by
  induction es with
  | nil => rfl
  | cons e es ih => rw [Entries.put, Keyed.put, ih]

@[simp] theorem Entries.get?_eq (es : Entries) (k : Value) : es.get? k = Keyed.get? es k := rfl

theorem Entries.get?_put (es : Entries) (k v l : Value) :
    (es.put k v).get? l = if k.sameKey l then some v else es.get? l := by
  rw [Entries.put_eq]
  exact Keyed.get?_put es k v l

namespace Value

mutual

/-- A finite value, whose mappings have keys that are no NaN and hold none, each once. -/
def WellFormed : Value → Prop
  | .list vs | .tuple vs => AllWellFormed vs
  | .mapping es => Distinct es ∧ EntriesWellFormed es
  | .cycle _ => False
  | _ => True

def AllWellFormed : List Value → Prop
  | [] => True
  | v :: vs => v.WellFormed ∧ AllWellFormed vs

def EntriesWellFormed : List (Value × Value) → Prop
  | [] => True
  | (_, v) :: es => v.WellFormed ∧ EntriesWellFormed es

end

theorem allWellFormed_iff {vs : List Value} : AllWellFormed vs ↔ ∀ v ∈ vs, v.WellFormed := by
  induction vs with
  | nil => exact ⟨fun _ => nofun, fun _ => trivial⟩
  | cons v vs ih => rw [AllWellFormed, ih, List.forall_mem_cons]

theorem entriesWellFormed_iff {es : List (Value × Value)} :
    EntriesWellFormed es ↔ ∀ e ∈ es, e.2.WellFormed := by
  induction es with
  | nil => exact ⟨fun _ => nofun, fun _ => trivial⟩
  | cons e es ih => rw [EntriesWellFormed, ih, List.forall_mem_cons]

/-- One value laid over another: two mappings key by key, and otherwise the upper value stands. -/
def overlay : Value → Value → Value
  | .mapping base, .mapping es =>
    .mapping (base.map (fun e =>
        match _h : es.find? fun x => x.1.sameKey e.1 with
        | some x => (e.1, e.2.overlay x.2)
        | none => e) ++
      es.filter fun x => (Keyed.get? base x.1).isNone)
  | _, v => v
termination_by _ v => sizeOf v
decreasing_by
  have hm := List.sizeOf_lt_of_mem (List.mem_of_find?_eq_some _h)
  obtain ⟨k, v⟩ := x
  simp only [Prod.mk.sizeOf_spec, mapping.sizeOf_spec] at hm ⊢
  omega

/-- What stands under a key of the left side, by what stands under it on the right side. -/
def overlaid (v : Value) : Option Value → Value
  | some w => v.overlay w
  | none => v

theorem overlay_mapping (base es : Entries) : (Value.mapping base).overlay (.mapping es) =
    .mapping (base.map (fun e => (e.1, e.2.overlaid (Keyed.get? es e.1))) ++
      es.filter fun x => (Keyed.get? base x.1).isNone) := by
  rw [overlay]
  congr 2
  refine List.map_congr_left fun e _ => ?_
  split <;> simp only [Keyed.get?, *, Option.map_some, Option.map_none, overlaid]

theorem overlay_plain {v w : Value} (h : v.isDict = false ∨ w.isDict = false) :
    v.overlay w = w := by
  rw [overlay]
  rintro base es rfl rfl
  rcases h with h | h <;> cases h

theorem mergedWith_plain {old : Option Value} {w : Value}
    (h : (∀ v, old = some v → v.isDict = false) ∨ w.isDict = false) : mergedWith old w = w := by
  cases w with
  | mapping es =>
    rcases h with h | h
    · cases old with
      | none => rfl
      | some v =>
        cases v with
        | mapping base => cases h _ rfl
        | _ => rfl
    · cases h
  | _ => rfl

end Value

namespace Entries
open Value

section
variable {base es : Entries} {k v w : Value}

theorem get?_cons_of_same {l : Value} (hs : l.sameKey k = true) :
    Keyed.get? ((k, v) :: es) l = some v := by
  obtain ⟨hl, hk, hf⟩ := (sameKey_iff l k).mp hs
  rw [get?_cons, if_pos ((sameKey_iff k l).mpr ⟨hk, hl, hf.symm⟩)]

theorem get?_cons_of_not_same {l : Value} (hl : l.IsKey) (hk : k.IsKey)
    (hs : l.sameKey k = false) : Keyed.get? ((k, v) :: es) l = Keyed.get? es l := by
  rw [get?_cons, if_neg]
  intro h
  obtain ⟨-, -, hf⟩ := (sameKey_iff k l).mp h
  rw [(sameKey_iff l k).mpr ⟨hl, hk, hf.symm⟩] at hs
  cases hs

theorem map_overlaid_put (hb : Distinct base) (hk : k.IsKey)
    (hrest : ∀ l : Value, l.sameKey k = true → Keyed.get? es l = none)
    (hg : Keyed.get? base k = some w) :
    base.map (fun e => (e.1, e.2.overlaid (Keyed.get? ((k, v) :: es) e.1))) =
      (Keyed.put base k (w.overlay v)).map fun e => (e.1, e.2.overlaid (Keyed.get? es e.1)) := by
  induction base with
  | nil => cases hg
  | cons e base ih =>
    obtain ⟨he, hne, hb⟩ := distinct_cons.mp hb
    rw [get?_cons] at hg
    rw [Keyed.put]
    cases hs : e.1.sameKey k with
    | true =>
      rw [if_pos hs] at hg
      cases hg
      rw [if_pos rfl, List.map_cons, List.map_cons, get?_cons_of_same hs, hrest e.1 hs]
      refine congrArg₂ _ rfl (List.map_congr_left fun a ha => ?_)
      have hf := ((sameKey_iff _ _).mp hs).2.2
      rw [get?_cons_of_not_same (hb.keys a ha) hk
        (not_sameKey fun h => hne a ha (hf.trans h.symm))]
    | false =>
      rw [if_neg (Bool.eq_false_iff.mp hs)] at hg
      rw [if_neg Bool.false_ne_true, List.map_cons, List.map_cons, ih hb hg,
        get?_cons_of_not_same he hk hs]

/-- A key of the left side that is put stands where it stood, and a new one at the end. -/
theorem overlaid_cons (hb : Distinct base) (hes : Distinct ((k, v) :: es)) :
    base.map (fun e => (e.1, e.2.overlaid (Keyed.get? ((k, v) :: es) e.1))) ++
        ((k, v) :: es).filter (fun x => (Keyed.get? base x.1).isNone) =
      let base' := Keyed.put base k ((Keyed.get? base k).elim v (·.overlay v))
      base'.map (fun e => (e.1, e.2.overlaid (Keyed.get? es e.1))) ++
        es.filter (fun x => (Keyed.get? base' x.1).isNone) := by
  obtain ⟨hk, hne, hes⟩ := distinct_cons.mp hes
  have hrest : ∀ l : Value, l.sameKey k = true → Keyed.get? es l = none := fun l hs =>
    get?_eq_none.mpr fun x hx => not_sameKey fun hf =>
      hne x hx (((sameKey_iff l k).mp hs).2.2.symm.trans hf.symm)
  have hfilter : ∀ u : Value, es.filter (fun x => (Keyed.get? (Keyed.put base k u) x.1).isNone) =
      es.filter fun x => (Keyed.get? base x.1).isNone := fun u =>
    List.filter_congr fun x hx => by rw [get?_put_other (hne x hx)]
  dsimp only
  rw [List.filter_cons, hfilter]
  cases hg : Keyed.get? base k with
  | none =>
    rw [Option.isNone_none, if_pos rfl, Option.elim_none, put_new hg, List.map_append,
      List.append_assoc, List.map_singleton, hrest k (sameKey_self hk)]
    refine congrArg (· ++ _) (List.map_congr_left fun e he => ?_)
    rw [get?_cons_of_not_same (hb.keys e he) hk (get?_eq_none.mp hg e he)]
  | some w =>
    rw [Option.isNone_some, if_neg Bool.false_ne_true, Option.elim_some,
      map_overlaid_put hb hk hrest hg]

theorem overlay_cons (hb : Distinct base) (hes : Distinct ((k, v) :: es)) :
    (Value.mapping base).overlay (.mapping ((k, v) :: es)) =
      (Value.mapping (Keyed.put base k ((Keyed.get? base k).elim v (·.overlay v)))).overlay
        (.mapping es) := by
  rw [overlay_mapping, overlay_mapping, overlaid_cons hb hes]

@[simp] theorem overlay_nil : (Value.mapping base).overlay (.mapping []) = .mapping base := by
  rw [overlay_mapping]
  simp only [Keyed.get?, List.find?_nil, Option.map_none, overlaid, List.map_id', List.filter_nil,
    List.append_nil]

end

mutual

/-- A merge done key by key is the right side laid over the left one. -/
theorem mergedWith_overlay : (v : Value) → v.WellFormed → (old : Option Value) →
    (∀ b, old = some b → b.WellFormed) → mergedWith old v = old.elim v (·.overlay v)
  | .mapping es, hv, old, ho => by
    cases old with
    | none => rfl
    | some b =>
      cases b with
      | mapping base =>
        have hb := ho _ rfl
        exact deepMerge_overlay es hv.1 hv.2 base hb.1 fun e he _ =>
          entriesWellFormed_iff.mp hb.2 e he
      | _ => exact (overlay_plain (.inl rfl)).symm
  | .list _, _, old, _ | .tuple _, _, old, _ | .set _, _, old, _ | .null, _, old, _
  | .bool _, _, old, _ | .int _, _, old, _ | .float _, _, old, _ | .text _, _, old, _
  | .bytes _, _, old, _ | .date _, _, old, _ | .dateTime _, _, old, _ | .cycle _, _, old, _ => by
    rw [mergedWith_plain (.inr rfl)]
    cases old with
    | none => rfl
    | some b => exact (overlay_plain (.inr rfl)).symm

theorem deepMerge_overlay : (es : Entries) → Distinct es → EntriesWellFormed es →
    (base : Entries) → Distinct base →
    (∀ e ∈ base, (Keyed.get? es e.1).isSome → e.2.WellFormed) →
    Value.mapping (Entries.deepMerge base es) = (Value.mapping base).overlay (.mapping es)
  | [], _, _, base, _, _ => by rw [Entries.deepMerge, overlay_nil]
  | (k, v) :: es, hes, hv, base, hb, hw => by
    obtain ⟨hk, hne, hrest⟩ := distinct_cons.mp hes
    have hold : ∀ b, Keyed.get? base k = some b → b.WellFormed := by
      intro b hg
      obtain ⟨l, hl, hs⟩ := get?_mem hg
      exact hw _ hl (by rw [get?_cons_of_same hs]; rfl)
    rw [overlay_cons hb hes, Entries.deepMerge, Entries.put_eq, Entries.get?_eq,
      mergedWith_overlay v hv.1 _ hold]
    refine deepMerge_overlay es hrest hv.2 _ (hb.put hk) fun e he hsome => ?_
    -- An entry whose key comes later is not the one that was just put.
    have hnot : e.1.keyForm ≠ Value.keyForm k := by
      intro hf
      obtain ⟨w, hg⟩ := Option.isSome_iff_exists.mp hsome
      obtain ⟨l, hl, hs⟩ := get?_mem hg
      exact hne _ hl (hf.symm.trans ((sameKey_iff _ _).mp hs).2.2.symm)
    rcases mem_put hk he with he | ⟨-, -, hf⟩
    · refine hw e he ?_
      rw [get?_cons_of_not_same (hb.keys e he) hk (not_sameKey hnot)]
      exact hsome
    · exact absurd hf hnot

end

end Entries

namespace Value

theorem overlay_self : (v : Value) → v.WellFormed → v.overlay v = v
  | .mapping es, h => by
    have hkeys := h.1.keys
    rw [overlay_mapping]
    have hfilter : es.filter (fun x => (Keyed.get? es x.1).isNone) = [] := by
      refine List.filter_eq_nil_iff.mpr fun x hx => ?_
      rw [h.1.get?_of_mem (v := x.2) hx (hkeys x hx) rfl]
      exact Bool.false_ne_true
    rw [hfilter, List.append_nil]
    refine congrArg _ ((List.map_congr_left fun e he => ?_).trans (List.map_id' _))
    rw [h.1.get?_of_mem (v := e.2) he (hkeys e he) rfl, overlaid,
      overlay_self e.2 (entriesWellFormed_iff.mp h.2 e he)]
  | .list _, _ | .tuple _, _ | .set _, _ | .null, _ | .bool _, _ | .int _, _ | .float _, _
  | .text _, _ | .bytes _, _ | .date _, _ | .dateTime _, _ | .cycle _, _ => overlay_plain (.inl rfl)
termination_by v => sizeOf v
decreasing_by
  have hm := List.sizeOf_lt_of_mem he
  obtain ⟨k, v⟩ := e
  simp only [Prod.mk.sizeOf_spec, mapping.sizeOf_spec] at hm ⊢
  omega

end Value
end ConfigLoader
