import ConfigLoader.Proofs.Value.Fresh
import ConfigLoader.Proofs.Yaml.Building
import ConfigLoader.Settings.Section

/-! # Which settings documents have a section

A document is judged by its value: its root is a mapping or counts as false, and so is what stands under
`loader` in it. Overrides can be merged into every section, whatever of it is shared, unless they are nested
deeper than a merge can follow.
-/
namespace ConfigLoader
open Keyed

def Value.isMapping : Value → Bool
  | .mapping _ | .cycle true => true
  | _ => false

def Value.orEmpty (v : Value) : Value := if v.truthy then v else .mapping []

namespace Store
variable {s : Store} {i : Nat} {c : Cell} {x y : Slot} {es : List (Value × Slot)}

theorem Whole.closed (h : s.Whole) : s.Closed s.cells.size := by
  rintro i - j ⟨c, hc, hj⟩
  exact h i c hc _ hj

theorem Sound.push_empty (h : s.Sound) : (s.push (.mapping [])).2.Sound :=
  h.push nofun (by rintro _ ⟨⟩; exact .nil)

theorem unfold_mapping (hi : s.cells[i]? = some (.mapping es)) :
    s.unfold (.ref i) = .mapping (mapped (s.unfoldFrom s.mark s.cells.size [i]) es) := by
  rw [unfold, unfoldFrom_cell hi List.not_mem_nil, Cell.valueBy]

theorem isDict_unfold_of_fits (h : x.Fits s.cells.size) :
    (s.unfold x).isDict = (s.slotDict? x).isSome := by
  cases x with
  | leaf v =>
    rw [unfold_leaf]
    exact Value.IsLeaf.isDict h
  | ref i =>
    rw [slotDict?, mapping?]
    cases hc : s.cells[i]? with
    | none =>
      rw [unfold_missing hc]
      rfl
    | some c =>
      rw [unfold, unfoldFrom_cell hc List.not_mem_nil]
      cases c <;> rfl

structure Alike (v w : Value) : Prop where
  truthy : v.truthy = w.truthy
  isMapping : v.isMapping = w.isDict
  typeName : v.typeName = w.typeName

theorem Alike.orEmpty {v w : Value} (h : Alike v w) : Alike v.orEmpty w.orEmpty := by
  unfold Value.orEmpty
  rw [h.truthy]
  split
  · exact h
  · exact ⟨rfl, rfl, rfl⟩

theorem alike_valueBy (f g : Slot → Value) (c : Cell) : Alike (c.valueBy f) (c.valueBy g) := by
  cases c with
  | list items | tuple items =>
    exact ⟨by simp [Cell.valueBy, Value.truthy], rfl, rfl⟩
  | set keys => exact ⟨rfl, rfl, rfl⟩
  | mapping es => exact ⟨by simp [Cell.valueBy, Value.truthy, mapped], rfl, rfl⟩

/-- What a slot of a mapping shows below that mapping is like what it shows by itself. -/
theorem alike_inner (hi : s.cells[i]? = some (.mapping es)) (hes : es ≠ [])
    (hx : x.Fits s.cells.size) : Alike (s.unfoldFrom s.mark s.cells.size [i] x) (s.unfold x) := by
  obtain ⟨n, hn⟩ := Nat.exists_eq_add_one_of_ne_zero (Nat.ne_of_gt (Nat.zero_lt_of_lt (lt_size hi)))
  cases x with
  | leaf v =>
    rw [unfoldFrom_leaf, unfold_leaf]
    cases v <;> first | exact hx.elim | exact ⟨rfl, rfl, rfl⟩
  | ref j =>
    rw [hn]
    by_cases hij : j = i
    · subst hij
      have hmark : s.unfoldFrom s.mark (n + 1) [j] (.ref j) = .cycle true := by
        rw [unfoldFrom_ref hi, if_pos List.mem_cons_self, mark, mapping?_eq.mpr hi]
        rfl
      rw [hmark, unfold_mapping hi]
      refine ⟨?_, rfl, rfl⟩
      cases es with
      | nil => exact absurd rfl hes
      | cons e es => simp [Value.truthy, mapped]
    · cases hc : s.cells[j]? with
      | none =>
        rw [unfold_missing hc, unfoldFrom_missing hc, if_neg fun hm => hij (List.mem_singleton.mp hm)]
        exact ⟨rfl, rfl, rfl⟩
      | some c =>
        rw [unfold, unfoldFrom_cell hc List.not_mem_nil,
          unfoldFrom_cell hc fun hm => hij (List.mem_singleton.mp hm)]
        exact alike_valueBy _ _ c

/-- What a mapping shows under a key is like what the slot there shows by itself. -/
theorem alike_get? (hs : s.Whole) (hi : s.cells[i]? = some (.mapping es)) (k : Value) :
    ((getSlot? es k).getD (.leaf .null)).Fits s.cells.size ∧
      Alike ((get? (mapped (s.unfoldFrom s.mark s.cells.size [i]) es) k).getD .null)
        (s.unfold ((getSlot? es k).getD (.leaf .null))) := by
  rw [getSlot?_eq, get?_mapped]
  cases hg : get? es k with
  | none =>
    rw [Option.map_none, Option.getD_none, Option.getD_none, unfold_leaf]
    exact ⟨trivial, rfl, rfl, rfl⟩
  | some y =>
    obtain ⟨l, hl, -⟩ := get?_mem hg
    have hy : y.Fits s.cells.size := hs i _ hi y (List.mem_map_of_mem hl)
    exact ⟨hy, alike_inner hi (List.ne_nil_of_mem hl) hy⟩

end Store

namespace Settings
open Store

/-! ## The root -/

/-- The text of the settings document: of the explicit file, or of the first default file. -/
def source (t : FileTree) (defaults : List Text) (path : Option Text) :
    Except Fault (Option Text) := do
  match path with
  | some p =>
    let p := Path.tidy p
    if ← t.isPresent p then return some (← t.readText p)
    else throw (.of .fileNotFoundError ("Settings file not found: " ++ p))
  | none =>
    match ← firstExisting t defaults with
    | some p => return some (← t.readText p)
    | none => return none

def parsed (limits : Limits) (t : FileTree) (defaults : List Text) (path : Option Text) :
    Except Fault Value := do
  match ← source t defaults path with
  | some text => Yaml.load limits.composing text
  | none => return .null

/-- A slot of a sound store that shows a value, or an empty mapping for one that counts as false. -/
structure Shows (x : Slot × Store) (v : Value) : Prop where
  sound : x.2.Sound
  fits : x.1.Fits x.2.cells.size
  value : x.2.unfold x.1 = v.orEmpty

theorem orEmpty_truthy {x : Slot} {s : Store} (h : (s.unfold x).truthy = true) :
    Settings.orEmpty (x, s) = (x, s) :=
  if_pos h

theorem orEmpty_falsy {x : Slot} {s : Store} (h : (s.unfold x).truthy = false) :
    Settings.orEmpty (x, s) = (.ref s.cells.size, (s.push (.mapping [])).2) :=
  (if_neg (Bool.eq_false_iff.mp h)).trans (add_mapping s [])

theorem shows_orEmpty {x : Slot} {s : Store} (hs : s.Sound) (hx : x.Fits s.cells.size) :
    Shows (Settings.orEmpty (x, s)) (s.unfold x) := by
  cases h : (s.unfold x).truthy with
  | true =>
    rw [orEmpty_truthy h]
    exact ⟨hs, hx, by rw [Value.orEmpty, if_pos h]⟩
  | false =>
    rw [orEmpty_falsy h]
    refine ⟨hs.push_empty, size_push s _ ▸ Nat.lt_succ_self _, ?_⟩
    rw [unfold_mapping (push_snd_self s _), Value.orEmpty, if_neg (Bool.eq_false_iff.mp h)]
    rfl

def rootOf (limits : Limits) : Option Text → Except Fault (Slot × Store)
  | some text => do return Settings.orEmpty (← Yaml.loadShared limits.composing text)
  | none => return Store.empty.add (.mapping [])

theorem document_eq (limits : Limits) (t : FileTree) (defaults : List Text) (path : Option Text) :
    document limits t defaults path = source t defaults path >>= rootOf limits := by
  have hread : ∀ p, readFile limits t p = (do return some (← t.readText p)) >>= rootOf limits := by
    intro p
    unfold readFile
    cases t.readText p <;> rfl
  unfold document source
  cases path with
  | some p =>
    dsimp only
    cases t.isPresent (Path.tidy p) with
    | error f => rfl
    | ok found =>
      cases found with
      | false => rfl
      | true => exact hread _
  | none =>
    dsimp only
    cases firstExisting t defaults with
    | error f => rfl
    | ok found =>
      cases found with
      | none => rfl
      | some p => exact hread p

def Reads (r : Except Fault Value) (d : Except Fault (Slot × Store)) : Prop :=
  match r with
  | .ok v => ∃ x, d = .ok x ∧ Shows x v
  | .error f => d = .error f

theorem document_reads (limits : Limits) (t : FileTree) (defaults : List Text) (path : Option Text) :
    Reads (parsed limits t defaults path) (document limits t defaults path) := by
  rw [document_eq, parsed]
  cases source t defaults path with
  | error f => exact rfl
  | ok text =>
    cases text with
    | none => exact ⟨_, rfl, shows_orEmpty (x := .leaf .null) Yaml.sound_empty trivial⟩
    | some text =>
      change Reads (Yaml.load limits.composing text)
        (Yaml.loadShared limits.composing text >>= fun x => pure (Settings.orEmpty x))
      unfold Yaml.load
      cases hl : Yaml.loadShared limits.composing text with
      | error f => exact rfl
      | ok r =>
        obtain ⟨hsound, hfits⟩ := Yaml.loadShared_sound hl
        exact ⟨_, rfl, shows_orEmpty hsound hfits⟩

/-! ## The section -/

inductive Verdict
  | accepted
  | sectionRefused (found : Value)
  | rootRefused (root : Value)

def sectionFault (found : Value) : Fault :=
  Fault.valueError ("'loader' section must be a mapping, got " ++ found.typeName)

/-- A document is accepted if its root is a mapping or counts as false, and so is what stands under
`loader`. -/
def verdict (root : Value) : Verdict :=
  match root.orEmpty with
  | .mapping es =>
    let found := ((Keyed.get? es "loader").getD .null).orEmpty
    if found.isMapping then .accepted else .sectionRefused found
  | root => .rootRefused root

@[simp] theorem orEmpty_mapping (es : Entries) : (Value.mapping es).orEmpty = .mapping es := by
  unfold Value.orEmpty
  cases es <;> rfl

theorem verdict_mapping (es : Entries) :
    verdict (.mapping es) =
      if ((Keyed.get? es "loader").getD .null).orEmpty.isMapping then .accepted
      else .sectionRefused ((Keyed.get? es "loader").getD .null).orEmpty := by
  unfold verdict
  rw [orEmpty_mapping]

theorem verdict_other {v : Value} (h : v.isDict = false) :
    verdict v = if v.truthy then .rootRefused v else .accepted := by
  unfold verdict Value.orEmpty
  cases v.truthy with
  | false => rfl
  | true =>
    rw [if_pos rfl, if_pos rfl]
    cases v with
    | mapping es => cases h
    | _ => rfl

/-- What stands under `loader` in a mapping that shows entries: it has a cell if the entries have a
mapping there, and else its type is named after what they have. -/
theorem sectionOf_mapping {s : Store} {i : Nat} {es : List (Value × Slot)} (hsound : s.Sound)
    (hi : s.cells[i]? = some (.mapping es)) :
    let found := ((Keyed.get? (mapped (s.unfoldFrom s.mark s.cells.size [i]) es) "loader").getD .null).orEmpty
    (found.isMapping = true ∧
      ∃ j t, sectionOf (.ref i, s) = .ok (j, t) ∧ t.Sound ∧ (t.mapping? j).isSome) ∨
    (found.isMapping = false ∧ sectionOf (.ref i, s) = .error (sectionFault found)) := by
  intro found
  have hslots : s.mapping? i = some es := mapping?_eq.mpr hi
  have hx : s.slotDict? (.ref i) = some i := slotDict?_eq_some.mpr ⟨rfl, es, hi⟩
  obtain ⟨hfits, halike⟩ := alike_get? hsound.whole hi "loader"
  have hshows := shows_orEmpty hsound hfits
  replace halike := halike.orEmpty
  rcases hshown : Settings.orEmpty ((getSlot? es "loader").getD (.leaf .null), s) with ⟨y, t⟩
  rw [hshown] at hshows
  obtain ⟨hsound', hfits', hvalue'⟩ := hshows
  dsimp only at hsound' hfits' hvalue'
  rw [← hvalue'] at halike
  have hdict := isDict_unfold_of_fits hfits'
  rw [← halike.isMapping] at hdict
  cases hy : t.slotDict? y with
  | none =>
    rw [hy] at hdict
    refine .inr ⟨hdict, ?_⟩
    have hsection : sectionOf (.ref i, s) = .error (sectionFault (t.unfold y)) := by
      unfold sectionOf
      simp only [hx, hslots, Option.getD_some, hshown, hy, sectionFault]
    rw [hsection, sectionFault, sectionFault, halike.typeName]
  | some j =>
    rw [hy, Option.isSome_some] at hdict
    refine .inl ⟨hdict, j, t, ?_, hsound', ?_⟩
    · unfold sectionOf
      simp only [hx, hslots, Option.getD_some, hshown, hy]
    · obtain ⟨rfl, es', hj⟩ := slotDict?_eq_some.mp hy
      exact Option.isSome_of_eq_some (mapping?_eq.mpr hj)

theorem sectionOf_verdict {x : Slot × Store} {v : Value} (h : Shows x v) :
    match verdict v with
    | .accepted => ∃ i s, sectionOf x = .ok (i, s) ∧ s.Sound ∧ (s.mapping? i).isSome
    | .sectionRefused found => sectionOf x = .error (sectionFault found)
    | .rootRefused root => sectionOf x = .error (Fault.noAttribute root "get") := by
  obtain ⟨x, s⟩ := x
  obtain ⟨hsound, hfits, hvalue⟩ := h
  dsimp only at hsound hfits hvalue
  have hdict := isDict_unfold_of_fits hfits
  rw [hvalue] at hdict
  unfold verdict
  cases hx : s.slotDict? x with
  | none =>
    rw [hx] at hdict
    have hsection : sectionOf (x, s) = .error (Fault.noAttribute v.orEmpty "get") := by
      unfold sectionOf
      simp only [hx, hvalue]
    cases hv : v.orEmpty with
    | mapping es =>
      rw [hv] at hdict
      cases hdict
    | _ =>
      rw [hv] at hsection
      exact hsection
  | some i =>
    obtain ⟨rfl, es, hi⟩ := slotDict?_eq_some.mp hx
    rw [unfold_mapping hi] at hvalue
    rw [← hvalue]
    rcases sectionOf_mapping hsound hi with ⟨hm, hsection⟩ | ⟨hm, hsection⟩
    · dsimp only
      rw [if_pos hm]
      exact hsection
    · dsimp only
      rw [if_neg (Bool.eq_false_iff.mp hm)]
      exact hsection

/-! ## Overrides -/

def given (overrides : Option Entries) : Value := (overrides.map Value.mapping).getD .null

theorem override_mapping {limits : Limits} {s : Store} {i : Nat} (hs : s.Whole)
    (hi : (s.mapping? i).isSome) (overrides : Option Entries) :
    (∃ t, override limits (i, s) (given overrides) = .ok (i, t) ∧ (t.mapping? i).isSome) ∨
      override limits (i, s) (given overrides) = .error tooDeep ∧
        limits.merging < (given overrides).nesting := by
  rcases overrides with _ | _ | ⟨e, es⟩
  · exact .inl ⟨s, rfl, hi⟩
  · exact .inl ⟨s, rfl, hi⟩
  · have hover : override limits (i, s) (given (some (e :: es))) =
        (s.addMapping (e :: es)).2.mergeFrom limits.merging i (s.addMapping (e :: es)).1 >>=
          fun t => pure (i, t) := rfl
    rw [hover]
    rcases merge_addMapping s (e :: es) hs.closed hi with ⟨t, ht, hkept⟩ | ⟨hf, hdeep⟩
    · obtain ⟨base, hbase⟩ := exists_of_isSome hi
      have hext := (addMapping_chain s (e :: es)).1
      rw [ht]
      exact .inl ⟨t, rfl, hkept i (Option.isSome_of_eq_some (mapping?_eq.mpr (hext hbase)))⟩
    · rw [hf]
      exact .inr ⟨rfl, hdeep⟩

def Verdict.Gives (r : Except Fault (Nat × Store)) : Verdict → Prop
  | .accepted => ∃ i s, r = .ok (i, s) ∧ (s.mapping? i).isSome
  | .sectionRefused found => r = .error (sectionFault found)
  | .rootRefused root => r = .error (Fault.noAttribute root "get")

def ReachesLimit (limits : Limits) (overrides : Option Entries) (r : Except Fault (Nat × Store))
    (v : Verdict) : Prop :=
  v = .accepted ∧ r = .error tooDeep ∧ limits.merging < (given overrides).nesting

theorem loadRaw_verdict {limits : Limits} {t : FileTree} {defaults : List Text} {path : Option Text}
    {v : Value} (h : parsed limits t defaults path = .ok v) (overrides : Option Entries) :
    (verdict v).Gives (loadRaw limits t defaults path (given overrides)) ∨
      ReachesLimit limits overrides (loadRaw limits t defaults path (given overrides)) (verdict v) := by
  have hreads := document_reads limits t defaults path
  rw [h] at hreads
  obtain ⟨x, hx, hshows⟩ := hreads
  have hraw : loadRaw limits t defaults path (given overrides) =
      (sectionOf x >>= (override limits · (given overrides))) := by
    unfold loadRaw
    rw [hx]
    rfl
  have hsection := sectionOf_verdict hshows
  rw [hraw]
  cases hv : verdict v with
  | accepted =>
    rw [hv] at hsection
    obtain ⟨i, s, hs, hsound, hi⟩ := hsection
    have hmerge : sectionOf x >>= (override limits · (given overrides)) =
        override limits (i, s) (given overrides) := congrArg (· >>= _) hs
    rw [hmerge]
    rcases override_mapping hsound.whole hi overrides with ⟨u, hu, hui⟩ | ⟨hf, hdeep⟩
    · exact .inl ⟨i, u, hu, hui⟩
    · exact .inr ⟨rfl, hf, hdeep⟩
  | sectionRefused found =>
    rw [hv] at hsection
    exact .inl (congrArg (· >>= _) hsection)
  | rootRefused root =>
    rw [hv] at hsection
    exact .inl (congrArg (· >>= _) hsection)

end Settings
end ConfigLoader
