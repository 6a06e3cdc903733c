import ConfigLoader.Proofs.FileTree.Reading
import ConfigLoader.Proofs.Settings.Layers

/-! # Which document the section comes from

A file that is given is the document, and otherwise the first default file that exists, whatever is in it.
The section is what stands under `loader` in its root. Over a document whose containers do not lie within
themselves the layers are those of its value.
-/
namespace ConfigLoader.Settings
open Store Keyed

variable {limits : Limits} {t : FileTree} {defaults : List Text} {path doc : Option Text} {s st : Store}
  {x : Slot} {i j : Nat}

/-- The text of the settings document that is chosen: of the file that is given, or else of the first
default file that exists, or none if none does. -/
inductive Chosen (t : FileTree) (defaults : List Text) : Option Text → Option Text → Prop
  | given {p text : Text} (present : t.isPresent (Path.tidy p) = .ok true)
    (read : t.readText (Path.tidy p) = .ok text) : Chosen t defaults (some p) (some text)
  | first {before after : List Text} {p text : Text} (split : defaults = before ++ p :: after)
    (earlier : ∀ q ∈ before, t.isPresent q = .ok false) (present : t.isPresent p = .ok true)
    (read : t.readText p = .ok text) : Chosen t defaults none (some text)
  | absent (missing : ∀ q ∈ defaults, t.isPresent q = .ok false) : Chosen t defaults none none

theorem firstExisting_some {ps : List Text} {p : Text} (h : firstExisting t ps = .ok (some p)) :
    ∃ before after, ps = before ++ p :: after ∧ (∀ q ∈ before, t.isPresent q = .ok false) ∧
      t.isPresent p = .ok true := by
  induction ps with
  | nil => cases h
  | cons q ps ih =>
    rw [firstExisting] at h
    cases hq : t.isPresent q with
    | error f =>
      rw [hq] at h
      cases h
    | ok found =>
      rw [hq] at h
      cases found with
      | true =>
        cases h
        exact ⟨[], ps, rfl, nofun, hq⟩
      | false =>
        obtain ⟨before, after, rfl, hbefore, hp⟩ := ih h
        exact ⟨q :: before, after, rfl, List.forall_mem_cons.mpr ⟨hq, hbefore⟩, hp⟩

theorem firstExisting_none {ps : List Text} (h : firstExisting t ps = .ok none) :
    ∀ q ∈ ps, t.isPresent q = .ok false := by
  induction ps with
  | nil => exact nofun
  | cons q ps ih =>
    rw [firstExisting] at h
    cases hq : t.isPresent q with
    | error f =>
      rw [hq] at h
      cases h
    | ok found =>
      rw [hq] at h
      cases found with
      | true => cases h
      | false => exact List.forall_mem_cons.mpr ⟨hq, ih h⟩

theorem source_chosen (h : source t defaults path = .ok doc) : Chosen t defaults path doc := by
  have hread : ∀ {p : Text}, (do return some (← t.readText p)) = Except.ok doc →
      ∃ text, t.readText p = .ok text ∧ doc = some text := by
    intro p h
    cases hr : t.readText p with
    | error f =>
      rw [hr] at h
      cases h
    | ok text =>
      rw [hr] at h
      cases h
      exact ⟨text, rfl, rfl⟩
  unfold source at h
  cases path with
  | some p =>
    dsimp only at h
    cases hp : t.isPresent (Path.tidy p) with
    | error f =>
      rw [hp] at h
      cases h
    | ok found =>
      rw [hp] at h
      cases found with
      | false => cases h
      | true =>
        obtain ⟨text, hr, rfl⟩ := hread h
        exact .given hp hr
  | none =>
    dsimp only at h
    cases hf : firstExisting t defaults with
    | error f =>
      rw [hf] at h
      cases h
    | ok found =>
      rw [hf] at h
      cases found with
      | none =>
        cases h
        exact .absent (firstExisting_none hf)
      | some p =>
        obtain ⟨before, after, hsplit, hbefore, hp⟩ := firstExisting_some hf
        obtain ⟨text, hr, rfl⟩ := hread h
        exact .first hsplit hbefore hp hr

/-- The root counts as false, or it is a mapping with nothing under `loader` that counts as true. -/
def IsBare (root : Slot) (s : Store) : Prop :=
  (s.unfold root).truthy = false ∨ ∃ i rs, root = .ref i ∧ s.cells[i]? = some (.mapping rs) ∧
    (s.unfold ((get? rs "loader").getD (.leaf .null))).truthy = false

/-- The section of a document, as the cell of a mapping in a store with the entries there: what stands
under `loader` in the root, or an empty mapping. -/
inductive SectionOf (limits : Limits) : Option Text → Nat × Store → List (Value × Slot) → Prop
  | found {text : Text} {i j : Nat} {st : Store} {rs slots : List (Value × Slot)}
    (read : Yaml.loadShared limits.composing text = .ok (.ref i, st))
    (root : st.cells[i]? = some (.mapping rs)) (loader : get? rs "loader" = some (.ref j))
    (entries : st.cells[j]? = some (.mapping slots)) : SectionOf limits (some text) (j, st) slots
  | bare {text : Text} {root : Slot} {s : Store} {base : Nat × Store}
    (read : Yaml.loadShared limits.composing text = .ok (root, s)) (bare : IsBare root s) :
    SectionOf limits (some text) base []
  | absent {base : Nat × Store} : SectionOf limits none base []

theorem sectionOf_cases (h : sectionOf (x, s) = .ok (j, st)) :
    ∃ i rs, x = .ref i ∧ s.cells[i]? = some (.mapping rs) ∧
      let found := (get? rs "loader").getD (.leaf .null)
      ((s.unfold found).truthy = true ∧ st = s ∧ s.slotDict? found = some j) ∨
        ((s.unfold found).truthy = false ∧ st = (s.push (.mapping [])).2 ∧ j = s.cells.size) := by
  unfold sectionOf at h
  cases hx : s.slotDict? x with
  | none =>
    simp only [hx] at h
    cases h
  | some i =>
    obtain ⟨rfl, rs, hi⟩ := slotDict?_eq_some.mp hx
    refine ⟨i, rs, rfl, hi, ?_⟩
    simp only [hx, mapping?_eq.mpr hi, Option.getD_some, getSlot?_eq] at h
    intro found
    cases ht : (s.unfold found).truthy with
    | true =>
      cases hf : s.slotDict? found with
      | none =>
        simp only [found, orEmpty_truthy ht, hf] at h
        cases h
      | some k =>
        simp only [found, orEmpty_truthy ht, hf] at h
        cases h
        exact .inl ⟨rfl, rfl, rfl⟩
    | false =>
      have hnew : (s.push (.mapping [])).2.slotDict? (.ref s.cells.size) = some s.cells.size :=
        slotDict?_eq_some.mpr ⟨rfl, [], push_snd_self s _⟩
      simp only [found, orEmpty_falsy ht, hnew] at h
      cases h
      exact .inr ⟨rfl, rfl, rfl⟩

theorem sectionOf_empty (hs : s.Sound) (hi : s.cells[i]? = some (.mapping []))
    (h : sectionOf (.ref i, s) = .ok (j, st)) : st.Sound ∧ st.cells[j]? = some (.mapping []) := by
  obtain ⟨_, rs, hx, hrs, hfound⟩ := sectionOf_cases h
  cases hx
  cases hi.symm.trans hrs
  rcases hfound with ⟨ht, -⟩ | ⟨-, rfl, rfl⟩
  · cases ht
  · exact ⟨hs.push_empty, push_snd_self s _⟩

theorem section_of_root (h : rootOf limits doc = .ok (x, s)) (hsection : sectionOf (x, s) = .ok (j, st)) :
    ∃ slots, SectionOf limits doc (j, st) slots ∧ st.Sound ∧ st.cells[j]? = some (.mapping slots) := by
  cases doc with
  | none =>
    rw [show rootOf limits none = .ok (Store.empty.add (.mapping [])) from rfl, add_mapping] at h
    cases h
    exact ⟨[], .absent, sectionOf_empty Yaml.sound_empty.push_empty (push_snd_self _ _) hsection⟩
  | some text =>
    cases hl : Yaml.loadShared limits.composing text with
    | error f =>
      rw [rootOf, hl] at h
      cases h
    | ok r =>
      obtain ⟨root, s₀⟩ := r
      obtain ⟨hsound, -⟩ := Yaml.loadShared_sound hl
      rw [rootOf, hl] at h
      replace h : Settings.orEmpty (root, s₀) = (x, s) := Except.ok.inj h
      cases ht : (s₀.unfold root).truthy with
      | false =>
        rw [orEmpty_falsy ht] at h
        cases h
        exact ⟨[], .bare hl (.inl ht), sectionOf_empty hsound.push_empty (push_snd_self _ _) hsection⟩
      | true =>
        rw [orEmpty_truthy ht] at h
        cases h
        obtain ⟨i, rs, rfl, hrs, ⟨-, rfl, hfound⟩ | ⟨hf, rfl, rfl⟩⟩ := sectionOf_cases hsection
        · obtain ⟨hj, slots, hslots⟩ := slotDict?_eq_some.mp hfound
          refine ⟨slots, .found hl hrs ?_ hslots, hsound, hslots⟩
          cases hg : get? rs "loader" with
          | none =>
            rw [hg] at hj
            cases hj
          | some y =>
            rw [hg] at hj
            exact congrArg some hj
        · exact ⟨[], .bare hl (.inr ⟨i, rs, rfl, hrs, hf⟩), hsound.push_empty, push_snd_self _ _⟩

/-- Reading user settings chooses a document, and merges the flag into its section. -/
theorem loadRaw_section {off : Bool} {r : Nat × Store}
    (h : loadRaw limits t defaults path (if off then .mapping (flagEntries true) else .null) = .ok r) :
    ∃ doc j st slots, Chosen t defaults path doc ∧ SectionOf limits doc (j, st) slots ∧ st.Sound ∧
      st.cells[j]? = some (.mapping slots) ∧ r = (j, flagged off j slots st) := by
  unfold loadRaw at h
  rw [document_eq] at h
  cases hdoc : source t defaults path with
  | error f =>
    rw [hdoc] at h
    cases h
  | ok doc =>
    rw [hdoc] at h
    cases hroot : rootOf limits doc with
    | error f =>
      simp only [bind, Except.bind, hroot] at h
      cases h
    | ok root =>
      obtain ⟨x, s⟩ := root
      cases hsection : sectionOf (x, s) with
      | error f =>
        simp only [bind, Except.bind, hroot, hsection] at h
        cases h
      | ok base =>
        obtain ⟨j, st⟩ := base
        simp only [bind, Except.bind, hroot, hsection] at h
        obtain ⟨slots, hof, hsound, hslots⟩ := section_of_root hroot hsection
        rw [override_flag limits off hslots] at h
        exact ⟨doc, j, st, slots, source_chosen hdoc, hof, hsound, hslots, (Except.ok.inj h).symm⟩

/-! ## Documents that are finite -/

def valueOf (limits : Limits) : Option Text → Except Fault Value
  | some text => Yaml.load limits.composing text
  | none => .ok .null

/-- No container of the document lies within itself. -/
def IsFinite (limits : Limits) (doc : Option Text) : Prop :=
  ∀ text root s, doc = some text → Yaml.loadShared limits.composing text = .ok (root, s) →
    ∃ rank, s.Ranked rank

/-- The entries of the mapping under `loader`, none where no mapping stands. -/
def sectionEntries : Value → Entries
  | .mapping root =>
    match get? root "loader" with
    | some (.mapping es) => es
    | _ => []
  | _ => []

theorem sectionEntries_bare {root : Slot} (hr : ∃ rank, s.Ranked rank) (h : IsBare root s) :
    sectionEntries (s.unfold root) = [] := by
  rcases h with h | ⟨i, rs, rfl, hrs, h⟩
  · cases hv : s.unfold root with
    | mapping es =>
      rw [hv] at h
      obtain rfl : es = [] := by simpa [Value.truthy] using h
      rfl
    | _ => rfl
  · obtain ⟨rank, hr⟩ := hr
    rw [unfold_ref hr hrs, Cell.valueBy, sectionEntries, get?_mapped]
    cases hg : get? rs "loader" with
    | none => rfl
    | some x =>
      rw [hg, Option.getD_some] at h
      rw [Option.map_some]
      cases hv : s.unfold x with
      | mapping es =>
        rw [hv] at h
        simpa [Value.truthy] using h
      | _ => rfl

theorem sectionEntries_found {rank : Nat → Nat} {rs slots : List (Value × Slot)} (hr : st.Ranked rank)
    (hrs : st.cells[i]? = some (.mapping rs)) (hj : get? rs "loader" = some (.ref j))
    (hslots : st.cells[j]? = some (.mapping slots)) :
    sectionEntries (st.unfold (.ref i)) = valuesOf st slots := by
  rw [unfold_ref hr hrs, Cell.valueBy, sectionEntries, get?_mapped, hj, Option.map_some,
    ← mapping_valuesOf hr hslots]

theorem layered_finite {off : Bool} {slots : List (Value × Slot)} {settings : Settings}
    (hfinite : IsFinite limits doc) (hsection : SectionOf limits doc (j, st) slots) (hs : st.Sound)
    (hj : st.cells[j]? = some (.mapping slots))
    (h : Layered (valuesOf (flagged off j slots st) slots) off settings) :
    ∃ v, valueOf limits doc = .ok v ∧ Layered (sectionEntries v) off settings := by
  have hvalue : ∀ {text : Text} {root : Slot} {s : Store},
      Yaml.loadShared limits.composing text = .ok (root, s) →
      valueOf limits (some text) = .ok (s.unfold root) := by
    intro text root s hread
    rw [valueOf, Yaml.load, hread]
    rfl
  cases hsection with
  | found hread hrs hloader hslots =>
    obtain ⟨rank, hr⟩ := hfinite _ _ _ rfl hread
    refine ⟨_, hvalue hread, ?_⟩
    rw [sectionEntries_found hr hrs hloader hslots]
    refine layered_before hs hj (fun _ x hx hu => ?_) h
    -- the section would lie below itself
    obtain ⟨l, hl, -⟩ := get?_mem hx
    obtain ⟨k, rfl, hk⟩ := hu
    exact hr.not_cyclic j (.head' (refers_of hslots (List.mem_map_of_mem hl)) hk)
  | bare hread hbare =>
    refine ⟨_, hvalue hread, ?_⟩
    rw [sectionEntries_bare (hfinite _ _ _ rfl hread) hbare]
    exact layered_before hs hj (fun _ _ => nofun) h
  | absent => exact ⟨.null, rfl, layered_before hs hj (fun _ _ => nofun) h⟩

end ConfigLoader.Settings
