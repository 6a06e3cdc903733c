import ConfigLoader.Proofs.Settings.Defaults

/-! # Layers of settings

Settings are read from three layers: the defaults, the section of a settings document over them, and over
both the flag that turns type checking off. The flag is merged into the section itself, in place. So it
shows wherever the section shows, also among the options if the section lies within them.
-/
namespace ConfigLoader.Settings
open Store Keyed Validation

/-! ## Reading a record -/

section Reading
variable {α : Type} {es es' : Entries} {name : String} {reader : Reader α} {d a : α} {s : Settings}

/-- A field takes what the reader makes of the value under its name, or else its default. -/
def Takes (es : Entries) (name : String) (reader : Reader α) (d a : α) : Prop :=
  match Entries.getText? es name with
  | some v => reader v = .ok a
  | none => a = d

theorem Takes.congr (h : Takes es name reader d a)
    (he : Entries.getText? es' name = Entries.getText? es name) : Takes es' name reader d a := by
  rw [Takes, he]
  exact h

theorem field_ok_iff : field es name (some d) reader = .ok a ↔ Takes es name reader d a := by
  unfold field Takes
  cases Entries.getText? es name with
  | none => exact ⟨fun h => (Except.ok.inj h).symm, fun h => congrArg _ h.symm⟩
  | some v =>
    dsimp only
    cases reader v with
    | ok b => exact ⟨fun h => congrArg _ (Except.ok.inj h), fun h => congrArg _ (Except.ok.inj h)⟩
    | error r => exact ⟨nofun, nofun⟩

/-- Settings that are what entries give them field by field. -/
structure Validates (es : Entries) (s : Settings) : Prop where
  nodeExecutable : Takes es "node_executable" text default.nodeExecutable s.nodeExecutable
  typescript : Takes es "typescript" text default.typescript s.typescript
  cwd : Takes es "cwd" (optional text) default.cwd s.cwd
  typeCheck : Takes es "type_check" boolean default.typeCheck s.typeCheck
  compilerOptions : Takes es "compiler_options" mapping default.compilerOptions s.compilerOptions

theorem read_ok_iff : read (.mapping es) = .ok s ↔ Validates es s := by
  have hfault : read (.mapping es) = .ok s ↔ ofEntries es = .ok s := by
    change orFault _ (ofEntries es) = _ ↔ _
    cases ofEntries es <;> simp [orFault]
  rw [hfault]
  constructor
  · intro h
    simp only [ofEntries, and_ok_iff, field_ok_iff] at h
    obtain ⟨_, o, ⟨_, c, ⟨_, w, ⟨_, t, ⟨_, n, hmk, hn, rfl⟩, ht, rfl⟩, hw, rfl⟩, hc, rfl⟩, ho, rfl⟩ := h
    cases hmk
    exact ⟨hn, ht, hw, hc, ho⟩
  · rintro ⟨hn, ht, hw, hc, ho⟩
    rw [← field_ok_iff] at hn ht hw hc ho
    simp only [ofEntries, hn, ht, hw, hc, ho, Checked.and]

theorem read_fault {f : Fault} (h : read (.mapping es) = .error f) : f.kind = .validationError := by
  unfold read orFault at h
  split at h
  · cases h
  · cases h
    rfl

end Reading

/-! ## The flag -/

section Flag
variable {α : Type} {limits : Limits} {es es' : Entries} {slots : List (Value × Slot)} {off : Bool}
  {st : Store} {j : Nat}

def flagEntries (off : Bool) : Entries := if off then [("type_check", .bool false)] else []

def lowered (off : Bool) (v : α) (es : List (Value × α)) : List (Value × α) :=
  if off then put es "type_check" v else es

def flagCell : Cell := .mapping [("type_check", .leaf (.bool false))]

def flagged (off : Bool) (j : Nat) (slots : List (Value × Slot)) (st : Store) : Store :=
  if off then
    (st.push flagCell).2.put j (.mapping (put slots "type_check" (.leaf (.bool false))))
  else st

theorem mergeFrom_leaf {s : Store} {a b depth : Nat} {base : List (Value × Slot)} {k v : Value}
    (ha : s.cells[a]? = some (.mapping base)) (hb : s.cells[b]? = some (.mapping [(k, .leaf v)]))
    (hab : a ≠ b) :
    s.mergeFrom (depth + 1) a b = .ok (s.put a (.mapping (put base k (.leaf v)))) := by
  have hput : mergeEntry (mergeFrom depth) s a k (.leaf v) =
      .ok (s.put a (.mapping (put base k (.leaf v)))) := mergeEntry_put ha (.inr rfl)
  have hb' : (s.put a (.mapping (put base k (.leaf v)))).cells[b]? = some (.mapping [(k, .leaf v)]) :=
    (put_other _ hab).trans hb
  rw [mergeFrom_eq hb, List.length_singleton, mergeEntries, mapping?_eq.mpr hb]
  simp only [Option.getD_some, List.length_singleton, ne_eq, not_true_eq_false, if_false, Nat.zero_add,
    Nat.sub_self, List.getElem?_cons_zero, hput]
  change mergeEntries (mergeFrom depth) a b 1 0 _ = _
  rw [mergeEntries, mapping?_eq.mpr hb']
  rfl

theorem override_flag (limits : Limits) (off : Bool) (hj : st.cells[j]? = some (.mapping slots)) :
    override limits (j, st) (if off then .mapping (flagEntries true) else .null) =
      .ok (j, flagged off j slots st) := by
  cases off with
  | false => rfl
  | true =>
    have hne : j ≠ st.cells.size := Nat.ne_of_lt (lt_size hj)
    obtain ⟨depth, hdepth⟩ := Nat.exists_eq_add_of_le' limits.enough.2.2.1
    have hmerge : (st.push flagCell).2.mergeFrom limits.merging j st.cells.size =
        .ok (flagged true j slots st) := by
      rw [hdepth]
      exact mergeFrom_leaf (extends_push st flagCell hj) (push_snd_self st flagCell) hne
    exact congrArg (fun r => r >>= fun t => pure (j, t)) hmerge

theorem flagged_self (off : Bool) (hj : st.cells[j]? = some (.mapping slots)) :
    (flagged off j slots st).cells[j]? = some (.mapping (lowered off (.leaf (.bool false)) slots)) := by
  cases off with
  | false => exact hj
  | true => exact put_self (lt_size (extends_push st _ hj)) _

theorem flagged_sound (off : Bool) (hs : st.Sound) (hj : st.cells[j]? = some (.mapping slots)) :
    (flagged off j slots st).Sound := by
  cases off with
  | false => exact hs
  | true =>
    refine (hs.push (List.forall_mem_singleton.mpr trivial) ?_).put j ?_ ?_
    · rintro _ ⟨⟩
      exact List.pairwise_singleton _ _
    · intro x hx
      obtain ⟨e, he, rfl⟩ := List.mem_map.mp hx
      rcases mem_or_snd_of_mem_put he with he | he
      · rw [size_push]
        exact (hs.whole j _ hj e.2 (List.mem_map_of_mem he)).mono (Nat.le_succ _)
      · rw [he]
        exact trivial
    · rintro _ ⟨⟩
      exact (hs.apart j slots hj).put _ _

theorem flagged_frame (off : Bool) (hs : st.Sound) (slots : List (Value × Slot)) {x : Slot}
    (hx : x.Fits st.cells.size) (hj : off = true → ¬ st.Under x j) {k : Nat} (hk : st.Under x k) :
    (flagged off j slots st).cells[k]? = st.cells[k]? := by
  cases off with
  | false => rfl
  | true =>
    have hcell := Array.getElem?_eq_getElem (hs.whole.under_lt hx hk)
    have hne : j ≠ k := fun h => hj rfl (h ▸ hk)
    exact (put_other _ hne).trans ((extends_push st _ hcell).trans hcell.symm)

theorem size_flagged (off : Bool) (j : Nat) (slots : List (Value × Slot)) (st : Store) :
    st.cells.size ≤ (flagged off j slots st).cells.size := by
  cases off with
  | false => exact Nat.le_refl _
  | true =>
    rw [flagged, if_pos rfl, size_put, size_push]
    exact Nat.le_succ _

/-! ## Merging the layers -/

theorem valuesBy_put (f : Slot → Value) (st : Store) (slots : List (Value × Slot)) (k v : Value) :
    valuesBy f st (put slots k (.leaf v)) = put (valuesBy f st slots) k v := by
  have hleaf : ∀ l, valueUnder f st l (.leaf v) = v := by
    intro l
    rw [valueUnder, spread_other rfl, unfold_leaf, ite_self]
  induction slots with
  | nil => exact congrArg (fun w => [(k, w)]) (hleaf k)
  | cons e slots ih =>
    rw [Keyed.put, valuesBy_cons, Keyed.put]
    dsimp only
    split
    · rw [valuesBy_cons, hleaf]
    · rw [valuesBy_cons, ih]

theorem valuesOf_lowered (off : Bool) (st : Store) (slots : List (Value × Slot)) :
    valuesOf st (lowered off (.leaf (.bool false)) slots) =
      lowered off (.bool false) (valuesOf st slots) := by
  cases off with
  | false => rfl
  | true => exact valuesBy_put _ st slots _ _

theorem Filled.put (h : Filled es es') (k : String) (v : Value) :
    Filled (Keyed.put es k v) (Keyed.put es' k v) := by
  intro name
  have hname := h name
  rw [Entries.getText?, Entries.getText?, Entries.get?_eq, Entries.get?_eq] at hname ⊢
  rw [get?_put, get?_put]
  split
  · rfl
  · exact hname

theorem read_layers (off : Bool) (h : Apart es)
    (hos : ∀ os, Entries.getText? es "compiler_options" = some (.mapping os) → Apart os) :
    read (.mapping (Entries.deepMerge (Entries.deepMerge defaultEntries es) (flagEntries off))) =
      read (.mapping (lowered off (.bool false) es)) := by
  have hfilled := filled_deepMerge h hos
  cases off with
  | false => exact read_filled hfilled
  | true =>
    refine read_filled ?_
    have hmerge : Entries.deepMerge (Entries.deepMerge defaultEntries es) (flagEntries true) =
        put (Entries.deepMerge defaultEntries es) "type_check" (.bool false) := by
      rw [← Entries.put_eq]
      rfl
    rw [hmerge]
    exact hfilled.put _ _

end Flag

/-- Settings that are the validation of the layers: each field but `type_check` is what the section gives,
or the default where it gives nothing. -/
structure Layered (sec : Entries) (off : Bool) (s : Settings) : Prop where
  merged : read (.mapping (Entries.deepMerge (Entries.deepMerge defaultEntries sec) (flagEntries off))) =
    .ok s
  nodeExecutable : Takes sec "node_executable" text default.nodeExecutable s.nodeExecutable
  typescript : Takes sec "typescript" text default.typescript s.typescript
  cwd : Takes sec "cwd" (optional text) default.cwd s.cwd
  typeCheck : if off then s.typeCheck = false
    else Takes sec "type_check" boolean default.typeCheck s.typeCheck
  compilerOptions : (Entries.getText? sec "compiler_options").getD (.mapping []) =
    .mapping s.compilerOptions

section Layering
variable {limits : Limits} {st t : Store} {j : Nat} {slots : List (Value × Slot)} {off : Bool} {sec : Entries}
  {s : Settings}

theorem getText?_lowered {name : String} (off : Bool) (v : Value) (es : Entries)
    (hname : (Value.text "type_check").sameKey name = false) :
    Entries.getText? (lowered off v es) name = Entries.getText? es name := by
  cases off with
  | false => rfl
  | true => exact (get?_put es _ v _).trans (if_neg (Bool.eq_false_iff.mp hname))

@[simp] theorem getText?_lowered_self (v : Value) (es : Entries) :
    Entries.getText? (lowered true v es) "type_check" = some v :=
  get?_put_self trivial

theorem takes_options_iff {os : Entries} : Takes sec "compiler_options" mapping [] os ↔
    (Entries.getText? sec "compiler_options").getD (.mapping []) = .mapping os := by
  unfold Takes
  cases Entries.getText? sec "compiler_options" with
  | none => exact ⟨fun h => congrArg Value.mapping h.symm, fun h => (Value.mapping.inj h).symm⟩
  | some v =>
    cases v with
    | mapping es => exact ⟨fun h => congrArg _ (Except.ok.inj h), fun h => congrArg _ (Value.mapping.inj h)⟩
    | _ => exact ⟨nofun, nofun⟩

theorem layered_of_read (hsec : Apart sec)
    (hos : ∀ os, Entries.getText? sec "compiler_options" = some (.mapping os) → Apart os)
    (h : read (.mapping (lowered off (.bool false) sec)) = .ok s) : Layered sec off s := by
  obtain ⟨hn, ht, hw, hc, ho⟩ := read_ok_iff.mp h
  have hother : ∀ name : String, (Value.text "type_check").sameKey name = false →
      Entries.getText? sec name = Entries.getText? (lowered off (.bool false) sec) name :=
    fun name hname => (getText?_lowered off _ sec hname).symm
  refine ⟨(read_layers off hsec hos).trans h, hn.congr (hother _ rfl), ht.congr (hother _ rfl),
    hw.congr (hother _ rfl), ?_, takes_options_iff.mp (ho.congr (hother _ rfl))⟩
  cases off with
  | false => exact hc
  | true =>
    rw [Takes, getText?_lowered_self] at hc
    exact (Except.ok.inj hc).symm

theorem fits_flagged (hs : st.Sound) (hj : st.cells[j]? = some (.mapping slots)) (off : Bool) {k : Value}
    {x : Slot} (hx : get? slots k = some x) : x.Fits (flagged off j slots st).cells.size :=
  (hs.whole.fits hj hx).mono (size_flagged off j slots st)

theorem layered_built (hs : st.Sound) (hj : st.cells[j]? = some (.mapping slots))
    (h : buildFrom limits (.ref j) (flagged off j slots st) = .ok s) :
    Layered (valuesOf (flagged off j slots st) slots) off s := by
  have hsound := flagged_sound off hs hj
  rw [buildFrom_read limits hsound (flagged_self off hj), valuesOf_lowered] at h
  refine layered_of_read ((apart_valuesBy _ _ slots).mpr (hs.apart j slots hj)) (fun os hos => ?_) h
  exact apart_options hsound (fun x => fits_flagged hs hj off) hos

theorem takes_leaf {α : Type} {name : String} {reader : Reader α} {d a : α}
    (hfits : ∀ x, get? slots name = some x → x.Fits t.cells.size)
    (hname : (Value.text name).sameKey "compiler_options" = false)
    (hreader : ∀ v, v.IsContainer → ∀ a, reader v ≠ .ok a) (h : Takes (valuesOf t slots) name reader d a) :
    Takes (valuesOf st slots) name reader d a := by
  unfold Takes Entries.getText? valuesOf at h ⊢
  rw [Entries.get?_eq, get?_valuesBy] at h ⊢
  cases hx : get? slots name with
  | none =>
    rw [hx] at h
    exact h
  | some x =>
    rw [hx] at h
    simp only [Option.map_some, valueUnder, hname, Bool.false_eq_true, if_false] at h ⊢
    cases x with
    | leaf v =>
      rw [unfold_leaf] at h ⊢
      exact h
    | ref i => exact absurd h (hreader _ (isContainer_unfold (hfits _ hx)) a)

theorem text_no_container (v : Value) (hv : v.IsContainer) (a : Text) : text v ≠ .ok a := by
  cases v <;> first | exact hv.elim | exact nofun

theorem optional_no_container (v : Value) (hv : v.IsContainer) (a : Option Text) :
    optional text v ≠ .ok a := by
  cases v <;> first | exact hv.elim | exact nofun

/-- Unless the section lies within its options, they are as they were before the flag came. -/
theorem layered_before (hs : st.Sound) (hj : st.cells[j]? = some (.mapping slots))
    (hfree : off = true → ∀ x, get? slots "compiler_options" = some x → ¬ st.Under x j)
    (h : Layered (valuesOf (flagged off j slots st) slots) off s) : Layered (valuesOf st slots) off s := by
  cases off with
  | false => exact h
  | true =>
    have hother : ∀ name : String, (Value.text "type_check").sameKey name = false →
        Entries.getText? (lowered true (.bool false) (valuesOf st slots)) name =
          Entries.getText? (valuesOf st slots) name := fun name => getText?_lowered true _ _
    have hfits : ∀ {k x}, get? slots k = some x → x.Fits (flagged true j slots st).cells.size :=
      fits_flagged hs hj true
    have hoptions : Entries.getText? (valuesOf st slots) "compiler_options" =
        Entries.getText? (valuesOf (flagged true j slots st) slots) "compiler_options" := by
      rw [Entries.getText?, Entries.getText?, Entries.get?_eq, Entries.get?_eq, valuesOf, valuesOf,
        get?_valuesBy, get?_valuesBy]
      refine Option.map_congr fun x hx => ?_
      have hkey : (Value.text "compiler_options").sameKey "compiler_options" = true :=
        Value.sameKey_self trivial
      rw [valueUnder, valueUnder, if_pos hkey, if_pos hkey]
      refine (spread_same (size_flagged true j slots st) fun k hk => ?_).symm
      exact flagged_frame true hs slots (hs.whole.fits hj hx) (fun _ => hfree rfl x hx) hk
    refine layered_of_read ((apart_valuesBy st.dump st slots).mpr (hs.apart j slots hj))
      (fun os => apart_options hs fun x => hs.whole.fits hj) (read_ok_iff.mpr ⟨?_, ?_, ?_, ?_, ?_⟩)
    · exact (takes_leaf (fun _ => hfits) rfl text_no_container h.nodeExecutable).congr (hother _ rfl)
    · exact (takes_leaf (fun _ => hfits) rfl text_no_container h.typescript).congr (hother _ rfl)
    · exact (takes_leaf (fun _ => hfits) rfl optional_no_container h.cwd).congr (hother _ rfl)
    · rw [Takes, getText?_lowered_self]
      exact congrArg Except.ok h.typeCheck.symm
    · exact ((takes_options_iff.mpr h.compilerOptions).congr hoptions).congr (hother _ rfl)

end Layering

end ConfigLoader.Settings
