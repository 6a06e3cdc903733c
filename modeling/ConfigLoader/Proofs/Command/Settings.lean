import ConfigLoader.Proofs.Command.Reports
import ConfigLoader.Proofs.Settings.Documents
import ConfigLoader.Service.Script

/-! # The settings of a run

A run goes on with the settings of a document that is accepted, unless they are wrong. It reports a
section that is no mapping. A root that is no mapping ends it with a fault that nothing handles. The
settings that a run goes on with are layers: the defaults, the section of one document over them, and the
flag over both.
-/
namespace ConfigLoader.Settings

/-- What reading settings is to do with a document of this value: it gives a mapping or a fault of the
value, and a fault where the root is neither empty nor a mapping, or the section is there, not null and
no mapping. -/
structure Contract (v : Value) (r : Except Fault (Nat × Store)) : Prop where
  answer : (∃ i s, r = .ok (i, s) ∧ (s.mapping? i).isSome) ∨
    ∃ f, r = .error f ∧ f.kind.isA .valueError = true
  root : v ≠ .null → v.isDict = false → ∃ f, r = .error f
  loader : ∀ es found, v = .mapping es → Keyed.get? es "loader" = some found → found ≠ .null →
    found.isMapping = false → ∃ f, r = .error f

/-- The root is empty or a mapping, and a section that counts as false is null or a mapping. -/
def IsPlain (v : Value) : Prop :=
  v = .null ∨ ∃ es, v = .mapping es ∧
    ∀ found, Keyed.get? es "loader" = some found → found.truthy = false →
      found = .null ∨ found.isMapping = true

variable {v : Value} {r : Except Fault (Nat × Store)}

theorem contract_of_plain (h : IsPlain v) (hr : (verdict v).Gives r) : Contract v r := by
  obtain rfl | ⟨es, rfl, hes⟩ := h
  · obtain ⟨i, s, hr, hi⟩ := hr
    exact ⟨.inl ⟨i, s, hr, hi⟩, fun hn => absurd rfl hn, nofun⟩
  rw [verdict_mapping] at hr
  split at hr
  · next hm =>
    refine ⟨.inl hr, fun _ => nofun, fun es' found he hg hn hf => ?_⟩
    cases he
    rw [hg, Option.getD_some] at hm
    cases ht : found.truthy with
    | true =>
      rw [Value.orEmpty, if_pos ht, hf] at hm
      cases hm
    | false =>
      rcases hes found hg ht with hnull | hmapping
      · exact absurd hnull hn
      · cases hf.symm.trans hmapping
  · exact ⟨.inr ⟨_, hr, rfl⟩, fun _ => nofun, fun _ _ _ _ _ _ => ⟨_, hr⟩⟩

theorem plain_of_contract (h : Contract v r) (hr : (verdict v).Gives r) : IsPlain v := by
  have hok : ∀ i s, r = .ok (i, s) → ¬ ∃ f, r = .error f := by
    rintro i s rfl ⟨f, hf⟩
    cases hf
  cases hd : v.isDict with
  | false =>
    refine .inl (by_contra fun hn => ?_)
    rw [verdict_other hd] at hr
    split at hr
    · rcases h.answer with ⟨i, s, hs, -⟩ | ⟨f, hf, hkind⟩
      · exact hok i s hs ⟨_, hr⟩
      · obtain rfl := Except.error.inj (hr.symm.trans hf)
        cases hkind
    · obtain ⟨i, s, hs, -⟩ := hr
      exact hok i s hs (h.root hn hd)
  | true =>
    cases v with
    | mapping es =>
      refine .inr ⟨es, rfl, fun found hg ht => ?_⟩
      rw [verdict_mapping, hg, Option.getD_some, Value.orEmpty, ht, if_neg Bool.false_ne_true] at hr
      obtain ⟨i, s, hs, -⟩ := hr
      by_cases hn : found = .null
      · exact .inl hn
      · refine .inr (by_contra fun hm => ?_)
        exact hok i s hs (h.loader es found rfl hg hn (Bool.eq_false_iff.mpr hm))
    | _ => cases hd

theorem not_contract_of_reaches {limits : Limits} {overrides : Option Entries}
    (h : ReachesLimit limits overrides r (verdict v)) : ¬ Contract v r := by
  obtain ⟨-, rfl, -⟩ := h
  rintro ⟨⟨i, s, hs, -⟩ | ⟨f, hf, hkind⟩, -, -⟩
  · cases hs
  · cases hf
    cases hkind

theorem contract_iff {limits : Limits} {overrides : Option Entries}
    (h : (verdict v).Gives r ∨ ReachesLimit limits overrides r (verdict v)) :
    Contract v r ↔ IsPlain v ∧ ¬ ReachesLimit limits overrides r (verdict v) := by
  constructor
  · intro hc
    have hn : ¬ ReachesLimit limits overrides r (verdict v) := fun hr => not_contract_of_reaches hr hc
    exact ⟨plain_of_contract hc (h.resolve_right hn), hn⟩
  · exact fun ⟨hp, hn⟩ => contract_of_plain hp (h.resolve_right hn)

end ConfigLoader.Settings

namespace ConfigLoader.Command
open Settings (given verdict parsed)
variable {W S : Type}

theorem overrides_given (o : Options) : ∃ es, overrides o = given es := by
  unfold overrides
  split
  · exact ⟨some _, rfl⟩
  · exact ⟨none, rfl⟩

theorem overrides_nesting (limits : Limits) (o : Options) : (overrides o).nesting ≤ limits.merging := by
  refine Nat.le_trans ?_ limits.enough.2.2.1
  unfold overrides
  split <;> decide

section
variable {limits : Limits} {site : Site W S} {before t : FileTree} {o : Options}
  {log : Option Location}

theorem settingsOf_built {defaults : List Text} {r : Nat × Store}
    (h : Settings.loadRaw limits t defaults o.settings (overrides o) = .ok r) :
    ∃ doc j st slots, Settings.Chosen t defaults o.settings doc ∧ Settings.SectionOf limits doc (j, st) slots ∧
      st.Sound ∧ st.cells[j]? = some (.mapping slots) ∧ settingsOf limits t defaults o =
        Settings.buildFrom limits (.ref j) (Settings.flagged o.noTypeCheck j slots st) := by
  obtain ⟨doc, j, st, slots, hchosen, hsection, hsound, hslots, rfl⟩ := Settings.loadRaw_section h
  refine ⟨doc, j, st, slots, hchosen, hsection, hsound, hslots, ?_⟩
  unfold settingsOf
  rw [h]
  rfl

theorem settingsOf_fault {defaults : List Text} {r : Nat × Store} {f : Fault}
    (h : Settings.loadRaw limits t defaults o.settings (overrides o) = .ok r)
    (hf : settingsOf limits t defaults o = .error f) : f.kind = .validationError := by
  obtain ⟨doc, j, st, slots, -, -, hsound, hslots, hbuilt⟩ := settingsOf_built h
  rw [hbuilt, Settings.buildFrom_read limits (Settings.flagged_sound _ hsound hslots)
    (Settings.flagged_self _ hslots)] at hf
  exact Settings.read_fault hf

theorem runLoad_settings {s : Settings}
    (hlog : openLog site.stamp before o.debugLog = .ok (log, t))
    (hs : settingsOf site.limits t site.defaults o = .ok s) : (runLoad site before o).settings = some s := by
  rw [runLoad_loaded site hlog hs]

/-- What becomes of a run by its settings document: it goes on or reports an error, reports the section,
or ends with a fault that nothing handles. -/
def Enters (out : Outcome W S) : Settings.Verdict → Prop
  | .accepted => (∃ s, out.settings = some s) ∨ out.report.IsError
  | .sectionRefused found =>
    out.report = .failure 1 (errorLine (Settings.sectionFault found).message) ∧ out.report.IsError
  | .rootRefused root => out.report = ⟨[], [], [], .escaped (Fault.noAttribute root "get")⟩

theorem runLoad_enters {v : Value} (hlog : openLog site.stamp before o.debugLog = .ok (log, t))
    (h : parsed site.limits t site.defaults o.settings = .ok v) :
    Enters (runLoad site before o) (verdict v) := by
  obtain ⟨es, hes⟩ := overrides_given o
  have hraw : (verdict v).Gives (Settings.loadRaw site.limits t site.defaults o.settings (overrides o)) := by
    have hroom := overrides_nesting site.limits o
    rw [hes] at hroom ⊢
    exact (Settings.loadRaw_verdict h es).resolve_right fun hr => Nat.not_lt.mpr hroom hr.2.2
  cases hv : verdict v with
  | accepted =>
    rw [hv] at hraw
    obtain ⟨i, s, hs, -⟩ := hraw
    cases hb : settingsOf site.limits t site.defaults o with
    | ok settings => exact .inl ⟨settings, runLoad_settings hlog hb⟩
    | error f =>
      refine .inr ?_
      rw [runLoad_refused site hlog hb]
      have hkind := settingsOf_fault hs hb
      refine settingsReport_isError ?_
      rw [isSettingsFault, hkind]
      rfl
  | sectionRefused found =>
    rw [hv] at hraw
    have hb : settingsOf site.limits t site.defaults o = .error (Settings.sectionFault found) := by
      unfold settingsOf
      rw [hraw]
      rfl
    rw [runLoad_refused site hlog hb]
    exact ⟨rfl, settingsReport_isError (f := Settings.sectionFault found) rfl⟩
  | rootRefused root =>
    rw [hv] at hraw
    have hb : settingsOf site.limits t site.defaults o = .error (Fault.noAttribute root "get") := by
      unfold settingsOf
      rw [hraw]
      rfl
    rw [runLoad_refused site hlog hb]
    rfl

end

/-- What a settings document is taken for decides what reading settings from it ends with, whatever
overrides are merged in, unless these go deeper than there is room for, and what a run does. That is as it
should be exactly where the root is empty or a mapping, its section counts as true, is null or is a
mapping, and there is room for the overrides. -/
theorem settings_judged {limits : Limits} {t : FileTree} {defaults : List Text} {path : Option Text}
    {v : Value} (h : parsed limits t defaults path = .ok v) :
    (∀ es, let r := Settings.loadRaw limits t defaults path (given es)
      ((verdict v).Gives r ∨ Settings.ReachesLimit limits es r (verdict v)) ∧
      (Settings.Contract v r ↔
        Settings.IsPlain v ∧ ¬ Settings.ReachesLimit limits es r (verdict v))) ∧
    ∀ (site : Site W S) (before : FileTree) (o : Options) (log : Option Location),
      openLog site.stamp before o.debugLog = .ok (log, t) → site.limits = limits →
      site.defaults = defaults → o.settings = path → Enters (runLoad site before o) (verdict v) := by
  refine ⟨fun es => ?_, ?_⟩
  · have hraw := Settings.loadRaw_verdict h es
    exact ⟨hraw, Settings.contract_iff hraw⟩
  · rintro site before o log hlog rfl rfl rfl
    exact runLoad_enters hlog h

def settingsTree (text : Text) : FileTree :=
  ⟨[(["w"], .directory), (["w", "s.yaml"], .file (Text.Utf8.encode text))], ["w"]⟩

def settingsSite : Site Service.Script Nat :=
  ⟨"cli", .usual, fun _ => Service.Script.ops, fun _ => .ofPlans [], fun _ w => w, [], []⟩

def settingsOptions : Options := ⟨"c.json", some "s.yaml", true, none⟩

def isKnotted : Except Fault Value → Bool
  | .ok (.mapping [(.text k, .mapping [(.text l, .cycle true)])]) =>
    k == Text.ofString "loader" && l == Text.ofString "x"
  | _ => false

/-- A section that lies within itself. -/
theorem settings_judged_recursive :
    parsed .usual (settingsTree "loader: &a\n  x: *a\n") [] (some "s.yaml") =
      .ok (.mapping [("loader", .mapping [("x", .cycle true)])]) ∧
    (∀ es, (given es).nesting ≤ Limits.usual.merging → ∃ i s, Settings.loadRaw .usual
      (settingsTree "loader: &a\n  x: *a\n") [] (some "s.yaml") (given es) = .ok (i, s) ∧
        (s.mapping? i).isSome) ∧
    Enters (runLoad settingsSite (settingsTree "loader: &a\n  x: *a\n") settingsOptions)
      .accepted := by
  have h : parsed .usual (settingsTree "loader: &a\n  x: *a\n") [] (some "s.yaml") =
      .ok (.mapping [("loader", .mapping [("x", .cycle true)])]) := by
    have hb : isKnotted (parsed .usual (settingsTree "loader: &a\n  x: *a\n") [] (some "s.yaml")) = true := by
      decide +kernel
    unfold isKnotted at hb
    split at hb
    · next k l he =>
      obtain ⟨hk, hl⟩ := Bool.and_eq_true_iff.mp hb
      rw [he, eq_of_beq hk, eq_of_beq hl]
    · cases hb
  obtain ⟨hraw, hrun⟩ := settings_judged (W := Service.Script) (S := Nat) h
  refine ⟨h, fun es hes => ?_, hrun settingsSite _ settingsOptions none rfl rfl rfl rfl⟩
  exact (hraw es).1.resolve_right fun hr => Nat.not_lt.mpr hes hr.2.2

def isListOfOne : Except Fault Value → Bool
  | .ok (.list [.int 1]) => true
  | _ => false

/-- A list for a root ends reading, and the run, with a fault that is not one of the value. -/
theorem settings_list_escapes :
    parsed .usual (settingsTree "[1]\n") [] (some "s.yaml") = .ok (.list [.int 1]) ∧
    ¬ Settings.Contract (.list [.int 1])
      (Settings.loadRaw .usual (settingsTree "[1]\n") [] (some "s.yaml") (given none)) ∧
    (runLoad settingsSite (settingsTree "[1]\n") settingsOptions).report =
      ⟨[], [], [], .escaped (Fault.noAttribute (.list [.int 1]) "get")⟩ := by
  have h : parsed .usual (settingsTree "[1]\n") [] (some "s.yaml") = .ok (.list [.int 1]) := by
    have hb : isListOfOne (parsed .usual (settingsTree "[1]\n") [] (some "s.yaml")) = true := by
      decide +kernel
    unfold isListOfOne at hb
    split at hb
    · assumption
    · cases hb
  have hlog : openLog settingsSite.stamp (settingsTree "[1]\n") settingsOptions.debugLog =
      .ok (none, settingsTree "[1]\n") := rfl
  refine ⟨h, fun hc => ?_, runLoad_enters hlog h⟩
  rcases ((Settings.contract_iff (Settings.loadRaw_verdict h none)).mp hc).1 with hn | ⟨es, he, -⟩
  · cases hn
  · cases he

/-! ## The layers of the settings -/

section Layers
open Settings (Chosen SectionOf Layered)
variable {site : Site W S} {before : FileTree} {args : List Text} {s : Settings}

/-- The settings that a run goes on with are the validation of the defaults below the section of the
document that is chosen below the flag. The section is taken as the flag leaves it. That is as it was in
the document, unless the flag is there and the section lies within its own options. Over a document whose
containers do not lie within themselves the layers are those of its value. -/
theorem run_layers_settings (h : (run site before args).settings = some s) :
    ∃ o log t doc j st slots, Request.ofArguments before args = .ok (.load o) ∧
      openLog site.stamp before o.debugLog = .ok (log, t) ∧
      (run site before args).report =
        (load site.limits (site.ops s) t o.config (.start (site.world t))).1 ∧
      Chosen t site.defaults o.settings doc ∧ SectionOf site.limits doc (j, st) slots ∧
      Layered (Settings.valuesOf (Settings.flagged o.noTypeCheck j slots st) slots) o.noTypeCheck s ∧
      ((o.noTypeCheck = true → ∀ x, Keyed.get? slots "compiler_options" = some x → ¬ st.Under x j) →
        Layered (Settings.valuesOf st slots) o.noTypeCheck s) ∧
      (Settings.IsFinite site.limits doc →
        ∃ v, Settings.valueOf site.limits doc = .ok v ∧
          Layered (Settings.sectionEntries v) o.noTypeCheck s) := by
  have hrun := run_runs site before args
  generalize run site before args = out at h hrun
  cases hrun with
  | loaded hargs hlog hs =>
    cases h
    rename_i o log t
    cases hraw : Settings.loadRaw site.limits t site.defaults o.settings (overrides o) with
    | error f =>
      unfold settingsOf at hs
      rw [hraw] at hs
      cases hs
    | ok r =>
      obtain ⟨doc, j, st, slots, hchosen, hsection, hsound, hslots, hbuilt⟩ := settingsOf_built hraw
      have hlayered := Settings.layered_built hsound hslots (hbuilt.symm.trans hs)
      exact ⟨o, log, t, doc, j, st, slots, hargs, hlog, rfl, hchosen, hsection, hlayered,
        fun hfree => Settings.layered_before hsound hslots hfree hlayered,
        fun hfinite => Settings.layered_finite hfinite hsection hsound hslots hlayered⟩
  | _ => cases h

def layersTree (files : List (Text × Text)) : FileTree :=
  ⟨(["w"], .directory) :: (["w", "c.json"], .file (Text.Utf8.encode "1")) ::
    files.map fun f => (["w", f.1], .file (Text.Utf8.encode f.2)), ["w"]⟩

def layersSite : Site Service.Script Nat :=
  ⟨"cli", .usual, fun _ => Service.Script.ops, fun _ => .ofPlans [], fun _ w => w,
    ["/w/a.yaml", "/w/b.yaml"], []⟩

def defaultsTree : FileTree :=
  layersTree [("a.yaml", "loader:\n  typescript: tsc\n  type_check: true\n"),
    ("b.yaml", "loader:\n  node_executable: deno\n")]

def isCompiler : Option Settings → Bool
  | some ⟨n, t, none, false, []⟩ => n == Text.ofString "node" && t == Text.ofString "tsc"
  | _ => false

/-- Only the first default file counts, and the flag wins over it. -/
theorem run_layers_settings_default :
    (run layersSite defaultsTree ["--no-type-check", "c.json"]).settings =
      some ⟨"node", "tsc", none, false, []⟩ ∧
    ∃ o t doc j st slots, Request.ofArguments defaultsTree ["--no-type-check", "c.json"] = .ok (.load o) ∧
      Chosen t layersSite.defaults o.settings doc ∧ SectionOf .usual doc (j, st) slots ∧
      Layered (Settings.valuesOf (Settings.flagged o.noTypeCheck j slots st) slots) o.noTypeCheck
        ⟨"node", "tsc", none, false, []⟩ := by
  have hs : (run layersSite defaultsTree ["--no-type-check", "c.json"]).settings =
      some ⟨"node", "tsc", none, false, []⟩ := by
    have hb : isCompiler (run layersSite defaultsTree ["--no-type-check", "c.json"]).settings = true := by
      decide +kernel
    unfold isCompiler at hb
    split at hb
    · next n t he =>
      obtain ⟨hn, ht⟩ := Bool.and_eq_true_iff.mp hb
      rw [he, eq_of_beq hn, eq_of_beq ht]
    · cases hb
  obtain ⟨o, log, t, doc, j, st, slots, hargs, -, -, hchosen, hsection, hlayered, -⟩ :=
    run_layers_settings hs
  exact ⟨hs, o, t, doc, j, st, slots, hargs, hchosen, hsection, hlayered⟩

def knottedText : Text := "loader: &a\n  compiler_options: *a\n"

def knottedTree : FileTree := layersTree [("s.yaml", knottedText)]

def knottedStore : Store :=
  ⟨#[.mapping [("loader", .ref 1)], .mapping [("compiler_options", .ref 1)]]⟩

def isKnottedStore : Except Fault (Slot × Store) → Bool
  | .ok (.ref 0, ⟨⟨[.mapping [(.text k, .ref 1)], .mapping [(.text l, .ref 1)]]⟩⟩) =>
    k == Text.ofString "loader" && l == Text.ofString "compiler_options"
  | _ => false

theorem loadShared_knotted :
    Yaml.loadShared Limits.usual.composing knottedText = .ok (.ref 0, knottedStore) := by
  have hb : isKnottedStore (Yaml.loadShared Limits.usual.composing knottedText) = true := by decide +kernel
  unfold isKnottedStore at hb
  split at hb
  · next k l he =>
    obtain ⟨hk, hl⟩ := Bool.and_eq_true_iff.mp hb
    rw [he, eq_of_beq hk, eq_of_beq hl]
    rfl
  · cases hb

def knottedArgs : List Text := ["-s", "s.yaml", "--no-type-check", "c.json"]

theorem sectionOf_knotted {j : Nat} {st : Store} {slots : List (Value × Slot)}
    (h : SectionOf .usual (some knottedText) (j, st) slots) :
    st = knottedStore ∧ slots = [(.text "compiler_options", .ref 1)] := by
  cases h with
  | found hread hrs hloader hslots =>
    cases loadShared_knotted.symm.trans hread
    cases hrs
    cases hloader
    cases hslots
    exact ⟨rfl, rfl⟩
  | bare hread hbare =>
    cases loadShared_knotted.symm.trans hread
    rcases hbare with h | ⟨i, rs, hi, hrs, h⟩
    · cases h
    · cases hi
      cases hrs
      cases h

/-- The flag shows among the options of such a section, so the settings are not the layers over the section
as the document has it. -/
theorem flag_reaches_options :
    Request.ofArguments knottedTree knottedArgs = .ok (.load ⟨"c.json", some "s.yaml", true, none⟩) ∧
    ∃ s, (run layersSite knottedTree knottedArgs).settings = some s ∧
      ∀ doc j st slots, Chosen knottedTree layersSite.defaults (some "s.yaml") doc →
        SectionOf .usual doc (j, st) slots → ¬ Layered (Settings.valuesOf st slots) true s := by
  refine ⟨rfl, ?_⟩
  have hb : ((run layersSite knottedTree knottedArgs).settings.map fun s =>
      (Keyed.get? s.compilerOptions "type_check").isSome) = some true := by decide +kernel
  obtain ⟨s, hs, hflag⟩ := Option.map_eq_some_iff.mp hb
  refine ⟨s, hs, fun doc j st slots hchosen hsection hlayered => ?_⟩
  cases hchosen with
  | given hp hr =>
    have hread : (knottedTree.readText (Path.tidy "s.yaml")).toOption = some knottedText := by
      decide +kernel
    rw [hr] at hread
    cases hread
    obtain ⟨rfl, rfl⟩ := sectionOf_knotted hsection
    have hoptions : Value.mapping [(.text "compiler_options", .mapping [(.text "compiler_options",
        .mapping [(.text "compiler_options", .cycle true)])])] = .mapping s.compilerOptions :=
      hlayered.compilerOptions
    rw [← Value.mapping.inj hoptions] at hflag
    cases hflag

end Layers

end ConfigLoader.Command
