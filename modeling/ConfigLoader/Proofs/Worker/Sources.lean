import ConfigLoader.Proofs.Modules.Sources
import ConfigLoader.Proofs.TypeScript.Layers
import ConfigLoader.Proofs.Worker.Compilations

/-! # What is compiled, and how

A ready worker compiles the source of a request and, of the modules that it leads to, those of
TypeScript files. All of them are compiled in one mode, with the options of one settings over those
of the project around each file.
-/
namespace ConfigLoader.Worker
open Modules (Event Path Surroundings IsTypeScriptName allExtensions compiledExtensions)
open TypeScript (Pipeline Compilation Rejection)
open TypeScript.Compilation (Chained settled)
open TypeScript.Project (Kept Extending ReadsConfigurations LooksUp SameConfigurations)
open TypeScript.Options (Layered)
open TypeScript.Pipeline (Transpiles Checks)

/-! ## Sessions -/

theorem greet_session {site : Site} {settings : Value} {w : Worker} {session : Session}
    (h : (greet site settings w).2.phase = .ready session) :
    ∃ compiler, session =
      sessionOf w.here settings (givenDirectory w.here settings) compiler := by
  obtain ⟨-, hended | ⟨compiler, -, hready | hfailed⟩⟩ := greet_follows site settings w
  · obtain ⟨code, hc⟩ := ended_of_exitCode hended
    rw [hc] at h
    cases h
  · rw [hready] at h
    cases h
    exact ⟨compiler, rfl⟩
  · rw [hfailed] at h
    cases h

variable {site : Site} {here : Location} {settings : Text} {value : Value} {session : Session}
  {line : Text} {w : Worker}

theorem started_session (hparse : Json.Strict.parse settings = .ok value)
    (h : (started site here settings).phase = .ready session) :
    ∃ compiler, session = sessionOf here value (givenDirectory here value) compiler := by
  have hwaiting : (start site.script here).phase = .waiting := rfl
  unfold started readLine at h
  cases hb : settings.isBlank with
  | true =>
    simp only [hb, if_true] at h
    cases h
  | false =>
    cases ho : isObject value with
    | false =>
      simp only [hb, hparse, ho, hwaiting, Bool.false_eq_true, if_false] at h
      cases h
    | true =>
      simp only [hb, hparse, ho, hwaiting, Bool.false_eq_true, if_false, if_true] at h
      exact greet_session h

/-! ## Origins of sources -/

def requested? (ts : TypeScript) (session : Session) (line : Text) (w : Worker) :
    Option (Text × Text) :=
  if line.isBlank then none
  else (Json.Strict.parse line).toOption.bind fun request =>
    (requestFile? w session.directory request).map fun file => (file, sourceOf ts request)

/-- Where a source that is compiled comes from: it is that of the request, or the text of a
TypeScript file whose module was just begun. -/
inductive Origin (t : FileTree) (package : Text) (request : Option (Text × Text))
    (before : List Event) (file source : Text) : Prop
  | request (hfirst : before = []) (h : request = some (file, source))
  | module (hbegan : ∃ earlier, before = earlier ++ [.began file])
      (hname : IsTypeScriptName (Path.name file)) (hpackage : file ≠ package)
      (h : t.text? file = some source)

theorem sourceOf?_surroundings {ts : TypeScript} {p : Pipeline} {file source : Text} :
    Modules.sourceOf? (surroundings site ts p) file = some source ↔
      IsTypeScriptName (Path.name file) ∧ file ≠ site.package ∧
        site.tree.text? file = some source := by
  have hext : (surroundings site ts p).extensions = allExtensions :=
    History.surroundings_extensions site ts p
  have hcompiles : (surroundings site ts p).compiles file = true ↔
      IsTypeScriptName (Path.name file) := by
    rw [← Modules.extensionOf_compiled, ← hext]
    simp [Surroundings.compiles, surroundings]
  have hpackage : (file != (surroundings site ts p).package) = true ↔ file ≠ site.package :=
    bne_iff_ne
  have htree : (surroundings site ts p).tree = site.tree := rfl
  unfold Modules.sourceOf?
  rw [htree, ← hcompiles, ← hpackage, ← and_assoc, ← Bool.and_eq_true]
  split
  · next h => simp [h]
  · next h => simp [h]

theorem errand_requested (hw : w.phase = .ready session) : errand? site line w =
    (requested? (site.compiler w.here) session line w).map fun r =>
      ⟨surroundings site (site.compiler w.here) session.pipeline, session.pipeline, r.1, r.2⟩ := by
  unfold errand? requested? errandOf?
  rw [hw]
  split
  · rfl
  · cases Json.Strict.parse line with
    | error e => rfl
    | ok request =>
      simp only [Except.toOption, Option.bind_some]
      rw [Option.map_map]
      rfl

theorem line_path (site : Site) (hw : w.phase = .ready session) {file source : Text}
    (hr : requested? (site.compiler w.here) session line w = some (file, source)) : ∃ rest y,
      lineEvents site line w = .compiled file source w.state.projects :: rest ∧ y.due = none ∧
      Path (surroundings site (site.compiler w.here) session.pipeline)
        (learning session.pipeline site.tree)
        { Modules.standing [] w.state with
          kept := learning session.pipeline site.tree file source w.state.projects } rest y := by
  obtain ⟨rest, hrest, hpath⟩ := errand_path site.script
    (e := ⟨surroundings site (site.compiler w.here) session.pipeline, session.pipeline, file,
      source⟩)
    (surroundings_learns site _ _) w.state
  refine ⟨rest, _, ?_, rfl, hpath⟩
  have hset : w.hasSettings = true := Serves.hasSettings (.inl hw)
  rw [lineEvents, hset, if_pos rfl, errand_requested hw, hr]
  exact hrest

theorem line_silent (hs : Serves session w)
    (h : w.phase = .ready session → requested? (site.compiler w.here) session line w = none) :
    lineEvents site line w = [] := by
  rw [lineEvents, hs.hasSettings, if_pos rfl]
  rcases hs with hw | hw
  · rw [errand_requested hw, h hw]
    rfl
  · rw [errand_ended hw]

theorem line_origin (hs : Serves session w) {before after : List Event} {file source : Text}
    {kept : Kept} (h : lineEvents site line w = before ++ .compiled file source kept :: after) :
    Origin site.tree site.package (requested? (site.compiler w.here) session line w) before file
      source := by
  by_cases hr : w.phase = .ready session → requested? (site.compiler w.here) session line w = none
  · rw [line_silent hs hr] at h
    simp at h
  · rw [Classical.not_imp] at hr
    obtain ⟨hw, hr⟩ := hr
    obtain ⟨⟨f, s⟩, hr⟩ := Option.ne_none_iff_exists'.mp hr
    obtain ⟨rest, y, hrest, -, hpath⟩ := line_path site hw hr
    rw [hrest] at h
    cases before with
    | nil =>
      cases h
      exact .request rfl hr
    | cons e before =>
      rw [List.cons_append, List.cons.injEq] at h
      obtain ⟨rfl, rfl⟩ := h
      obtain ⟨⟨earlier, rfl⟩, hsource⟩ := hpath.compiled rfl
      obtain ⟨h1, h2, h3⟩ := sourceOf?_surroundings.mp hsource
      exact .module ⟨_ :: earlier, rfl⟩ h1 h2 h3

theorem line_compiles (hs : Serves session w) {before after : List Event} {file source : Text}
    (h : lineEvents site line w = before ++ .began file :: after)
    (hname : IsTypeScriptName (Path.name file)) (hpackage : file ≠ site.package)
    (htext : site.tree.text? file = some source) :
    ∃ kept rest, after = .compiled file source kept :: rest := by
  by_cases hr : w.phase = .ready session → requested? (site.compiler w.here) session line w = none
  · rw [line_silent hs hr] at h
    simp at h
  · rw [Classical.not_imp] at hr
    obtain ⟨hw, hr⟩ := hr
    obtain ⟨⟨f, s⟩, hr⟩ := Option.ne_none_iff_exists'.mp hr
    obtain ⟨rest, y, hrest, hdue, hpath⟩ := line_path site hw hr
    rw [hrest] at h
    cases before with
    | nil => cases h
    | cons e before =>
      rw [List.cons_append, List.cons.injEq] at h
      obtain ⟨rfl, rfl⟩ := h
      exact hpath.compiles hdue (sourceOf?_surroundings.mpr ⟨hname, hpackage, htext⟩)

/-! ## One way -/

/-- The options of settings as a compiler takes them; what counts as false stands for none. -/
def convertedOptions (settings : Value) (ts : TypeScript) (here : Location) :
    Except Script.Failure Entries :=
  let given := (field? settings "compiler_options").getD .null
  ts.convertOptions (if (Script.Item.ofValue given).truthy then given else .mapping [])
    (givenDirectory here settings)

/-- What a source is compiled to with the options of a project and settings: there is an error where
one of them has no options, and otherwise one mode with options by layers. -/
def CompiledBy (settings : Value) (ts : TypeScript) (here : Location) (a : Compilation)
    (project : Except Script.Failure Entries) (r : Except Rejection Script.Code) : Prop :=
  match convertedOptions settings ts here, project with
  | .error f, _ | .ok _, .error f => r = .error (.failed f)
  | .ok given, .ok project => ∃ options, Layered ts project given options ∧
    if (fieldItem settings "type_check").truthy then
      Checks ts (Pipeline.host a.tree here a.file a.source) a.file a.source options r
    else Transpiles ts a.file a.source options r

theorem compileFrom_compiledBy {p : Pipeline} {ts : TypeScript} {settings : Value}
    (hcheck : p.typeCheck = (fieldItem settings "type_check").truthy)
    (hoptions : p.converted ts = convertedOptions settings ts p.here) (a : Compilation)
    (project : Except Script.Failure Entries) :
    CompiledBy settings ts p.here a project (p.compileFrom ts a.tree a.file a.source project) := by
  unfold CompiledBy Pipeline.compileFrom
  rw [hoptions]
  cases convertedOptions settings ts p.here with
  | error f => exact rfl
  | ok given =>
    cases project with
    | error f => exact rfl
    | ok project =>
      refine ⟨_, TypeScript.Options.effective_layered ts project given, ?_⟩
      have hmode := p.compileWith_mode ts a.tree a.file a.source
        (TypeScript.Options.effective ts project given)
      rwa [hcheck] at hmode

theorem serves_visits (h : Serves session w) (visits : List Visit) :
    Serves session (visits.foldl (visit site) w) := by
  induction visits generalizing w with
  | nil => exact h
  | cons v visits ih => exact ih (h.readLine _ v.line)

theorem visits_here (h : Serves session w) (visits : List Visit) :
    (visits.foldl (visit site) w).here = w.here := by
  induction visits generalizing w with
  | nil => rfl
  | cons v visits ih =>
    refine (ih (h.readLine (site.showing v.tree) v.line)).trans ?_
    rcases h with h | h
    · exact (readLine_state (site.showing v.tree) h v.line).1.here
    · exact congrArg Worker.here (visit_ended h)

theorem history_chained {x : History} (h : x.first.phase = .ready session) (t : FileTree)
    (line : Text) : ∃ k, Chained session.pipeline []
      (compilations x.site x.first x.visits ++
        compilationsOf t (lineEvents (x.site.showing t) line x.aged)) k := by
  have hvisits := compilations_chained x.site (Or.inl h) x.visits
  have hnone : x.first.state.projects = [] := started_projects h
  rw [hnone] at hvisits
  exact ⟨_, hvisits.append
    (line_chained (serves_visits (Or.inl h) x.visits) (x.site.showing t) line)⟩

theorem compilationsOf_split (t : FileTree) (before after : List Event) (file source : Text)
    (kept : Kept) : compilationsOf t (before ++ .compiled file source kept :: after) =
      compilationsOf t before ++ ⟨t, file, source, kept⟩ :: compilationsOf t after := by
  simp [compilationsOf]

theorem compilationsOf_tree {t : FileTree} {es : List Event} {b : Compilation}
    (h : b ∈ compilationsOf t es) : b.tree = t := by
  obtain ⟨e, -, he⟩ := List.mem_filterMap.mp h
  split at he
  · cases he
    rfl
  · cases he

theorem compilations_tree {visits : List Visit} {b : Compilation}
    (h : b ∈ compilations site w visits) : ∃ v ∈ visits, b.tree = v.tree := by
  induction visits generalizing w with
  | nil => cases h
  | cons v visits ih =>
    rcases List.mem_append.mp h with h | h
    · exact ⟨v, List.mem_cons_self .., compilationsOf_tree h⟩
    · obtain ⟨u, hu, he⟩ := ih h
      exact ⟨u, List.mem_cons_of_mem _ hu, he⟩

def typed : FileTree :=
  (((sampleTree (exporting 1)).put ["w", "d"] .directory).put ["w", "d", "b.ts"]
    (.file (Text.Utf8.encode "[]"))).put ["w", "d", "tsconfig.json"]
      (.file (Text.Utf8.encode (giving 2)))

def checking : History :=
  { sample with
    settings := "\x7b\"typescript\":\"typescript\",\"type_check\":true," ++
      ("\"compiler_options\":\x7b\"b\":3\x7d\x7d" : Text)
    visits := [] }

def askingTyped : Text :=
  "\x7b\"path\":\"a.ts\",\"source\":\"" ++
    ("[\x7b\\\"do\\\":\\\"require\\\",\\\"id\\\":\\\"./d/b\\\",\\\"as\\\":\\\"r\\\"\x7d]" : Text) ++
    "\"\x7d"

def dependency : Text := "/w/d/b.ts"

theorem exists_of_isOk {ε α : Type} {r : Except ε α} (h : r.toOption.isSome = true) :
    ∃ a, r = .ok a := by
  cases r with
  | ok a => exact ⟨a, rfl⟩
  | error e => cases h

def begun? : Event → Option Text
  | .began file => some file
  | _ => none

theorem began_of_begun? {e : Event} {file : Text} (h : begun? e = some file) :
    e = .began file := by
  cases e with
  | began f => rw [Option.some.inj h]
  | _ => cases h

end ConfigLoader.Worker
