import ConfigLoader.Proofs.Modules.Completion
import ConfigLoader.Proofs.Worker.History

/-! # The journal of a worker

What each line makes a worker do with modules and sources: a line of settings loads a package, and
the line of a request compiles a source and evaluates it. The journal of a life has the events of
each line, in the files that the line is read with.
-/
namespace ConfigLoader.Worker
open Modules (State Stop Event Course Path Learns Surroundings standing completed)
open TypeScript (Pipeline)
open TypeScript.Project (Kept)
open Script (Item Failure)

/-! ## Errands -/

/-- A source that a line gives to compile and to evaluate. -/
structure Errand where
  around : Surroundings
  pipeline : Pipeline
  file : Text
  source : Text

def errandOf? (site : Site) (c : Surroundings) (session : Session) (request : Value) (w : Worker) :
    Option Errand :=
  (requestFile? w session.directory request).map fun file =>
    ⟨c, session.pipeline, file, sourceOf (site.compiler w.here) request⟩

def errand? (site : Site) (line : Text) (w : Worker) : Option Errand :=
  if line.isBlank then none
  else match w.phase, Json.Strict.parse line with
    | .ready session, .ok request =>
      errandOf? site (surroundings site (site.compiler w.here) session.pipeline) session request w
    | .failed session, .ok request =>
      errandOf? site (plainSurroundings site (site.compiler w.here)) session request w
    | _, _ => none

namespace Errand

def run (e : Errand) (script : Text) (s : State) : Except Stop Item × State :=
  (execute e.around e.pipeline script e.file e.source).run.run s

def events (e : Errand) (script : Text) : Course :=
  Course.andThen (fun s => [.compiled e.file e.source s.projects])
    (compile e.pipeline e.around.tree e.file e.source)
    fun code => Modules.entryEvents e.around script e.file code

end Errand

def executed (site : Site) (line : Text) (w : Worker) : State :=
  match errand? site line w with
  | some e => (e.run site.script w.state).2
  | none => w.state

def hasSettings (w : Worker) : Bool :=
  match w.phase with
  | .waiting => false
  | _ => true

/-! ## Lines -/

def packageEvents (c : Surroundings) (settings directory : Value) : Course :=
  Modules.silent.andThen (Modules.lift (anchor directory)) fun file =>
    Modules.requireEvents c c.engine.calls [file] (field? settings "typescript")

def greetingEvents (site : Site) (line : Text) (w : Worker) : List Event :=
  match Json.Strict.parse line with
  | .ok settings =>
    if isObject settings && !line.isBlank then
      packageEvents (plainSurroundings site (site.compiler w.here)) settings
        (givenDirectory w.here settings) w.state
    else []
  | .error _ => []

def lineEvents (site : Site) (line : Text) (w : Worker) : List Event :=
  if w.hasSettings then
    match errand? site line w with
    | some e => e.events site.script w.state
    | none => []
  else greetingEvents site line w

def journal (site : Site) : Worker → List Visit → List (List Event)
  | _, [] => []
  | w, v :: vs =>
    lineEvents (site.showing v.tree) v.line w :: journal site (visit site w v) vs

/-! ## The worker after a line -/

variable {site : Site} {line : Text} {w : Worker}

theorem handle_follows (site : Site) (c : Surroundings) (session : Session) (request : Value)
    (w : Worker) : Follows w (handle site c session request w).2 := by
  unfold handle
  cases requestFile? w session.directory request with
  | none => exact ⟨rfl, .inr rfl⟩
  | some file =>
    dsimp only
    split
    · exact ⟨rfl, .inl rfl⟩
    · exact ⟨rfl, .inr rfl⟩

/-- Settings give a worker a session, whether or not the package could be loaded, or end it. The
only compiler that it can have is that of the site. -/
theorem greet_follows (site : Site) (settings : Value) (w : Worker) :
    (greet site settings w).2.here = w.here ∧
    ((greet site settings w).2.exitCode?.isSome = true ∨
      ∃ compiler, (∀ ts, compiler = .ok ts → ts = site.compiler w.here) ∧
        ((greet site settings w).2.phase =
          .ready (sessionOf w.here settings (givenDirectory w.here settings) compiler) ∨
        (greet site settings w).2.phase =
          .failed (sessionOf w.here settings (givenDirectory w.here settings) compiler))) := by
  unfold greet
  dsimp only
  rcases runLoad (plainSurroundings site (site.compiler w.here)) settings
    (givenDirectory w.here settings) w.state with ⟨r, s⟩
  cases r with
  | error e =>
    cases e with
    | exited code => exact ⟨rfl, .inl rfl⟩
    | found es => exact ⟨rfl, .inl rfl⟩
    | raised v =>
      dsimp only
      cases refusal site.engine s settings v with
      | none => exact ⟨rfl, .inl rfl⟩
      | some frame => exact ⟨rfl, .inr ⟨.error noCompiler, nofun, .inr rfl⟩⟩
  | ok exported =>
    dsimp only
    cases readyFrame site.engine s exported with
    | none => exact ⟨rfl, .inl rfl⟩
    | some frame =>
      refine ⟨rfl, .inr ⟨_, fun ts hts => ?_, .inl rfl⟩⟩
      split at hts
      · cases hts
        rfl
      · cases hts

/-- A line leaves a worker as it was, ends it, or gives it a session if it had no settings. -/
theorem readLine_follows (site : Site) (line : Text) (w : Worker) :
    Follows w (w.readLine site line).2 ∨
      (w.phase = .waiting ∧ ∃ settings, w.readLine site line = greet site settings w) := by
  unfold readLine
  split
  · exact .inl ⟨rfl, .inl rfl⟩
  · cases hp : w.phase with
    | ended code => exact .inl ⟨rfl, .inl rfl⟩
    | ready session =>
      cases Json.Strict.parse line with
      | error e => exact .inl ⟨rfl, .inr rfl⟩
      | ok request => exact .inl (handle_follows ..)
    | failed session =>
      cases Json.Strict.parse line with
      | error e => exact .inl ⟨rfl, .inr rfl⟩
      | ok request => exact .inl (handle_follows ..)
    | waiting =>
      cases Json.Strict.parse line with
      | error e => exact .inl ⟨rfl, .inr rfl⟩
      | ok settings =>
        dsimp only
        split
        · exact .inr ⟨rfl, settings, rfl⟩
        · exact .inl ⟨rfl, .inr rfl⟩

theorem handle_state (site : Site) (c : Surroundings) (session : Session) (request : Value)
    (w : Worker) : ∃ notes, (handle site c session request w).2.state =
      { (match errandOf? site c session request w with
          | some e =>
            Modules.sweep w.state (Modules.forgetNew w.state (e.run site.script w.state).2)
          | none => w.state) with notes := notes } := by
  unfold handle errandOf?
  cases hf : requestFile? w session.directory request with
  | none => exact ⟨_, rfl⟩
  | some file =>
    have hs := evaluate_state c session.pipeline site.script file
      (sourceOf (site.compiler w.here) request) w.state
    dsimp only [Option.map_some, Errand.run]
    rcases he : evaluate c session.pipeline site.script file
      (sourceOf (site.compiler w.here) request) w.state with ⟨r, t⟩
    rw [he] at hs
    dsimp only at hs ⊢
    rw [← hs]
    split <;> exact ⟨_, rfl⟩

/-- A line leaves the state as it was, or what the evaluation that it asks for leaves, without
modules that are new and places that are given back. -/
theorem readLine_errand (site : Site) (line : Text) (hw : w.hasSettings = true) :
    ∃ notes, (w.readLine site line).2.state =
    { (match errand? site line w with
        | some e => Modules.sweep w.state (Modules.forgetNew w.state (e.run site.script w.state).2)
        | none => w.state) with notes := notes } := by
  unfold readLine errand?
  by_cases hb : line.isBlank = true
  · simp only [hb, if_true]
    exact ⟨_, rfl⟩
  · simp only [hb, Bool.false_eq_true, if_false]
    unfold hasSettings at hw
    cases hp : w.phase with
    | waiting =>
      rw [hp] at hw
      cases hw
    | ended code => exact ⟨_, rfl⟩
    | ready session =>
      cases Json.Strict.parse line with
      | error e => exact ⟨_, rfl⟩
      | ok request => exact handle_state site _ session request w
    | failed session =>
      cases Json.Strict.parse line with
      | error e => exact ⟨_, rfl⟩
      | ok request => exact handle_state site _ session request w

theorem readLine_greeting (site : Site) (line : Text) (hw : w.hasSettings = false) :
    (∃ notes, (w.readLine site line).2.state = { w.state with notes := notes } ∧
      greetingEvents site line w = []) ∨
    ∃ settings notes, (w.readLine site line).2.state =
        { (runLoad (plainSurroundings site (site.compiler w.here)) settings
            (givenDirectory w.here settings) w.state).2 with notes := notes } ∧
      greetingEvents site line w =
        packageEvents (plainSurroundings site (site.compiler w.here)) settings
          (givenDirectory w.here settings) w.state := by
  have hphase : w.phase = .waiting := by
    unfold hasSettings at hw
    split at hw
    · assumption
    · cases hw
  unfold readLine greetingEvents
  cases hb : line.isBlank with
  | true =>
    left
    refine ⟨w.state.notes, rfl, ?_⟩
    cases Json.Strict.parse line <;> simp
  | false =>
    rw [hphase]
    cases Json.Strict.parse line with
    | error e => exact .inl ⟨_, rfl, rfl⟩
    | ok settings =>
      cases ho : isObject settings with
      | false =>
        left
        simp only [ho, Bool.false_eq_true, if_false, Bool.false_and]
        exact ⟨_, rfl, trivial⟩
      | true =>
        right
        refine ⟨settings, ?_⟩
        simp only [Bool.false_eq_true, if_false, if_true, Bool.not_false, Bool.and_self, and_true,
          ho]
        unfold greet
        dsimp only
        rcases runLoad (plainSurroundings site (site.compiler w.here)) settings
          (givenDirectory w.here settings) w.state with ⟨r, s⟩
        cases r with
        | error e =>
          cases e with
          | exited code => exact ⟨_, rfl⟩
          | found es => exact ⟨_, rfl⟩
          | raised v =>
            dsimp only
            cases refusal site.engine s settings v <;> exact ⟨_, rfl⟩
        | ok exported =>
          dsimp only
          cases readyFrame site.engine s exported <;> exact ⟨_, rfl⟩

/-! ## Lines as paths -/

def learning (p : Pipeline) (t : FileTree) : Text → Text → Kept → Kept :=
  fun file source k => (p.compile t file source k).2

theorem surroundings_learns (site : Site) (ts : TypeScript) (p : Pipeline) :
    Learns (surroundings site ts p) (learning p site.tree) := by
  intro f hf file source s
  cases hf
  rw [compile_run]
  rfl

theorem plainSurroundings_learns (site : Site) (ts : TypeScript)
    (learn : Text → Text → Kept → Kept) : Learns (plainSurroundings site ts) learn := by
  intro f hf
  cases hf

theorem errand_around {e : Errand} (h : errand? site line w = some e) :
    e.around.engine = site.engine ∧ e.around.tree = site.tree ∧
      Learns e.around (learning e.pipeline site.tree) := by
  unfold errand? at h
  split at h
  · cases h
  · split at h
    · obtain ⟨file, -, rfl⟩ := Option.map_eq_some_iff.mp h
      exact ⟨rfl, rfl, surroundings_learns site _ _⟩
    · obtain ⟨file, -, rfl⟩ := Option.map_eq_some_iff.mp h
      exact ⟨rfl, rfl, plainSurroundings_learns site _ _⟩
    · cases h

theorem errand_path (script : Text) {e : Errand}
    (hl : Learns e.around (learning e.pipeline e.around.tree)) (s : State) :
    ∃ rest, e.events script s = .compiled e.file e.source s.projects :: rest ∧
      Path e.around (learning e.pipeline e.around.tree)
        { standing [] s with kept := learning e.pipeline e.around.tree e.file e.source s.projects }
        rest (standing [] (e.run script s).2) := by
  simp only [Errand.events, Errand.run, Course.andThen, execute]
  rw [Modules.run_bind, compile_run]
  dsimp only
  cases stopOf (e.pipeline.compile e.around.tree e.file e.source s.projects).1 with
  | error err => exact ⟨[], rfl, .nil _⟩
  | ok code =>
    exact ⟨_, rfl, Modules.entry_tells hl script e.file code
      { s with projects := learning e.pipeline e.around.tree e.file e.source s.projects } []⟩

theorem package_path (c : Surroundings) (learn : Text → Text → Kept → Kept) (hl : Learns c learn)
    (settings directory : Value) (s : State) :
    Path c learn (standing [] s) (packageEvents c settings directory s)
      (standing [] (runLoad c settings directory s).2) :=
  ((Modules.Tells.silent (.lift (anchor directory))).andThen fun _ =>
    Modules.require_tells hl _ _ _) s []

end ConfigLoader.Worker
