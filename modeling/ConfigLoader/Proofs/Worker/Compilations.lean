import ConfigLoader.Proofs.TypeScript.Coherence
import ConfigLoader.Proofs.Worker.Eviction

/-! # The compilations of a worker

All sources that a worker compiles, while files change, are one chain of compilations: what is kept
of projects after one of them is what the next one finds, in the same request or in a later one.
-/
namespace ConfigLoader.Worker
open Modules (Event Path Standing Surroundings)
open TypeScript (Pipeline Compilation)
open TypeScript.Compilation (Chained firstFound? settled)
open TypeScript.Project (Kept Extending ReadsConfigurations LooksUp SameProjects SameConfigurations)

def compilationsOf (tree : FileTree) (es : List Event) : List Compilation :=
  es.filterMap fun
    | .compiled file source kept => some ⟨tree, file, source, kept⟩
    | _ => none

def compilations (site : Site) : Worker → List Visit → List Compilation
  | _, [] => []
  | w, v :: vs =>
    compilationsOf v.tree (lineEvents (site.showing v.tree) v.line w) ++
      compilations site (visit site w v) vs

variable {site : Site} {line : Text} {w : Worker} {session : Session} {p : Pipeline}

theorem path_chained {c : Surroundings} {tree : FileTree} {x y : Standing} {es : List Event}
    (h : Path c (learning p tree) x es y) : Chained p x.kept (compilationsOf tree es) y.kept := by
  induction h with
  | nil x => exact rfl
  | cons step rest ih =>
    cases step with
    | compiled hdue hfile => exact ⟨rfl, ih⟩
    | asked parent request hdue => exact ih
    | reused hdue hfile => exact ih
    | began hdue hfile => exact ih
    | opened file hdue => exact ih
    | completed hdue hfile => exact ih
    | stopped hdue hfile => exact ih

theorem errand_pipeline {e : Errand} (hw : w.phase = .ready session)
    (he : errand? site line w = some e) : e.pipeline = session.pipeline := by
  unfold errand? at he
  split at he
  · cases he
  · rw [hw] at he
    cases hp : Json.Strict.parse line with
    | error f =>
      rw [hp] at he
      cases he
    | ok request =>
      rw [hp] at he
      obtain ⟨file, -, rfl⟩ := Option.map_eq_some_iff.mp he
      rfl

theorem errand_ended (hw : w.exitCode?.isSome = true) : errand? site line w = none := by
  obtain ⟨code, hc⟩ := ended_of_exitCode hw
  unfold errand?
  rw [hc]
  split <;> rfl

/-- A worker that was ready with a session, and may have ended. -/
def Serves (session : Session) (w : Worker) : Prop :=
  w.phase = .ready session ∨ w.exitCode?.isSome = true

theorem Serves.hasSettings (h : Serves session w) : w.hasSettings = true := by
  rcases h with h | h
  · simp only [Worker.hasSettings, h]
  · obtain ⟨code, hc⟩ := ended_of_exitCode h
    simp only [Worker.hasSettings, hc]

theorem Serves.readLine (h : Serves session w) (site : Site) (line : Text) :
    Serves session (w.readLine site line).2 := by
  rcases h with h | h
  · rcases (readLine_state site h line).1.phase with hp | hp
    · exact .inl (hp.trans h)
    · exact .inr hp
  · obtain ⟨code, hc⟩ := ended_of_exitCode h
    rw [readLine_ended hc]
    exact .inr h

theorem line_chained (h : Serves session w) (site : Site) (line : Text) :
    Chained session.pipeline w.state.projects
      (compilationsOf site.tree (lineEvents site line w))
      (w.readLine site line).2.state.projects := by
  obtain ⟨notes, hs⟩ := readLine_errand site line h.hasSettings
  rw [lineEvents, h.hasSettings, if_pos rfl, hs]
  cases he : errand? site line w with
  | none => exact rfl
  | some e =>
    have hp : e.pipeline = session.pipeline := by
      rcases h with h | h
      · exact errand_pipeline h he
      · rw [errand_ended h] at he
        cases he
    obtain ⟨-, htree, hl⟩ := errand_around he
    obtain ⟨rest, hrest, hpath⟩ := errand_path site.script (htree ▸ hl) w.state
    rw [htree, hp] at hpath
    dsimp only
    rw [hrest, (Modules.sweep_frame _ _).2.2.2]
    exact ⟨rfl, path_chained hpath⟩

theorem compilations_chained (site : Site) (h : Serves session w) (visits : List Visit) :
    Chained session.pipeline w.state.projects (compilations site w visits)
      (visits.foldl (visit site) w).state.projects := by
  induction visits generalizing w with
  | nil => exact rfl
  | cons v visits ih =>
    exact (line_chained h (site.showing v.tree) v.line).append (ih (h.readLine _ v.line))

theorem started_projects {here : Location} {settings : Text}
    (h : (started site here settings).phase = .ready session) :
    (started site here settings).state.projects = [] :=
  (started_remembers h (P := fun _ => True) (answered_same _) trivial).1

def configured (text : Text) : FileTree :=
  (sampleTree (exporting 1)).put ["w", "tsconfig.json"] (.file (Text.Utf8.encode text))

def giving (n : Nat) : Text :=
  "\x7b\"compilerOptions\":\x7b\"a\":" ++ Text.ofNat n ++ "\x7d\x7d"

/-- Three requests, with a configuration that cannot be used at first and written over then. -/
def threeConfigured : List Visit :=
  [⟨configured "null", asking⟩, ⟨configured (giving 1), asking⟩, ⟨configured (giving 2), asking⟩]

def optionOf (r : Except Script.Failure Entries) : Option Int :=
  r.toOption.bind fun es => (Entries.getText? es "a").bind Value.wholeNumber?

theorem ready_of_hasCompiler {w : Worker} (h : (match w.phase with
      | .ready session => session.pipeline.compiler.toOption.isSome
      | _ => false) = true) :
    ∃ session ts, w.phase = .ready session ∧ session.pipeline.compiler = .ok ts := by
  cases hp : w.phase with
  | ready session =>
    rw [hp] at h
    cases hc : session.pipeline.compiler with
    | ok ts => exact ⟨session, ts, rfl, hc⟩
    | error f =>
      simp only [hc] at h
      cases h
  | _ =>
    rw [hp] at h
    cases h

end ConfigLoader.Worker
