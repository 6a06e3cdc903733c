import ConfigLoader.Proofs.Worker.Answers
import ConfigLoader.Proofs.Worker.Requests

/-! # Ready workers

A ready worker answers every request by what the evaluation of its source comes to, and stays ready
unless the evaluation ends it.
-/
namespace ConfigLoader.Worker
open Json.Canonical (levels load_line_cases)
open Modules (State Stop)
open TypeScript (Pipeline)
open Script (Item)

/-- What a ready worker keeps to from request to request. -/
structure Desk where
  here : Location
  directory : Text
  pipeline : Pipeline

namespace Desk
variable (x : Desk) (site : Site)

def session : Session := ⟨.text x.directory, x.pipeline⟩

def worker (s : State) : Worker := ⟨x.here, .ready x.session, s, []⟩

def file (path : Text) : Text :=
  if Path.isAbsolute path then (Path.toLocation path).text
  else (Path.resolve (Path.resolve x.here x.directory) path).text

abbrev compiler : TypeScript := site.compiler x.here

def evaluate (path source : Text) (s : State) : Except Stop Value × State :=
  Worker.evaluate (surroundings site (x.compiler site) x.pipeline) x.pipeline site.script
    (x.file path) source s

/-- The answer to a request by how its evaluation ended, if it has one. -/
def answer? (id : Option Value) (t : State) (r : Except Stop Value) : Option Value :=
  Worker.answer? site.engine (x.compiler site) t (.text x.directory) id r

/-- Whether the evaluation of a request ends the worker. -/
def ends (id : Option Value) (t : State) (r : Except Stop Value) : Bool :=
  endsWorker site.engine (x.compiler site) x.directory id t r

/-- What a call ends with when the evaluation of its request does; `room` is how many levels can be
read. -/
def outcome (room : Nat) (id : Option Value) (t : State) (r : Except Stop Value) :
    Except Fault Value :=
  Worker.outcome site.engine (x.compiler site) x.directory id t room r

end Desk

/-! ## Requests -/

/-- A request gives the path of its source. -/
def HasPath (request : Value) (path : Text) : Prop :=
  (field? request "path").bind Value.text? = some path

theorem requestFile_path (x : Desk) (s : State) {request : Value} {path : Text}
    (hp : HasPath request path) :
    requestFile? (x.worker s) (.text x.directory) request = some (x.file path) := by
  have hd : (Value.text x.directory).text? = some x.directory := rfl
  rw [HasPath] at hp
  simp only [requestFile?, hp, hd, Desk.file, bind, Option.bind_some, pure]
  by_cases ha : Path.isAbsolute path = true
  · simp only [ha, if_true]
  · simp only [ha, Bool.false_eq_true, if_false]
    rfl

theorem handle_reply (x : Desk) (site : Site) (s : State) {request : Value} {path : Text}
    (hp : HasPath request path) {r : Except Stop Value} {t : State}
    (he : x.evaluate site path (sourceOf (x.compiler site) request) s = (r, t)) :
    (x.ends site (field? request "id") t r = false ∧
      ∃ d, x.answer? site (field? request "id") t r = some d ∧ levels d ≤ site.engine.frames ∧
      handle site (surroundings site (x.compiler site) x.pipeline) x.session request
        (x.worker s) = ([frameLine d], x.worker (Modules.sweep s t))) ∨
    (x.ends site (field? request "id") t r = true ∧ ∃ w,
      handle site (surroundings site (x.compiler site) x.pipeline) x.session request
        (x.worker s) = ([], w) ∧
      w.phase = .ended (endCode r) ∧ w.pending = []) := by
  have heval : Worker.evaluate (surroundings site (x.compiler site) x.pipeline) x.pipeline
      site.script (x.file path) (sourceOf (x.compiler site) request) (x.worker s).state = (r, t) := he
  have hdir : x.session.directory = .text x.directory := rfl
  have hpipe : x.session.pipeline = x.pipeline := rfl
  have hengine : (surroundings site (x.compiler site) x.pipeline).engine = site.engine := rfl
  have hhere : (x.worker s).here = x.here := rfl
  unfold handle
  rw [hdir, requestFile_path x s hp]
  simp only [hpipe, hhere, heval, hengine]
  cases ha : (Worker.answer? site.engine (x.compiler site) t (.text x.directory)
      (field? request "id") r).bind (frame? site.engine) with
  | none =>
    refine .inr ⟨?_, _, rfl, rfl, rfl⟩
    rw [Desk.ends, endsWorker, ha, Option.isNone_none]
  | some frame =>
    obtain ⟨d, hd, hl, rfl⟩ := answered_some ha
    refine .inl ⟨?_, d, hd, hl, rfl⟩
    rw [Desk.ends, endsWorker, ha, Option.isNone_some]

def requestOf (x : Binary64) (path source : Text) : Value :=
  .mapping [("id", .float x), ("path", .text path), ("source", .text source)]

/-- A caller makes of a frame what the evaluation of its request came to. -/
theorem outcome_answered (x : Desk) (site : Site) (room : Nat) {id : Value} {t : State}
    {r : Except Stop Value} {d : Value} (hd : x.answer? site (some id) t r = some d)
    (hl : levels d ≤ site.engine.frames) :
    Loader.answer ((Json.load room (frameLine d)).bind replied) =
      x.outcome site room (some id) t r := by
  obtain ⟨hread, hload⟩ | ⟨hdeep, f, hload, hf⟩ := load_line_cases room d
  · have hload : Json.load room (frameLine d) = .ok _ := hload
    rw [hload, Desk.outcome, outcome_read hd hl hread]
    exact read_answer hd
  · have hload : Json.load room (frameLine d) = .error f := hload
    have hordinary : f.isOrdinary = true := by
      rw [Fault.isOrdinary, hf]
      rfl
    simp only [Desk.outcome, Worker.outcome]
    rw [show Worker.answer? _ _ _ _ _ _ = some d from hd]
    simp only [Option.bind_some, frame?, hl, if_true, hload, Except.bind, Loader.answer_error,
      Fault.reported, hordinary]

theorem handle_request (x : Desk) (site : Site) (room : Nat) (s : State) (n : Binary64)
    (path source : Text) {r : Except Stop Value} {t : State}
    (he : x.evaluate site path source s = (r, t)) :
    (x.ends site (some (.float n)) t r = false ∧ ∃ d,
      handle site (surroundings site (x.compiler site) x.pipeline) x.session
        (requestOf n path source) (x.worker s) =
          ([frameLine d], x.worker (Modules.sweep s t)) ∧
      Loader.answer ((Json.load room (frameLine d)).bind replied) =
        x.outcome site room (some (.float n)) t r) ∨
    x.ends site (some (.float n)) t r = true ∧ ∃ w code,
      handle site (surroundings site (x.compiler site) x.pipeline) x.session
        (requestOf n path source) (x.worker s) = ([], w) ∧
      w.phase = .ended code ∧ w.pending = [] ∧
      x.outcome site room (some (.float n)) t r =
        .error (Compiler.exitedUnexpectedly (Text.ofInt code)).wrap := by
  have hp : HasPath (requestOf n path source) path := rfl
  rcases handle_reply x site s hp he with ⟨hends, d, hd, hl, hh⟩ | ⟨hends, w, hh, hphase, hpending⟩
  · exact .inl ⟨hends, d, hh, outcome_answered x site room hd hl⟩
  · exact .inr ⟨hends, w, endCode r, hh, hphase, hpending, outcome_ended hends⟩

end ConfigLoader.Worker
