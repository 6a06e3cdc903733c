import ConfigLoader.Proofs.Worker.Frames
import ConfigLoader.Proofs.Worker.Greeting
import ConfigLoader.Proofs.Worker.History
import ConfigLoader.Proofs.Worker.Input
import ConfigLoader.TypeScript.Scripted
import Mathlib.Data.List.Forall2

/-! # Conversations

A worker that loaded its compiler package says that it is ready. Then it answers request after
request, each by one frame that carries the request's number, up to the first line that is no
document. Only a request whose evaluation leaves nothing to answer with ends it before.
-/
namespace ConfigLoader.Worker
open Json (OneLine)
open Json.Canonical (levels)
open Modules (State Stop Alike)
open Script (Item)

/-! ## Answers -/

def statuses : List Text := ["ok", "diagnostics", "error", "thrown"]

/-- An answer carries the number of its request, if there is one, and says what the request came
to. -/
structure Answers (request d : Value) : Prop where
  id : field? d "id" = field? request "id"
  status : ∃ status ∈ statuses, field? d "status" = some (.text status)

theorem answers_of {request : Value} {status : String} (hs : (status : Text) ∈ statuses)
    {fields : Entries} (hf : Entries.getText? fields "id" = none) :
    Answers request (answer (field? request "id") status fields) := by
  refine ⟨?_, status, hs, ?_⟩
  · cases field? request "id" with
    | none => exact hf
    | some v => rfl
  · cases field? request "id" <;> rfl

theorem answer_answers {e : Engine} {ts : TypeScript} {directory : Text} {request d : Value}
    {t : State} {r : Except Stop Value}
    (h : answer? e ts t (.text directory) (field? request "id") r = some d) : Answers request d := by
  cases r with
  | ok v =>
    cases h
    exact answers_of (by decide) rfl
  | error stop =>
    cases stop with
    | exited code => cases h
    | found es =>
      simp only [answer?, stoppedAnswer?, bind, Option.bind_eq_some_iff, pure, Option.some.injEq] at h
      obtain ⟨findings, -, report, -, rfl⟩ := h
      exact answers_of (by decide) rfl
    | raised v =>
      simp only [answer?, stoppedAnswer?] at h
      split at h
      · obtain ⟨es, hes, rfl⟩ := Option.map_eq_some_iff.mp h
        obtain ⟨n, m, k, rfl⟩ := errorFields?_some hes
        refine answers_of (by decide) ?_
        cases n <;> cases m <;> cases k <;> rfl
      · obtain ⟨document, -, rfl⟩ := Option.map_eq_some_iff.mp h
        exact answers_of (by decide) rfl

/-! ## Requests one after another -/

namespace Desk
variable (x : Desk) (site : Site)

def settles (request : Value) (s : State) : Except Stop Value × State :=
  x.evaluate site (((field? request "path").bind Value.text?).getD [])
    (sourceOf (x.compiler site) request) s

def reply? (request : Value) (s : State) : Option Value :=
  (x.answer? site (field? request "id") (x.settles site request s).2
    (x.settles site request s).1).filter fun d => levels d ≤ site.engine.frames

/-- The answers to requests one after another, and the code of the one that ends the process, if
there is one. -/
def replies : State → List Value → List Value × Option Nat
  | _, [] => ([], none)
  | s, v :: vs =>
    match x.reply? site v s with
    | none => ([], some (endCode (x.settles site v s).1))
    | some d =>
      let (ds, ended) := replies (Modules.sweep s (x.settles site v s).2) vs
      (d :: ds, ended)

/-- Every request leaves something to answer it with. -/
def Lasting : State → List Value → Prop
  | _, [] => True
  | s, v :: vs =>
    ¬ Silenced site.engine (x.compiler site) x.directory (field? v "id") (x.settles site v s).2
        (x.settles site v s).1 ∧
      Lasting (Modules.sweep s (x.settles site v s).2) vs

variable {x site}

theorem reply?_some {v d : Value} {s : State} : x.reply? site v s = some d ↔
    x.answer? site (field? v "id") (x.settles site v s).2 (x.settles site v s).1 = some d ∧
      levels d ≤ site.engine.frames := by
  simp [reply?, Option.filter_eq_some_iff]

@[simp] theorem reply?_isNone {v : Value} {s : State} : (x.reply? site v s).isNone =
    x.ends site (field? v "id") (x.settles site v s).2 (x.settles site v s).1 := by
  have hanswer : x.answer? site (field? v "id") (x.settles site v s).2 (x.settles site v s).1 =
      Worker.answer? site.engine (x.compiler site) (x.settles site v s).2 (.text x.directory)
        (field? v "id") (x.settles site v s).1 := rfl
  rw [reply?, ends, endsWorker, hanswer]
  cases Worker.answer? site.engine (x.compiler site) (x.settles site v s).2 (.text x.directory)
      (field? v "id") (x.settles site v s).1 with
  | none => rfl
  | some d => by_cases h : levels d ≤ site.engine.frames <;> simp [frame?, h, Option.filter]

theorem reply?_none {v : Value} {s : State} : x.reply? site v s = none ↔
    Silenced site.engine (x.compiler site) x.directory (field? v "id") (x.settles site v s).2
      (x.settles site v s).1 := by
  rw [← Option.isNone_iff_eq_none, reply?_isNone]
  exact endsWorker_iff

variable (x site)

theorem replies_some {s : State} {v d : Value} (h : x.reply? site v s = some d) (vs : List Value) :
    x.replies site s (v :: vs) =
      (d :: (x.replies site (Modules.sweep s (x.settles site v s).2) vs).1,
        (x.replies site (Modules.sweep s (x.settles site v s).2) vs).2) := by
  rw [replies, h]

theorem replies_none {s : State} {v : Value} (h : x.reply? site v s = none) (vs : List Value) :
    x.replies site s (v :: vs) = ([], some (endCode (x.settles site v s).1)) := by
  rw [replies, h]

theorem replies_answer (s : State) (vs : List Value) :
    List.Forall₂ Answers (vs.take (x.replies site s vs).1.length) (x.replies site s vs).1 := by
  induction vs generalizing s with
  | nil => exact .nil
  | cons v vs ih =>
    cases h : x.reply? site v s with
    | some d =>
      rw [replies_some x site h, List.length_cons, List.take_succ_cons]
      exact .cons (answer_answers (reply?_some.mp h).1) (ih _)
    | none =>
      rw [replies_none x site h]
      exact .nil

/-- Every request is answered if each leaves something to answer it with, and otherwise the first one
that does not and those after it are not. -/
theorem replies_whole (s : State) (vs : List Value) :
    ((x.replies site s vs).2 = none ↔ x.Lasting site s vs) ∧
    ((x.replies site s vs).2 = none ↔ (x.replies site s vs).1.length = vs.length) := by
  induction vs generalizing s with
  | nil => exact ⟨⟨fun _ => trivial, fun _ => rfl⟩, ⟨fun _ => rfl, fun _ => rfl⟩⟩
  | cons v vs ih =>
    cases h : x.reply? site v s with
    | some d =>
      obtain ⟨h1, h2⟩ := ih (Modules.sweep s (x.settles site v s).2)
      have hanswered := mt reply?_none.mpr (by rw [h]; nofun)
      rw [replies_some x site h]
      refine ⟨h1.trans ⟨fun hl => ⟨hanswered, hl⟩, fun hl => hl.2⟩, ?_⟩
      rw [List.length_cons, List.length_cons, Nat.add_right_cancel_iff]
      exact h2
    | none =>
      rw [replies_none x site h]
      exact ⟨⟨nofun, fun hl => absurd (reply?_none.mp h) hl.1⟩, ⟨nofun, nofun⟩⟩

end Desk

/-! ## What modules log -/

theorem sweep_alike {M : Modules.Memory → Modules.Memory → Prop}
    {K : TypeScript.Project.Kept → TypeScript.Project.Kept → Prop} {s s' t t' : State}
    (hs : Alike M K s s') (ht : Alike M K t t') :
    Alike M K (Modules.sweep s t) (Modules.sweep s' t') := by
  unfold Modules.sweep
  dsimp only
  rw [hs.heap, ht.heap, ht.cache]
  split
  · exact ⟨rfl, rfl, ht.count, ht.memory, ht.projects⟩
  · exact ht

/-- Answers do not tell what was logged: states that differ in it alone give the same. -/
theorem replies_alike (x : Desk) (site : Site) {s s' : State} (h : Alike Eq Eq s s')
    (vs : List Value) : x.replies site s vs = x.replies site s' vs := by
  induction vs generalizing s s' with
  | nil => rfl
  | cons v vs ih =>
    have hM : Answered (surroundings site (site.compiler x.here) x.pipeline) Eq := by
      rintro q m m' rfl
      exact ⟨rfl, rfl⟩
    obtain ⟨h1, h2⟩ := evaluate_alike hM (alikeFor_eq x.pipeline site.tree) site.script
      (x.file (((field? v "path").bind Value.text?).getD [])) (sourceOf (x.compiler site) v) h
    have h1 : (x.settles site v s).1 = (x.settles site v s').1 := h1
    have h2 : Alike Eq Eq (x.settles site v s).2 (x.settles site v s').2 := h2
    have hreply : x.reply? site v s = x.reply? site v s' := by
      simp only [Desk.reply?, Desk.answer?, h1, answer_congr _ _ h2.heap]
    simp only [Desk.replies, h1, hreply, ih (sweep_alike h h2)]

/-! ## Lines of requests -/

/-- The requests of lines up to the first that is no document, and the code that the input ends the
worker with. -/
def requested : List Text → List Value × Nat
  | [] => ([], 0)
  | l :: ls =>
    match Json.Strict.parse l with
    | .error _ => ([], 1)
    | .ok v => (v :: (requested ls).1, (requested ls).2)

def IsRequest (line : Text) : Prop :=
  line.isBlank = false ∧
    ∀ v, Json.Strict.parse line = .ok v → ∃ path, HasPath v path

variable {site : Site} {w : Worker}

theorem finish_ready (x : Desk) (site : Site) (s : State) :
    ((x.worker s).finish site).1 = [] ∧ ((x.worker s).finish site).2.exitCode? = some 0 :=
  ⟨rfl, rfl⟩

theorem readLine_error (x : Desk) (site : Site) (s : State) {line : Text}
    (hb : line.isBlank = false) {e : Json.Strict.Error} (hp : Json.Strict.parse line = .error e) :
    ∃ w, (x.worker s).readLine site line = ([], w) ∧ w.phase = .ended 1 ∧ w.pending = [] := by
  have hphase : (x.worker s).phase = .ready x.session := rfl
  refine ⟨(x.worker s).crash [e.message line, line], ?_, rfl, rfl⟩
  simp only [readLine, hb, hp, hphase, Bool.false_eq_true, if_false]

/-- A ready worker answers a request and stays ready, or it ends without an answer. -/
theorem readLine_request (x : Desk) (site : Site) (s : State) {line : Text}
    (hb : line.isBlank = false) {v : Value} (hp : Json.Strict.parse line = .ok v) {path : Text}
    (hv : HasPath v path) :
    (∃ d, x.reply? site v s = some d ∧
      (x.worker s).readLine site line =
        ([frameLine d], x.worker (Modules.sweep s (x.settles site v s).2))) ∨
    (x.reply? site v s = none ∧ ∃ w,
      (x.worker s).readLine site line = ([], w) ∧
      w.phase = .ended (endCode (x.settles site v s).1) ∧ w.pending = []) := by
  have hsettles : x.evaluate site path (sourceOf (x.compiler site) v) s = x.settles site v s := by
    rw [Desk.settles, show (field? v "path").bind Value.text? = some path from hv]
    rfl
  have hphase : (x.worker s).phase = .ready x.session := rfl
  have hread : (x.worker s).readLine site line =
      handle site (surroundings site (site.compiler x.here) x.pipeline) x.session v
        (x.worker s) := by
    simp only [readLine, hb, hp, hphase, Bool.false_eq_true, if_false]
    rfl
  rw [hread]
  rcases handle_reply x site s hv hsettles with ⟨-, d, hd, hl, hh⟩ | ⟨hends, hh⟩
  · exact .inl ⟨d, Desk.reply?_some.mpr ⟨hd, hl⟩, hh⟩
  · exact .inr ⟨Option.isNone_iff_eq_none.mp (Desk.reply?_isNone.trans hends), hh⟩

/-- A ready worker answers the requests of its lines, and what its input ends it with is known, by
induction on the lines. -/
theorem readLines_ready (x : Desk) (site : Site) (s : State) {lines : List Text}
    (hl : ∀ l ∈ lines, IsRequest l) :
    ∃ w, (x.worker s).readLines site lines =
        ((x.replies site s (requested lines).1).1.map frameLine, w) ∧
      (w.finish site).1 = [] ∧ (w.finish site).2.exitCode? =
        some ((x.replies site s (requested lines).1).2.getD (requested lines).2) := by
  induction lines generalizing s with
  | nil => exact ⟨x.worker s, rfl, finish_ready x site s⟩
  | cons l ls ih =>
    obtain ⟨hb, hv⟩ := hl l (List.mem_cons_self ..)
    cases hp : Json.Strict.parse l with
    | error e =>
      obtain ⟨w, hread, hw, -⟩ := readLine_error x site s hb hp
      refine ⟨w, ?_, ?_⟩
      · simp only [readLines, hread, readLines_ended hw, requested, hp]
        rfl
      · simp only [requested, hp]
        exact finish_ended site hw
    | ok v =>
      obtain ⟨path, hpath⟩ := hv v hp
      rcases readLine_request x site s hb hp hpath with
        ⟨d, hd, hread⟩ | ⟨hd, w, hread, hw, -⟩
      · obtain ⟨w, h1, h2⟩ := ih (Modules.sweep s (x.settles site v s).2)
          fun m hm => hl m (List.mem_cons_of_mem _ hm)
        refine ⟨w, ?_, ?_⟩
        · simp only [readLines, hread, h1, requested, hp, Desk.replies, hd, List.map_cons,
            List.singleton_append]
        · simp only [requested, hp, Desk.replies, hd]
          exact h2
      · refine ⟨w, ?_, ?_⟩
        · simp only [readLines, hread, readLines_ended hw, requested, hp, Desk.replies, hd,
            List.map_nil, List.nil_append]
        · simp only [requested, hp, Desk.replies, hd]
          exact finish_ended site hw

def Resolved (w : Worker) : Prop :=
  (∃ session, w.phase = .ready session) ∨ ∃ code, w.phase = .ended code

theorem Resolved.settle (h : Resolved w) : w.settle = w := by
  rcases h with ⟨session, h⟩ | ⟨code, h⟩
  · rw [Worker.settle, h]
  · rw [Worker.settle, h]

theorem Resolved.readLine (h : Resolved w) (line : Text) : Resolved (w.readLine site line).2 := by
  rcases h with ⟨session, h⟩ | ⟨code, h⟩
  · rcases (readLine_state site h line).1.phase with hp | hp
    · exact .inl ⟨session, hp.trans h⟩
    · exact .inr (ended_of_exitCode hp)
  · rw [readLine_ended h]
    exact .inr ⟨code, h⟩

theorem Resolved.readLines (h : Resolved w) (lines : List Text) :
    Resolved (w.readLines site lines).2 := by
  induction lines generalizing w with
  | nil => exact h
  | cons l ls ih => exact ih (h.readLine l)

/-! ## The whole conversation -/

/-- What a worker keeps to after a handshake in which its package was loaded. -/
def deskOf (site : Site) (here : Location) (settings : Value) (s : State) (exported : Item) :
    Desk where
  here := here
  directory := (givenDirectory here settings).text?.getD []
  pipeline := (sessionOf here settings (givenDirectory here settings)
    (if isCompiler s exported then .ok (site.compiler here) else .error otherPackage)).pipeline

theorem readyFrame_ready {e : Engine} {s : State} {exported : Item} {frame : Text}
    (h : readyFrame e s exported = some frame) :
    ∃ version : Entries, frame = frameLine (.mapping (("status", "ready") :: version)) := by
  unfold readyFrame at h
  split at h
  · cases h
  · cases h
  · obtain ⟨version, -, h⟩ := Option.bind_eq_some_iff.mp h
    exact ⟨version, (frame?_some h).1⟩

/-- The settings with which a package is loaded make a worker ready, or they end it if the package
has no version to tell. -/
theorem greet_loaded {here : Location} {settings : Value} {exported : Item} {s : State}
    (h : runLoad (plainSurroundings site (site.compiler here)) settings
      (givenDirectory here settings) (startState site.script) = (.ok exported, s)) :
    (∃ frame, readyFrame site.engine s exported = some frame ∧
      greet site settings (start site.script here) =
        ([frame], (deskOf site here settings s exported).worker s)) ∨
    (readyFrame site.engine s exported = none ∧ ∃ w, greet site settings (start site.script here) = ([], w) ∧
      w.phase = .ended 1 ∧ w.pending = []) := by
  obtain ⟨d, hd⟩ := runLoad_directory h
  have hstart : runLoad (plainSurroundings site (site.compiler (start site.script here).here))
      settings (givenDirectory (start site.script here).here settings)
      (start site.script here).state = (.ok exported, s) := h
  unfold greet
  dsimp only
  rw [hstart]
  cases hf : readyFrame site.engine s exported with
  | none =>
    simp only [hf]
    exact .inr ⟨trivial, _, rfl, rfl, rfl⟩
  | some frame =>
    refine .inl ⟨frame, rfl, ?_⟩
    simp only [hf, Desk.worker, Desk.session, deskOf, hd, start, sessionOf]
    rfl

theorem settled_start {here : Location} {lines later : List Text} {first : Text}
    (hl : lines.filter (fun l => !l.isBlank) = first :: later)
    (hw : Resolved ((start site.script here).readLine site first).2) :
    Settled site (start site.script here) lines := by
  rintro ls ⟨ms, rfl⟩
  rw [List.filter_append] at hl
  rw [← readLines_filter]
  cases hf : ls.filter (fun l => !l.isBlank) with
  | nil => rfl
  | cons l ks =>
    rw [hf, List.cons_append] at hl
    obtain ⟨rfl, -⟩ := List.cons.inj hl
    exact (hw.readLines ks).settle

theorem readLine_settings (hw : w.phase = .waiting) {line : Text} (hb : line.isBlank = false)
    {settings : Value} (hp : Json.Strict.parse line = .ok settings)
    (ho : isObject settings = true) : w.readLine site line = greet site settings w := by
  simp only [readLine, hb, hp, ho, hw, Bool.false_eq_true, if_false, if_true]

section Input
variable {here : Location} {lines later pieces : List Text} {first : Text} {settings : Value}

theorem converse_greeted (ho : ∀ l ∈ lines, OneLine l) (hp : pieces.flatten = Text.ofLines lines)
    (hl : lines.filter (fun l => !l.isBlank) = first :: later)
    (hparse : Json.Strict.parse first = .ok settings) (hobject : isObject settings = true)
    {fs gs : List Text} {w v : Worker} (hg : greet site settings (start site.script here) = (fs, w))
    (hw : Resolved w) (hr : w.readLines site later = (gs, v)) :
    converse site here pieces =
      (fs ++ gs ++ (v.finish site).1, (v.finish site).2.exitCode?) := by
  have hblank : first.isBlank = false := by
    have hm : first ∈ lines.filter fun l => !l.isBlank := hl ▸ List.mem_cons_self ..
    simpa using (List.mem_filter.mp hm).2
  have hread : (start site.script here).readLine site first = (fs, w) :=
    (readLine_settings rfl hblank hparse hobject).trans hg
  have hreads : (start site.script here).readLines site lines = (fs ++ gs, v) := by
    rw [← readLines_filter, hl]
    simp only [readLines, hread, hr]
  refine converse_eq ho hp (settled_start hl ?_) hreads
  rw [hread]
  exact hw

end Input

/-! ## Conversations in a directory -/

def shop : Site where
  engine := .plain
  tree := {
    entries := [(["w"], .directory), (["w", "node_modules"], .directory),
      (["w", "node_modules", "typescript.js"], .file [])]
    cwd := ["w"] }
  script := "/worker.js"
  package := "/w/node_modules/typescript.js"
  compiler := TypeScript.Scripted.compiler

def shopSettings : Value := .mapping [("typescript", "typescript")]

def asks (id : Nat) (program : List Value) : Text :=
  Json.Canonical.print (.mapping [("id", .int id), ("path", "a.ts"),
    ("source", .text (Json.Canonical.print (.list program)))])

def shopReady : Text :=
  frameLine (.mapping [("status", "ready"), ("version", "0.0.0-fake")])

/-- A request that logs, one that throws, a line that is no document, and one more request. -/
def shopLines : List Text :=
  [asks 1 [.mapping [("do", "log"), ("text", "noise")],
      .mapping [("do", "default"), ("value", .int 3)]],
    asks 2 [.mapping [("do", "throw"), ("value", "x")]], "?", asks 3 []]

/-- The lines after a blank one and the settings, cut within the settings. -/
def shopPieces : List Text :=
  [(Text.ofLines ([] :: Json.Canonical.print shopSettings :: shopLines)).take 9,
    (Text.ofLines ([] :: Json.Canonical.print shopSettings :: shopLines)).drop 9]

theorem parse_shopSettings :
    Json.Strict.parse (Json.Canonical.print shopSettings) = .ok shopSettings := rfl

theorem shop_loads : ∃ exported s,
    runLoad (plainSurroundings shop (shop.compiler ["w"])) shopSettings
      (givenDirectory ["w"] shopSettings) (startState shop.script) = (.ok exported, s) ∧
    readyFrame shop.engine s exported = some shopReady := by
  refine ⟨_, _, rfl, ?_⟩
  decide +kernel

theorem shop_requests : ∀ l ∈ shopLines, ∀ v, Json.Strict.parse l = .ok v →
    ∃ path, HasPath v path := by
  intro l hl v hv
  have hall : shopLines.all (fun l => (Json.Strict.parse l).toOption.all fun v =>
      ((field? v "path").bind Value.text?).isSome) = true := by decide +kernel
  have hpath := List.all_eq_true.mp hall l hl
  rw [hv] at hpath
  exact Option.isSome_iff_exists.mp hpath

end ConfigLoader.Worker
