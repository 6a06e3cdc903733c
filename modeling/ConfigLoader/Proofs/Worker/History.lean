import ConfigLoader.Proofs.FileTree.Outline
import ConfigLoader.Proofs.Script.Equality
import ConfigLoader.Proofs.Worker.Evaluations
import ConfigLoader.Proofs.Worker.Input

/-! # Workers with a history

A worker that was ready serves lines while files change. A quiet request loads no package, leaves
the objects of the modules that stay loaded as they are, and asks for no number. After quiet
requests all that tells a worker from one that is started now is what look-ups remember.
-/
namespace ConfigLoader.Worker
open Modules (State Stop Respects Steady Alike Closed Keeps Any Grown Memory Current SameAnswers)
open TypeScript (Pipeline)
open TypeScript.Project (Kept SameProjects)
open Script (Item)

abbrev Site.showing (y : Site) (tree : FileTree) : Site := { y with tree := tree }

def started (site : Site) (here : Location) (settings : Text) : Worker :=
  ((start site.script here).readLine site settings).2

structure Visit where
  tree : FileTree
  line : Text

def visit (site : Site) (w : Worker) (v : Visit) : Worker :=
  (w.readLine (site.showing v.tree) v.line).2

/-- The state in which the evaluation ends that a line asks a ready worker for. -/
def reached (site : Site) (line : Text) (w : Worker) : State :=
  match w.phase, Json.Strict.parse line with
  | .ready session, .ok request =>
    match requestFile? w session.directory request with
    | none => w.state
    | some file =>
      ((execute (surroundings site (site.compiler w.here) session.pipeline) session.pipeline
        site.script file (sourceOf (site.compiler w.here) request)).run.run w.state).2
  | _, _ => w.state

/-! ## One line -/

theorem evaluate_state (c : Modules.Surroundings) (p : Pipeline) (script file source : Text)
    (s : State) : (evaluate c p script file source s).2 =
      Modules.forgetNew s ((execute c p script file source).run.run s).2 := by
  unfold evaluate
  rcases (execute c p script file source).run.run s with ⟨r, t⟩
  cases r with
  | error e => rfl
  | ok exported =>
    dsimp only
    cases Script.Encoding.document c.engine.values (Modules.forgetNew s t).heap
        (selected (Modules.forgetNew s t) exported) <;> rfl

theorem reached_request {site : Site} {session : Session} {w : Worker} {line file : Text}
    {request : Value} (hw : w.phase = .ready session) (hp : Json.Strict.parse line = .ok request)
    (hf : requestFile? w session.directory request = some file) :
    reached site line w = ((execute (surroundings site (site.compiler w.here) session.pipeline)
      session.pipeline site.script file (sourceOf (site.compiler w.here) request)).run.run w.state).2 := by
  simp only [reached, hw, hp, hf]

/-- A worker after a line: where it runs, and whether it is still what it was. -/
structure Follows (w v : Worker) : Prop where
  here : v.here = w.here
  phase : v.phase = w.phase ∨ v.exitCode?.isSome = true

/-- A ready worker is left by a line as it was, or in the state that the evaluation of a request
ends in, without modules that are new and places that are given back. -/
theorem readLine_state (site : Site) {session : Session} {w : Worker}
    (hw : w.phase = .ready session) (line : Text) :
    Follows w (w.readLine site line).2 ∧ ∃ notes,
      ((w.readLine site line).2.state = { w.state with notes := notes } ∨
        (w.readLine site line).2.state =
          { Modules.sweep w.state (Modules.forgetNew w.state (reached site line w)) with
            notes := notes }) := by
  unfold readLine
  rw [hw]
  by_cases hb : line.isBlank = true
  · simp only [hb, if_true]
    exact ⟨⟨rfl, .inl rfl⟩, w.state.notes, .inl rfl⟩
  · simp only [hb, Bool.false_eq_true, if_false]
    cases hp : Json.Strict.parse line with
    | error e => exact ⟨⟨rfl, .inr rfl⟩, _, .inl rfl⟩
    | ok request =>
      simp only [handle]
      cases hf : requestFile? w session.directory request with
      | none => exact ⟨⟨rfl, .inr rfl⟩, _, .inl rfl⟩
      | some file =>
        rw [reached_request hw hp hf]
        dsimp only
        have hs := evaluate_state (surroundings site (site.compiler w.here) session.pipeline)
          session.pipeline site.script file (sourceOf (site.compiler w.here) request) w.state
        rcases he : evaluate (surroundings site (site.compiler w.here) session.pipeline)
          session.pipeline site.script file (sourceOf (site.compiler w.here) request) w.state with ⟨r, t⟩
        rw [he] at hs
        dsimp only at hs ⊢
        rw [← hs]
        split
        · exact ⟨⟨rfl, .inl rfl⟩, (Modules.sweep w.state t).notes, .inr rfl⟩
        · exact ⟨⟨rfl, .inr rfl⟩, (Modules.sweep w.state t).notes, .inr rfl⟩

/-- What a request does to its worker beyond its reply stays within what is dropped after it: it
loads no module of a package, changes no object that was there, and asks for no number. -/
structure Quiet (site : Site) (line : Text) (w : Worker) : Prop where
  packages : ∀ e ∈ (reached site line w).cache, Modules.isPackageFile e.1 = true →
    (Modules.assoc? e.1 w.state.cache).isSome = true
  objects : (reached site line w).heap.take w.state.heap.length = w.state.heap
  count : (reached site line w).count = w.state.count

instance (site : Site) (line : Text) (w : Worker) : Decidable (Quiet site line w) :=
  decidable_of_iff
    ((∀ e ∈ (reached site line w).cache, Modules.isPackageFile e.1 = true →
        (Modules.assoc? e.1 w.state.cache).isSome = true) ∧
      (reached site line w).heap.take w.state.heap.length = w.state.heap ∧
      (reached site line w).count = w.state.count)
    ⟨fun h => ⟨h.1, h.2.1, h.2.2⟩, fun h => ⟨h.packages, h.objects, h.count⟩⟩

variable {site : Site} {session : Session} {line : Text} {w : Worker}

theorem reached_respects {Free : Text → Prop} {R : State → State → Prop}
    (hw : w.phase = .ready session)
    (hR : Steady (surroundings site (site.compiler w.here) session.pipeline) Free R)
    (h : R w.state w.state) : R (reached site line w) (reached site line w) := by
  unfold reached
  rw [hw]
  cases Json.Strict.parse line with
  | error e => exact h
  | ok request =>
    dsimp only
    cases requestFile? w session.directory request with
    | none => exact h
    | some file =>
      exact (execute_respects hR site.script file (sourceOf (site.compiler w.here) request) _ _ h).2

/-- A quiet line leaves the objects, the modules and the next number of a ready worker as they
were. -/
theorem readLine_quiet (hw : w.phase = .ready session) (hc : Closed w.state)
    (hq : Quiet site line w) :
    (w.readLine site line).2.state.heap = w.state.heap ∧
      (w.readLine site line).2.state.cache = w.state.cache ∧
      (w.readLine site line).2.state.count = w.state.count := by
  obtain ⟨-, notes, h | h⟩ := readLine_state site hw line
  · rw [h]
    exact ⟨rfl, rfl, rfl⟩
  · obtain ⟨-, hgrown⟩ := @reached_respects site session line w _ _ hw
      (surroundings_grown site _ _ w.state.cache) ⟨rfl, Modules.grown_start w.state⟩
    have hcache := hgrown.forgetNew hq.packages
    have hheap := Modules.sweep_heap hc hcache hq.objects
    obtain ⟨h1, h2, -⟩ := Modules.sweep_frame w.state
      (Modules.forgetNew w.state (reached site line w))
    rw [h]
    exact ⟨hheap, h1.trans hcache, h2.trans hq.count⟩

theorem readLine_remembers (hw : w.phase = .ready session) {P : Memory → Prop} {Q : Kept → Prop}
    (hm : P w.state.memory ∧ P (reached site line w).memory)
    (hk : Q w.state.projects ∧ Q (reached site line w).projects) :
    P (w.readLine site line).2.state.memory ∧ Q (w.readLine site line).2.state.projects := by
  obtain ⟨-, notes, h | h⟩ := readLine_state site hw line
  · rw [h]
    exact ⟨hm.1, hk.1⟩
  · obtain ⟨-, -, h1, h2⟩ := Modules.sweep_frame w.state
      (Modules.forgetNew w.state (reached site line w))
    rw [h]
    dsimp only
    rw [h1, h2]
    exact ⟨hm.2, hk.2⟩

/-! ## Many lines -/

theorem ended_of_exitCode (h : w.exitCode?.isSome = true) : ∃ code, w.phase = .ended code := by
  unfold exitCode? at h
  cases hp : w.phase with
  | ended code => exact ⟨code, rfl⟩
  | _ =>
    rw [hp] at h
    cases h

theorem visit_ended {v : Visit} (hw : w.exitCode?.isSome = true) : visit site w v = w := by
  obtain ⟨code, hc⟩ := ended_of_exitCode hw
  rw [visit, readLine_ended hc]

theorem visits_ended {vs : List Visit} (hw : w.exitCode?.isSome = true) :
    vs.foldl (visit site) w = w := by
  induction vs with
  | nil => rfl
  | cons v vs ih =>
    rw [List.foldl_cons, visit_ended hw]
    exact ih

def AreQuiet (site : Site) : List Visit → Worker → Prop
  | [], _ => True
  | v :: vs, w =>
    Quiet (site.showing v.tree) v.line w ∧ AreQuiet site vs (visit site w v)

/-- A worker as another one was, but for what it remembers of look-ups and projects, which has
properties. -/
structure Aged (session : Session) (P : Memory → Prop) (Q : Kept → Prop) (w v : Worker) :
    Prop where
  here : v.here = w.here
  phase : v.phase = .ready session
  heap : v.state.heap = w.state.heap
  cache : v.state.cache = w.state.cache
  count : v.state.count = w.state.count
  memory : P v.state.memory
  projects : Q v.state.projects

theorem Aged.closed {P : Memory → Prop} {Q : Kept → Prop} {v : Worker}
    (h : Aged session P Q w v) (hc : Closed w.state) : Closed v.state := by
  refine ⟨?_, ?_⟩
  · rw [h.heap]
    exact hc.heap
  · rw [h.heap, h.cache]
    exact hc.cache

structure Keeping (site : Site) (here : Location) (p : Pipeline) (P : Memory → Prop)
    (Q : Kept → Prop) (v : Visit) : Prop where
  lookups : Answered (surroundings (site.showing v.tree) (site.compiler here) p)
    (fun m m' => m = m' ∧ P m)
  projects : AlikeFor p v.tree (fun k k' => k = k' ∧ Q k)

theorem visit_aged {P : Memory → Prop} {Q : Kept → Prop} {u : Worker} {v : Visit}
    (h : Aged session P Q w u) (hc : Closed w.state)
    (hk : Keeping site w.here session.pipeline P Q v)
    (hq : Quiet (site.showing v.tree) v.line u)
    (ha : (visit site u v).exitCode? = none) : Aged session P Q w (visit site u v) := by
  obtain ⟨hfollows, -⟩ := readLine_state (site.showing v.tree) h.phase v.line
  obtain ⟨h1, h2, h3⟩ := readLine_quiet h.phase (h.closed hc) hq
  have hreached := @reached_respects (site.showing v.tree) session v.line u _ _ h.phase
    (h.here.symm ▸ surroundings_steady hk.lookups hk.projects)
    ⟨rfl, rfl, rfl, ⟨rfl, h.memory⟩, ⟨rfl, h.projects⟩⟩
  obtain ⟨h4, h5⟩ := readLine_remembers h.phase ⟨h.memory, hreached.memory.2⟩
    ⟨h.projects, hreached.projects.2⟩
  refine ⟨hfollows.here.trans h.here, ?_, h1.trans h.heap, h2.trans h.cache, h3.trans h.count,
    h4, h5⟩
  rcases hfollows.phase with hp | hp
  · exact hp.trans h.phase
  · have ha : ((u.readLine (site.showing v.tree) v.line).2).exitCode? = none := ha
    rw [ha] at hp
    cases hp

/-- A ready worker that quiet lines did not end is as it was, by induction on the lines. -/
theorem visits_aged {P : Memory → Prop} {Q : Kept → Prop} {u : Worker} {vs : List Visit}
    (h : Aged session P Q w u) (hc : Closed w.state)
    (hk : ∀ v ∈ vs, Keeping site w.here session.pipeline P Q v)
    (hq : AreQuiet site vs u) (ha : (vs.foldl (visit site) u).exitCode? = none) :
    Aged session P Q w (vs.foldl (visit site) u) := by
  induction vs generalizing u with
  | nil => exact h
  | cons v vs ih =>
    obtain ⟨hv, hvs⟩ := hq
    have hlive : (visit site u v).exitCode? = none := by
      cases hx : (visit site u v).exitCode? with
      | none => rfl
      | some code =>
        have hsome : (visit site u v).exitCode?.isSome = true := by rw [hx]; rfl
        rw [List.foldl_cons, visits_ended hsome, hx] at ha
        cases ha
    exact ih (visit_aged h hc (hk v (List.mem_cons_self ..)) hv hlive)
      (fun x hx => hk x (List.mem_cons_of_mem _ hx)) hvs ha

end ConfigLoader.Worker
