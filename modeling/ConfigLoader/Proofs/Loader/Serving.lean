import ConfigLoader.Proofs.Child.Working
import ConfigLoader.Proofs.Compiler.Frames
import ConfigLoader.Proofs.Worker.Ready

/-! # Loaders that are served

While the compiler of a loader holds a worker that is ready, each call is one request, and it ends
with what the evaluation of this request comes to. A worker that ended is not asked again.
-/
namespace ConfigLoader.Serving
open Child (Handle Machine)
open Child.Machine (ops withJob withJob_job giveUp_exited heard_frame)
open Compiler (exchange request)
open Modules (State Stop)
open Worker (Desk replied)

/-- The site of a worker, with the files as they are now. -/
abbrev seen (y : Worker.Site) (tree : FileTree) : Worker.Site := { y with tree := tree }

structure Query where
  tree : FileTree
  path : Text
  content : Text

/-- What stays as it is from call to call: how much room the caller has and where it runs, and what the
worker keeps to. -/
structure Setting where
  limits : Limits
  caller : Compiler.Site
  site : Worker.Site
  desk : Desk

def Query.evaluate (q : Query) (x : Setting) (s : State) : Except Stop Value × State :=
  x.desk.evaluate (seen x.site q.tree)
    (Text.joinSurrogates (Path.absolute x.caller.directory q.path))
    (Text.joinSurrogates q.content) s

def idOf (n : Nat) : Option Value := some (.float (Binary64.ofInt n))

/-- Whether the evaluation of a call leaves the worker without an answer to give. -/
def Query.ends (q : Query) (x : Setting) (n : Nat) (s : State) : Bool :=
  x.desk.ends (seen x.site q.tree) (idOf n) (q.evaluate x s).2 (q.evaluate x s).1

def Query.outcome (q : Query) (x : Setting) (n : Nat) (s : State) : Except Fault Value :=
  x.desk.outcome (seen x.site q.tree) x.limits.reading (idOf n) (q.evaluate x s).2 (q.evaluate x s).1

/-- What the call of a number ends with and which state the worker is left in, unless it ended. -/
def step (x : Setting) (n : Nat) (q : Query) : Option State → Except Fault Value × Option State
  | none => (.error Compiler.notRegistered.wrap, none)
  | some s =>
    match Json.intText n with
    | .error f => (.error f.wrap, some s)
    | .ok _ =>
      (q.outcome x n s, if q.ends x n s then none else some (Modules.sweep s (q.evaluate x s).2))

def outcomes (x : Setting) : Nat → Option State → List Query → List (Except Fault Value)
  | _, _, [] => []
  | n, o, q :: qs => (step x n q o).1 :: outcomes x (n + 1) (step x n q o).2 qs

/-- The state that calls leave the worker in, unless one of them ended it. -/
def left (x : Setting) : Nat → Option State → List Query → Option State
  | _, o, [] => o
  | n, o, q :: qs => left x (n + 1) (step x n q o).2 qs

/-- The files are other ones from now on. -/
def withTree (tree : FileTree) (l : Loader Machine Compiler) : Loader Machine Compiler :=
  { l with state := { l.state with world := { l.state.world with tree := tree } } }

/-- Calls a loader again and again, each time with the files of the call. -/
def results (limits : Limits) (caller : Compiler.Site) (settings : Settings) :
    List Query → Loader Machine Compiler → List (Except Fault Value)
  | [], _ => []
  | q :: qs, l =>
    let (r, l) := (withTree q.tree l).call (Compiler.service (ops limits) caller settings)
      (.text q.path) (.text q.content)
    r :: results limits caller settings qs l

/-- The loader holds a compiler that sent `n` requests, and this one a worker in a state of which
nothing is unread, or none if the worker ended. -/
structure Serves (x : Setting) (n : Nat) (o : Option State) (l : Loader Machine Compiler) :
    Prop where
  site : l.state.world.site = seen x.site l.state.world.tree
  held : ∃ c, l.slot = some c ∧ match o with
    | some s => c.lastId = n ∧ ∃ h, c.process = some h ∧
        l.state.world.jobs[h]? = some ⟨.working (x.desk.worker s), []⟩
    | none => c.process = none

theorem serves_withTree {x : Setting} {n : Nat} {o : Option State} {l : Loader Machine Compiler}
    (hl : Serves x n o l) (tree : FileTree) : Serves x n o (withTree tree l) := by
  refine ⟨?_, hl.held⟩
  have hs := congrArg (fun y : Worker.Site => seen y tree) hl.site
  exact hs

/-! ## One exchange -/

variable (limits : Limits) {m : Machine} {h : Handle}

/-- A request to a ready worker is answered by a frame of which its caller makes the outcome of the
evaluation, or the output of the worker ends, and so did the worker. -/
theorem exchange_ready {x : Desk} {s t : State} {id : Nat} {path source : Text}
    {r : Except Stop Value} (hj : m.jobs[h]? = some ⟨.working (x.worker s), []⟩) (hid : 0 < id)
    (hn : ∃ n, Json.intText id = .ok n)
    (he : x.evaluate m.site (Text.joinSurrogates path) (Text.joinSurrogates source) s = (r, t)) :
    (x.ends m.site (idOf id) t r = false ∧ ∃ reply,
      exchange (ops limits) h (request id (.text path) (.text source)) m =
        (reply, m.withJob h ⟨.working (x.worker (Modules.sweep s t)), []⟩) ∧
      (∀ f, reply = .error f → f.kind = .recursionError) ∧
      Loader.answer (reply.bind replied) = x.outcome m.site limits.reading (idOf id) t r) ∨
    x.ends m.site (idOf id) t r = true ∧ ∃ w code,
      exchange (ops limits) h (request id (.text path) (.text source)) m =
        (.error Compiler.endOfOutput, m.withJob h ⟨.working w, []⟩) ∧
      w.phase = .ended code ∧ w.pending = [] ∧
      x.outcome m.site limits.reading (idOf id) t r =
        .error (Compiler.exitedUnexpectedly (Text.ofInt code)).wrap := by
  obtain ⟨f, hf, -⟩ | ⟨-, hline, hframe⟩ := Compiler.frame_texts limits id path source
  · obtain ⟨n, hn⟩ := hn
    rw [hf] at hn
    cases hn
  have hblank : (Compiler.requestLine id path source).isBlank = false := rfl
  have hread : (x.worker s).readLine m.site (Compiler.requestLine id path source) =
      Worker.handle m.site
        (Worker.surroundings m.site (m.site.compiler x.here) x.pipeline) x.session
        (Worker.requestOf (Binary64.ofInt id) (Text.joinSurrogates path)
          (Text.joinSurrogates source)) (x.worker s) := by
    have hp : Json.Strict.parse (Compiler.requestLine id path source) =
      .ok (Worker.requestOf (Binary64.ofInt id) (Text.joinSurrogates path)
        (Text.joinSurrogates source)) := Json.Strict.parse_request hid path source
    simp only [Worker.readLine, hblank, Bool.false_eq_true, if_false, hp, Desk.worker]
    rfl
  have hx := Child.Machine.exchange_working hj rfl hframe hline
  rw [hread] at hx
  obtain ⟨h1, d, h2, h3⟩ | ⟨h1, w, code, h2, hw, hp, h3⟩ :=
    Worker.handle_request x m.site limits.reading s (Binary64.ofInt id) (Text.joinSurrogates path)
      (Text.joinSurrogates source) he
  · refine .inl ⟨h1, Json.load limits.reading (Worker.frameLine d), ?_, ?_, h3⟩
    · rw [hx, h2, heard_frame]
      rfl
    · intro f hf
      obtain ⟨-, hload⟩ | ⟨-, g, hload, hg⟩ :=
        Json.Canonical.load_line_cases limits.reading d
      · cases hf.symm.trans hload
      · cases hf.symm.trans hload
        exact hg
  · refine .inr ⟨h1, w, code, ?_, hw, hp, h3⟩
    have hsettle : w.settle = w := by rw [Worker.settle, hw]
    rw [hx, h2, hsettle]
    rfl

/-! ## One call -/

/-- A number that is too long is an ordinary fault, and breaks no pipe. -/
theorem intText_error {n : Int} {f : Fault} (hf : Json.intText n = .error f) :
    f.isOrdinary = true ∧ Compiler.isBroken f = false := by
  unfold Json.intText at hf
  split at hf
  · cases hf
    exact ⟨rfl, rfl⟩
  · cases hf

theorem isBroken_recursion {f : Fault} (hf : f.kind = .recursionError) :
    Compiler.isBroken f = false := by
  rw [Compiler.isBroken, Fault.isSystem, hf]
  rfl

theorem exchange_unnumbered {id : Nat} {f : Fault} (hf : Json.intText id = .error f)
    (path source : Text) :
    exchange (ops limits) h (request id (.text path) (.text source)) m = (.error f, m) := by
  obtain ⟨g, hg, hframe⟩ | ⟨⟨n, hn⟩, -⟩ := Compiler.frame_texts limits id path source
  · obtain rfl : f = g := Except.error.inj (hf.symm.trans hg)
    have hin : (ops limits).hasInput h m = true := rfl
    have hframe : Compiler.frame (ops limits).limits (request id (.text path) (.text source)) =
      .error f := hframe
    simp only [exchange, Compiler.send, hin, hframe, if_true]
  · rw [hf] at hn
    cases hn

/-- A request of a served loader ends with the outcome of its evaluation, and the worker is kept
unless the evaluation ended it. -/
theorem compile_ready {x : Setting} {s : State} {c : Compiler} {k : Logged Machine}
    (hs : k.world.site = seen x.site k.world.tree) (hc : c.process = some h)
    (hj : k.world.jobs[h]? = some ⟨.working (x.desk.worker s), []⟩) (path content : Text) :
    ∃ r d k', Compiler.compile (ops x.limits) x.caller (.text path) (.text content) c k = (r, d, k') ∧
      Loader.answer r = (step x (c.lastId + 1) ⟨k.world.tree, path, content⟩ (some s)).1 ∧
      k'.world.site = k.world.site ∧
      match (step x (c.lastId + 1) ⟨k.world.tree, path, content⟩ (some s)).2 with
      | some t => d.lastId = c.lastId + 1 ∧ d.process = some h ∧
          k'.world.jobs[h]? = some ⟨.working (x.desk.worker t), []⟩
      | none => d.process = none := by
  have hpath : Compiler.absolutePath x.caller (.text path) =
      .ok (.text (Path.absolute x.caller.directory path)) := rfl
  cases hn : Json.intText ((c.lastId + 1 : Nat) : Int) with
  | error f =>
    obtain ⟨ho, hb⟩ := intText_error hn
    have hx := exchange_unnumbered x.limits (m := k.world) (h := h) hn
      (Path.absolute x.caller.directory path) content
    refine ⟨.error f, { c with lastId := c.lastId + 1 }, k, ?_, ?_, rfl, ?_⟩
    · simp only [Compiler.compile, hc, hpath, hx, hb, Bool.false_eq_true, if_false]
    · simp only [step, hn, Loader.answer_error, Fault.reported, ho, if_true]
    · simp only [step, hn]
      exact ⟨trivial, hc, hj⟩
  | ok n =>
    rcases he : x.desk.evaluate (seen x.site k.world.tree)
      (Text.joinSurrogates (Path.absolute x.caller.directory path))
      (Text.joinSurrogates content) s with ⟨r, t⟩
    rw [← hs] at he
    have hstep : step x (c.lastId + 1) ⟨k.world.tree, path, content⟩ (some s) =
        (x.desk.outcome k.world.site x.limits.reading (idOf (c.lastId + 1)) t r,
          if x.desk.ends k.world.site (idOf (c.lastId + 1)) t r then none
          else some (Modules.sweep s t)) := by
      simp only [step, hn, Query.outcome, Query.ends, Query.evaluate, he, ← hs]
    rw [hstep]
    obtain ⟨h1, reply, h2, hrecursion, h3⟩ | ⟨h1, w, code, h2, hw, -, h3⟩ :=
      exchange_ready x.limits hj (Nat.succ_pos c.lastId) ⟨n, hn⟩ he
    · refine ⟨reply.bind replied, { c with lastId := c.lastId + 1 },
        { k with world := k.world.withJob h ⟨.working (x.desk.worker (Modules.sweep s t)), []⟩ },
        ?_, h3, rfl, ?_⟩
      · cases reply with
        | ok reply =>
          simp only [Compiler.compile, hc, hpath, h2]
          rfl
        | error f =>
          -- A reply that is too deep breaks no pipe, so the process is kept.
          have hb := isBroken_recursion (hrecursion f rfl)
          simp only [Compiler.compile, hc, hpath, h2, hb, Bool.false_eq_true, if_false]
          rfl
      · simp only [h1, Bool.false_eq_true, if_false]
        exact ⟨trivial, hc, withJob_job hj _⟩
    · have hbroken : Compiler.isBroken Compiler.endOfOutput = true := rfl
      obtain ⟨q, hgive⟩ := giveUp_exited x.limits (α := Value) (withJob_job hj ⟨.working w, []⟩) hw
        Compiler.exitedUnexpectedly
      refine ⟨.error (Compiler.exitedUnexpectedly (Text.ofInt code)),
        { c with lastId := c.lastId + 1, process := none },
        { k with world := (k.world.withJob h ⟨.working w, []⟩).withJob h q }, ?_, ?_, rfl, ?_⟩
      · simp only [Compiler.compile, hc, hpath, h2, hbroken, if_true, hgive]
      · rw [h3]
        rfl
      · simp only [h1, if_true]

theorem serves_scene {x : Setting} {n : Nat} {o : Option State} {k l : Loader Machine Compiler}
    (hk : Serves x n o k) (h : k.scene = l.scene) : Serves x n o l := by
  obtain ⟨hs, hc⟩ := hk
  have hslot : k.slot = l.slot := congrArg Prod.fst h
  have hworld : k.state.world = l.state.world := congrArg Prod.snd h
  rw [hworld] at hs hc
  rw [hslot] at hc
  exact ⟨hs, hc⟩

theorem ask_served {x : Setting} {n : Nat} {o : Option State} {l : Loader Machine Compiler}
    {c : Compiler} (hl : Serves x n o l) (hslot : l.slot = some c) (settings : Settings)
    (q : Query) (hq : l.state.world.tree = q.tree) :
    Loader.answer (l.ask (Compiler.service (ops x.limits) x.caller settings) (.text q.path)
      (.text q.content) c).1 = (step x (n + 1) q o).1 ∧
    Serves x (n + 1) (step x (n + 1) q o).2
      (l.ask (Compiler.service (ops x.limits) x.caller settings) (.text q.path)
        (.text q.content) c).2 := by
  obtain ⟨c', hslot', hc⟩ := hl.held
  obtain rfl : c = c' := Option.some.inj (hslot.symm.trans hslot')
  cases o with
  | none =>
    obtain ⟨h1, h2⟩ := Loader.ask_dead (ops x.limits) x.caller settings (.text q.path) (.text q.content)
      hslot hc
    rw [h1]
    refine ⟨rfl, serves_scene ⟨hl.site, c, hslot, ?_⟩ h2.symm⟩
    exact hc
  | some s =>
    obtain ⟨rfl, h, hp, hj⟩ := hc
    let noted := l.note .debug ("Compiling " ++ (Value.text q.path).display ++ " (" ++
      Text.ofNat q.content.length ++ " chars)")
    obtain ⟨r, d, w, hcompile, h1, h2, h3⟩ :=
      compile_ready (k := noted.state) hl.site hp hj q.path q.content
    have hask : l.ask (Compiler.service (ops x.limits) x.caller settings) (.text q.path) (.text q.content) c =
        (r, ⟨some d, w⟩) := by
      simp only [Loader.ask, Loader.contentLength, Compiler.service]
      rw [hcompile]
    have hquery : (⟨noted.state.world.tree, q.path, q.content⟩ : Query) = q := by
      rw [show noted.state.world.tree = q.tree from hq]
    rw [hquery] at h1 h3
    rw [hask]
    refine ⟨h1, ?_, d, rfl, ?_⟩
    · have htree : w.world.tree = l.state.world.tree := congrArg Worker.Site.tree h2
      exact (h2.trans hl.site).trans (congrArg (seen x.site) htree.symm)
    · generalize (step x (c.lastId + 1) q (some s)).2 = o at h3
      cases o with
      | none => exact h3
      | some t => exact ⟨h3.1, h, h3.2⟩

theorem call_asks {ops : ServiceOps Machine Compiler} {path content : Value} {c : Compiler}
    {k l : Loader Machine Compiler} (h : k.attempt ops path content = l.ask ops path content c) :
    ∃ l', k.call ops path content = (Loader.answer (l.ask ops path content c).1, l') ∧
      l'.scene = (l.ask ops path content c).2.scene := by
  obtain ⟨h1, h2⟩ := k.call_attempt ops path content
  rw [h] at h1 h2
  exact ⟨_, Prod.ext h1 rfl, h2⟩

theorem call_served {x : Setting} {n : Nat} {o : Option State} {l : Loader Machine Compiler}
    (hl : Serves x n o l) (settings : Settings) (q : Query) :
    ∃ l', (withTree q.tree l).call (Compiler.service (ops x.limits) x.caller settings) (.text q.path)
        (.text q.content) = ((step x (n + 1) q o).1, l') ∧
      Serves x (n + 1) (step x (n + 1) q o).2 l' := by
  have hk := serves_withTree hl q.tree
  obtain ⟨c, hslot, -⟩ := hk.held
  obtain ⟨l', hcall, hscene⟩ := call_asks (Loader.attempt_held
    (Compiler.service (ops x.limits) x.caller settings) (.text q.path) (.text q.content) hslot)
  obtain ⟨h1, h2⟩ := ask_served hk hslot settings q rfl
  exact ⟨l', h1 ▸ hcall, serves_scene h2 hscene.symm⟩

theorem results_served {x : Setting} {n : Nat} {o : Option State} {l : Loader Machine Compiler}
    (hl : Serves x n o l) (settings : Settings) (qs : List Query) :
    results x.limits x.caller settings qs l = outcomes x (n + 1) o qs := by
  induction qs generalizing n o l with
  | nil => rfl
  | cons q qs ih =>
    obtain ⟨l', hcall, hl'⟩ := call_served hl settings q
    simp only [results, outcomes, hcall, ih hl']

/-! ## One call among others -/

section
variable (x : Setting)

theorem outcomes_getElem? (n : Nat) (o : Option State) (before : List Query) (q : Query)
    (after : List Query) :
    (outcomes x n o (before ++ q :: after))[before.length]? =
      some (step x (n + before.length) q (left x n o before)).1 := by
  induction before generalizing n o with
  | nil => rfl
  | cons p before ih =>
    have hn : n + (p :: before).length = n + 1 + before.length := by
      rw [List.length_cons, Nat.add_assoc, Nat.add_comm 1]
    rw [hn]
    exact ih (n + 1) (step x n p o).2

theorem step_ends {n : Nat} {q : Query} {s : State} (h : (step x n q (some s)).2 = none) :
    q.ends x n s = true := by
  cases hn : Json.intText n with
  | error f =>
    simp only [step, hn] at h
    cases h
  | ok id =>
    simp only [step, hn] at h
    split at h
    · assumption
    · cases h

theorem left_none {n : Nat} {s : State} {qs : List Query} (h : left x n (some s) qs = none) :
    ∃ before q after t, qs = before ++ q :: after ∧ left x n (some s) before = some t ∧
      q.ends x (n + before.length) t = true := by
  induction qs generalizing n s with
  | nil => cases h
  | cons q qs ih =>
    cases hs : (step x n q (some s)).2 with
    | none => exact ⟨[], q, qs, s, rfl, rfl, step_ends x hs⟩
    | some t =>
      rw [left, hs] at h
      obtain ⟨before, p, after, u, rfl, hu, hp⟩ := ih h
      refine ⟨q :: before, p, after, u, rfl, ?_, ?_⟩
      · rw [left, hs]
        exact hu
      · rw [List.length_cons, Nat.add_comm before.length, ← Nat.add_assoc]
        exact hp

/-- A call is decided by its own evaluation, unless a call before it ended the worker. -/
theorem outcomes_decided (n : Nat) (s : State) (before : List Query) (q : Query)
    (after : List Query) :
    (∃ t, left x n (some s) before = some t ∧
      (outcomes x n (some s) (before ++ q :: after))[before.length]? =
        some (step x (n + before.length) q (some t)).1) ∨
    (outcomes x n (some s) (before ++ q :: after))[before.length]? =
        some (.error Compiler.notRegistered.wrap) ∧
      ∃ earlier p later t, before = earlier ++ p :: later ∧
        left x n (some s) earlier = some t ∧ p.ends x (n + earlier.length) t = true := by
  have hget := outcomes_getElem? x n (some s) before q after
  cases hl : left x n (some s) before with
  | some t =>
    rw [hl] at hget
    exact .inl ⟨t, rfl, hget⟩
  | none =>
    rw [hl] at hget
    exact .inr ⟨hget, left_none x hl⟩

end

end ConfigLoader.Serving
