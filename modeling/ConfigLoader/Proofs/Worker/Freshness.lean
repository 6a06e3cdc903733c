import ConfigLoader.Proofs.Modules.Repeats
import ConfigLoader.Proofs.TypeScript.Nearest
import ConfigLoader.Proofs.Worker.History

/-! # Fresh replies

A worker that read quiet lines replies as one that is started now, as long as what it remembers of
files is what they say. Nothing sees to that: a look-up is remembered for good, so a file that was
found once hides one that is added before it, and is missed once it is removed; and so is an ES module
that was evaluated.
-/
namespace ConfigLoader.Worker
open Modules (State Stop Run Respects Steady Alike Closed Keeps Any Below Memory
  Current SameAnswers Repeats)
open TypeScript (Pipeline)
open TypeScript.Project (Kept SameProjects)
open Script (Item)

/-! ## Handshakes -/

theorem load_respects {c : Modules.Surroundings} {Free : Text → Prop}
    {R : State → State → Prop} (hR : Steady c Free R) (settings directory : Value) :
    Respects R (loadPackage c settings directory) :=
  (Respects.lift _).bind fun _ => hR.requires _ _ _

theorem load_keeps {c : Modules.Surroundings} (hc : c.compile = none)
    (settings directory : Value) : Keeps 0 Below (loadPackage c settings directory) := by
  refine (Keeps.lift (V := Any) _ fun _ _ _ _ => trivial).bind fun _ file _ _ => ?_
  have hnone : ∀ f, c.compile = some f → ∀ file text, Keeps 0 Any (f file text) := by
    intro f hf
    rw [hc] at hf
    cases hf
  exact (Keeps.requires hnone _ _ _).mono (Nat.zero_le _)

theorem closed_startState (script : Text) : Closed (startState script) := by
  refine ⟨rfl, ?_⟩
  intro e he
  rw [List.mem_singleton.mp he]
  exact Nat.lt_succ_self 1

theorem greet_ready {site : Site} {settings : Value} {w : Worker} {session : Session}
    (h : (greet site settings w).2.phase = .ready session) :
    (greet site settings w).2.here = w.here ∧
    (∀ ts, session.pipeline.compiler = .ok ts → ts = site.compiler w.here) ∧ ∃ exported,
      runLoad (plainSurroundings site (site.compiler w.here)) settings
        (givenDirectory w.here settings) w.state =
          (.ok exported, (greet site settings w).2.state) := by
  unfold greet at h ⊢
  dsimp only at h ⊢
  rcases hr : runLoad (plainSurroundings site (site.compiler w.here)) settings
    (givenDirectory w.here settings) w.state with ⟨r, s⟩
  rw [hr] at h
  cases r with
  | error e =>
    cases e with
    | exited code => cases h
    | found es => cases h
    | raised v =>
      dsimp only at h
      cases hf : refusal site.engine s settings v with
      | none =>
        rw [hf] at h
        cases h
      | some frame =>
        rw [hf] at h
        cases h
  | ok exported =>
    dsimp only at h ⊢
    cases hf : readyFrame site.engine s exported with
    | none =>
      rw [hf] at h
      cases h
    | some frame =>
      rw [hf] at h
      cases h
      refine ⟨rfl, fun ts hts => ?_, exported, rfl⟩
      dsimp only [sessionOf] at hts
      split at hts <;> cases hts
      rfl

/-- A worker that is ready after its first line loaded the compiler package of its settings, and its
state is what loading left. -/
theorem started_ready {site : Site} {here : Location} {line : Text} {session : Session}
    (h : (started site here line).phase = .ready session) :
    (started site here line).here = here ∧
    (∀ ts, session.pipeline.compiler = .ok ts → ts = site.compiler here) ∧
    ∃ settings exported,
      (∀ tree, started (site.showing tree) here line =
        (greet (site.showing tree) settings (start site.script here)).2) ∧
      runLoad (plainSurroundings site (site.compiler here)) settings
        (givenDirectory here settings) (startState site.script) =
          (.ok exported, (started site here line).state) := by
  have hwaiting : (start site.script here).phase = .waiting := rfl
  cases hb : line.isBlank with
  | true =>
    simp only [started, readLine, hb, if_true] at h
    cases h
  | false =>
    cases hp : Json.Strict.parse line with
    | error e =>
      simp only [started, readLine, hb, hp, hwaiting, Bool.false_eq_true, if_false] at h
      cases h
    | ok settings =>
      cases ho : isObject settings with
      | false =>
        simp only [started, readLine, hb, hp, ho, hwaiting, Bool.false_eq_true, if_false] at h
        cases h
      | true =>
        have hread : ∀ tree, started (site.showing tree) here line =
            (greet (site.showing tree) settings (start site.script here)).2 := by
          intro tree
          simp only [started, readLine, hb, hp, ho, hwaiting, Bool.false_eq_true, if_false, if_true]
        have hself := hread site.tree
        have h : (started (site.showing site.tree) here line).phase = .ready session := h
        rw [hself] at h
        obtain ⟨h1, h2, exported, h3⟩ := greet_ready h
        have hself : started site here line = (greet site settings (start site.script here)).2 :=
          hself
        refine ⟨?_, h2, settings, exported, hread, ?_⟩
        · rw [hself]
          exact h1
        · rw [hself]
          exact h3

variable {site : Site} {here : Location} {line : Text} {session : Session} {t : FileTree}

theorem started_closed (h : (started site here line).phase = .ready session) :
    Closed (started site here line).state := by
  obtain ⟨-, -, settings, exported, -, hr⟩ := started_ready h
  have hk := (load_keeps (c := plainSurroundings site (site.compiler here)) rfl settings
    (givenDirectory here settings) _ (closed_startState site.script) (Nat.zero_le _)).1
  have hs := congrArg Prod.snd hr
  rw [runLoad] at hs
  rw [hs] at hk
  exact hk

/-- What loading the compiler package leaves remembered: no projects, and of look-ups what they
keep. -/
theorem started_remembers (h : (started site here line).phase = .ready session)
    {P : Memory → Prop} (hP : Answered (plainSurroundings site (site.compiler here))
      (fun m m' => m = m' ∧ P m)) (hempty : P .empty) :
    (started site here line).state.projects = [] ∧ P (started site here line).state.memory := by
  obtain ⟨-, -, settings, exported, -, hr⟩ := started_ready h
  have hsteady : Steady (plainSurroundings site (site.compiler here)) (fun _ => True)
      (Alike (fun m m' => m = m' ∧ P m) (fun k k' : Kept => k = k' ∧ k = [])) := by
    refine Modules.alike_steady hP ?_
    intro f hf
    cases hf
  have hl := (load_respects hsteady settings (givenDirectory here settings) _ _
    (⟨rfl, rfl, rfl, ⟨rfl, hempty⟩, rfl, rfl⟩ : Alike (fun m m' => m = m' ∧ P m)
      (fun k k' : Kept => k = k' ∧ k = []) (startState site.script) (startState site.script))).2
  have hs := congrArg Prod.snd hr
  rw [runLoad] at hs
  rw [hs] at hl
  exact ⟨hl.projects.2, hl.memory.2⟩

theorem started_repeats (h : (started site here line).phase = .ready session)
    (ht : t.LinkFree) (ho : site.tree.outline = t.outline)
    (hb : ∀ e ∈ (started site here line).state.cache, site.tree.bytes e.1 = t.bytes e.1) :
    started (site.showing t) here line = started site here line := by
  obtain ⟨-, -, settings, exported, hread, hr⟩ := started_ready h
  have hload : ∀ directory, Repeats site.tree t
      (loadPackage (plainSurroundings site (site.compiler here)) settings directory)
      (loadPackage (plainSurroundings (site.showing t) (site.compiler here)) settings
        directory) := by
    intro directory
    unfold loadPackage
    refine (Repeats.refl _).bind (fun file => ?_) fun file => ?_
    · exact Modules.require_repeats (c := plainSurroundings site (site.compiler here)) rfl
        (Modules.lookup_eq ht ho) (Modules.nearestDescription_eq ht ho) _ _ _
    · exact Modules.retains_of_grown fun start => (Modules.grown_steady start fun f hf => by
        cases hf).requires _ _ _
  have hrepeat := hload _ _ _ _ hr hb
  have hself : started site here line = (greet site settings (start site.script here)).2 :=
    hread site.tree
  have hrun : runLoad (plainSurroundings (site.showing t) (site.compiler here)) settings
      (givenDirectory here settings) (startState site.script) =
      runLoad (plainSurroundings site (site.compiler here)) settings
        (givenDirectory here settings) (startState site.script) := hrepeat.trans hr.symm
  rw [hread t, hself]
  unfold greet
  dsimp only [start]
  rw [hrun]

/-! ## Replies -/

/-- A worker that took its settings from a line, and the lines that it read after it. -/
structure History where
  /-- Where the worker was started, with the files of then. -/
  site : Site
  here : Location
  settings : Text
  visits : List Visit

namespace History
variable (x : History)

/-- The worker when it took its settings. -/
def first : Worker := started x.site x.here x.settings

def aged : Worker := x.visits.foldl (visit x.site) x.first

def fresh (t : FileTree) : Worker := started (x.site.showing t) x.here x.settings

def reply (t : FileTree) (w : Worker) (line : Text) : List Text :=
  (w.readLine (x.site.showing t) line).1

/-- The worker was ready, each of its lines was quiet, and it is not ended. -/
structure IsCalm (session : Session) : Prop where
  ready : x.first.phase = .ready session
  quiet : AreQuiet x.site x.visits x.first
  alive : x.aged.exitCode? = none

/-- A worker that is started now loads the same as the worker did, and no project changed. -/
structure StartsSame (t : FileTree) : Prop where
  phase : (x.fresh t).phase = x.first.phase
  heap : (x.fresh t).state.heap = x.first.state.heap
  cache : (x.fresh t).state.cache = x.first.state.cache
  count : (x.fresh t).state.count = x.first.state.count
  projects : ∀ v ∈ x.visits, SameProjects (x.site.compiler x.here) v.tree t

/-- What look-ups are tried with on behalf of requests. -/
def extensions : List Text := ([".js", ".json", ".node"] : List Text) ++ Modules.compiledExtensions

@[simp] theorem surroundings_extensions (site : Site) (ts : TypeScript) (p : Pipeline) :
    (surroundings site ts p).extensions = extensions := by
  simp only [Modules.Surroundings.extensions, surroundings, Option.isSome_some, if_true,
    extensions]

end History

open History (extensions surroundings_extensions)
variable {x : History}

/-- What a calm history leaves of its worker, with what all its look-ups and compilations keep. -/
theorem aged_calm (h : x.IsCalm session) {P : Memory → Prop} {Q : Kept → Prop}
    (hk : ∀ v ∈ x.visits, Keeping x.site x.here session.pipeline P Q v)
    (hm : P x.first.state.memory) (hp : Q x.first.state.projects) :
    Aged session P Q x.first x.aged := by
  obtain ⟨hhere, -⟩ := started_ready h.ready
  have hhere : x.first.here = x.here := hhere
  refine visits_aged ⟨rfl, h.ready, rfl, rfl, rfl, hm, hp⟩ (started_closed h.ready) ?_ h.quiet
    h.alive
  rw [hhere]
  exact hk

/-- After a calm history the options that are kept are those of the projects as they are now. -/
theorem aged_holds (h : x.IsCalm session)
    (hp : ∀ v ∈ x.visits, SameProjects (x.site.compiler x.here) v.tree t) :
    Aged session (fun _ => True) (session.pipeline.Holds t) x.first x.aged := by
  obtain ⟨-, hcompiler, -⟩ := started_ready h.ready
  refine aged_calm h (fun v hv => ⟨answered_same _, ?_⟩) trivial ?_
  · rintro file source k k' ⟨rfl, hk⟩
    have hback : session.pipeline.Holds v.tree k := fun ts hts =>
      (hk ts hts).congr (hcompiler ts hts ▸ (hp v hv).symm)
    obtain ⟨-, hkept⟩ := session.pipeline.compile_settled file source hback
    exact ⟨rfl, rfl, fun ts hts => (hkept ts hts).congr (hcompiler ts hts ▸ hp v hv)⟩
  · have hnil : x.first.state.projects = [] :=
      (started_remembers (P := fun _ => True) h.ready (answered_same _) trivial).1
    rw [hnil]
    exact fun _ _ => nofun

/-- Where no look-up tells the memories of a worker with a calm history and of one that is started
now apart, no line does: their replies are the same. -/
theorem reply_same (h : x.IsCalm session) (hs : x.StartsSame t)
    (hm : SameAnswers x.site.engine t extensions x.aged.state.memory (x.fresh t).state.memory)
    (line : Text) : x.reply t x.aged line = x.reply t (x.fresh t) line := by
  have haged := aged_holds h hs.projects
  have hready : (x.fresh t).phase = .ready session := hs.phase.trans h.ready
  obtain ⟨hhere, -⟩ := started_ready h.ready
  obtain ⟨hfresh, -⟩ := started_ready hready
  have hnil : (x.fresh t).state.projects = [] :=
    (started_remembers (P := fun _ => True) hready (answered_same _) trivial).1
  have hplace : x.aged.here = (x.fresh t).here := haged.here.trans (hhere.trans hfresh.symm)
  have halike : Alike (SameAnswers x.site.engine t extensions)
      (fun k k' => session.pipeline.Holds t k ∧ session.pipeline.Holds t k')
      x.aged.state (x.fresh t).state := by
    refine ⟨haged.heap.trans hs.heap.symm, haged.cache.trans hs.cache.symm,
      haged.count.trans hs.count.symm, hm, haged.projects, ?_⟩
    rw [hnil]
    exact fun _ _ => nofun
  unfold History.reply readLine
  rw [haged.phase, hready]
  by_cases hb : line.isBlank = true
  · simp only [hb, if_true]
  · simp only [hb, Bool.false_eq_true, if_false]
    cases Json.Strict.parse line with
    | error e => rfl
    | ok request =>
      dsimp only
      rw [hplace]
      have hM : Answered (surroundings (x.site.showing t) (x.site.compiler (x.fresh t).here)
          session.pipeline) (SameAnswers x.site.engine t extensions) := by
        intro q
        rw [surroundings_extensions]
        exact Modules.ask_respects x.site.engine t extensions q
      exact handle_alike hM (alikeFor_holds session.pipeline t) request hplace halike

theorem started_current (h : (started (site.showing t) here line).phase = .ready session)
    (ht : t.LinkFree) :
    Current site.engine t extensions (started (site.showing t) here line).state.memory.found
      (started (site.showing t) here line).state.memory := by
  obtain ⟨-, hm⟩ := started_remembers h (P := Current site.engine t
    (plainSurroundings (site.showing t) (site.compiler here)).extensions [])
    (fun q => Current.ask_keeps ht q) (Modules.current_empty site.engine t _)
  exact ⟨Modules.settled_first hm.settled.sound, hm.modules⟩

theorem fresh_current (h : (x.fresh t).phase = .ready session) (ht : t.LinkFree) :
    Current x.site.engine t extensions (x.fresh t).state.memory.found (x.fresh t).state.memory :=
  started_current h ht

/-- What look-ups found stays up to date while files are only written over, other than descriptions. -/
theorem aged_settled (h : x.IsCalm session) (ht : t.LinkFree)
    (hm : Modules.Settled t extensions x.first.state.memory.found x.first.state.memory)
    (ho : ∀ v ∈ x.visits, v.tree.outline = t.outline) :
    Modules.Settled t extensions x.first.state.memory.found x.aged.state.memory := by
  refine (aged_calm (Q := fun _ => True) h (fun v hv => ⟨?_, ?_⟩) hm trivial).memory
  · intro q
    rw [surroundings_extensions]
    exact Modules.Settled.ask_keeps ht (Modules.lookup_eq ht (ho v hv))
      (Modules.nearestDescription_eq ht (ho v hv)) q
  · rintro file source k k' ⟨rfl, -⟩
    exact ⟨rfl, rfl, trivial⟩

/-- Files were only written over: no descriptions, nothing that was loaded at the start, no project and
no ES module that was evaluated. -/
structure History.OnlyWritten (x : History) (t : FileTree) : Prop where
  start : x.site.tree.outline = t.outline
  visits : ∀ v ∈ x.visits, v.tree.outline = t.outline
  bytes : ∀ e ∈ x.first.state.cache, x.site.tree.bytes e.1 = t.bytes e.1
  projects : ∀ v ∈ x.visits, SameProjects (x.site.compiler x.here) v.tree t
  modules : Modules.AreCurrent x.site.engine t x.aged.state.memory.modules

theorem written_over (h : x.IsCalm session) (ht : t.LinkFree) (hw : x.OnlyWritten t) :
    x.StartsSame t ∧
      Current x.site.engine t extensions (x.fresh t).state.memory.found x.aged.state.memory := by
  have hsame : x.fresh t = x.first := started_repeats h.ready ht hw.start hw.bytes
  have hready : (x.fresh t).phase = .ready session := (congrArg Worker.phase hsame).trans h.ready
  have hfirst := fresh_current hready ht
  rw [hsame] at hfirst ⊢
  refine ⟨⟨congrArg Worker.phase hsame, ?_, ?_, ?_, hw.projects⟩,
    aged_settled h ht hfirst.settled hw.visits, hw.modules⟩
  · rw [hsame]
  · rw [hsame]
  · rw [hsame]

theorem ready_of_isReady {w : Worker}
    (h : (match w.phase with | .ready _ => true | _ => false) = true) :
    ∃ session, w.phase = .ready session := by
  cases hp : w.phase with
  | ready session => exact ⟨session, rfl⟩
  | _ =>
    rw [hp] at h
    cases h

deriving instance DecidableEq for Except

def sampleTree (script : Text) : FileTree where
  entries := [(["w"], .directory), (["w", "node_modules"], .directory),
    (["w", "node_modules", "typescript.js"], .file []),
    (["w", "s.js"], .file (Text.Utf8.encode script)), (["w", "s.json"], .file [51])]
  cwd := ["w"]

/-- A script whose module exports a number. -/
def exporting (n : Nat) : Text :=
  "run([\x7b\"do\":\"exports\",\"value\":" ++ Text.ofNat n ++ "\x7d]);"

def asking : Text :=
  "\x7b\"path\":\"a.ts\",\"source\":\"" ++
    ("[\x7b\\\"do\\\":\\\"require\\\",\\\"id\\\":\\\"./s\\\",\\\"as\\\":\\\"r\\\"\x7d]" : Text) ++
    "\"\x7d"

def sample : History where
  site := {
    engine := .plain
    tree := sampleTree (exporting 1)
    script := "/worker.js"
    package := "/w/node_modules/typescript.js"
    compiler := TypeScript.Scripted.compiler }
  here := ["w"]
  settings := "\x7b\"typescript\":\"typescript\"\x7d"
  visits := [⟨sampleTree (exporting 1), asking⟩]

theorem sample_calm : ∃ session, sample.IsCalm session := by
  obtain ⟨session, h⟩ : ∃ session, sample.first.phase = .ready session :=
    ready_of_isReady (by decide +kernel)
  exact ⟨session, h, ⟨by decide +kernel, trivial⟩, by decide +kernel⟩

theorem sampleTree_hasNone (script : Text) {dir : Location} (hdir : Path.AreProper dir) :
    TypeScript.Project.HasNone (sampleTree script) dir :=
  TypeScript.Project.hasNone_of_names (by simp [FileTree.LinkFree, sampleTree, Entry.isLink])
    (by simp only [sampleTree, List.forall_mem_cons]; decide) hdir

def rewritten : FileTree := sampleTree (exporting 2)

def remaining : FileTree := (sampleTree (exporting 1)).remove ["w", "s.js"]

end ConfigLoader.Worker
