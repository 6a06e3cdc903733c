import ConfigLoader.Proofs.Modules.Elsewhere
import ConfigLoader.Proofs.TypeScript.Consulted
import ConfigLoader.Proofs.Worker.Sources

/-! # Sources and files

A request brings its source with it. What a file holds at the path of the request, and whether there
is one, makes a difference to the reply only if a look-up on the way comes upon that file.
-/
namespace ConfigLoader.Worker
open Modules (Event State Surroundings Matching Agree Twin Placed)
open TypeScript (Pipeline Overlooks)
open TypeScript.Project (LooksElsewhere ReadsConfigurations Extending)

def around (site : Site) (w : Worker) : Surroundings :=
  match w.phase with
  | .ready session => surroundings site (site.compiler w.here) session.pipeline
  | _ => plainSurroundings site (site.compiler w.here)

def pipeline? (w : Worker) : Option Pipeline :=
  match w.phase with
  | .ready session | .failed session => some session.pipeline
  | _ => none

abbrev Site.without (site : Site) (l : Location) : Site := site.showing (site.tree.without l)

def found (site : Site) (w : Worker) (parent request : Text) (m : Modules.Memory) :
    Except Script.Failure (Option Text) × Modules.Memory :=
  (Modules.lookup site.tree (around site w).extensions parent request).run.run m

/-- An event does not come upon a place: a look-up is settled as if nothing was there, to a file
that reads the same then, the kind of a file is told so, and a compilation passes the place by. -/
def PassesBy (site : Site) (l : Location) (w : Worker) : Event → Prop
  | .asked parent request m =>
    found (site.without l) w parent request m = found site w parent request m ∧
      ∀ file, (found site w parent request m).1 = .ok (some file) →
        (site.tree.without l).bytes file = site.tree.bytes file
  | .opened file m =>
    (Modules.kindOf (site.tree.without l) file).run.run m =
      (Modules.kindOf site.tree file).run.run m
  | .compiled file source kept =>
    ∀ p, w.pipeline? = some p → p.PassesBy site.tree l file source kept
  | _ => True

variable {site : Site} {line : Text} {w : Worker} {l : Location}

/-! ## One line -/

theorem around_matching (site : Site) (w : Worker) (l : Location) :
    Matching (around site w) (around (site.without l) w) := by
  unfold around
  cases w.phase <;> exact ⟨rfl, rfl, rfl, rfl⟩

@[simp] theorem around_tree (site : Site) (w : Worker) : (around site w).tree = site.tree := by
  unfold around
  cases w.phase <;> rfl

theorem PassesBy.agree (hf : site.tree.FileAt l) (hl : l ≠ []) {x : Event}
    (h : PassesBy site l w x) : Agree (around site w) (around (site.without l) w) x := by
  cases x with
  | asked parent request m =>
    simp only [PassesBy, found, (around_matching site w l).extensions] at h
    simp only [Agree, around_tree]
    exact h
  | opened file m =>
    simp only [Agree, around_tree]
    exact h
  | compiled file source kept =>
    intro f f' hc hc' s hs
    unfold around at hc hc'
    cases hp : w.phase with
    | ready session =>
      simp only [hp] at hc hc'
      cases hc
      cases hc'
      have hpipe : w.pipeline? = some session.pipeline := by simp only [pipeline?, hp]
      rw [compile_run, compile_run, hs, Pipeline.compile_without hf hl (h _ hpipe)]
    | _ =>
      simp only [hp] at hc
      cases hc
  | _ => exact trivial

/-- A line is a request, the settings, or nothing that files have a part in. -/
theorem readLine_eq (site : Site) (line : Text) (w : Worker) : w.readLine site line =
    if line.isBlank then ([], w)
    else match w.phase, Json.Strict.parse line with
      | .ended _, _ => ([], w)
      | _, .error e => ([], w.crash [e.message line, line])
      | .ready session, .ok v | .failed session, .ok v => handle site (around site w) session v w
      | .waiting, .ok v => if isObject v then greet site v w else ([], w.crash []) := by
  unfold readLine around
  cases line.isBlank with
  | true => rfl
  | false => cases w.phase <;> cases Json.Strict.parse line <;> rfl

theorem pipeline_session {session : Session}
    (hp : w.phase = .ready session ∨ w.phase = .failed session) :
    w.pipeline? = some session.pipeline := by
  rcases hp with hp | hp <;> simp only [pipeline?, hp]

theorem lineEvents_request {session : Session}
    (hp : w.phase = .ready session ∨ w.phase = .failed session) (hb : line.isBlank = false)
    {request : Value} (hparse : Json.Strict.parse line = .ok request) {e : Errand}
    (he : errandOf? site (around site w) session request w = some e) :
    lineEvents site line w = e.events site.script w.state := by
  unfold around at he
  unfold lineEvents errand? hasSettings
  rcases hp with hp | hp <;> simp only [hp] at he <;>
    simp only [hb, hp, hparse, he, Bool.false_eq_true, if_false, if_true]

theorem lineEvents_settings (hp : w.phase = .waiting) (hb : line.isBlank = false) {settings : Value}
    (hparse : Json.Strict.parse line = .ok settings) (ho : isObject settings = true) :
    lineEvents site line w =
      packageEvents (around site w) settings (givenDirectory w.here settings) w.state := by
  unfold lineEvents hasSettings greetingEvents around
  simp only [hb, hp, hparse, ho, Bool.not_false, Bool.and_self, if_true]
  rfl

section
variable (hf : site.tree.FileAt l) (hl : l ≠ [])
include hf hl

theorem execute_without {p : Pipeline} {script file source : Text} {s : State}
    (hp : w.pipeline? = some p)
    (h : ∀ x ∈ Errand.events ⟨around site w, p, file, source⟩ script s, PassesBy site l w x) :
    (execute (around (site.without l) w) p script file source).run.run s =
      (execute (around site w) p script file source).run.run s := by
  have hcompile := Pipeline.compile_without hf hl
    (h _ (List.mem_append_left _ (List.mem_singleton_self _)) p hp)
  have hentry := fun x hx => (h x (List.mem_append_right _ hx)).agree hf hl
  unfold execute
  dsimp only at hentry
  rw [Modules.run_bind, Modules.run_bind, compile_run, compile_run, around_tree, around_tree,
    hcompile]
  rw [compile_run, around_tree] at hentry
  dsimp only at hentry ⊢
  cases hstop : stopOf (p.compile site.tree file source s.projects).1 with
  | error e => rfl
  | ok code =>
    rw [hstop] at hentry
    exact Modules.entry_twin (around_matching site w l) script file code _ hentry

theorem handle_without {session : Session} (hp : w.pipeline? = some session.pipeline)
    (request : Value) (h : ∀ e, errandOf? site (around site w) session request w = some e →
      ∀ x ∈ e.events site.script w.state, PassesBy site l w x) :
    handle (site.without l) (around (site.without l) w) session request w =
      handle site (around site w) session request w := by
  unfold handle
  cases hfile : requestFile? w session.directory request with
  | none => rfl
  | some file =>
    have hexecute := execute_without hf hl hp (h _ (by rw [errandOf?, hfile]; rfl))
    have hengine : (around (site.without l) w).engine = (around site w).engine :=
      (around_matching site w l).engine
    simp only [evaluate, hexecute, hengine]

theorem greet_without (hw : w.phase = .waiting) (settings : Value)
    (h : ∀ x ∈ packageEvents (around site w) settings (givenDirectory w.here settings) w.state,
      PassesBy site l w x) : greet (site.without l) settings w = greet site settings w := by
  have haround : ∀ site : Site,
      around site w = plainSurroundings site (site.compiler w.here) := by
    intro site
    simp only [around, hw]
  have htwin : Twin (around site w) (around (site.without l) w)
      (loadPackage (around site w) settings (givenDirectory w.here settings))
      (loadPackage (around (site.without l) w) settings (givenDirectory w.here settings))
      (packageEvents (around site w) settings (givenDirectory w.here settings)) :=
    (Twin.same _ _).andThen fun _ file _ _ => by
      rw [(around_matching site w l).engine]
      exact Modules.require_twin (around_matching site w l) _ [file] (field? settings "typescript")
  have hrun := htwin w.state fun x hx => (h x hx).agree hf hl
  rw [haround, haround] at hrun
  unfold greet
  dsimp only [runLoad] at hrun ⊢
  rw [hrun]

/-- A line is read as if the file was not there, if nothing on the way comes upon it. -/
theorem readLine_without (h : ∀ x ∈ lineEvents site line w, PassesBy site l w x) :
    w.readLine (site.without l) line = w.readLine site line := by
  rw [readLine_eq, readLine_eq]
  cases hb : line.isBlank with
  | true => simp only [if_true]
  | false =>
    simp only [Bool.false_eq_true, if_false]
    cases hparse : Json.Strict.parse line with
    | error e => cases w.phase <;> rfl
    | ok v =>
      cases hp : w.phase with
      | ended code => rfl
      | ready session =>
        exact handle_without hf hl (pipeline_session (.inl hp)) v fun e he =>
          lineEvents_request (.inl hp) hb hparse he ▸ h
      | failed session =>
        exact handle_without hf hl (pipeline_session (.inr hp)) v fun e he =>
          lineEvents_request (.inr hp) hb hparse he ▸ h
      | waiting =>
        dsimp only
        split
        · next ho =>
          rw [lineEvents_settings hp hb hparse ho] at h
          exact greet_without hf hl hp v h
        · rfl

end

/-! ## Trees without links -/

/-- An event leads elsewhere than to a place: a look-up does not find it, and for a source that is
compiled neither the options of projects nor the check of another source ask for it. -/
def LeadsElsewhere (site : Site) (l : Location) (w : Worker) : Event → Prop
  | .asked parent request m => (found site w parent request m).1 ≠ .ok (some l.text)
  | .compiled file source kept => ∀ p ts, w.pipeline? = some p → p.compiler = .ok ts →
      LooksElsewhere ts site.tree l (Path.toLocation file).parent ∧
      (file ≠ l.text → p.typeCheck = true → ∀ options,
        (p.effective ts site.tree file kept).1 = .ok options →
          Overlooks ts site.tree p.here l file source options)
  | _ => True

structure Based (compiler : Location → TypeScript) (dir : Location) (w : Worker) : Prop where
  here : w.here = dir
  pipeline : ∀ p, w.pipeline? = some p →
    p.here = dir ∧ ∀ ts, p.compiler = .ok ts → ts = compiler dir

theorem based_start (site : Site) (dir : Location) :
    Based site.compiler dir (start site.script dir) := ⟨rfl, nofun⟩

theorem pipeline_ended {v : Worker} (h : v.exitCode?.isSome = true) : v.pipeline? = none := by
  obtain ⟨code, hc⟩ := ended_of_exitCode h
  simp only [pipeline?, hc]

theorem Based.readLine (site : Site) {dir : Location} (h : Based site.compiler dir w)
    (line : Text) : Based site.compiler dir (w.readLine site line).2 := by
  rcases readLine_follows site line w with hw | ⟨-, settings, hw⟩
  · refine ⟨hw.here.trans h.here, fun p hp => ?_⟩
    rcases hw.phase with hphase | hended
    · refine h.pipeline p ?_
      unfold pipeline? at hp ⊢
      rwa [hphase] at hp
    · rw [pipeline_ended hended] at hp
      cases hp
  · rw [hw]
    obtain ⟨hhere, hgreet⟩ := greet_follows site settings w
    refine ⟨hhere.trans h.here, fun p hp => ?_⟩
    rcases hgreet with hended | ⟨compiler, hcompiler, hphase⟩
    · rw [pipeline_ended hended] at hp
      cases hp
    · rw [pipeline_session hphase] at hp
      cases hp
      exact ⟨h.here, fun ts hts => h.here ▸ hcompiler ts hts⟩

/-- What a worker remembers of look-ups stays placed, and so it is in every event of a line. -/
theorem line_placed (site : Site) (ht : site.tree.LinkFree) (hf : site.tree.FileAt l) (hl : l ≠ [])
    (hname : l.name ≠ descriptionName) (hm : Placed l w.state.memory) (line : Text) :
    Placed l (w.readLine site line).2.state.memory ∧
      ∀ x ∈ lineEvents site line w, ∀ m, x.memory? = some m → Placed l m := by
  cases hw : w.hasSettings with
  | true =>
    obtain ⟨notes, hs⟩ := readLine_errand site line hw
    rw [hs, lineEvents, hw, if_pos rfl]
    cases he : errand? site line w with
    | none => exact ⟨hm, fun _ hx => absurd hx List.not_mem_nil⟩
    | some e =>
      obtain ⟨-, htree, hlearn⟩ := errand_around he
      obtain ⟨rest, hrest, hpath⟩ := errand_path site.script (htree ▸ hlearn) w.state
      obtain ⟨h1, h2⟩ := hpath.placed (htree ▸ ht) (htree ▸ hf) hl hname hm
      dsimp only
      rw [(Modules.sweep_frame _ _).2.2.1, hrest]
      refine ⟨h1, List.forall_mem_cons.mpr ⟨fun m hm => ?_, h2⟩⟩
      cases hm
  | false =>
    rw [lineEvents, hw]
    simp only [Bool.false_eq_true, if_false]
    rcases readLine_greeting site line hw with ⟨notes, hs, he⟩ | ⟨settings, notes, hs, he⟩
    · rw [hs, he]
      exact ⟨hm, fun _ hx => absurd hx List.not_mem_nil⟩
    · rw [hs, he]
      exact (package_path (plainSurroundings site (site.compiler w.here)) (fun _ _ k => k)
        (plainSurroundings_learns _ _ _) settings (givenDirectory w.here settings)
        w.state).placed ht hf hl hname hm

theorem LeadsElsewhere.passesBy (ht : site.tree.LinkFree) (hf : site.tree.FileAt l) (hl : l ≠ [])
    (hcwd : Path.AreProper site.tree.cwd)
    (hname : l.name ≠ descriptionName) (hw : Based site.compiler site.tree.cwd w) {x : Event}
    (hm : ∀ m, x.memory? = some m → Placed l m) (h : LeadsElsewhere site l w x) :
    PassesBy site l w x := by
  cases x with
  | asked parent request m =>
    obtain ⟨-, hbeside, hfound⟩ := Modules.lookup_misses ht hf hl hname
      (around site w).extensions parent request m (hm m rfl)
    refine ⟨?_, fun file hfile => ?_⟩
    · rw [found, (around_matching site w l).extensions]
      exact hfound.resolve_left h
    · refine Modules.Beside.bytes_without ht hf hl (hbeside file hfile) ?_
      rintro rfl
      exact h hfile
  | opened file m => exact (Modules.kindOf_settles ht hf hl hname file m (hm m rfl)).2
  | compiled file source kept =>
    intro p hp
    exact Pipeline.passesBy_linkFree ht hcwd (hw.pipeline p hp).1 (fun ts hts => (h p ts hp hts).1)
      fun hcheck hfile ts options hts => (h p ts hp hts).2 hfile hcheck options
  | _ => exact trivial

/-! ## Many lines -/

/-- All events of the lines that a worker reads are of some kind. -/
def Throughout (site : Site) (P : Worker → Event → Prop) : Worker → List Text → Prop
  | _, [] => True
  | w, line :: lines =>
    (∀ x ∈ lineEvents site line w, P w x) ∧ Throughout site P (w.readLine site line).2 lines

theorem readLines_without (site : Site) (hf : site.tree.FileAt l) (hl : l ≠ []) {lines : List Text}
    (h : Throughout site (PassesBy site l) w lines) :
    readLines (site.without l) w lines = readLines site w lines := by
  induction lines generalizing w with
  | nil => rfl
  | cons line lines ih =>
    simp only [readLines, readLine_without hf hl h.1, ih h.2]

/-- A worker that was started in a directory and has read lines since. -/
def lived (site : Site) (dir : Location) (visits : List Visit) : Worker :=
  visits.foldl (visit site) (start site.script dir)

/-- A worker as files without links leave it, in which nothing but a file stood at a place. -/
structure Grounded (compiler : Location → TypeScript) (dir l : Location) (w : Worker) : Prop where
  based : Based compiler dir w
  placed : Placed l w.state.memory

theorem Grounded.visits {dir : Location} (hl : l ≠ []) (hname : l.name ≠ descriptionName)
    {visits : List Visit} (hvisits : ∀ v ∈ visits, v.tree.LinkFree ∧ v.tree.FileAt l)
    (h : Grounded site.compiler dir l w) :
    Grounded site.compiler dir l (visits.foldl (visit site) w) := by
  induction visits generalizing w with
  | nil => exact h
  | cons v visits ih =>
    obtain ⟨ht, hf⟩ := hvisits v (List.mem_cons_self ..)
    exact ih (fun v hv => hvisits v (List.mem_cons_of_mem _ hv))
      ⟨Based.readLine (site.showing v.tree) h.based v.line,
        (line_placed (site.showing v.tree) ht hf hl hname h.placed v.line).1⟩

/-- Without links lines that lead elsewhere do not come upon the file, by induction on them. -/
theorem Throughout.passesBy (ht : site.tree.LinkFree) (hf : site.tree.FileAt l) (hl : l ≠ [])
    (hcwd : Path.AreProper site.tree.cwd) (hname : l.name ≠ descriptionName) {lines : List Text}
    (hw : Grounded site.compiler site.tree.cwd l w)
    (h : Throughout site (LeadsElsewhere site l) w lines) :
    Throughout site (PassesBy site l) w lines := by
  induction lines generalizing w with
  | nil => exact trivial
  | cons line lines ih =>
    obtain ⟨h1, h2⟩ := line_placed site ht hf hl hname hw.placed line
    exact ⟨fun x hx => (h.1 x hx).passesBy ht hf hl hcwd hname hw.based (h2 x hx),
      ih ⟨Based.readLine site hw.based line, h1⟩ h.2⟩

def ownPlace : Location := ["w", "a.ts"]

def holding (text : Text) : FileTree := typed.put ownPlace (.file (Text.Utf8.encode text))

/-- A request for what the TypeScript file exports and for what a check finds at its own place. -/
def askingTouched : Text :=
  "\x7b\"path\":\"a.ts\",\"source\":\"\x7b\\\"touch\\\":[\\\"a.ts\\\"],\\\"program\\\":" ++
    ("[\x7b\\\"do\\\":\\\"require\\\",\\\"id\\\":\\\"./d/b\\\",\\\"as\\\":\\\"r\\\"\x7d," : Text) ++
    ("\x7b\\\"do\\\":\\\"touched\\\",\\\"as\\\":\\\"t\\\"\x7d]\x7d\"\x7d" : Text)

/-- Whether an event leads elsewhere where the compiler is scripted, the place is that of no
configuration and checks of other sources name no files. -/
def leadsElsewhere (site : Site) (l : Location) (w : Worker) : Event → Bool
  | .asked parent request m => match (found site w parent request m).1 with
    | .ok (some file) => file != l.text
    | _ => true
  | .compiled file source _ => file == l.text || (Path.resolve w.here file).text == file &&
      (TypeScript.Scripted.Plan.ofSource w.here source).touched.isEmpty
  | _ => true

theorem overlooks_scripted {dir : Location} (hw : Based TypeScript.Scripted.compiler dir w)
    {file source : Text} {kept : TypeScript.Project.Kept}
    (h : leadsElsewhere site l w (.compiled file source kept) = true) (hfile : file ≠ l.text)
    {p : Pipeline} (hp : w.pipeline? = some p) {ts : TypeScript} (hts : p.compiler = .ok ts)
    (options : Entries) : Overlooks ts site.tree p.here l file source options := by
  obtain ⟨hhere, hcompiler⟩ := hw.pipeline p hp
  simp only [leadsElsewhere, hw.here, Bool.or_eq_true, beq_iff_eq, hfile, false_or,
    Bool.and_eq_true, List.isEmpty_iff] at h
  rw [hcompiler ts hts, hhere]
  exact TypeScript.Scripted.overlooks h.1 h.2 options

theorem LeadsElsewhere.of_scripted {dir : Location} (hw : Based TypeScript.Scripted.compiler dir w)
    (ht : site.tree.LinkFree) (hf : site.tree.FileAt l) (hl : l ≠ [])
    (hname : l.name ≠ Text.ofString "tsconfig.json") {x : Event}
    (h : leadsElsewhere site l w x = true) : LeadsElsewhere site l w x := by
  cases x with
  | asked parent request m =>
    intro hfound
    rw [leadsElsewhere, hfound] at h
    simp at h
  | compiled file source kept =>
    refine fun p ts hp hts => ⟨?_, fun hfile _ options _ => overlooks_scripted hw h hfile hp hts options⟩
    obtain ⟨-, hcompiler⟩ := hw.pipeline p hp
    rw [hcompiler ts hts]
    exact TypeScript.Project.looksElsewhere (TypeScript.Scripted.compiler_reads dir) ht hf hl hname
      (fun _ _ _ _ => nofun) (Pipeline.parent_proper file)
  | _ => exact trivial

theorem Throughout.of_scripted {dir : Location} (hw : Based TypeScript.Scripted.compiler dir w)
    (ht : site.tree.LinkFree) (hf : site.tree.FileAt l) (hl : l ≠ [])
    (hname : l.name ≠ Text.ofString "tsconfig.json")
    (h : (lineEvents site line w).all (leadsElsewhere site l w) = true) :
    Throughout site (LeadsElsewhere site l) w [line] :=
  ⟨fun x hx => .of_scripted hw ht hf hl hname (List.all_eq_true.mp h x hx), trivial⟩

theorem based_checking : Based checking.site.compiler checking.here checking.first :=
  Based.readLine checking.site (based_start checking.site checking.here) checking.settings

/-- Neither the request of a module of another place leads to a place nor the check of another source. -/
def ByOthers (site : Site) (l : Location) (w : Worker) : Event → Prop
  | .asked parent request m =>
    parent ≠ l.text → (found site w parent request m).1 ≠ .ok (some l.text)
  | .compiled file source kept => file ≠ l.text → ∀ p ts options, w.pipeline? = some p →
      p.typeCheck = true → p.compiler = .ok ts → (p.effective ts site.tree file kept).1 = .ok options →
        Overlooks ts site.tree p.here l file source options
  | _ => True

theorem Throughout.byOthers {dir : Location} (hw : Based TypeScript.Scripted.compiler dir w)
    (h : (lineEvents site line w).all (fun x => match x with
      | .asked parent request m => parent == l.text || leadsElsewhere site l w (.asked parent request m)
      | x => leadsElsewhere site l w x) = true) :
    Throughout site (ByOthers site l) w [line] := by
  refine ⟨fun x hx => ?_, trivial⟩
  have h := List.all_eq_true.mp h x hx
  cases x with
  | asked parent request m =>
    intro hparent hfound
    simp [leadsElsewhere, hfound, hparent] at h
  | compiled file source kept =>
    exact fun hfile p ts options hp _ hts _ => overlooks_scripted hw h hfile hp hts options
  | _ => exact trivial

def defaulting (n : Nat) : Text := "[\x7b\"do\":\"default\",\"value\":" ++ Text.ofNat n ++ "\x7d]"

def askingOwn : Text :=
  "\x7b\"path\":\"a.ts\",\"source\":\"" ++
    ("[\x7b\\\"do\\\":\\\"require\\\",\\\"id\\\":\\\"./a\\\",\\\"as\\\":\\\"r\\\"\x7d]" : Text) ++
    "\"\x7d"

/-- The typed sample with a configuration that is a link to the place of the source. -/
def linked (n : Nat) : FileTree :=
  (holding (giving n)).put ["w", "tsconfig.json"] (.link "a.ts")

def askingOptions : Text :=
  "\x7b\"path\":\"a.ts\",\"source\":\"" ++
    ("[\x7b\\\"do\\\":\\\"options\\\",\\\"as\\\":\\\"o\\\"\x7d]" : Text) ++ "\"\x7d"

end ConfigLoader.Worker
