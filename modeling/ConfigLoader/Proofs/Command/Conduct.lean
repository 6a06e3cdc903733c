import ConfigLoader.Proofs.Command.Reports
import ConfigLoader.Proofs.ConfigFile.Opening
import ConfigLoader.Proofs.Loader.Call
import ConfigLoader.Service.Script

/-! # What a run does to services and to the output

A run is observed: services are numbered as they are built, and what is done to them and to the output is
noted in order. Whatever the services do, one is built for a module only, is asked once and then closed
once, and nothing is written before that, or in a run that fails.
-/
namespace ConfigLoader.Command
open ConfigFile (standardTable open? Loaded loadStandard)

variable {W S : Type}

/-! ## Observing -/

inductive Deed
  /-- The service that was built, or why there is none. -/
  | build (r : Except Fault Nat)
  | compile (k : Nat) (r : Except Fault Value)
  | close (k : Nat) (r : Except Fault Unit)
  | write (t : Text)

/-- A world with what was done in it so far, in order. -/
structure Observed (W : Type) where
  world : W
  /-- How many services were built. -/
  built : Nat
  deeds : List Deed

/-- The world after one more deed. -/
def Observed.after (o : Observed W) (built : Nat) (d : Deed) (m : Logged W) : Logged (Observed W) :=
  ⟨⟨m.world, built, o.deeds ++ [d]⟩, m.log⟩

def observed (ops : ServiceOps W S) : ServiceOps (Observed W) (Nat × S) where
  create l :=
    let n := l.world.built
    match ops.create (l.map Observed.world) with
    | (.ok s, m) => (.ok (n, s), l.world.after (n + 1) (.build (.ok n)) m)
    | (.error f, m) => (.error f, l.world.after n (.build (.error f)) m)
  compile path content s l :=
    let (r, s', m) := ops.compile path content s.2 (l.map Observed.world)
    (r, (s.1, s'), l.world.after l.world.built (.compile s.1 r) m)
  close s l :=
    let (r, m) := ops.close s.2 (l.map Observed.world)
    (r, l.world.after l.world.built (.close s.1 r) m)

theorem observed_over (ops : ServiceOps W S) :
    (observed ops).Over ops Observed.world Prod.snd where
  create l := by
    simp only [observed]
    rcases ops.create (l.map Observed.world) with ⟨r, m⟩
    cases r <;> rfl
  compile _ _ _ _ := rfl
  close _ _ := rfl

def Site.observed (site : Site W S) : Site (Observed W) (Nat × S) where
  program := site.program
  limits := site.limits
  ops s := Command.observed (site.ops s)
  world t := ⟨site.world t, 0, []⟩
  write t w := { w with world := site.write t w.world, deeds := w.deeds ++ [.write t] }
  defaults := site.defaults
  stamp := site.stamp

def Outcome.deeds (out : Outcome (Observed W) (Nat × S)) : List Deed :=
  match out.loader with
  | some l => l.state.world.deeds
  | none => []

def Outcome.plain (out : Outcome (Observed W) (Nat × S)) : Outcome W S :=
  ⟨out.report, out.tree, out.settings, out.loader.map (·.map Observed.world Prod.snd)⟩

section Over
variable (limits : Limits) {ops : ServiceOps W S} {V T : Type} {ops' : ServiceOps V T} {p : V → W} {q : T → S}

theorem loadStandard_over (h : ops'.Over ops p q) (t : FileTree) (file : Text) (l : Loader V T) :
    loadStandard limits ops t file (l.map p q) =
      ((loadStandard limits ops' t file l).1, (loadStandard limits ops' t file l).2.map p q) := by
  unfold loadStandard ConfigFile.load
  cases open? standardTable t file with
  | error f => rfl
  | ok r =>
    obtain ⟨path, content, reader⟩ := r
    cases reader with
    | json | yaml => rfl
    | typescript =>
      exact congrArg (fun x => (x.1.map (Loaded.mk path), x.2))
        (Loader.call_over h (l.record (ConfigFile.loadingRecord path content)))

theorem load_over (h : ops'.Over ops p q) (t : FileTree) (file : Text) (l : Loader V T) :
    load limits ops t file (l.map p q) =
      ((load limits ops' t file l).1, (load limits ops' t file l).2.map p q) := by
  rw [load_eq, load_eq, loadStandard_over limits h]
  dsimp only
  rw [Loader.close_over h]

end Over

theorem lastLoader_plain (site : Site W S) (t : FileTree) (o : Options) (s : Settings) :
    lastLoader site t o s = (lastLoader site.observed t o s).map Observed.world Prod.snd := by
  have hload := load_over site.limits (observed_over (site.ops s)) t o.config
    (.start (site.observed.world t))
  have hstart : load site.limits (site.ops s) t o.config (.start (site.world t)) = _ := hload
  unfold lastLoader
  rw [hstart]
  dsimp only
  change _ = (Report.emit site.observed.write (load site.limits (observed (site.ops s)) t o.config _).1 _).map
    Observed.world Prod.snd
  unfold Report.emit
  split <;> rfl

theorem run_plain (site : Site W S) (t : FileTree) (args : List Text) :
    (run site.observed t args).plain = run site t args := by
  have hruns := run_runs site.observed t args
  generalize run site.observed t args = out at hruns ⊢
  cases hruns with
  | misused h | unread h | help h | version h =>
    unfold run
    rw [h]
    rfl
  | unlogged h hlog =>
    have hlog : openLog site.stamp t _ = _ := hlog
    rw [run_load site h, runLoad_unlogged site hlog]
    rfl
  | unset h hlog hs =>
    have hlog : openLog site.stamp t _ = _ := hlog
    have hs : settingsOf site.limits _ site.defaults _ = _ := hs
    rw [run_load site h, runLoad_refused site hlog hs]
    rfl
  | @loaded o log t' s h hlog hs =>
    have hlog : openLog site.stamp t o.debugLog = .ok (log, t') := hlog
    have hs : settingsOf site.limits t' site.defaults o = .ok s := hs
    have hload := load_over site.limits (observed_over (site.ops s)) t' o.config
      (.start (site.observed.world t'))
    have hreport : (load site.limits (site.ops s) t' o.config (.start (site.world t'))).1 = _ :=
      congrArg Prod.fst hload
    have hlast := lastLoader_plain site t' o s
    have htree : lastTree site t' o s log = lastTree site.observed t' o s log := by
      cases log with
      | none => rfl
      | some place =>
        unfold lastTree
        rw [hlast]
        rfl
    rw [run_load site h, runLoad_loaded site hlog hs, hreport, htree, hlast]
    rfl

/-! ## Services -/

structure Fresh (l : Loader (Observed W) (Nat × S)) : Prop where
  slot : l.slot = none
  built : l.state.world.built = 0
  deeds : l.state.world.deeds = []

inductive Loading (t : FileTree) (file : Text) :
    Except Fault Loaded → Option Nat → List Deed → Prop
  | idle (r : Except Fault Loaded) : Loading t file r none []
  | refused {path content : Text} {f : Fault}
    (h : open? standardTable t file = .ok ⟨path, content, .typescript⟩) :
    Loading t file (.error f.reported) none [.build (.error f)]
  | served {path content : Text} {r : Except Fault Value}
    (h : open? standardTable t file = .ok ⟨path, content, .typescript⟩) :
    Loading t file ((Loader.answer r).map (Loaded.mk path)) (some 0)
      [.build (.ok 0), .compile 0 r]

section
variable (limits : Limits) (ops : ServiceOps W S) {l : Loader (Observed W) (Nat × S)}

theorem call_first (path : Value) (content : Text) (hl : Fresh l) :
    let x := l.call (observed ops) path (.text content)
    (∃ f, x.1 = .error f.reported ∧ x.2.slot = none ∧
      x.2.state.world.deeds = [.build (.error f)]) ∨
    ∃ r s, x.1 = Loader.answer r ∧ x.2.slot = some (0, s) ∧
      x.2.state.world.deeds = [.build (.ok 0), .compile 0 r] := by
  intro x
  obtain ⟨h1, h2⟩ := Loader.call_attempt (observed ops) path (.text content) l
  have hslot : x.2.slot = (l.attempt (observed ops) path (.text content)).2.slot :=
    congrArg Prod.fst h2
  have hworld : x.2.state.world =
    (l.attempt (observed ops) path (.text content)).2.state.world := congrArg Prod.snd h2
  rw [show x.1 = _ from h1, hslot, hworld]
  rcases hc : ops.create ((l.note .info "Creating compiler service").state.map Observed.world) with
    ⟨r, m⟩
  cases r with
  | error f =>
    have hcreate : (observed ops).create (l.note .info "Creating compiler service").state =
        (.error f, l.state.world.after l.state.world.built (.build (.error f)) m) := by
      simp only [observed, hc]
      rfl
    rw [Loader.attempt_refused _ _ _ hl.slot hcreate]
    refine .inl ⟨f, rfl, rfl, ?_⟩
    exact congrArg (· ++ [Deed.build (.error f)]) hl.deeds
  | ok s =>
    have hcreate : (observed ops).create (l.note .info "Creating compiler service").state =
        (.ok (0, s), l.state.world.after 1 (.build (.ok 0)) m) := by
      have hbuilt : (l.note .info "Creating compiler service").state.world.built = 0 := hl.built
      simp only [observed, hc, hbuilt]
      rfl
    rw [Loader.attempt_created _ _ _ hl.slot hcreate]
    refine .inr ⟨_, _, rfl, rfl, ?_⟩
    exact congrArg (· ++ [Deed.build (.ok 0)] ++ [Deed.compile 0 _]) hl.deeds

theorem loadStandard_loading (t : FileTree) (file : Text) (hl : Fresh l) :
    Loading t file (loadStandard limits (observed ops) t file l).1
      ((loadStandard limits (observed ops) t file l).2.slot.map Prod.fst)
      (loadStandard limits (observed ops) t file l).2.state.world.deeds := by
  have hidle : ∀ r : Except Fault Loaded,
      Loading t file r (l.slot.map Prod.fst) l.state.world.deeds := fun r => by
    rw [hl.slot, hl.deeds]
    exact .idle r
  unfold loadStandard ConfigFile.load
  cases ho : open? standardTable t file with
  | error f => exact hidle _
  | ok q =>
    obtain ⟨path, content, reader⟩ := q
    cases reader with
    | json | yaml => exact hidle _
    | typescript =>
      have hk : Fresh (l.record (ConfigFile.loadingRecord path content)) :=
        ⟨hl.slot, hl.built, hl.deeds⟩
      rcases call_first ops (.text path) content hk with
        ⟨f, h1, h2, h3⟩ | ⟨r, s, h1, h2, h3⟩
      · have hloading : Loading t file (.error f.reported) none [.build (.error f)] := .refused ho
        simp only [ConfigFile.readStandard, h1, h2, h3]
        exact hloading
      · have hloading : Loading t file ((Loader.answer r).map (Loaded.mk path)) (some 0)
          [.build (.ok 0), .compile 0 r] := .served ho
        simp only [ConfigFile.readStandard, h1, h2, h3]
        exact hloading

/-- The deeds of a run before it writes: none, an attempt in vain, or a service that is asked once and
then closed once. -/
inductive Course : List Deed → Prop
  | idle : Course []
  | refused (f : Fault) : Course [.build (.error f)]
  | served (r : Except Fault Value) (c : Except Fault Unit) :
    Course [.build (.ok 0), .compile 0 r, .close 0 c]

theorem close_empty {V T : Type} (ops : ServiceOps V T) {l : Loader V T} (h : l.slot = none) :
    l.close ops = (.ok (), l) := by
  simp only [Loader.close, h]

theorem close_filled {k : Nat} (h : l.slot.map Prod.fst = some k) :
    (l.close (observed ops)).2.state.world.deeds =
      l.state.world.deeds ++ [.close k (l.close (observed ops)).1] := by
  obtain ⟨slot, m⟩ := l
  cases slot with
  | none => cases h
  | some s =>
    cases h
    rfl

theorem load_conduct (t : FileTree) (file : Text) (hl : Fresh l) :
    let x := load limits (observed ops) t file l
    Course x.2.state.world.deeds ∧
    (x.2.state.world.deeds ≠ [] →
      ∃ path content, open? standardTable t file = .ok ⟨path, content, .typescript⟩) ∧
    (x.1.output ≠ [] → x.1.ending = .exit 0) := by
  intro x
  have hx : x = _ := load_eq (observed ops) t file l
  have hloading := loadStandard_loading limits ops t file hl
  rw [hx]
  refine and_assoc.mp ⟨?_, closingReport_output⟩
  generalize loadStandard limits (observed ops) t file l = y at hloading ⊢
  obtain ⟨r, k⟩ := y
  dsimp only at hloading ⊢
  generalize hslot : k.slot.map Prod.fst = slot at hloading
  generalize hdeeds : k.state.world.deeds = deeds at hloading
  cases hloading with
  | idle =>
    rw [close_empty _ (Option.map_eq_none_iff.mp hslot), hdeeds]
    exact ⟨.idle, fun hne => absurd rfl hne⟩
  | @refused path content f ho =>
    rw [close_empty _ (Option.map_eq_none_iff.mp hslot), hdeeds]
    exact ⟨.refused f, fun _ => ⟨path, content, ho⟩⟩
  | @served path content r' ho =>
    have hclosed := close_filled ops hslot
    rw [hdeeds] at hclosed
    rw [hclosed]
    exact ⟨.served r' _, fun _ => ⟨path, content, ho⟩⟩

end

/-! ## Runs -/

def writes (output : Text) : List Deed := if output.isEmpty then [] else [.write output]

/-- A run that goes a course and then writes its output. Services are for what needs one, and an output
is one of a run that exits with code zero. -/
def Conducted (needed : Prop) (out : Outcome (Observed W) (Nat × S)) : Prop :=
  ∃ ds, Course ds ∧ out.deeds = ds ++ writes out.report.output ∧ (ds ≠ [] → needed) ∧
    (out.report.output ≠ [] → out.report.ending = .exit 0)

def NeedsService (site : Site W S) (t : FileTree) (args : List Text) : Prop :=
  ∃ o log t' s l, Request.ofArguments t args = .ok (.load o) ∧
    openLog site.stamp t o.debugLog = .ok (log, t') ∧ settingsOf site.limits t' site.defaults o = .ok s ∧
    t'.resolve (Path.tidy o.config) = .ok l ∧
    (Path.suffix l.text).lower ∈ [Text.ofString ".ts", ".mts", ".cts"] ∧
    t'.isFile l.text = .ok true

theorem conducted_quiet {needed : Prop} {out : Outcome (Observed W) (Nat × S)}
    (hl : out.loader = none) (ho : out.report.output = []) : Conducted needed out := by
  refine ⟨[], .idle, ?_, fun h => absurd rfl h, fun h => absurd ho h⟩
  rw [Outcome.deeds, hl, ho]
  rfl

theorem emit_deeds (site : Site W S) (r : Report) (l : Loader (Observed W) (Nat × S)) :
    (r.emit site.observed.write l).state.world.deeds = l.state.world.deeds ++ writes r.output := by
  unfold Report.emit writes
  split
  · exact (List.append_nil _).symm
  · rfl

/-- In a run that is no request for help or the version, at most one service is built, and only for a
module that is there, with settings that are right. It is asked once and then closed once, before
anything is written. An output means that the exit code is zero. -/
theorem run_conducted (site : Site W S) (t : FileTree) (args : List Text)
    (hhelp : Request.ofArguments t args ≠ .ok .help)
    (hversion : Request.ofArguments t args ≠ .ok .version) :
    (run site.observed t args).plain = run site t args ∧
      Conducted (NeedsService site t args) (run site.observed t args) := by
  refine ⟨run_plain site t args, ?_⟩
  have hruns := run_runs site.observed t args
  generalize run site.observed t args = out at hruns ⊢
  cases hruns with
  | misused => exact conducted_quiet rfl rfl
  | unread h => exact conducted_quiet rfl (ofFault_output [] _)
  | help h => exact absurd h hhelp
  | version h => exact absurd h hversion
  | unlogged => exact conducted_quiet rfl (ofFault_output [] _)
  | unset => exact conducted_quiet rfl (settingsReport_output _)
  | @loaded o log t' s h hlog hs =>
    have hfresh : Fresh (.start (site.observed.world t') : Loader (Observed W) (Nat × S)) :=
      ⟨rfl, rfl, rfl⟩
    obtain ⟨hcourse, hneeds, hout⟩ := load_conduct site.limits (site.ops s) t' o.config hfresh
    refine ⟨_, hcourse, emit_deeds site _ _, fun hne => ?_, hout⟩
    obtain ⟨path, content, ho⟩ := hneeds hne
    obtain ⟨l, hl, hfind, hfile⟩ := ConfigFile.open?_ok ho
    exact ⟨o, log, t', s, l, h, hlog, hs, hl, ConfigFile.find?_typescript hfind, hfile⟩

def moduleTree : FileTree := ⟨[(["w"], .directory), (["w", "a.ts"], .file [])], ["w"]⟩

def scriptedSite (plans : List Service.Plan) : Site Service.Script Nat :=
  ⟨"cli", .usual, fun _ => Service.Script.ops, fun _ => .ofPlans plans, fun _ w => w, [], []⟩

def exitingPlan : Service.Plan := .serve ⟨[.error (.plain .systemExit ["bye"])], none⟩

theorem run_conducted_exiting :
    Request.ofArguments moduleTree ["a.ts"] ≠ .ok .help ∧
    Request.ofArguments moduleTree ["a.ts"] ≠ .ok .version ∧
    Conducted (NeedsService (scriptedSite [exitingPlan]) moduleTree ["a.ts"])
      (run (scriptedSite [exitingPlan]).observed moduleTree ["a.ts"]) := by
  have hargs : Request.ofArguments moduleTree ["a.ts"] =
      .ok (.load ⟨"a.ts", none, false, none⟩) := rfl
  have hhelp : Request.ofArguments moduleTree ["a.ts"] ≠ .ok .help := by
    rw [hargs]
    exact nofun
  have hversion : Request.ofArguments moduleTree ["a.ts"] ≠ .ok .version := by
    rw [hargs]
    exact nofun
  exact ⟨hhelp, hversion,
    (run_conducted (scriptedSite [exitingPlan]) moduleTree ["a.ts"] hhelp hversion).2⟩

end ConfigLoader.Command
