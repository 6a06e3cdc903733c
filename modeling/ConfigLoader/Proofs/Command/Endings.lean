import ConfigLoader.Proofs.Command.Reports
import ConfigLoader.Proofs.ConfigFile.Opening
import ConfigLoader.Proofs.Loader.Call
import ConfigLoader.Proofs.Yaml.Building
import ConfigLoader.Service.Script

/-! # How a run ends

With a service that fails in ordinary ways only, a run prints the value that it loads or reports an error.
The exceptions are known: a path that cannot be looked up, a document that goes too deep or has a scalar
that its tag does not fit, and a value that cannot be printed or shown.
-/
namespace ConfigLoader
open ConfigFile (standardTable open? Loaded loadStandard)

/-! ## Services -/

def Fault.IsTame (f : Fault) : Prop := f.isOrdinary = true ∨ f.kind = .thrownValue

/-- Building and compiling end with such faults only, and closing with none, as long as the world is one
of those given. -/
structure ServiceOps.Tame {W S : Type} (ops : ServiceOps W S) (I : W → Prop) : Prop where
  create : ∀ l, I l.world → (∀ f, (ops.create l).1 = .error f → f.IsTame) ∧ I (ops.create l).2.world
  compile : ∀ path content s l, I l.world →
    (∀ f, (ops.compile path content s l).1 = .error f → f.IsTame) ∧
      I (ops.compile path content s l).2.2.world
  close : ∀ s l, I l.world → (ops.close s l).1 = .ok ()

namespace Loader
variable {W S : Type} {ops : ServiceOps W S} {I : W → Prop} {l : Loader W S}

theorem attempt_tame (h : ops.Tame I) (hl : I l.state.world) (path : Value) (content : Text) :
    (∀ f, (l.attempt ops path (.text content)).1 = .error f → f.IsTame) ∧
      I (l.attempt ops path (.text content)).2.state.world := by
  have hask : ∀ (s : S) (l : Loader W S), I l.state.world →
      (∀ f, (l.ask ops path (.text content) s).1 = .error f → f.IsTame) ∧
        I (l.ask ops path (.text content) s).2.state.world := fun s l hl =>
    h.compile path (.text content) s (l.note .debug _).state hl
  cases hs : l.slot with
  | some s =>
    rw [attempt_held ops path _ hs]
    exact hask s l hl
  | none =>
    have hcreate := h.create (l.note .info "Creating compiler service").state hl
    rcases hc : ops.create (l.note .info "Creating compiler service").state with ⟨r, w⟩
    rw [hc] at hcreate
    cases r with
    | error f =>
      rw [attempt_refused ops path _ hs hc]
      refine ⟨fun g hg => ?_, hcreate.2⟩
      cases hg
      exact hcreate.1 f rfl
    | ok s =>
      rw [attempt_created ops path _ hs hc]
      exact hask s ⟨some s, w⟩ hcreate.2

theorem call_tame (h : ops.Tame I) (hl : I l.state.world) (path : Value) (content : Text) :
    (∀ f, (l.call ops path (.text content)).1 = .error f → ∃ g : Fault, g.IsTame ∧ f = g.reported) ∧
      I (l.call ops path (.text content)).2.state.world := by
  obtain ⟨hfault, hworld⟩ := attempt_tame h hl path content
  obtain ⟨hanswer, hscene⟩ := call_attempt ops path (.text content) l
  have hsame : (l.call ops path (.text content)).2.state.world =
      (l.attempt ops path (.text content)).2.state.world := congrArg Prod.snd hscene
  rw [hanswer, hsame]
  refine ⟨fun f hf => ?_, hworld⟩
  cases hr : (l.attempt ops path (.text content)).1 with
  | ok v =>
    rw [hr] at hf
    cases hf
  | error g =>
    rw [hr] at hf
    cases hf
    exact ⟨g, hfault g hr, rfl⟩

theorem close_tame (h : ops.Tame I) (hl : I l.state.world) : (l.close ops).1 = .ok () := by
  unfold close
  cases l.slot with
  | none => rfl
  | some s => exact h.close s l.state hl

end Loader

namespace Command
variable {W S : Type} {ops : ServiceOps W S} {I : W → Prop} {l : Loader W S} {t : FileTree}
  {file : Text} {f : Fault} {limits : Limits}

/-! ## Faults of loading -/

/-- What a loader reports of such a fault is reported by the command, unless it is a thrown value that
cannot be shown. -/
theorem loadReport_reported (h : f.IsTame) : (∃ text, loadReport limits f.reported = .ok text) ∨
    f.reported.kind = .thrownValue := by
  unfold Fault.reported
  split
  · exact .inl ⟨_, rfl⟩
  · next hn => exact .inr (h.resolve_left hn)

theorem loadReport_thrown (h : f.kind = .thrownValue) : loadReport limits f =
    (Json.shownAs Value.literal limits (f.args.headD .null)).map fun t =>
      errorLine ("config threw a non-Error value: " ++ t) := by
  have hload : isLoadFault f = false := by
    rw [isLoadFault, isSettingsFault, h]
    rfl
  rw [loadReport, hload, h]
  rfl

theorem loadReport_of_isA (h : isSettingsFault f = true) : ∃ text, loadReport limits f = .ok text := by
  refine ⟨errorLine f.message, if_pos ?_⟩
  rw [isLoadFault, h, Bool.or_true]

theorem loadReport_of_kind {k : Fault.Kind} (h : f.kind = k)
    (hk : (k.isA .fileNotFoundError || k.isA .valueError || k.isA .yamlError) = true) :
    ∃ text, loadReport limits f = .ok text := by
  subst h
  exact loadReport_of_isA hk

theorem loadReport_other {k : Fault.Kind} (h : f.kind = k)
    (hk : (k.isA .compileError || (k.isA .fileNotFoundError || k.isA .valueError ||
      k.isA .yamlError)) = false) (ht : k ≠ .thrownValue) : loadReport limits f = .error f := by
  subst h
  have ht : (f.kind == .thrownValue) = false := beq_false_of_ne ht
  have hk : isLoadFault f = false := hk
  rw [loadReport, hk, ht]
  rfl

/-- The faults of loading that are not reported: a link leads back to itself, a name is too long, a
document goes too deep, or a scalar of a document does not fit its tag. -/
inductive Unreported (limits : Limits) (t : FileTree) (file : Text) : Fault → Prop
  | resolving {f : Fault} (h : t.resolve (Path.tidy file) = .error f) (hk : f.kind = .runtimeError) :
    Unreported limits t file f
  | seeing {l : Location} {reader : ConfigFile.Reader} {f : Fault}
    (h : t.resolve (Path.tidy file) = .ok l)
    (hr : standardTable.find? (Path.suffix l.text) = some reader)
    (hf : t.isFile l.text = .error f) : Unreported limits t file f
  | json {path content : Text} {f : Fault}
    (h : open? standardTable t file = .ok ⟨path, content, .json⟩)
    (hj : Json.load limits.reading content = .error f) (hk : f.kind = .recursionError) :
    Unreported limits t file f
  | yaml {path content : Text} {f : Fault}
    (h : open? standardTable t file = .ok ⟨path, content, .yaml⟩)
    (hy : Yaml.load limits.composing content = .error f) (hk : f.kind ∈ Yaml.strayKinds) :
    Unreported limits t file f

theorem Unreported.kind (h : Unreported limits t file f) :
    (∃ p, f = LookupError.nameTooLong.fault p) ∨
      f.kind ∈ [Fault.Kind.runtimeError, .recursionError, .keyError, .indexError, .attributeError,
        .overflowError] := by
  cases h with
  | resolving _ hk => exact .inr (hk ▸ List.mem_cons_self)
  | seeing _ _ hf => exact .inl ⟨_, FileTree.test_fault hf⟩
  | json _ _ hk => exact .inr (hk ▸ List.mem_cons_of_mem _ List.mem_cons_self)
  | yaml _ _ hk => exact .inr (List.mem_cons_of_mem _ hk)

theorem Unreported.loadReport (h : Unreported limits t file f) : loadReport limits f = .error f := by
  have hall : ∀ k ∈ [Fault.Kind.runtimeError, .recursionError, .keyError, .indexError,
      .attributeError, .overflowError], (k.isA .compileError || (k.isA .fileNotFoundError ||
        k.isA .valueError || k.isA .yamlError)) = false ∧ k ≠ .thrownValue := by decide
  rcases h.kind with ⟨p, rfl⟩ | hk
  · exact loadReport_other (k := .osError) rfl rfl nofun
  · obtain ⟨h1, h2⟩ := hall _ hk
    exact loadReport_other rfl h1 h2

theorem Unreported.passes (h : Unreported limits t file f) : Passes f := by
  have hall : ∀ k ∈ [Fault.Kind.runtimeError, .recursionError, .keyError, .indexError,
      .attributeError, .overflowError], k ≠ .keyboardInterrupt ∧ k.isA .eofError = false ∧
        k ≠ .systemExit ∧ k.isA .osError = false := by decide
  rcases h.kind with ⟨p, rfl⟩ | hk
  · exact ⟨nofun, rfl, nofun, rfl⟩
  · obtain ⟨h1, h2, h3, h4⟩ := hall _ hk
    exact passes_of_kind rfl h1 h2 h3 h4

theorem loadStandard_error (h : open? standardTable t file = .error f) :
    loadStandard limits ops t file l = (.error f, l) := by
  simp only [loadStandard, ConfigFile.load, h]

theorem loadStandard_ok (ops : ServiceOps W S) (l : Loader W S)
    {q : ConfigFile.Request ConfigFile.Reader} (h : open? standardTable t file = .ok q) :
    ∃ k : Loader W S, k.slot = l.slot ∧ k.state.world = l.state.world ∧
      loadStandard limits ops t file l =
        ((ConfigFile.readStandard limits ops q.reader q.path q.content k).1.map (Loaded.mk q.path),
          (ConfigFile.readStandard limits ops q.reader q.path q.content k).2) := by
  refine ⟨l.record (ConfigFile.loadingRecord q.path q.content), rfl, rfl, ?_⟩
  simp only [loadStandard, ConfigFile.load, h]

theorem Unreported.loadStandard (h : Unreported limits t file f) :
    (loadStandard limits ops t file l).1 = .error f := by
  cases h with
  | resolving h => exact congrArg Prod.fst (loadStandard_error (ConfigFile.open?_unresolved h))
  | seeing h hr hf => exact congrArg Prod.fst (loadStandard_error (ConfigFile.open?_unseen h hr hf))
  | json h hj =>
    obtain ⟨k, -, -, hk⟩ := loadStandard_ok ops l h
    rw [hk]
    exact congrArg (Except.map _) hj
  | yaml h hy =>
    obtain ⟨k, -, -, hk⟩ := loadStandard_ok ops l h
    rw [hk]
    exact congrArg (Except.map _) hy

/-- Loading with such a service ends with a value, or with a fault that is reported, stands for a thrown
value, or is one of those. -/
theorem loadStandard_tame (limits : Limits) (t : FileTree) (file : Text) (h : ops.Tame I)
    (hl : I l.state.world) :
    (∀ f, (loadStandard limits ops t file l).1 = .error f →
      Unreported limits t file f ∨ (∃ text, loadReport limits f = .ok text) ∨ f.kind = .thrownValue) ∧
    I (loadStandard limits ops t file l).2.state.world := by
  have hopens := ConfigFile.open?_opens standardTable t file
  cases ho : open? standardTable t file with
  | error f =>
    rw [loadStandard_error ho]
    refine ⟨fun g hg => ?_, hl⟩
    cases hg
    rw [ho] at hopens
    cases hopens with
    | unresolved hr =>
      rcases FileTree.resolve_fault hr with hk | hk
      · exact .inr (.inl (loadReport_of_kind hk rfl))
      · exact .inl (.resolving hr hk)
    | unsupported => exact .inr (.inl (loadReport_of_kind rfl rfl))
    | unseen hr hreader hf => exact .inl (.seeing hr hreader hf)
    | missing => exact .inr (.inl (loadReport_of_kind rfl rfl))
    | unreadable _ _ hf ht =>
      exact .inr (.inl (loadReport_of_kind (FileTree.readText_fault_of_isFile hf ht) rfl))
  | ok q =>
    obtain ⟨k, -, hk, he⟩ := loadStandard_ok ops l ho
    rw [he]
    have hkI : I k.state.world := hk ▸ hl
    obtain ⟨path, content, reader⟩ := q
    cases reader with
    | json =>
      refine ⟨fun f hf => ?_, hkI⟩
      have hj : Json.load limits.reading content = .error f := Json.map_error hf
      rcases Json.load_fault hj with hvalue | hdeep
      · exact .inr (.inl (loadReport_of_isA (by
          rw [isSettingsFault, hvalue, Bool.or_true, Bool.true_or])))
      · exact .inl (.json ho hj hdeep)
    | yaml =>
      refine ⟨fun f hf => ?_, hkI⟩
      have hy : Yaml.load limits.composing content = .error f := Json.map_error hf
      rcases Yaml.load_fault hy with hyaml | hvalue | hstray
      · exact .inr (.inl (loadReport_of_isA (by rw [isSettingsFault, hyaml, Bool.or_true])))
      · exact .inr (.inl (loadReport_of_kind hvalue rfl))
      · exact .inl (.yaml ho hy hstray)
    | typescript =>
      obtain ⟨hfault, hworld⟩ := Loader.call_tame h hkI (.text path) content
      refine ⟨fun f hf => .inr ?_, hworld⟩
      obtain ⟨g, hg, rfl⟩ := hfault f (Json.map_error hf)
      exact loadReport_reported hg

/-! ## Reports -/

/-- The value that was loaded is the output, or an error is reported. -/
def Report.Settles (limits : Limits) (loaded : Except Fault Loaded) (r : Report) : Prop :=
  (∃ c text, loaded = .ok c ∧ Json.dump (Json.resultLayout limits) c.value = .ok text ∧
    r = .ok (text ++ "\n")) ∨ r.IsError

theorem not_settles_escaped (loaded : Except Fault Loaded) (f : Fault) :
    ¬ Report.Settles limits loaded ⟨[], [], [], .escaped f⟩ := by
  rintro (⟨c, text, -, -, h⟩ | h)
  · cases congrArg Report.ending h
  · cases h.ending

/-- What was loaded can be said: a value can be printed, and a thrown value can be shown. -/
def IsSayable (limits : Limits) : Except Fault Loaded → Prop
  | .ok c => IsOutput limits c.value
  | .error f => f.kind = .thrownValue → Json.flaw? limits.showing (f.args.headD .null) = none

theorem load_report (t : FileTree) (file : Text) (h : ops.Tame I) (hl : I l.state.world) :
    (load limits ops t file l).1 =
      closingReport limits (loadStandard limits ops t file l).1 (.ok ()) := by
  rw [load_eq, Loader.close_tame h (loadStandard_tame limits t file h hl).2]

theorem run_report {site : Site W S} {args : List Text} {o : Options} {s : Settings}
    (hargs : Request.ofArguments t args = .ok (.load o)) (hlog : o.debugLog = none)
    (hs : settingsOf site.limits t site.defaults o = .ok s) : (run site t args).report =
      (load site.limits (site.ops s) t o.config (.start (site.world t))).1 := by
  have hopen : openLog site.stamp t o.debugLog = .ok (none, t) := by rw [hlog]; rfl
  rw [run_load site hargs, runLoad_loaded site hopen hs]

theorem closingReport_settles {loaded : Except Fault Loaded} (hsayable : IsSayable limits loaded)
    (htwo : ∀ f, loaded = .error f → (∃ text, loadReport limits f = .ok text) ∨ f.kind = .thrownValue) :
    Report.Settles limits loaded (closingReport limits loaded (.ok ())) := by
  cases loaded with
  | ok c =>
    obtain ⟨text, ht, hprint⟩ := printReport_of_output hsayable
    exact .inl ⟨c, text, rfl, ht, hprint⟩
  | error f =>
    have htext : ∃ text, loadReport limits f = .ok text := by
      refine (htwo f rfl).elim id fun hk => ?_
      rw [loadReport_thrown hk, Json.shownAs, hsayable hk]
      exact ⟨_, rfl⟩
    obtain ⟨text, htext⟩ := htext
    simp only [closingReport, htext]
    exact .inr (loadReport_isError htext)

/-- What cannot be said ends a run with a fault that nothing handles. -/
theorem closingReport_unsayable {loaded : Except Fault Loaded} (h : ¬ IsSayable limits loaded) :
    ∃ f, closingReport limits loaded (.ok ()) = ⟨[], [], [], .escaped f⟩ := by
  cases loaded with
  | ok c => exact printReport_of_not_output h
  | error f =>
    obtain ⟨hk, hflaw⟩ := Classical.not_imp.mp h
    obtain ⟨g, hg⟩ := Option.ne_none_iff_exists'.mp hflaw
    have hreport : loadReport limits f = .error g := by
      rw [loadReport_thrown hk, Json.shownAs, hg]
      rfl
    simp only [closingReport, hreport]
    exact ⟨g, ofFault_passes (passes_of_print (Json.flaw?_isPrintFault _ _ hg))⟩

/-- Scripts without plans, whose services do nothing. -/
def Idle (s : Service.Script) : Prop := s.plans = [] ∧ ∀ b ∈ s.built, b.behaviour = Service.Script.idle

theorem tame_idle : Service.Script.ops.Tame Idle where
  create l hl := by
    have hplan : Service.Script.nthOrLast (.serve Service.Script.idle) l.world.plans
        l.world.attempts = .serve Service.Script.idle := by
      rw [hl.1]
      rfl
    simp only [Service.Script.ops, Service.Script.create, hplan]
    refine ⟨nofun, hl.1, fun b hb => ?_⟩
    rcases List.mem_append.mp hb with hb | hb
    · exact hl.2 b hb
    · rw [List.mem_singleton.mp hb]
  compile path content i l hl := by
    simp only [Service.Script.ops, Service.Script.compile]
    cases hb : l.world.built[i]? with
    | none => exact ⟨nofun, hl⟩
    | some b =>
      have hidle := hl.2 b (List.mem_of_getElem? hb)
      refine ⟨fun f hf => ?_, hl.1, fun b' hb' => ?_⟩
      · dsimp only at hf
        rw [hidle] at hf
        cases hf
      · rcases List.mem_or_eq_of_mem_set hb' with hb' | rfl
        · exact hl.2 b' hb'
        · exact hidle
  close i l hl := by
    simp only [Service.Script.ops, Service.Script.close]
    cases hb : l.world.built[i]? with
    | none => rfl
    | some b =>
      dsimp only
      rw [hl.2 b (List.mem_of_getElem? hb)]
      rfl

def configTree (text : Text) : FileTree :=
  ⟨[(["w"], .directory), (["w", "c.yaml"], .file (Text.Utf8.encode text))], ["w"]⟩

def configSite : Site Service.Script Nat :=
  ⟨"cli", .usual, fun _ => Service.Script.ops, fun _ => .ofPlans [], fun _ w => w, [], []⟩

def datedTree : FileTree := configTree "d: 2024-05-01\ns: !!set \x7ba\x7d\n"

def datedValue : Value := .mapping [("d", .date ⟨2024, 5, 1⟩), ("s", .set [.text "a"])]

def isDated : Except Fault Loaded → Bool
  | .ok ⟨p, .mapping [(.text k, .date ⟨y, m, d⟩), (.text l, .set [.text u])]⟩ =>
    p == Text.ofString "/w/c.yaml" && k == Text.ofString "d" && l == Text.ofString "s" &&
      u == Text.ofString "a" && y == 2024 && m == 5 && d == 1
  | _ => false

theorem loadStandard_dated :
    (loadStandard .usual Service.Script.ops datedTree "c.yaml"
      (.start (configSite.world datedTree))).1 = .ok ⟨"/w/c.yaml", datedValue⟩ := by
  have hb : isDated (loadStandard .usual Service.Script.ops datedTree "c.yaml"
      (.start (configSite.world datedTree))).1 = true := by decide +kernel
  unfold isDated at hb
  split at hb
  · next he =>
    simp only [Bool.and_eq_true, beq_iff_eq] at hb
    obtain ⟨⟨⟨⟨⟨⟨rfl, rfl⟩, rfl⟩, rfl⟩, rfl⟩, rfl⟩, rfl⟩ := hb
    exact he
  · cases hb

end Command
end ConfigLoader
