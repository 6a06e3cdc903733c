import Mathlib.Data.List.TakeWhile
import ConfigLoader.Command
import ConfigLoader.Proofs.Json.Printable

/-! # Reports of runs

A run that fails in a way that it knows writes nothing to the output, says what the error is, and exits
with code one. A value that can be printed is the output; one that cannot ends the run with a fault that
nothing handles.
-/
namespace ConfigLoader.Command

/-! ## Errors -/

structure Report.IsError (r : Report) : Prop where
  output : r.output = []
  errors : Text.ofString "Error: " <+: r.errors
  ending : r.ending = .exit 1

theorem withoutStyles_append {p : Text} (h : ∀ c ∈ p, c.val ≠ 27) (t : Text) :
    withoutStyles 0 (p ++ t) = p ++ withoutStyles 0 t := by
  induction p with
  | nil => rfl
  | cons c p ih =>
    have hc : styleLength (c :: (p ++ t)) = 0 := by
      simp only [styleLength, h c (List.mem_cons_self ..), if_false]
    simp only [List.cons_append, withoutStyles, hc, ih fun d hd => h d (List.mem_cons_of_mem _ hd)]

example : withoutStyles 0 (27 :: Text.ofString "[1;31mred" ++ 27 :: Text.ofString "[0m") = "red" := by
  decide +kernel

@[simp] theorem escapeSurrogates_append (t u : Text) :
    escapeSurrogates (t ++ u) = escapeSurrogates t ++ escapeSurrogates u :=
  List.flatMap_append

theorem failure_isError (message : Text) : (Report.failure 1 (errorLine message)).IsError where
  output := rfl
  errors := by
    refine ⟨writtenErrors (message ++ "\n"), ?_⟩
    have hhead : escapeSurrogates "Error: " = "Error: " := by decide
    have hall : (Text.ofString "Error: ").all (fun c => c.val != 27) = true := by decide
    have hplain := withoutStyles_append (fun c hc => bne_iff_ne.mp (List.all_eq_true.mp hall c hc))
      (message ++ "\n")
    simp only [Report.failure, writtenErrors, errorLine, List.append_assoc, hplain,
      escapeSurrogates_append, hhead]
  ending := rfl

theorem settingsReport_isError {f : Fault} (h : isSettingsFault f = true) :
    (settingsReport f).IsError := by
  rw [settingsReport, if_pos h]
  exact failure_isError _

theorem loadReport_isError {limits : Limits} {f : Fault} {text : Text}
    (h : loadReport limits f = .ok text) : (Report.failure 1 text).IsError := by
  unfold loadReport at h
  split at h
  · cases h
    exact failure_isError _
  · split at h
    · obtain ⟨shown, -, rfl⟩ := Json.map_ok h
      exact failure_isError _
    · cases h

/-! ## Faults that nothing handles -/

def Report.fault? : Report → Option Fault
  | ⟨[], [], [], .escaped f⟩ => some f
  | _ => none

@[simp] theorem Report.fault?_eq_some {r : Report} {f : Fault} :
    r.fault? = some f ↔ r = ⟨[], [], [], .escaped f⟩ := by
  constructor
  · intro h
    unfold fault? at h
    split at h
    · cases h
      rfl
    · cases h
  · rintro rfl
    rfl

/-- Neither an interrupt, nor a request to exit, nor a broken pipe. -/
structure Passes (f : Fault) : Prop where
  interrupt : f.kind ≠ .keyboardInterrupt
  endOfInput : f.kind.isA .eofError = false
  exit : f.kind ≠ .systemExit
  pipe : Report.isBrokenPipe f = false

theorem passes_of_kind {f : Fault} {k : Fault.Kind} (h : f.kind = k) (h1 : k ≠ .keyboardInterrupt)
    (h2 : k.isA .eofError = false) (h3 : k ≠ .systemExit) (h4 : k.isA .osError = false) : Passes f where
  interrupt := h ▸ h1
  endOfInput := h ▸ h2
  exit := h ▸ h3
  pipe := by
    have hsystem : f.isSystem = false := by rw [Fault.isSystem, h, h4]
    rw [Report.isBrokenPipe, hsystem]
    rfl

theorem ofFault_passes {f : Fault} (h : Passes f) :
    Report.ofFault [] f = ⟨[], [], [], .escaped f⟩ := by
  have h1 : (f.kind == .keyboardInterrupt) = false := beq_false_of_ne h.interrupt
  have h3 : (f.kind == .systemExit) = false := beq_false_of_ne h.exit
  simp only [Report.ofFault, h1, h.endOfInput, h3, h.pipe, Bool.or_self, Bool.false_eq_true, if_false]
  rfl

/-! ## Printing -/

theorem drop_length_takeWhile {α : Type} (p : α → Bool) (xs : List α) :
    xs.drop (xs.takeWhile p).length = xs.dropWhile p := by
  induction xs with
  | nil => rfl
  | cons x xs ih =>
    rw [List.takeWhile_cons, List.dropWhile_cons]
    split
    · exact ih
    · rfl

@[simp] theorem encodingFault?_none {t : Text} : encodingFault? t = none ↔ t.IsString := by
  have hstring : t.dropWhile (fun c => !c.isSurrogate) = [] ↔ t.IsString := by
    rw [List.dropWhile_eq_nil_iff]
    exact forall₂_congr fun c _ => by rw [Bool.not_eq_true']
  rw [← hstring, encodingFault?, drop_length_takeWhile]
  cases hd : t.dropWhile fun c => !c.isSurrogate with
  | nil => exact iff_of_true rfl rfl
  | cons c r =>
    have hc : c.isSurrogate = true := by
      have hne : t.dropWhile (fun c => !c.isSurrogate) ≠ [] := by simp [hd]
      simpa [hd] using List.head_dropWhile_not (fun c : CodePoint => !c.isSurrogate) hne
    simp [hc]

theorem encodingFault?_kind {t : Text} {f : Fault} (h : encodingFault? t = some f) :
    f.kind = .unicodeEncodeError := by
  unfold encodingFault? at h
  dsimp only at h
  split at h
  · cases h
  · cases h
    rfl

def IsOutput (limits : Limits) (v : Value) : Prop :=
  Json.IsPrintable limits v ∧ v.levels ≤ limits.printing

section
variable {limits : Limits}

theorem print_gives_output (v : Value) :
    Fault.Gives Text.IsString (Json.dump (Json.resultLayout limits) v) ↔ IsOutput limits v := by
  rw [Json.dump, Json.print_gives (Nat.zero_le _), Nat.zero_add, IsOutput]

theorem printed_of_output {v : Value} (h : IsOutput limits v) :
    ∃ text, Json.dump (Json.resultLayout limits) v = .ok text ∧
      printed limits v = .ok (text ++ "\n") := by
  obtain ⟨text, ht, hs⟩ := (print_gives_output v).mpr h
  have hline : Text.IsString (text ++ "\n") :=
    Text.isString_append.mpr ⟨hs, Text.isString_ofString _⟩
  refine ⟨text, ht, ?_⟩
  unfold printed
  rw [ht]
  simp only [bind, Except.bind, encodingFault?_none.mpr hline]
  rfl

theorem passes_of_print {f : Fault} (h : Json.IsPrintFault f) : Passes f := by
  rcases h with hk | hk | hk <;> exact passes_of_kind hk nofun rfl nofun rfl

theorem printed_of_not_output {v : Value} (h : ¬ IsOutput limits v) :
    ∃ f, printed limits v = .error f ∧ Passes f := by
  unfold printed
  cases ht : Json.dump (Json.resultLayout limits) v with
  | error f => exact ⟨f, rfl, passes_of_print (Json.print_fault (Json.resultLayout_fails limits) 0 v ht)⟩
  | ok text =>
    have hline : ¬ Text.IsString (text ++ "\n") := fun hs =>
      h ((print_gives_output v).mp ⟨text, ht, (Text.isString_append.mp hs).1⟩)
    obtain ⟨f, hf⟩ := Option.ne_none_iff_exists'.mp (mt encodingFault?_none.mp hline)
    refine ⟨f, ?_, passes_of_kind (encodingFault?_kind hf) nofun rfl nofun rfl⟩
    simp only [bind, Except.bind, hf]
    rfl

theorem printReport_of_output {v : Value} (h : IsOutput limits v) :
    ∃ text, Json.dump (Json.resultLayout limits) v = .ok text ∧
      printReport limits v = .ok (text ++ "\n") := by
  obtain ⟨text, ht, hp⟩ := printed_of_output h
  exact ⟨text, ht, by rw [printReport, hp]⟩

theorem printReport_of_not_output {v : Value} (h : ¬ IsOutput limits v) :
    ∃ f, printReport limits v = ⟨[], [], [], .escaped f⟩ := by
  obtain ⟨f, hf, hp⟩ := printed_of_not_output h
  refine ⟨f, ?_⟩
  simp only [printReport, hf, ofFault_passes hp]

/-! ## Endings -/

@[simp] theorem ofFault_output (errors : Text) (f : Fault) : (Report.ofFault errors f).output = [] := by
  simp only [Report.ofFault]
  split
  · rfl
  · split
    · rfl
    · split <;> rfl

@[simp] theorem settingsReport_output (f : Fault) : (settingsReport f).output = [] := by
  unfold settingsReport
  split
  · rfl
  · exact ofFault_output [] f

def closingReport (limits : Limits) (r : Except Fault ConfigFile.Loaded) (c : Except Fault Unit) :
    Report :=
  match r, c with
  | .ok v, .ok _ => printReport limits v.value
  | .ok _, .error g => .ofFault [] g
  | .error f, .ok _ =>
    match loadReport limits f with
    | .ok text => .failure 1 text
    | .error f => .ofFault [] f
  | .error f, .error g => .ofFault ((loadReport limits f).toOption.getD []) g

theorem load_eq {W S : Type} (ops : ServiceOps W S) (t : FileTree) (file : Text) (l : Loader W S) :
    load limits ops t file l =
      (closingReport limits (ConfigFile.loadStandard limits ops t file l).1
        ((ConfigFile.loadStandard limits ops t file l).2.close ops).1,
        ((ConfigFile.loadStandard limits ops t file l).2.close ops).2) := by
  unfold load
  rcases ConfigFile.loadStandard limits ops t file l with ⟨r, k⟩
  rcases hk : k.close ops with ⟨c, k'⟩
  cases r with
  | ok v => cases c <;> simp only [hk, closingReport]
  | error f =>
    cases hr : loadReport limits f <;> cases c <;>
      simp only [hk, hr, closingReport, Except.toOption, Option.getD]

theorem printReport_output {v : Value} (h : (printReport limits v).output ≠ []) :
    (printReport limits v).ending = .exit 0 := by
  unfold printReport at h ⊢
  split at h
  · rfl
  · exact absurd (ofFault_output _ _) h

theorem closingReport_output {r : Except Fault ConfigFile.Loaded} {c : Except Fault Unit}
    (h : (closingReport limits r c).output ≠ []) : (closingReport limits r c).ending = .exit 0 := by
  cases c with
  | error g => cases r <;> exact absurd (ofFault_output _ g) h
  | ok u =>
    cases r with
    | ok v => exact printReport_output h
    | error f =>
      unfold closingReport at h
      dsimp only at h
      split at h
      · exact absurd rfl h
      · exact absurd (ofFault_output _ _) h

end

/-! ## Runs -/

section
variable {W S : Type} (site : Site W S) {before t : FileTree} {o : Options}
  {log : Option Location}

theorem runLoad_unlogged {f : Fault} (hlog : openLog site.stamp before o.debugLog = .error f) :
    runLoad site before o = ⟨.ofFault [] f, before, none, none⟩ := by
  simp only [runLoad, hlog]

theorem runLoad_refused {f : Fault} (hlog : openLog site.stamp before o.debugLog = .ok (log, t))
    (hs : settingsOf site.limits t site.defaults o = .error f) :
    runLoad site before o = ⟨settingsReport f, t, none, none⟩ := by
  simp only [runLoad, hlog, hs]

def lastLoader (t : FileTree) (o : Options) (s : Settings) : Loader W S :=
  (load site.limits (site.ops s) t o.config (.start (site.world t))).1.emit site.write
    (load site.limits (site.ops s) t o.config (.start (site.world t))).2

def lastTree (t : FileTree) (o : Options) (s : Settings) : Option Location → FileTree
  | some place => append t place (logText site.stamp (lastLoader site t o s))
  | none => t

theorem runLoad_loaded {s : Settings}
    (hlog : openLog site.stamp before o.debugLog = .ok (log, t))
    (hs : settingsOf site.limits t site.defaults o = .ok s) :
    runLoad site before o = ⟨(load site.limits (site.ops s) t o.config (.start (site.world t))).1,
      lastTree site t o s log, some s, some (lastLoader site t o s)⟩ := by
  cases log <;> simp only [runLoad, hlog, hs, lastTree, lastLoader]

/-- How a run can go, by how far it comes. -/
inductive Runs (before : FileTree) (args : List Text) : Outcome W S → Prop
  | misused {e : UsageError} (h : Request.ofArguments before args = .error (.usage e)) :
    Runs before args ⟨.failure 2 (usageReport site.program e), before, none, none⟩
  | unread {f : Fault} (h : Request.ofArguments before args = .error (.fault f)) :
    Runs before args ⟨.ofFault [] f, before, none, none⟩
  | help (h : Request.ofArguments before args = .ok .help) :
    Runs before args ⟨.ok (helpText site.program), before, none, none⟩
  | version (h : Request.ofArguments before args = .ok .version) :
    Runs before args ⟨.ok (versionText site.program), before, none, none⟩
  | unlogged {o : Options} {f : Fault} (h : Request.ofArguments before args = .ok (.load o))
    (hlog : openLog site.stamp before o.debugLog = .error f) :
    Runs before args ⟨.ofFault [] f, before, none, none⟩
  | unset {o : Options} {log : Option Location} {t : FileTree} {f : Fault}
    (h : Request.ofArguments before args = .ok (.load o))
    (hlog : openLog site.stamp before o.debugLog = .ok (log, t))
    (hs : settingsOf site.limits t site.defaults o = .error f) :
    Runs before args ⟨settingsReport f, t, none, none⟩
  | loaded {o : Options} {log : Option Location} {t : FileTree} {s : Settings}
    (h : Request.ofArguments before args = .ok (.load o))
    (hlog : openLog site.stamp before o.debugLog = .ok (log, t))
    (hs : settingsOf site.limits t site.defaults o = .ok s) :
    Runs before args ⟨(load site.limits (site.ops s) t o.config (.start (site.world t))).1,
      lastTree site t o s log, some s, some (lastLoader site t o s)⟩

theorem run_load {args : List Text} (h : Request.ofArguments before args = .ok (.load o)) :
    run site before args = runLoad site before o := by
  simp only [run, h]

theorem run_runs (before : FileTree) (args : List Text) :
    Runs site before args (run site before args) := by
  cases h : Request.ofArguments before args with
  | error e =>
    unfold run
    rw [h]
    cases e with
    | usage e => exact .misused h
    | fault f => exact .unread h
  | ok r =>
    cases r with
    | help =>
      unfold run
      rw [h]
      exact .help h
    | version =>
      unfold run
      rw [h]
      exact .version h
    | load o =>
      rw [run_load site h]
      cases hlog : openLog site.stamp before o.debugLog with
      | error f =>
        rw [runLoad_unlogged site hlog]
        exact .unlogged h hlog
      | ok x =>
        obtain ⟨log, t⟩ := x
        cases hs : settingsOf site.limits t site.defaults o with
        | error f =>
          rw [runLoad_refused site hlog hs]
          exact .unset h hlog hs
        | ok s =>
          rw [runLoad_loaded site hlog hs]
          exact .loaded h hlog hs

end

end ConfigLoader.Command
