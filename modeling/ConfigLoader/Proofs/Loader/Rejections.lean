import ConfigLoader.Proofs.Loader.Outcome
import ConfigLoader.Proofs.Loader.Results
import ConfigLoader.Proofs.Text.Strings
import ConfigLoader.Proofs.TypeScript.Gate
import ConfigLoader.Proofs.Worker.Diagnoses
import ConfigLoader.Proofs.Worker.Evaluations

/-! # Sources with errors

An error among the findings of a source ends its call before anything is evaluated. The fault that the
call raises tells the errors of the first list that holds any, if the compiler has words for them.
-/
namespace ConfigLoader

@[simp] theorem Text.dropStart_append (p t : Text) : dropStart p (p ++ t) = t := by
  rw [dropStart, afterStart?_eq_some.mpr rfl, Option.getD_some]

theorem Text.IsString.not_high {t : Text} (h : t.IsString) :
    ∀ c ∈ t, c.isHighSurrogate = false := by
  intro c hc
  have hs := h c hc
  simp only [CodePoint.isSurrogate, Bool.and_eq_false_iff, decide_eq_false_iff_not] at hs
  simp only [CodePoint.isHighSurrogate, Bool.and_eq_false_iff, decide_eq_false_iff_not]
  omega

namespace Worker
open Modules (State Surroundings)
open TypeScript (Finding Pipeline)

theorem evaluate_found {c : Surroundings} {p : Pipeline} {file source : Text} {s : State}
    {es : List Finding} {k : TypeScript.Project.Kept}
    (h : p.compile c.tree file source s.projects = (.error (.found es), k)) (script : Text) :
    evaluate c p script file source s = (.error (.found es), { s with projects := k }) :=
  evaluate_rejected h rfl script

end Worker

namespace TypeScript
open Worker (told)

namespace Pipeline
variable {p : Pipeline} {ts : TypeScript} {t : FileTree} {file : Text} {options : Entries}
  {k kept : Project.Kept}

theorem compile_gated (hts : p.compiler = .ok ts) (ho : p.effective ts t file k = (.ok options, kept))
    (source : Text) : ∃ code, p.compile t file source k =
      (gated (p.consulted ts t file source options) code, kept) := by
  obtain ⟨code, hcode⟩ := p.compileWith_gated ts t file source options
  refine ⟨code, ?_⟩
  rw [compile, hts]
  dsimp only
  rw [ho]
  dsimp only
  rw [hcode]

end Pipeline

theorem Finding.wrap_report (ds : List Diagnostic) (t : Text) :
    (Fault.diagnosticsFault ds (told (Fault.heading ++ t))).wrap =
      Fault.compileFailure (Fault.reportHeading ++ Text.joinSurrogates t)
        (some (Fault.diagnosticsFault ds (told (Fault.heading ++ t)))) true := by
  have hheading : Fault.heading.IsString := Text.isString_ofString _
  have htold : told (Fault.heading ++ t) = .text (Fault.heading ++ Text.joinSurrogates t) :=
    congrArg Value.text (Text.joinSurrogates_append hheading.not_high t)
  rw [htold]
  have hmessage : (Fault.diagnosticsFault ds (.text (Fault.heading ++ Text.joinSurrogates t))).message =
      Fault.heading ++ Text.joinSurrogates t := rfl
  rw [Fault.wrap, Fault.wrappedMessage, hmessage, Text.dropStart_append, Fault.reportHeading]

theorem toldReport_format {ts : TypeScript} {directory report : Text} {es : List Finding}
    (h : ts.format (.text directory) es = some report) :
    Worker.toldReport ts directory es = told (Fault.heading ++ Text.trimBlankEnd report) := by
  rw [Worker.toldReport, report?, h, Option.map_some, Option.getD_some]
  rfl

end TypeScript

namespace Serving
open Child (Machine)
open Child.Machine (ops)
open Modules (State)
open TypeScript (Finding Clean)
open TypeScript.Project (Kept)
open TypeScript.Finding (ToldBy HasIntegers)
open Worker (told)

abbrev Setting.compiler (x : Setting) : TypeScript := x.site.compiler x.desk.here

def Query.file (q : Query) (x : Setting) : Text :=
  x.desk.file (Text.joinSurrogates (Path.absolute x.caller.directory q.path))

def Query.source (q : Query) : Text := Text.joinSurrogates q.content

def Query.consulted (q : Query) (x : Setting) (options : Entries) : List (List Finding) :=
  x.desk.pipeline.consulted x.compiler q.tree (q.file x) q.source options

theorem call_evaluated {x : Setting} {n : Nat} {s : State} {l : Loader Machine Compiler}
    (hl : Serves x n (some s) l) (settings : Settings) (q : Query) {id : Text}
    (hid : Json.intText ((n + 1 : Nat) : Int) = .ok id) :
    ∃ l', (withTree q.tree l).call (Compiler.service (ops x.limits) x.caller settings) (.text q.path)
        (.text q.content) = (q.outcome x (n + 1) s, l') ∧
      Serves x (n + 1) (if q.ends x (n + 1) s then none
        else some (Modules.sweep s (q.evaluate x s).2)) l' := by
  obtain ⟨l', hcall, hserves⟩ := call_served hl settings q
  rw [step, hid] at hcall hserves
  exact ⟨l', hcall, hserves⟩

section
variable {x : Setting} {n : Nat} {s : State} {l : Loader Machine Compiler}
  (hl : Serves x n (some s) l) (settings : Settings) {q : Query} {id : Text}
  (hid : Json.intText ((n + 1 : Nat) : Int) = .ok id) {es : List Finding} {kept : Kept}
  (he : q.evaluate x s = (.error (.found es), { s with projects := kept }))
include hl hid he

/-- Errors that are told in a report end their call with the diagnostics and the report, and the worker
goes on. -/
theorem call_told {report : Text}
    (hreport : x.compiler.format (.text x.desk.directory) es = some report)
    (hall : ∀ f ∈ es, f.HasIntegers x.compiler) :
    ∃ ds l', List.Forall₂ (ToldBy x.compiler) ds es ∧
      (withTree q.tree l).call (Compiler.service (ops x.limits) x.caller settings) (.text q.path)
        (.text q.content) =
        (.error (Fault.compileFailure
          (Fault.reportHeading ++ Text.joinSurrogates (Text.trimBlankEnd report))
          (some (Fault.diagnosticsFault ds (told (Fault.heading ++ Text.trimBlankEnd report))))
          true), l') ∧
      Serves x (n + 1) (some { s with projects := kept }) l' := by
  obtain ⟨l', hcall, hserves⟩ := call_evaluated hl settings q hid
  obtain ⟨ds, hds, hfault⟩ := Finding.findingsFault_told hall x.desk.directory
  obtain ⟨d, hd, hlevels⟩ := Finding.answer?_findings (e := x.site.engine)
    (t := { s with projects := kept }) (Binary64.ofInt (n + 1 : Nat)) hall hreport
  have hwritten : Json.Canonical.levels d ≤ x.site.engine.frames :=
    Nat.le_trans hlevels x.site.engine.enough.1
  have hread : Json.Canonical.levels d ≤ x.limits.reading :=
    Nat.le_trans hlevels x.limits.enough.2.2.2
  have hends : q.ends x (n + 1) s = false := by
    rw [Query.ends, he]
    exact Worker.ends_of_answered hd hwritten
  have houtcome : q.outcome x (n + 1) s =
      .error (Worker.findingsFault x.compiler x.desk.directory es).wrap := by
    rw [Query.outcome, he]
    exact Worker.outcome_read hd hwritten hread
  rw [houtcome, hfault, TypeScript.toldReport_format hreport, Finding.wrap_report] at hcall
  have hsame : Modules.sweep s { s with projects := kept } = { s with projects := kept } :=
    Modules.sweep_same rfl
  rw [hends, he, if_neg Bool.false_ne_true] at hserves
  dsimp only at hserves
  rw [hsame] at hserves
  exact ⟨ds, l', hds, hcall, hserves⟩

/-- Errors that cannot be reported, or one of which has no name for its category, end the worker. -/
theorem call_unreported (hsilent : x.compiler.format (.text x.desk.directory) es = none ∨
      (∃ f ∈ es, f.category.bind x.compiler.categoryName = none)) :
    ∃ l', (withTree q.tree l).call (Compiler.service (ops x.limits) x.caller settings)
        (.text q.path) (.text q.content) = (.error (Compiler.exitedUnexpectedly "1").wrap, l') ∧
      Serves x (n + 1) none l' := by
  obtain ⟨l', hcall, hserves⟩ := call_evaluated hl settings q hid
  have hends : q.ends x (n + 1) s = true := by
    rw [Query.ends, he]
    refine Worker.endsWorker_iff.mpr ?_
    rcases hsilent with h | ⟨f, hf, h⟩
    · exact .unreported h
    · exact .unnamed hf h
  have houtcome : q.outcome x (n + 1) s = .error (Compiler.exitedUnexpectedly "1").wrap := by
    have hcode : Text.ofInt ((1 : Nat) : Int) = "1" := by decide
    rw [Query.ends, he] at hends
    rw [Query.outcome, he, ← hcode]
    exact Worker.outcome_ended hends
  rw [houtcome] at hcall
  rw [hends] at hserves
  exact ⟨l', hcall, hserves⟩

end

/-- The compilation of a query fails exactly if a list that it consults holds an error. Then nothing is
evaluated, and the worker keeps its state but for what it learned of projects. The call raises the errors
of the first such list, if the compiler names their category and has a report of them; otherwise the worker
ends. -/
theorem errors_stop_call {x : Setting} {n : Nat} {s : State} {l : Loader Machine Compiler}
    (hl : Serves x n (some s) l) (settings : Settings) (q : Query) {id : Text}
    (hid : Json.intText ((n + 1 : Nat) : Int) = .ok id)
    (hts : x.desk.pipeline.compiler = .ok x.compiler) {options : Entries} {kept : Kept}
    (ho : x.desk.pipeline.effective x.compiler q.tree (q.file x) s.projects = (.ok options, kept)) :
    ((∃ r, (x.desk.pipeline.compile q.tree (q.file x) q.source s.projects).1 = .error r) ↔
      ∃ fs ∈ q.consulted x options, ¬ Clean fs) ∧
    ∀ before fs after, q.consulted x options = before ++ fs :: after →
      (∀ gs ∈ before, Clean gs) → ¬ Clean fs →
      let es := fs.filter Finding.isError
      q.evaluate x s = (.error (.found es), { s with projects := kept }) ∧
      (∀ report, x.compiler.format (.text x.desk.directory) es = some report →
        (∀ f ∈ es, f.HasIntegers x.compiler) →
        ∃ ds l', List.Forall₂ (ToldBy x.compiler) ds es ∧
          (withTree q.tree l).call (Compiler.service (ops x.limits) x.caller settings) (.text q.path)
            (.text q.content) =
            (.error (Fault.compileFailure
              (Fault.reportHeading ++ Text.joinSurrogates (Text.trimBlankEnd report))
              (some (Fault.diagnosticsFault ds (told (Fault.heading ++ Text.trimBlankEnd report))))
              true), l') ∧
          Serves x (n + 1) (some { s with projects := kept }) l') ∧
      (x.compiler.format (.text x.desk.directory) es = none ∨
          (∃ f ∈ es, f.category.bind x.compiler.categoryName = none) →
        ∃ l', (withTree q.tree l).call (Compiler.service (ops x.limits) x.caller settings)
            (.text q.path) (.text q.content) = (.error (Compiler.exitedUnexpectedly "1").wrap, l') ∧
          Serves x (n + 1) none l') := by
  obtain ⟨code, hcompile⟩ := TypeScript.Pipeline.compile_gated hts ho q.source
  change _ = (TypeScript.Pipeline.gated (q.consulted x options) code, kept) at hcompile
  generalize q.consulted x options = lists at hcompile
  refine ⟨?_, ?_⟩
  · rw [hcompile]
    exact TypeScript.Pipeline.gated_error_iff
  rintro before fs after rfl hbefore hfs es
  rw [TypeScript.Pipeline.gated_found hbefore hfs] at hcompile
  have hevaluate : q.evaluate x s = (.error (.found es), { s with projects := kept }) :=
    Worker.evaluate_found (c := Worker.surroundings (seen x.site q.tree) x.compiler x.desk.pipeline)
      hcompile _
  exact ⟨hevaluate, fun report hreport hall => call_told hl settings hid hevaluate hreport hall,
    fun hsilent => call_unreported hl settings hid hevaluate hsilent⟩

/-- A mismatch at the start of a file, and an error of no place whose code is no small integer. -/
def strictErrors : List Finding := [
  ⟨some (.int 2322), some .error, .node "mismatch" [.node "because" []], some ⟨"/w/a.ts", 0, 0⟩, true⟩,
  ⟨some (.float (Binary64.ofInt (2 ^ 63))), some .error, .node "wide" [], none, false⟩]

def noted (category : TypeScript.Category) (code : Int) : Finding :=
  ⟨some (.int code), some category, .node "note" [], none, false⟩

/-- A compiler that finds them when it emits, after a warning and with a suggestion behind them. -/
def strict : TypeScript :=
  { TypeScript.Scripted.compiler [Text.ofString "w"] with
    transpile := fun _ _ options => ([noted .error 1], ⟨[], .mapping options, [], .null⟩)
    check := fun _ _ _ => {
      before := [noted .warning 6133]
      emitting := strictErrors ++ [noted .suggestion 80001]
      files := [] } }

theorem isInteger_small {k : Int} (hk : k.natAbs < 2 ^ 53) :
    TypeScript.IsInteger (.int k) k ∧ TypeScript.IsInteger (Finding.number k) k := by
  have hlimit : k.natAbs < Json.Canonical.integerLimit.natAbs := Nat.lt_trans hk (by decide)
  have hheld := Binary64.toInt?_ofInt hk
  exact ⟨⟨⟨_, rfl, hheld⟩, hlimit⟩, ⟨_, rfl, hheld⟩, hlimit⟩

theorem strictErrors_integers : ∀ f ∈ strictErrors, f.HasIntegers strict := by
  have hone := (isInteger_small (k := 1) (by decide)).2
  intro f hf
  simp only [strictErrors, List.mem_cons, List.not_mem_nil, or_false] at hf
  rcases hf with rfl | rfl
  · refine ⟨⟨_, 2322, rfl, (isInteger_small (by decide)).1⟩, ?_, _, rfl⟩
    rintro p ⟨⟩
    exact ⟨⟨1, hone⟩, 1, hone⟩
  · exact ⟨⟨_, 2 ^ 63, rfl, ⟨_, rfl, by decide +kernel⟩, by decide⟩, nofun, _, rfl⟩

theorem errors_stop_call_strict : ∃ ds l', List.Forall₂ (ToldBy strict) ds strictErrors ∧
    (sampleLoader strict true).call (Compiler.service (ops .usual) ⟨"/w", "/worker.js"⟩ .default)
      (.text "/w/a.ts") (.text "") = (.error (Fault.compileFailure
        (Fault.reportHeading ++ Text.joinSurrogates
          "a.ts(1,1): error TS2322: mismatch\n  because\nerror TS9223372036854776000: wide")
        (some (Fault.diagnosticsFault ds (told (Fault.heading ++
          "a.ts(1,1): error TS2322: mismatch\n  because\nerror TS9223372036854776000: wide")))) true),
        l') := by
  let x := sampleSetting strict true
  let q : Query := ⟨sample.tree, "/w/a.ts", ""⟩
  rcases ho : x.desk.pipeline.effective strict q.tree (q.file x) [] with ⟨_ | options, kept⟩
  · have hok : (x.desk.pipeline.effective strict q.tree (q.file x) []).1.toBool = true := by
      decide +kernel
    rw [ho] at hok
    cases hok
  have hlists : q.consulted x options =
      [[noted .warning 6133], strictErrors ++ [noted .suggestion 80001], [noted .error 1]] := rfl
  have hid : Json.intText ((0 + 1 : Nat) : Int) = .ok "1" := rfl
  obtain ⟨-, hstop⟩ := errors_stop_call (serves_sample strict true) .default q hid rfl ho
  obtain ⟨-, htold, -⟩ := hstop [_] _ [_] hlists
    (by
      intro gs hgs f hf
      rw [List.mem_singleton.mp hgs, List.mem_singleton] at hf
      rw [hf]
      nofun)
    (fun hclean => hclean _ (List.mem_cons_self ..) rfl)
  have herrors : (strictErrors ++ [noted .suggestion 80001]).filter Finding.isError =
      strictErrors := rfl
  rw [herrors] at htold
  obtain ⟨ds, l', hds, hcall, -⟩ := htold _ rfl strictErrors_integers
  have htext : Text.trimBlankEnd (TypeScript.Scripted.format (.text "/w") strictErrors) =
      "a.ts(1,1): error TS2322: mismatch\n  because\nerror TS9223372036854776000: wide" := by
    decide +kernel
  rw [show x.desk.directory = "/w" from rfl, htext] at hcall
  exact ⟨ds, l', hds, hcall⟩

/-- A source whose only finding is an error with the code `10 ^ 21`. -/
def largeCode : Text :=
  "\x7b\"diagnostics\": [\x7b\"code\": 1e21, \"category\": 1, \"text\": \"x\"\x7d]\x7d"

def causeKind : Except Fault Value → Option Fault.Kind
  | .error f => f.cause.map Fault.kind
  | .ok _ => none

/-- Such a code is an integer, but no diagnostic tells it: it is written with an exponent. -/
theorem large_code_refused : ∃ finding fault cause,
    (TypeScript.Scripted.Plan.ofSource sample.tree.cwd largeCode).transpiling = [finding] ∧
    finding.isError = true ∧
    (finding.code.bind TypeScript.number?).bind Binary64.toInt? = some (10 ^ 21) ∧
    results .usual ⟨"/w", "/worker.js"⟩ { Settings.default with typeCheck := false }
      [⟨sample.tree, "/w/a.ts", largeCode⟩] (Loader.start sample) = [.error fault] ∧
    fault.cause = some cause ∧ ∀ ds message, cause ≠ Fault.diagnosticsFault ds message := by
  have hcall : (results .usual ⟨"/w", "/worker.js"⟩ { Settings.default with typeCheck := false }
      [⟨sample.tree, "/w/a.ts", largeCode⟩] (Loader.start sample)).map causeKind =
      [some .validationError] := by decide +kernel
  have hfound : (TypeScript.Scripted.Plan.ofSource sample.tree.cwd largeCode).transpiling.map
      (fun f => (f.isError, (f.code.bind TypeScript.number?).bind Binary64.toInt?)) =
      [(true, some (10 ^ 21))] := by decide +kernel
  obtain ⟨finding, hfinding, hf⟩ := List.map_eq_singleton_iff.mp hfound
  obtain ⟨r, hr, hkind⟩ := List.map_eq_singleton_iff.mp hcall
  obtain ⟨herror, hcode⟩ := Prod.mk.inj hf
  cases r with
  | ok v => cases hkind
  | error fault =>
    obtain ⟨cause, hcause, hkind⟩ := Option.map_eq_some_iff.mp hkind
    refine ⟨finding, fault, cause, hfinding, herror, hcode, hr, hcause, ?_⟩
    rintro ds message rfl
    cases hkind

end Serving
end ConfigLoader
