import ConfigLoader.Proofs.Compiler.Traffic
import ConfigLoader.Proofs.Loader.Serving
import ConfigLoader.Proofs.Worker.Findings
import ConfigLoader.Proofs.Worker.Greeting
import ConfigLoader.TypeScript.Scripted

/-! # Results of a loader

A loader whose first call registers a worker of the machine is served from then on: every call ends
with the outcome of the evaluation that it asks for, until one of them ends the worker.
-/
namespace ConfigLoader.Serving
open Child (Handle Machine)
open Child.Machine (ops withJob withJob_job exchange_working)
open Modules (State Stop)
open Worker (Desk told given)
open Json.Canonical (levels)

variable {limits : Limits} {m : Machine} {here : Location} {caller : Compiler.Site}
  {settings : Settings}

theorem greet_working {h : Handle} {v : Value}
    (hb : m.begin? (Compiler.workerCommand caller settings) =
      .ok ⟨.working (.start caller.script here), []⟩)
    (hg : (Compiler.greet (ops limits) caller settings m).1 = .ok (h, v)) :
    h = m.jobs.length ∧ (Compiler.greet (ops limits) caller settings m).2.site = m.site ∧
    ∃ x : Desk, x.here = here ∧ ∃ s,
      (Compiler.greet (ops limits) caller settings m).2.jobs[h]? = some ⟨.working (x.worker s), []⟩ := by
  obtain ⟨w1, reply, hs, hx, hreply, hw⟩ := Compiler.greet_ok hg
  have hstart : Child.Machine.start (Compiler.workerCommand caller settings) m = (.ok h, w1) := hs
  rw [Child.Machine.start, hb] at hstart
  obtain rfl : m.jobs.length = h := Except.ok.inj (congrArg Prod.fst hstart)
  have hw1 : w1 = { m with jobs := m.jobs ++ [⟨.working (.start caller.script here), []⟩] } :=
    (congrArg Prod.snd hstart).symm
  have hj : w1.jobs[m.jobs.length]? = some ⟨.working (.start caller.script here), []⟩ := by
    rw [hw1]
    dsimp only
    rw [List.getElem?_append_right (Nat.le_refl _), Nat.sub_self]
    rfl
  cases hf : Compiler.frame limits (Compiler.handshake caller settings) with
  | error f =>
    have hin : ∀ u, (ops limits).hasInput m.jobs.length u = true := fun _ => rfl
    have hf : Compiler.frame (ops limits).limits (Compiler.handshake caller settings) = .error f := hf
    simp only [Compiler.exchange, Compiler.send, hin, hf, if_true] at hx
    cases hx
  | ok text =>
    obtain ⟨line, rfl, hline⟩ := Compiler.frame_line hf
    have hexchange := exchange_working (w := .start caller.script here) hj rfl hf hline
    rw [hexchange] at hx hw
    obtain ⟨x, hhere, s, hworker, htail⟩ := Worker.readLine_ready _ _ _ _ hx hreply
    rw [hworker, htail] at hw
    refine ⟨rfl, ?_, x, hhere, s, ?_⟩
    · rw [hw, hw1]
      rfl
    · rw [hw]
      exact withJob_job hj _

theorem create_serves
    (hb : m.begin? (Compiler.workerCommand caller settings) =
      .ok ⟨.working (.start caller.script here), []⟩)
    (hr : (Compiler.register (ops limits) caller (.new settings) (.start m)).1 = .ok ()) :
    ∃ x : Desk, x.here = here ∧ ∃ s,
      (Compiler.register (ops limits) caller (.new settings) (.start m)).2.2.world.jobs[m.jobs.length]? =
        some ⟨.working (x.worker s), []⟩ ∧
      ∀ l : Logged Machine, l.world = m → ∃ c k,
        (Compiler.service (ops limits) caller settings).create l = (.ok c, k) ∧ k.world.tree = m.tree ∧
        Serves ⟨limits, caller, m.site, x⟩ 0 (some s) ⟨some c, k⟩ := by
  have hnew : (Compiler.new settings).isRegistered (ops limits) m = false := rfl
  rcases Compiler.register_cases (l := .start m) hnew caller with
    ⟨f, h1, -⟩ | ⟨h, v, -, hg, -, hw⟩
  · rw [hr] at h1
    cases h1
  have hg : (Compiler.greet (ops limits) caller settings m).1 = .ok (h, v) := hg
  obtain ⟨rfl, hsite, x, hhere, s, hj⟩ := greet_working hb hg
  refine ⟨x, hhere, s, hw ▸ hj, ?_⟩
  intro l hl
  have hnew : (Compiler.new settings).isRegistered (ops limits) l.world = false := rfl
  rcases e : Compiler.register (ops limits) caller (.new settings) l with ⟨r, c, k⟩
  have hcases := Compiler.register_cases hnew caller
  rw [e, hl] at hcases
  rcases hcases with ⟨f, -, h2, -⟩ | ⟨h', v', rfl, h2, h3, h4⟩
  · cases hg.symm.trans h2
  · obtain ⟨rfl, rfl⟩ : m.jobs.length = h' ∧ v = v' := by
      have hsame := Except.ok.inj (hg.symm.trans h2)
      exact ⟨congrArg Prod.fst hsame, congrArg Prod.snd hsame⟩
    have hc : c = { Compiler.new settings with process := some m.jobs.length, version := v } := h3
    have hk : k.world = (Compiler.greet (ops limits) caller settings m).2 := h4
    rw [← hk] at hsite hj
    have htree : k.world.tree = m.tree := congrArg Worker.Site.tree hsite
    refine ⟨c, k, ?_, htree, ?_, c, rfl, ?_, m.jobs.length, ?_, hj⟩
    · simp only [Compiler.service, e, Except.map]
    · rw [hsite, htree]
      rfl
    · rw [hc]
      rfl
    · rw [hc]

/-- What a caller makes of a call: the code of a worker that the call ended, or what is read from the answer
to the evaluation, unless this has more levels than there is room for. -/
theorem outcome_cases (x : Setting) (q : Query) (n : Nat) (s : State) :
    (q.ends x n s = true ∧ ∃ code,
      q.outcome x n s = .error (Compiler.exitedUnexpectedly (Text.ofInt code)).wrap) ∨
    q.ends x n s = false ∧ ∃ d,
      x.desk.answer? (seen x.site q.tree) (idOf n) (q.evaluate x s).2 (q.evaluate x s).1 = some d ∧
      (levels d ≤ x.limits.reading → q.outcome x n s =
        Worker.reading x.site.engine (x.site.compiler x.desk.here) x.desk.directory
          (q.evaluate x s).2 (q.evaluate x s).1) ∧
      (x.limits.reading < levels d → ∃ f : Fault, f.kind = .recursionError ∧
        q.outcome x n s = .error f.wrap) := by
  cases hends : q.ends x n s with
  | true => exact .inl ⟨rfl, _, Worker.outcome_ended hends⟩
  | false =>
    obtain ⟨d, hd, hl⟩ := Worker.answered_of_ends hends
    exact .inr ⟨rfl, d, hd, fun h => Worker.outcome_read hd hl h,
      fun h => Worker.outcome_overflows hd hl h⟩

def sample : Machine where
  engine := .plain
  tree := {
    entries := [(["w"], .directory), (["w", "node_modules"], .directory),
      (["w", "node_modules", "typescript.js"], .file [])]
    cwd := ["w"] }
  script := "/worker.js"
  package := "/w/node_modules/typescript.js"
  compiler := TypeScript.Scripted.compiler
  programs := [("node", .worker)]
  jobs := []

def sampleDesk (ts : TypeScript) (typeCheck : Bool) : Desk :=
  ⟨[Text.ofString "w"], "/w", ⟨.ok ts, typeCheck, .mapping [], .text "/w", [Text.ofString "w"]⟩⟩

def sampleSetting (ts : TypeScript) (typeCheck : Bool) : Setting :=
  ⟨.usual, ⟨"/w", "/worker.js"⟩, { sample.site with compiler := fun _ => ts }, sampleDesk ts typeCheck⟩

/-- A loader that holds such a worker, of which nothing was asked yet. -/
def sampleLoader (ts : TypeScript) (typeCheck : Bool) : Loader Machine Compiler where
  slot := some { Compiler.new .default with process := some 0 }
  state := .start { sample with
    compiler := fun _ => ts
    jobs := [⟨.working ((sampleDesk ts typeCheck).worker (Worker.startState "/worker.js")), []⟩] }

theorem serves_sample (ts : TypeScript) (typeCheck : Bool) :
    Serves (sampleSetting ts typeCheck) 0 (some (Worker.startState "/worker.js"))
      (sampleLoader ts typeCheck) :=
  ⟨rfl, _, rfl, rfl, 0, rfl, rfl⟩

theorem registered_of_toBool {r : Except Fault Unit} (h : r.toBool = true) : r = .ok () := by
  cases r with
  | error f => cases h
  | ok u => rfl

/-- A source that throws a list of a big integer and a symbol, which has neither a document nor a
text. -/
def untold : Text :=
  ("[\x7b\"do\": \"throw\", \"value\": [\x7b\"$js\": \"bigint\", \"arg\": \"10\"\x7d, " : Text) ++
    "\x7b\"$js\": \"symbol\", \"arg\": \"x\"\x7d]\x7d]"

def three : Text := "[\x7b\"do\": \"default\", \"value\": 3\x7d]"

def sampleCall (source : Text) : Query := ⟨sample.tree, "/w/a.ts", source⟩

def sampleEnds (sources : List Text) : List (Except Text Text) :=
  (results .usual ⟨"/w", "/worker.js"⟩ { Settings.default with typeCheck := false }
    (sources.map sampleCall) (Loader.start sample)).map fun r =>
      (r.map Json.Canonical.print).mapError Fault.message

end ConfigLoader.Serving
