import ConfigLoader.Proofs.Modules.Alike
import ConfigLoader.Proofs.Modules.Closed
import ConfigLoader.Proofs.TypeScript.Projects
import ConfigLoader.Worker

/-! # Evaluations of requests

From states that are alike a request is answered alike. Its evaluation keeps the modules that were
remembered, and if it changed none of their objects the heap is left as it was.
-/
namespace ConfigLoader.Worker
open Modules (State Stop Run Surroundings Respects Steady Alike Closed Keeps Any Grown Memory Query)
open TypeScript (Pipeline Rejection)
open TypeScript.Project (Kept)
open Script (Item Code)

def stopOf : Except Rejection Code → Except Stop Code
  | .ok code => .ok code
  | .error (.failed f) => .error (.raised (Modules.errorItem f))
  | .error (.found es) => .error (.found es)

theorem compile_run (p : Pipeline) (t : FileTree) (file source : Text) (s : State) :
    (compile p t file source).run.run s = (stopOf (p.compile t file source s.projects).1,
      { s with projects := (p.compile t file source s.projects).2 }) := by
  unfold compile
  rw [Modules.run_get_bind]
  rcases p.compile t file source s.projects with ⟨⟨f | es⟩ | code, k⟩ <;> rfl

def AlikeFor (p : Pipeline) (t : FileTree) (K : Kept → Kept → Prop) : Prop :=
  ∀ file source k k', K k k' →
    (p.compile t file source k).1 = (p.compile t file source k').1 ∧
      K (p.compile t file source k).2 (p.compile t file source k').2

theorem alikeFor_eq (p : Pipeline) (t : FileTree) : AlikeFor p t Eq := by
  rintro file source k k' rfl
  exact ⟨rfl, rfl⟩

theorem alikeFor_holds (p : Pipeline) (t : FileTree) :
    AlikeFor p t fun k k' => p.Holds t k ∧ p.Holds t k' := by
  rintro file source k k' ⟨hk, hk'⟩
  obtain ⟨h1, h2⟩ := p.compile_settled file source hk
  obtain ⟨h3, h4⟩ := p.compile_settled file source hk'
  exact ⟨h1.trans h3.symm, h2, h4⟩

variable {site : Site} {ts : TypeScript} {p : Pipeline} {M : Memory → Memory → Prop}
  {K : Kept → Kept → Prop}

theorem compile_respects {t : FileTree} (hK : AlikeFor p t K) (file source : Text) :
    Respects (Alike M K) (compile p t file source) := by
  intro s s' h
  obtain ⟨h1, h2⟩ := hK file source _ _ h.projects
  rw [compile_run, compile_run, h1]
  exact ⟨rfl, h.heap, h.cache, h.count, h.memory, h2⟩

abbrev Answered (c : Surroundings) (M : Memory → Memory → Prop) : Prop :=
  ∀ q : Query, Respects M (q.ask c.engine c.tree c.extensions)

theorem answered_same (c : Surroundings) :
    Answered c fun m m' => m = m' ∧ True := by
  rintro q m m' ⟨rfl, -⟩
  exact ⟨rfl, rfl, trivial⟩

theorem surroundings_steady (hM : Answered (surroundings site ts p) M)
    (hK : AlikeFor p site.tree K) :
    Steady (surroundings site ts p) (fun _ => True) (Alike M K) := by
  refine Modules.alike_steady hM ?_
  intro f hf file text
  cases hf
  exact compile_respects hK file text

theorem execute_respects {Free : Text → Prop} {R : State → State → Prop}
    (hR : Steady (surroundings site ts p) Free R) (script file source : Text) :
    Respects R (execute (surroundings site ts p) p script file source) :=
  (hR.compile _ rfl file source).bind fun code => hR.runEntry script file code

theorem surroundings_grown (site : Site) (ts : TypeScript) (p : Pipeline)
    (start : List (Text × Nat)) :
    Steady (surroundings site ts p) (fun file => Modules.assoc? file start = none)
      (fun s s' => s = s' ∧ Grown start s) := by
  refine Modules.grown_steady start ?_
  intro f hf file text s
  cases hf
  rw [compile_run]

theorem evaluate_alike (hM : Answered (surroundings site ts p) M) (hK : AlikeFor p site.tree K)
    (script file source : Text) {s s' : State} (h : Alike M K s s') :
    (evaluate (surroundings site ts p) p script file source s).1 =
        (evaluate (surroundings site ts p) p script file source s').1 ∧
      Alike M K (evaluate (surroundings site ts p) p script file source s).2
        (evaluate (surroundings site ts p) p script file source s').2 := by
  obtain ⟨h1, h2⟩ := execute_respects (surroundings_steady hM hK) script file source s s' h
  unfold evaluate
  rcases hx : (execute (surroundings site ts p) p script file source).run.run s with ⟨r, t⟩
  rcases hx' : (execute (surroundings site ts p) p script file source).run.run s' with ⟨r', t'⟩
  rw [hx, hx'] at h1 h2
  dsimp only at h1 h2 ⊢
  subst h1
  have hforget : Alike M K (Modules.forgetNew s t) (Modules.forgetNew s' t') :=
    ⟨h2.heap, by simp only [Modules.forgetNew, h2.cache, h.cache], h2.count, h2.memory,
      h2.projects⟩
  cases r with
  | error e => exact ⟨rfl, hforget⟩
  | ok exported =>
    have hheap : (Modules.forgetNew s t).heap = (Modules.forgetNew s' t').heap := hforget.heap
    have hselected : selected (Modules.forgetNew s t) exported =
        selected (Modules.forgetNew s' t') exported := by
      simp only [selected, hheap]
    dsimp only
    rw [hselected, hheap]
    cases Script.Encoding.document (surroundings site ts p).engine.values
        (Modules.forgetNew s' t').heap (selected (Modules.forgetNew s' t') exported) with
    | ok d => exact ⟨rfl, hforget⟩
    | error f => exact ⟨rfl, hforget⟩

theorem evaluate_rejected {c : Surroundings} {file source : Text} {s : State} {r : Rejection}
    {e : Stop} {k : Kept} (h : p.compile c.tree file source s.projects = (.error r, k))
    (he : stopOf (.error r) = .error e) (script : Text) :
    evaluate c p script file source s = (.error e, { s with projects := k }) := by
  have hrun : (execute c p script file source).run.run s =
      (.error e, { s with projects := k }) := by
    rw [execute, Modules.run_bind, compile_run, h]
    dsimp only
    rw [he]
  unfold evaluate
  rw [hrun]
  exact congrArg (Prod.mk _) (Modules.forgetNew_same rfl)

theorem answer_congr (e : Engine) (ts : TypeScript) {s s' : State} (h : s.heap = s'.heap)
    (directory : Value) (id : Option Value) (r : Except Stop Value) :
    answer? e ts s directory id r = answer? e ts s' directory id r := by
  cases r with
  | ok v => rfl
  | error stop =>
    cases stop <;> simp only [answer?, stoppedAnswer?, errorFields?, formField?, thrownDocument?, h]

theorem handle_alike (hM : Answered (surroundings site ts p) M) (hK : AlikeFor p site.tree K)
    {directory : Value} (request : Value) {w w' : Worker} (hhere : w.here = w'.here)
    (h : Alike M K w.state w'.state) :
    (handle site (surroundings site ts p) ⟨directory, p⟩ request w).1 =
      (handle site (surroundings site ts p) ⟨directory, p⟩ request w').1 := by
  have hfile : requestFile? w directory request = requestFile? w' directory request := by
    simp only [requestFile?, hhere]
  unfold handle
  dsimp only
  rw [hfile, hhere]
  cases requestFile? w' directory request with
  | none => rfl
  | some file =>
    let source := sourceOf (site.compiler w'.here) request
    obtain ⟨h1, h2⟩ := evaluate_alike hM hK site.script file source h
    dsimp only
    rcases hx : evaluate (surroundings site ts p) p site.script file source w.state with ⟨r, t⟩
    rcases hx' : evaluate (surroundings site ts p) p site.script file source w'.state with ⟨r', t'⟩
    rw [hx, hx'] at h1 h2
    obtain rfl : r = r' := h1
    dsimp only
    rw [answer_congr _ _ h2.heap]
    dsimp only
    split <;> rfl

end ConfigLoader.Worker
