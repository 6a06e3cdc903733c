import ConfigLoader.Child.Machine
import ConfigLoader.Compiler
import ConfigLoader.Proofs.Json.Canonical
import ConfigLoader.Proofs.Json.Lines
import ConfigLoader.Proofs.Worker.Input

/-! # Workers of a machine

A frame that is written to a worker of a machine is read by it as one line, and what the worker
writes on this line is what is read from it. A worker that is shut down has ended.
-/
namespace ConfigLoader.Child.Machine
open Compiler (frame send receive exchange shutdown)
variable {limits : Limits} {m : Machine} {h : Handle} {p q : Job}

@[simp] theorem ops_limits (limits : Limits) : (ops limits).limits = limits := rfl

def withJob (m : Machine) (h : Handle) (p : Job) : Machine := { m with jobs := m.jobs.set h p }

@[simp] theorem withJob_site (m : Machine) (h : Handle) (p : Job) :
    (m.withJob h p).site = m.site := rfl

@[simp] theorem withJob_withJob (m : Machine) (h : Handle) (p q : Job) :
    (m.withJob h p).withJob h q = m.withJob h q := by
  simp only [withJob, List.set_set]

theorem withJob_job (hj : m.jobs[h]? = some p) (q : Job) : (m.withJob h q).jobs[h]? = some q :=
  List.getElem?_set_self (List.getElem?_eq_some_iff.mp hj).1

theorem act_job (hj : m.jobs[h]? = some p) {a : Action} {t : Text}
    (ha : perform m.site a p = (t, q)) : (ops limits).act h a m = (.ok t, m.withJob h q) := by
  change act h a m = _
  simp only [act, hj, ha, withJob]

theorem act_same (hj : m.jobs[h]? = some p) {a : Action} {t : Text}
    (ha : perform m.site a p = (t, p)) : (ops limits).act h a m = (.ok t, m) := by
  obtain ⟨_, hp⟩ := List.getElem?_eq_some_iff.mp hj
  rw [act_job hj ha, withJob, ← hp, List.set_getElem_self]

/-! ## Exchanges -/

theorem receive_line (site : Worker.Site) {w : Worker} (hw : w.pending = []) {line : Text}
    (hl : Json.OneLine line) :
    w.receive site (line ++ [10]) =
      ((w.readLine site line).1, (w.readLine site line).2.settle) := by
  have hs := Json.splitLines_oneLine hl []
  have he : ({ w with pending := [] } : Worker) = w := by rw [← hw]
  simp only [Worker.receive, hw, List.reverse_nil, hs, List.nil_append, he, Worker.readLines,
    List.append_nil]

/-- What is read from a worker after a line that it answered with some frames; `room` is how many levels
can be read. -/
def heard (room : Nat) : List Text → Except Fault Value
  | [] => .error Compiler.endOfOutput
  | t :: _ => if t.isEmpty then .error Compiler.endOfOutput else Json.load room t

theorem heard_frame (room : Nat) (v : Value) (fs : List Text) :
    heard room (Worker.frameLine v :: fs) = Json.load room (Worker.frameLine v) := by
  have hne : (Worker.frameLine v).isEmpty = false := by
    rw [Worker.frameLine, List.isEmpty_eq_false_iff]
    exact List.append_ne_nil_of_right_ne_nil _ (by decide)
  rw [heard, hne]
  rfl

theorem exchange_working {w : Worker} (hj : m.jobs[h]? = some ⟨.working w, []⟩)
    (hw : w.pending = []) {message : Value} {line : Text}
    (hf : frame limits message = .ok (line ++ [10])) (hl : Json.OneLine line) :
    exchange (ops limits) h message m = (heard limits.reading (w.readLine m.site line).1,
      m.withJob h ⟨.working (w.readLine m.site line).2.settle, (w.readLine m.site line).1.tail⟩) := by
  rcases hr : w.readLine m.site line with ⟨fs, v⟩
  have hwrite : perform m.site (.write (line ++ [10])) ⟨.working w, []⟩ =
      ([], ⟨.working v.settle, fs⟩) := by
    simp only [perform, lets, receive_line m.site hw hl, hr, List.nil_append]
  have hj1 := withJob_job hj ⟨.working v.settle, fs⟩
  have h1 := @act_job limits _ _ _ _ hj _ _ hwrite
  have h2 : (ops limits).act h .flush (m.withJob h ⟨.working v.settle, fs⟩) = (.ok [], _) :=
    act_same hj1 rfl
  have h3 : (ops limits).act h .readLine (m.withJob h ⟨.working v.settle, fs⟩) =
      (.ok (fs.head?.getD []), _) := act_job hj1 rfl
  have hin : (ops limits).hasInput h m = true := rfl
  have hout : (ops limits).hasOutput h (m.withJob h ⟨.working v.settle, fs⟩) = true := rfl
  simp only [exchange, send, receive, ops_limits, hin, hout, hf, h1, h2, h3, if_true, Except.map,
    withJob_withJob]
  cases fs with
  | nil => rfl
  | cons t ts => rfl

/-! ## Shutting down -/

/-- Shutting a worker down closes its input and waits for it once. -/
theorem shutdown_working {w : Worker} {us : List Text} (hj : m.jobs[h]? = some ⟨.working w, us⟩) :
    shutdown (ops limits) h m = (.ok (),
      m.withJob h ⟨.working (w.finish m.site).2, us ++ (w.finish m.site).1⟩) := by
  rcases hw : w.finish m.site with ⟨fs, v⟩
  have hclose : perform m.site .closeInput ⟨.working w, us⟩ = ([], ⟨.working v, us ++ fs⟩) := by
    simp only [perform, lets, hw]
  have h1 := @act_job limits _ _ _ _ hj _ _ hclose
  have hj1 := withJob_job hj ⟨.working v, us ++ fs⟩
  have h2 : (ops limits).act h (.wait (some Compiler.patience)) (m.withJob h ⟨.working v, us ++ fs⟩) =
      (.ok [], _) := act_same hj1 rfl
  have h3 : (ops limits).act h .closeOutput (m.withJob h ⟨.working v, us ++ fs⟩) = (.ok [], _) :=
    act_same hj1 rfl
  have hin : (ops limits).hasInput h m = true := rfl
  have hout : ∀ m, (ops limits).hasOutput h m = true := fun _ => rfl
  simp only [shutdown, Compiler.closeInput, Compiler.awaitEnd, Compiler.closeOutput, hin, hout, h1,
    h2, h3, Compiler.isTimeout, if_true, Bool.false_eq_true, if_false, Except.map]

theorem giveUp_exited (limits : Limits) {α : Type} {w : Worker} {us : List Text} {code : Nat}
    (hj : m.jobs[h]? = some ⟨.working w, us⟩) (hw : w.phase = .ended code)
    (tell : Text → Fault) :
    ∃ q, Compiler.giveUp (α := α) (ops limits) h tell m =
      (.error (tell (Text.ofInt code)), m.withJob h q) := by
  have hx : (ops limits).exitCode h
      (m.withJob h ⟨.working (w.finish m.site).2, us ++ (w.finish m.site).1⟩) =
        some (code : Int) := by
    change exitCode h _ = _
    simp only [exitCode, withJob_job hj, Option.bind_some, Job.exitCode?,
      (Worker.finish_ended m.site hw).2]
    rfl
  refine ⟨⟨.working (w.finish m.site).2, us ++ (w.finish m.site).1⟩, ?_⟩
  simp only [Compiler.giveUp, shutdown_working hj, hx]

end ConfigLoader.Child.Machine
