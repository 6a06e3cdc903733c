import ConfigLoader.Compiler
import ConfigLoader.Loader.Threads

/-! # Threads that share a compiler

Threads do requests and closes on one compiler. A thread goes through a task in steps, between which
the other threads may do theirs: it takes or gives back the lock, reads or writes the slot of the
process, and acts on the process.
-/
namespace ConfigLoader.Callers
open Child (Handle Action)
open Compiler (Site)
open Threads (Actor)

inductive Task
  | compile (path source : Value)
  | close

/-- Where the shutdown of a process is. -/
inductive Ending
  | input
  | first
  | terminate
  | second
  | kill
  | last
  | output
  deriving DecidableEq

namespace Ending
variable {W : Type}

def action : Ending → Action
  | input => .closeInput
  | first => .wait (some Compiler.patience)
  | terminate => .terminate
  | second => .wait (some Compiler.lastPatience)
  | kill => .kill
  | last => .wait none
  | output => .closeOutput

/-- Whether the process has the pipe that is to be closed. -/
def applies (ops : ChildOps W) (h : Handle) (w : W) : Ending → Bool
  | input => ops.hasInput h w
  | output => ops.hasOutput h w
  | _ => true

/-- Where a shutdown is once the process ended. -/
def waited : Except Fault Text → Except Fault Unit ⊕ Ending
  | .error f => .inl (.error f)
  | .ok _ => .inr output

/-- Where a shutdown goes on, or what it ends with, after an action. -/
def next : Ending → Except Fault Text → Except Fault Unit ⊕ Ending
  | input, .error f => if f.isSystem then .inr first else .inl (.error f)
  | input, .ok _ => .inr first
  | first, r => if Compiler.isTimeout r then .inr terminate else waited r
  | terminate, .error f => .inl (.error f)
  | terminate, .ok _ => .inr second
  | second, r => if Compiler.isTimeout r then .inr kill else waited r
  | kill, .error f => .inl (.error f)
  | kill, .ok _ => .inr last
  | last, r => waited r
  | output, r => .inl (r.map fun _ => ())

end Ending

inductive CompilePoint
  /-- The lock was taken. -/
  | looking
  /-- The slot was seen filled. -/
  | numbering (h : Handle)
  | writing (h : Handle) (id : Nat)
  | flushing (h : Handle)
  | reading (h : Handle)
  /-- A pipe is broken, and the slot is to be emptied. -/
  | dropping (h : Handle)
  | ending (h : Handle) (p : Ending)
  /-- The lock is to be given back, with a reply or a fault. -/
  | leaving (r : Except Fault Value)

/-- Where a thread is in a close. -/
inductive ClosePoint
  /-- The lock was taken. -/
  | looking
  /-- The slot was read, and is to be emptied. -/
  | emptying (k : Option Handle)
  /-- The lock is to be given back. -/
  | leaving (k : Option Handle)
  | noting (h : Handle)
  | ending (h : Handle) (p : Ending)

inductive Activity
  | idle
  | compile (path source : Value) (point : CompilePoint)
  | close (point : ClosePoint)

structure Thread where
  /-- The tasks that it has not begun. -/
  tasks : List Task
  activity : Activity
  /-- How the tasks that are done ended, the last one first. -/
  results : List (Except Fault Value)

/-- What tasks do to the lock, to the process and to its slot. -/
inductive Event
  | enter (a : Actor) (task : Task)
  | act (a : Actor) (h : Handle) (action : Action) (r : Except Fault Text)
  | take (a : Actor) (h : Handle)
  | finish (a : Actor) (task : Task) (r : Except Fault Value)

structure Shared (W : Type) where
  compiler : Compiler
  /-- The thread that has the lock. -/
  holder : Option Nat
  state : Logged W
  /-- The last event first. -/
  events : List Event

namespace Shared
variable {W : Type}

def see (e : Event) (x : Shared W) : Shared W := { x with events := e :: x.events }

/-- Takes the lock for a thread, unless another one has it. -/
def lock? (i : Nat) (x : Shared W) : Option (Shared W) :=
  match x.holder with
  | some _ => none
  | none => some { x with holder := some i }

def unlock (x : Shared W) : Shared W := { x with holder := none }

def setSlot (k : Option Handle) (x : Shared W) : Shared W :=
  { x with compiler := { x.compiler with process := k } }

def act (ops : ChildOps W) (a : Actor) (h : Handle) (action : Action) (x : Shared W) :
    Except Fault Text × Shared W :=
  let (r, w) := ops.act h action x.state.world
  (r, { x with state := { x.state with world := w } }.see (.act a h action r))

/-- One step of shutting a process down. -/
def shut (ops : ChildOps W) (a : Actor) (h : Handle) (p : Ending) (x : Shared W) :
    (Except Fault Unit ⊕ Ending) × Shared W :=
  if p.applies ops h x.state.world then
    let (r, x) := x.act ops a h p.action
    (p.next r, x)
  else (p.next (.ok []), x)

/-- What a process that was shut down is known by. -/
def exitText (ops : ChildOps W) (h : Handle) (x : Shared W) : Text :=
  match ops.exitCode h x.state.world with
  | some n => Text.ofInt n
  | none => "None"

end Shared

namespace Thread
variable {W : Type}

def actor (i : Nat) (t : Thread) : Actor := ⟨i, t.results.length⟩

def goes (t : Thread) (a : Activity) : Thread := { t with activity := a }

def ends (i : Nat) (task : Task) (r : Except Fault Value) (t : Thread) (x : Shared W) :
    Thread × Shared W :=
  ({ t with activity := .idle, results := r :: t.results }, x.see (.finish (t.actor i) task r))

/-- Where a request goes on after a fault of its exchange. -/
def failing (h : Handle) (f : Fault) : CompilePoint :=
  if Compiler.isBroken f then .dropping h else .leaving (.error f)

def compileStep (ops : ChildOps W) (site : Site) (i : Nat) (path source : Value) (t : Thread)
    (x : Shared W) : CompilePoint → Thread × Shared W
  | .looking =>
    match x.compiler.process with
    | none => (t.goes (.compile path source (.leaving (.error Compiler.notRegistered))), x)
    | some h => (t.goes (.compile path source (.numbering h)), x)
  | .numbering h =>
    let n := x.compiler.lastId + 1
    (t.goes (.compile path source (.writing h n)),
      { x with compiler := { x.compiler with lastId := n } })
  | .writing h id =>
    match Compiler.absolutePath site path with
    | .error f => (t.goes (.compile path source (.leaving (.error f))), x)
    | .ok p =>
      if ops.hasInput h x.state.world then
        match Compiler.frame ops.limits (Compiler.request id p source) with
        | .error f => (t.goes (.compile path source (failing h f)), x)
        | .ok text =>
          match x.act ops (t.actor i) h (.write text) with
          | (.error f, x) => (t.goes (.compile path source (failing h f)), x)
          | (.ok _, x) => (t.goes (.compile path source (.flushing h)), x)
      else (t.goes (.compile path source (failing h Compiler.closedInput)), x)
  | .flushing h =>
    match x.act ops (t.actor i) h .flush with
    | (.error f, x) => (t.goes (.compile path source (failing h f)), x)
    | (.ok _, x) => (t.goes (.compile path source (.reading h)), x)
  | .reading h =>
    if ops.hasOutput h x.state.world then
      match x.act ops (t.actor i) h .readLine with
      | (.error f, x) => (t.goes (.compile path source (failing h f)), x)
      | (.ok line, x) =>
        match if line.isEmpty then .error Compiler.endOfOutput
            else Json.load ops.limits.reading line with
        | .error f => (t.goes (.compile path source (failing h f)), x)
        | .ok reply => (t.goes (.compile path source (.leaving (.ok reply))), x)
    else (t.goes (.compile path source (failing h Compiler.endOfOutput)), x)
  | .dropping h => (t.goes (.compile path source (.ending h .input)), x.setSlot none)
  | .ending h p =>
    match x.shut ops (t.actor i) h p with
    | (.inr p, x) => (t.goes (.compile path source (.ending h p)), x)
    | (.inl (.error f), x) => (t.goes (.compile path source (.leaving (.error f))), x)
    | (.inl (.ok _), x) =>
      (t.goes (.compile path source
        (.leaving (.error (Compiler.exitedUnexpectedly (x.exitText ops h))))), x)
  | .leaving r =>
    t.ends i (.compile path source)
      (r.bind fun reply => (Compiler.Reply.read reply).bind Compiler.Reply.outcome) x.unlock

def closingMessage (ops : ChildOps W) (h : Handle) (w : W) : Text :=
  "closing TypeScript worker (pid=" ++ Text.ofNat (ops.number h w) ++ ")"

def closeStep (ops : ChildOps W) (i : Nat) (t : Thread) (x : Shared W) :
    ClosePoint → Thread × Shared W
  | .looking => (t.goes (.close (.emptying x.compiler.process)), x)
  | .emptying none => (t.goes (.close (.leaving none)), x.setSlot none)
  | .emptying (some h) =>
    (t.goes (.close (.leaving (some h))), (x.setSlot none).see (.take (t.actor i) h))
  | .leaving none => t.ends i .close (.ok .null) x.unlock
  | .leaving (some h) => (t.goes (.close (.noting h)), x.unlock)
  | .noting h =>
    (t.goes (.close (.ending h .input)), { x with
      state := x.state.note .debug .compiler (closingMessage ops h x.state.world) })
  | .ending h p =>
    match x.shut ops (t.actor i) h p with
    | (.inr p, x) => (t.goes (.close (.ending h p)), x)
    | (.inl r, x) => t.ends i .close (r.map fun _ => .null) x

/-- Where a task begins, once the lock is taken. -/
def opening : Task → Activity
  | .compile path source => .compile path source .looking
  | .close => .close .looking

/-- The next step of a thread, if it has one and nothing keeps it from it. -/
def step (ops : ChildOps W) (site : Site) (i : Nat) (t : Thread) (x : Shared W) :
    Option (Thread × Shared W) :=
  match t.activity, t.tasks with
  | .idle, [] => none
  | .idle, task :: ts => (x.lock? i).map fun x =>
      ({ t with tasks := ts, activity := opening task }, x.see (.enter (t.actor i) task))
  | .compile path source point, _ => some (compileStep ops site i path source t x point)
  | .close point, _ => some (closeStep ops i t x point)

end Thread

structure Crew (W : Type) where
  shared : Shared W
  threads : List Thread

namespace Crew
variable {W : Type}

/-- Threads that are about to begin with their tasks on a compiler. -/
def start (c : Compiler) (l : Logged W) (tasks : List (List Task)) : Crew W where
  shared := ⟨c, none, l, []⟩
  threads := tasks.map fun ts => ⟨ts, .idle, []⟩

/-- The next step of a thread, if it has one and nothing keeps it from it. -/
def step? (ops : ChildOps W) (site : Site) (i : Nat) (x : Crew W) : Option (Crew W) :=
  x.threads[i]?.bind fun t =>
    (t.step ops site i x.shared).map fun p => ⟨p.2, x.threads.set i p.1⟩

/-- Steps of threads in the order of a schedule. The turn of a thread without a step passes. -/
def run (ops : ChildOps W) (site : Site) (schedule : List Nat) (x : Crew W) : Crew W :=
  schedule.foldl (fun x i => (x.step? ops site i).getD x) x

end Crew
end ConfigLoader.Callers
