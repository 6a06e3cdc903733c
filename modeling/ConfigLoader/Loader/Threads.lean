import ConfigLoader.Loader

/-! # Loaders that threads share

Threads do calls and closes on one loader. A thread goes through a task in steps, between which the
other threads may do theirs: it looks at the slot, takes or gives back the lock, builds a service,
fills or empties the slot, and uses a service. A service is known by its place among those that were
built.
-/
namespace ConfigLoader.Threads

inductive Task
  | call (path content : Value)
  | close

inductive CallPoint (S : Type)
  /-- The slot was seen empty without the lock. -/
  | waiting
  /-- The lock was taken. -/
  | checking
  /-- The slot was seen empty with the lock, and a service is being built. -/
  | building
  /-- A service was built that is not in the slot yet. -/
  | storing (s : S)
  /-- The slot was seen filled with the lock, or was filled. -/
  | taking
  /-- The lock is to be given back, with a service at hand or a fault of building one. -/
  | leaving (r : Except Fault (Option Nat))
  | asking (k : Option Nat)
  | reporting (r : Except Fault Value)

/-- Where a thread is in a close. -/
inductive ClosePoint
  /-- The lock was taken. -/
  | emptying
  /-- The slot was emptied, and the lock is to be given back. -/
  | leaving (k : Option Nat)
  | closing (k : Nat)

inductive Activity (S : Type)
  | idle
  | call (path content : Value) (point : CallPoint S)
  | close (point : ClosePoint)

structure Thread (S : Type) where
  /-- The tasks that it has not begun. -/
  tasks : List Task
  activity : Activity S
  /-- How the tasks that are done ended, the last one first. -/
  results : List (Except Fault Value)

/-- A task of a thread: the thread by its place, and the task by the number of those before it. -/
structure Actor where
  thread : Nat
  task : Nat
  deriving DecidableEq, Repr

/-- What tasks do to services and to the slot. -/
inductive Event
  | attempt (a : Actor)
  | refuse (a : Actor) (f : Fault)
  | fill (a : Actor) (k : Nat)
  | ask (a : Actor) (k : Nat) (r : Except Fault Value)
  | empty (a : Actor) (k : Option Nat)
  | close (a : Actor) (k : Nat)

structure Shared (W S : Type) where
  slot : Option Nat
  /-- The thread that has the lock. -/
  holder : Option Nat
  state : Logged W
  built : List S
  /-- The last event first. -/
  events : List Event

namespace Shared
variable {W S : Type}

def see (e : Event) (x : Shared W S) : Shared W S := { x with events := e :: x.events }

def note (level : Level) (message : Text) (x : Shared W S) : Shared W S :=
  { x with state := x.state.note level .loader message }

/-- Takes the lock for a thread, unless another one has it. -/
def lock? (i : Nat) (x : Shared W S) : Option (Shared W S) :=
  match x.holder with
  | some _ => none
  | none => some { x with holder := some i }

def unlock (x : Shared W S) : Shared W S := { x with holder := none }

def loader (x : Shared W S) : Loader W S := ⟨x.slot.bind fun k => x.built[k]?, x.state⟩

def service? (x : Shared W S) (k : Option Nat) : Option (Nat × S) :=
  k.bind fun k => x.built[k]?.map fun s => (k, s)

def noService (name : Text) : Fault := Fault.noAttribute .null name

def ask (ops : ServiceOps W S) (a : Actor) (path content : Value) (k : Option Nat)
    (x : Shared W S) : Except Fault Value × Shared W S :=
  match Loader.contentLength content with
  | .error f => (.error f, x)
  | .ok n =>
    let x := x.note .debug ("Compiling " ++ path.display ++ " (" ++ Text.ofNat n ++ " chars)")
    match x.service? k with
    | none => (.error (noService "compile_and_execute"), x)
    | some (k, s) =>
      let (r, s, w) := ops.compile path content s x.state
      (r, { x with state := w, built := x.built.set k s }.see (.ask a k r))

def report (path : Value) (f : Fault) (x : Shared W S) : Fault × Shared W S :=
  if f.isOrdinary then
    (f.wrap, x.note .debug
      ("Load failed for " ++ path.display ++ ": " ++ f.kind.name ++ ": " ++ f.message))
  else (f, x)

def shut (ops : ServiceOps W S) (a : Actor) (k : Nat) (x : Shared W S) :
    Except Fault Value × Shared W S :=
  match x.service? (some k) with
  | none => (.error (noService "close"), x)
  | some (k, s) =>
    let (r, w) := ops.close s x.state
    (r.map fun _ => .null, { x with state := w }.see (.close a k))

end Shared

namespace Thread
variable {W S : Type}

def actor (i : Nat) (t : Thread S) : Actor := ⟨i, t.results.length⟩

def goes (t : Thread S) (a : Activity S) : Thread S := { t with activity := a }

def ends (t : Thread S) (r : Except Fault Value) : Thread S :=
  { t with activity := .idle, results := r :: t.results }

def callStep (ops : ServiceOps W S) (i : Nat) (path content : Value) (t : Thread S)
    (x : Shared W S) : CallPoint S → Option (Thread S × Shared W S)
  | .waiting => (x.lock? i).map fun x => (t.goes (.call path content .checking), x)
  | .checking =>
    match x.slot with
    | some _ => some (t.goes (.call path content .taking), x)
    | none => some (t.goes (.call path content .building),
        (x.note .info "Creating compiler service").see (.attempt (t.actor i)))
  | .building =>
    match ops.create x.state with
    | (.ok s, w) => some (t.goes (.call path content (.storing s)), { x with state := w })
    | (.error f, w) => some (t.goes (.call path content (.leaving (.error f))),
        { x with state := w }.see (.refuse (t.actor i) f))
  | .storing s => some (t.goes (.call path content .taking),
      { x with slot := some x.built.length, built := x.built ++ [s] }.see
        (.fill (t.actor i) x.built.length))
  | .taking => some (t.goes (.call path content (.leaving (.ok x.slot))), x)
  | .leaving (.ok k) => some (t.goes (.call path content (.asking k)), x.unlock)
  | .leaving (.error f) => some (t.goes (.call path content (.reporting (.error f))), x.unlock)
  | .asking k =>
    let (r, x) := x.ask ops (t.actor i) path content k
    some (t.goes (.call path content (.reporting r)), x)
  | .reporting (.ok v) => some (t.ends (.ok v), x)
  | .reporting (.error f) =>
    let (f, x) := x.report path f
    some (t.ends (.error f), x)

def closeStep (ops : ServiceOps W S) (i : Nat) (t : Thread S) (x : Shared W S) :
    ClosePoint → Option (Thread S × Shared W S)
  | .emptying => some (t.goes (.close (.leaving x.slot)),
      { x with slot := none }.see (.empty (t.actor i) x.slot))
  | .leaving none => some (t.ends (.ok .null), x.unlock)
  | .leaving (some k) => some (t.goes (.close (.closing k)), x.unlock)
  | .closing k =>
    let (r, x) := x.shut ops (t.actor i) k
    some (t.ends r, x)

/-- The next step of a thread, if it has one and nothing keeps it from it. -/
def step (ops : ServiceOps W S) (i : Nat) (t : Thread S) (x : Shared W S) :
    Option (Thread S × Shared W S) :=
  match t.activity, t.tasks with
  | .idle, [] => none
  | .idle, .call path content :: ts =>
    let point := match x.slot with
      | some k => .asking (some k)
      | none => .waiting
    some ({ t with tasks := ts, activity := .call path content point }, x)
  | .idle, .close :: ts =>
    (x.lock? i).map fun x => ({ t with tasks := ts, activity := .close .emptying }, x)
  | .call path content point, _ => callStep ops i path content t x point
  | .close point, _ => closeStep ops i t x point

def isDone (t : Thread S) : Bool :=
  match t.activity with
  | .idle => t.tasks.isEmpty
  | _ => false

end Thread

structure Crew (W S : Type) where
  shared : Shared W S
  threads : List (Thread S)

namespace Crew
variable {W S : Type}

def start (l : Loader W S) (tasks : List (List Task)) : Crew W S where
  shared := {
    slot := l.slot.map fun _ => 0
    holder := none
    state := l.state
    built := l.slot.toList
    events := [] }
  threads := tasks.map fun ts => ⟨ts, .idle, []⟩

/-- The next step of a thread, if it has one and nothing keeps it from it. -/
def step? (ops : ServiceOps W S) (i : Nat) (x : Crew W S) : Option (Crew W S) :=
  x.threads[i]?.bind fun t =>
    (t.step ops i x.shared).map fun p => ⟨p.2, x.threads.set i p.1⟩

/-- Steps of threads in the order of a schedule. The turn of a thread without a step passes. -/
def run (ops : ServiceOps W S) (schedule : List Nat) (x : Crew W S) : Crew W S :=
  schedule.foldl (fun x i => (x.step? ops i).getD x) x

def isDone (x : Crew W S) : Bool := x.threads.all Thread.isDone

end Crew
end ConfigLoader.Threads
