import ConfigLoader.Child
import ConfigLoader.Worker

/-! # Programs of a machine

A machine has files and programs, and the jobs that were started on it. A job takes what is
written to it at once, and what it writes is kept until it is read.
-/
namespace ConfigLoader.Child

inductive Program
  | worker
  /-- Ends at once. -/
  | ends (code : Nat)
  /-- Writes the script that it is given, and ends when its input does. -/
  | shows

inductive Activity
  | working (w : Worker)
  | ended (code : Nat)

/-- A program that was started. -/
structure Job where
  activity : Activity
  /-- The lines that it wrote and that were not read yet. -/
  unread : List Text

structure Machine where
  engine : Engine
  tree : FileTree
  /-- The script that workers execute. -/
  script : Text
  /-- The file of the compiler package. -/
  package : Text
  /-- What the package exports to a process in a directory. -/
  compiler : Location → TypeScript
  /-- Programs by names and paths. -/
  programs : List (Text × Program)
  jobs : List Job

namespace Job

def exitCode? (p : Job) : Option Nat :=
  match p.activity with
  | .working w => w.exitCode?
  | .ended code => some code

end Job

namespace Machine

def site (m : Machine) : Worker.Site := ⟨m.engine, m.tree, m.script, m.package, m.compiler⟩

/-! ## Starting -/

def permissionDenied (file : Text) : Fault :=
  .system 13 "Permission denied" (some (.text file))

/-- The place of the directory that a process is to run in. -/
def directoryOf (m : Machine) (dir : Text) : Except Fault Location :=
  match m.tree.locate dir with
  | .error e => .error (e.fault dir)
  | .ok l =>
    if m.tree.at? l = some .directory then .ok l
    else .error (LookupError.notDirectory.fault dir)

/-- The program of an executable. A name without a slash has to be known; files of the tree cannot
be executed. -/
def programOf (m : Machine) (here : Location) (executable : Text) : Except Fault Program :=
  match m.programs.find? fun p => p.1 == executable with
  | some p => .ok p.2
  | none =>
    if executable.contains (CodePoint.ofChar '/') then
      match m.tree.locateFrom here executable with
      | .ok _ => .error (permissionDenied executable)
      | .error e => .error (e.fault executable)
    else if (Path.names executable).all (· == Text.ofString "..") then
      .error (permissionDenied executable)
    else .error (LookupError.missing.fault executable)

def jobOf (m : Machine) (here : Location) (script : Text) : Program → Job
  | .worker => ⟨.working (.start script here), []⟩
  | .ends code => ⟨.ended code, []⟩
  | .shows =>
    ⟨.ended 0, ((Text.splitLines [] ((m.tree.text? script).getD [])).1).map (· ++ "\n")⟩

def begin? (m : Machine) (c : Command) : Except Fault Job := do
  if FileTree.holdsNull c.executable || FileTree.holdsNull c.directory then
    throw FileTree.nullFault
  let here ← m.directoryOf c.directory
  let program ← m.programOf here c.executable
  return m.jobOf here c.script program

def start (c : Command) (m : Machine) : Except Fault Handle × Machine :=
  match m.begin? c with
  | .error f => (.error f, m)
  | .ok p => (.ok m.jobs.length, { m with jobs := m.jobs ++ [p] })

/-! ## Acting -/

/-- Lets a worker do something, and keeps the frames that it writes. -/
def lets (p : Job) (f : Worker → List Text × Worker) : Job :=
  match p.activity with
  | .working w => let (fs, w) := f w; ⟨.working w, p.unread ++ fs⟩
  | .ended _ => p

def perform (site : Worker.Site) (a : Action) (p : Job) : Text × Job :=
  match a with
  | .write text => ([], lets p (·.receive site text))
  | .closeInput => ([], lets p (·.finish site))
  | .readLine => (p.unread.head?.getD [], { p with unread := p.unread.tail })
  | _ => ([], p)

def act (h : Handle) (a : Action) (m : Machine) : Except Fault Text × Machine :=
  match m.jobs[h]? with
  | none => (.ok [], m)
  | some p =>
    let (t, p) := perform m.site a p
    (.ok t, { m with jobs := m.jobs.set h p })

def exitCode (h : Handle) (m : Machine) : Option Int :=
  (m.jobs[h]?.bind Job.exitCode?).map fun n => (n : Int)

def ops (limits : Limits) : ChildOps Machine where
  limits := limits
  start := start
  act := act
  hasInput _ _ := true
  hasOutput _ _ := true
  isRunning h m := (exitCode h m).isNone
  exitCode := exitCode
  number h _ := h + 1

end Machine
end ConfigLoader.Child
