import ConfigLoader.Child

/-! # Scripted processes

A script says how each start ends and what the process writes, and at which of its actions there is
a fault.
-/
namespace ConfigLoader.Child

/-- Actions without what they carry. -/
inductive Site
  | write
  | flush
  | closeInput
  | readLine
  | closeOutput
  | wait
  | terminate
  | kill
  deriving DecidableEq, Repr

def Action.site : Action → Site
  | .write _ => .write
  | .flush => .flush
  | .closeInput => .closeInput
  | .readLine => .readLine
  | .closeOutput => .closeOutput
  | .wait _ => .wait
  | .terminate => .terminate
  | .kill => .kill

/-- A fault at one of the actions of a kind, counted from one, or at every one. -/
structure Disturbance where
  site : Site
  nth : Option Nat
  fault : Fault

structure Behaviour where
  lines : List Text
  exitCode : Option Int
  disturbances : List Disturbance
  hasInput : Bool
  hasOutput : Bool

inductive Plan
  | refuse (f : Fault)
  | run (b : Behaviour)

structure Started where
  behaviour : Behaviour
  /-- The lines that were not read yet. -/
  lines : List Text
  /-- The kinds of the actions so far. -/
  past : List Site
  dead : Bool

namespace Started

def disturbance (p : Started) (site : Site) : Option Fault :=
  let count := (p.past.filter (· == site)).length + 1
  (p.behaviour.disturbances.find? fun d => d.site == site && (d.nth.getD count == count)).map
    (·.fault)

/-- What an action gives when there is no fault, with the process after it. -/
def perform (p : Started) : Action → Text × Started
  | .readLine => (p.lines.head?.getD [], { p with lines := p.lines.tail })
  | _ => ([], p)

def act (p : Started) (a : Action) : Except Fault Text × Started :=
  let r := p.disturbance a.site
  let p := { p with past := a.site :: p.past }
  match r with
  | some f => (.error f, p)
  | none => let (t, p) := p.perform a; (.ok t, p)

end Started

structure Script where
  plans : List Plan
  started : List Started
  processNumber : Nat

namespace Script

def ofPlans (ps : List Plan) (number : Nat) : Script := ⟨ps, [], number⟩

def absent (executable : Text) : Fault :=
  .system 2 "No such file or directory" (some (.text executable))

def start (c : Command) (s : Script) : Except Fault Handle × Script :=
  match s.plans with
  | [] => (.error (absent c.executable), s)
  | .refuse f :: ps => (.error f, { s with plans := ps })
  | .run b :: ps =>
    (.ok s.started.length,
      { s with plans := ps, started := s.started ++ [⟨b, b.lines, [], false⟩] })

def act (h : Handle) (a : Action) (s : Script) : Except Fault Text × Script :=
  match s.started[h]? with
  | none => (.ok [], s)
  | some p => let (r, p) := p.act a; (r, { s with started := s.started.set h p })

def die (h : Handle) (s : Script) : Script :=
  { s with started := s.started.modify h fun p => { p with dead := true } }

def ask {α : Type} (default : α) (f : Started → α) (h : Handle) (s : Script) : α :=
  ((s.started[h]?).map f).getD default

def ops (limits : Limits) : ChildOps Script where
  limits := limits
  start := start
  act := act
  hasInput := ask false fun p => p.behaviour.hasInput
  hasOutput := ask false fun p => p.behaviour.hasOutput
  isRunning := ask false fun p => !p.dead
  exitCode := ask none fun p => p.behaviour.exitCode
  number _ s := s.processNumber

end Script
end ConfigLoader.Child
