import ConfigLoader.Limits

/-! # Child processes

What can be done with a child process: start it, and act on it through its two pipes. A started
process has a handle; every operation gives its result or a fault, with the world after it.
-/
namespace ConfigLoader

namespace Child

/-- A program to start: its executable, the script given to it, and the directory it runs in. -/
structure Command where
  executable : Text
  script : Text
  directory : Text
  deriving DecidableEq, Repr

abbrev Handle := Nat

/-- What is done with a started process. -/
inductive Action
  | write (text : Text)
  | flush
  | closeInput
  | readLine
  | closeOutput
  | wait (seconds : Option Nat)
  | terminate
  | kill
  deriving DecidableEq, Repr

end Child

open Child in
/-- Child processes in a world of type `W`. Reading a line gives it with its end, or an empty text
when there is none; the other actions give an empty text. The limits are those of the process that has
the children. -/
structure ChildOps (W : Type) where
  limits : Limits
  start : Command → W → Except Fault Handle × W
  act : Handle → Action → W → Except Fault Text × W
  hasInput : Handle → W → Bool
  hasOutput : Handle → W → Bool
  isRunning : Handle → W → Bool
  exitCode : Handle → W → Option Int
  number : Handle → W → Nat

/-! ## Traces

A traced world keeps what was asked of processes, each event before it takes effect.
-/

namespace Child

inductive Event
  | start (c : Command)
  | act (h : Handle) (a : Action)
  deriving DecidableEq, Repr

structure Traced (W : Type) where
  world : W
  /-- The last event first. -/
  events : List Event

namespace Traced

variable {W : Type}

def see (e : Event) (t : Traced W) : Traced W := { t with events := e :: t.events }

/-- Runs an operation on the world inside. -/
def lift {α : Type} (f : W → α × W) (t : Traced W) : α × Traced W :=
  let (r, w) := f t.world
  (r, { t with world := w })

end Traced

def traced {W : Type} (ops : ChildOps W) : ChildOps (Traced W) where
  limits := ops.limits
  start c t := (t.see (.start c)).lift (ops.start c)
  act h a t := (t.see (.act h a)).lift (ops.act h a)
  hasInput h t := ops.hasInput h t.world
  hasOutput h t := ops.hasOutput h t.world
  isRunning h t := ops.isRunning h t.world
  exitCode h t := ops.exitCode h t.world
  number h t := ops.number h t.world

end Child
end ConfigLoader
