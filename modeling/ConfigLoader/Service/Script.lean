import ConfigLoader.Loader

/-! # Scripted services

A script says how each attempt to build a service ends, and what each service does. Every service
that was built keeps the calls made of it.
-/
namespace ConfigLoader.Service

/-- What one service does: the results of its calls in turn, and how closing it ends. -/
structure Behaviour where
  calls : List (Except Fault Value)
  closing : Option Fault

inductive Plan
  | refuse (f : Fault)
  | serve (b : Behaviour)

structure Built where
  behaviour : Behaviour
  /-- The paths and contents of its calls, in order. -/
  calls : List (Value × Value)
  closes : Nat

structure Script where
  plans : List Plan
  attempts : Nat
  built : List Built

namespace Script

def ofPlans (ps : List Plan) : Script := ⟨ps, 0, []⟩

/-- The item of a list at an index, the last one after its end. -/
def nthOrLast {α : Type} (default : α) (xs : List α) (n : Nat) : α :=
  (xs[n]?).getD (xs.getLast?.getD default)

def idle : Behaviour := ⟨[], none⟩

def create (s : Script) : Except Fault Nat × Script :=
  let plan := nthOrLast (.serve idle) s.plans s.attempts
  let s := { s with attempts := s.attempts + 1 }
  match plan with
  | .refuse f => (.error f, s)
  | .serve b => (.ok s.built.length, { s with built := s.built ++ [⟨b, [], 0⟩] })

def compile (path content : Value) (i : Nat) (s : Script) : Except Fault Value × Script :=
  match s.built[i]? with
  | none => (.ok .null, s)
  | some b =>
    let r := nthOrLast (.ok .null) b.behaviour.calls b.calls.length
    (r, { s with built := s.built.set i { b with calls := b.calls ++ [(path, content)] } })

def close (i : Nat) (s : Script) : Except Fault Unit × Script :=
  match s.built[i]? with
  | none => (.ok (), s)
  | some b =>
    let s := { s with built := s.built.set i { b with closes := b.closes + 1 } }
    match b.behaviour.closing with
    | some f => (.error f, s)
    | none => (.ok (), s)

/-- Scripted services by their place among those built; they write no records. -/
def ops : ServiceOps Script Nat where
  create l := let (r, s) := create l.world; (r, { l with world := s })
  compile path content i l :=
    let (r, s) := compile path content i l.world
    (r, i, { l with world := s })
  close i l := let (r, s) := close i l.world; (r, { l with world := s })

end Script
end ConfigLoader.Service
