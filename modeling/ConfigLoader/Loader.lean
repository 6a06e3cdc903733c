import ConfigLoader.Fault
import ConfigLoader.Log

/-! # Loaders

A loader turns the text of a configuration file into a value with a compiler service that it builds
on the first call and keeps until it is closed. A service is given by what it does to a world; the
loader holds at most one, in a slot.
-/
namespace ConfigLoader

/-- How services of type `S` are built and used in a world of type `W`. Every operation gives its
result or a fault, with the world after it. -/
structure ServiceOps (W S : Type) where
  create : Logged W → Except Fault S × Logged W
  compile : Value → Value → S → Logged W → Except Fault Value × S × Logged W
  close : S → Logged W → Except Fault Unit × Logged W

structure Loader (W S : Type) where
  slot : Option S
  state : Logged W

namespace Loader

variable {W S : Type}

def start (w : W) : Loader W S := ⟨none, .start w⟩

def record (r : LogRecord) (l : Loader W S) : Loader W S := { l with state := l.state.record r }

def note (l : Loader W S) (level : Level) (message : Text) : Loader W S :=
  l.record ⟨level, .loader, message⟩

/-- The service in the slot; into an empty slot goes a new one. -/
def service (ops : ServiceOps W S) (l : Loader W S) : Except Fault S × Loader W S :=
  match l.slot with
  | some s => (.ok s, l)
  | none =>
    let l := l.note .info "Creating compiler service"
    match ops.create l.state with
    | (.ok s, w) => (.ok s, ⟨some s, w⟩)
    | (.error f, w) => (.error f, { l with state := w })

def contentLength : Value → Except Fault Nat
  | .text t => .ok t.length
  | .bytes b => .ok b.length
  | .list vs | .tuple vs | .set vs => .ok vs.length
  | .mapping es => .ok es.length
  | v => .error (Fault.typeError ("object of type '" ++ v.qualifiedTypeName ++ "' has no len()"))

/-- A call before its faults are wrapped: get the service, measure the content, compile. -/
def attempt (ops : ServiceOps W S) (path content : Value) (l : Loader W S) :
    Except Fault Value × Loader W S :=
  match l.service ops with
  | (.error f, l) => (.error f, l)
  | (.ok s, l) =>
    match contentLength content with
    | .error f => (.error f, l)
    | .ok n =>
      let l := l.note .debug
        ("Compiling " ++ path.display ++ " (" ++ Text.ofNat n ++ " chars)")
      let (r, s, w) := ops.compile path content s l.state
      (r, ⟨some s, w⟩)

/-- Loads a content; an ordinary fault is reported as a compile fault, any other passes through. -/
def call (ops : ServiceOps W S) (path content : Value) (l : Loader W S) :
    Except Fault Value × Loader W S :=
  match l.attempt ops path content with
  | (.ok v, l) => (.ok v, l)
  | (.error f, l) =>
    if f.isOrdinary then
      (.error f.wrap, l.note .debug
        ("Load failed for " ++ path.display ++ ": " ++ f.kind.name ++ ": " ++ f.message))
    else (.error f, l)

def close (ops : ServiceOps W S) (l : Loader W S) : Except Fault Unit × Loader W S :=
  match l.slot with
  | none => (.ok (), l)
  | some s =>
    let (r, w) := ops.close s l.state
    (r, ⟨none, w⟩)

def callAll (ops : ServiceOps W S) : List (Value × Value) → Loader W S →
    Except Fault (List Value) × Loader W S
  | [], l => (.ok [], l)
  | (path, content) :: cs, l =>
    match l.call ops path content with
    | (.error f, l) => (.error f, l)
    | (.ok v, l) =>
      match callAll ops cs l with
      | (.error f, l) => (.error f, l)
      | (.ok vs, l) => (.ok (v :: vs), l)

/-- Calls in a block that ends with a fault of its own, if one is given. The loader is closed on
every way out of the block, and a fault of closing takes the place of any other. -/
def within (ops : ServiceOps W S) (calls : List (Value × Value)) (ending : Option Fault)
    (l : Loader W S) : Except Fault (List Value) × Loader W S :=
  let (r, l) := l.callAll ops calls
  let r := match r, ending with
    | .ok _, some f => .error f
    | r, _ => r
  match l.close ops with
  | (.error f, l) => (.error f, l)
  | (.ok _, l) => (r, l)

/-- The same call made `n` times, one after another. -/
def repeatCall (ops : ServiceOps W S) (path content : Value) :
    Nat → Loader W S → List (Except Fault Value) × Loader W S
  | 0, l => ([], l)
  | n + 1, l =>
    let (r, l) := l.call ops path content
    let (rs, l) := repeatCall ops path content n l
    (r :: rs, l)

end Loader
end ConfigLoader
