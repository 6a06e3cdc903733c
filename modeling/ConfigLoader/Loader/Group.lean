import ConfigLoader.Loader

/-! # Loaders side by side

Independent loaders in one world, each with its own way to build services and its own slot, known by
their numbers. A use of them is made of calls, closes and blocks: a fault ends a use unless it is
rescued, and on every way out of a block its loader is closed.
-/
namespace ConfigLoader

structure Group (W S : Type) where
  slots : Nat → Option S
  state : Logged W

namespace Group
variable {W S : Type}

def start (w : W) : Group W S := ⟨fun _ => none, .start w⟩

def loader (i : Nat) (g : Group W S) : Loader W S := ⟨g.slots i, g.state⟩

def put (i : Nat) (l : Loader W S) (g : Group W S) : Group W S :=
  ⟨fun j => if j = i then l.slot else g.slots j, l.state⟩

end Group

inductive Use
  | pass
  | call (i : Nat) (path content : Value)
  | close (i : Nat)
  | fail (f : Fault)
  | seq (first second : Use)
  /-- A block in which a loader is open. -/
  | block (i : Nat) (body : Use)
  /-- Faults of the body are dropped. -/
  | rescue (body : Use)

namespace Use
variable {W S : Type}

/-- A use gives the values of its calls, or the fault that ends it. -/
def perform (ops : Nat → ServiceOps W S) : Use → Group W S → Except Fault (List Value) × Group W S
  | pass, g => (.ok [], g)
  | call i path content, g =>
    let (r, l) := (g.loader i).call (ops i) path content
    (r.map ([·]), g.put i l)
  | close i, g =>
    let (r, l) := (g.loader i).close (ops i)
    (r.map fun _ => [], g.put i l)
  | fail f, g => (.error f, g)
  | seq first second, g =>
    match perform ops first g with
    | (.error f, g) => (.error f, g)
    | (.ok vs, g) => let (r, g) := perform ops second g; (r.map (vs ++ ·), g)
  | block i body, g =>
    let (r, g) := perform ops body g
    match (g.loader i).close (ops i) with
    | (.error f, l) => (.error f, g.put i l)
    | (.ok _, l) => (r, g.put i l)
  | rescue body, g =>
    match perform ops body g with
    | (.error _, g) => (.ok [], g)
    | (.ok vs, g) => (.ok vs, g)

/-- Uses one after another, each whatever the ones before it ended with. -/
def run (ops : Nat → ServiceOps W S) (us : List Use) (g : Group W S) : Group W S :=
  us.foldl (fun g u => (u.perform ops g).2) g

def loaders : Use → List Nat
  | pass | fail _ => []
  | call i _ _ | close i => [i]
  | seq first second => first.loaders ++ second.loaders
  | block i body => i :: body.loaders
  | rescue body => body.loaders

end Use
end ConfigLoader
