import ConfigLoader.Value.Store
import ConfigLoader.Yaml.Node
import ConfigLoader.Yaml.Scalar

/-! # Documents

The values that a graph of nodes stands for. Scalars are read at once. A collection gets its cell at
once and its contents later, after those of the collections met before it, so that it may be met
again meanwhile.
-/
namespace ConfigLoader.Yaml

inductive CollectionKind
  | list
  | mapping
  | set
  | pairs (what : String)
  deriving DecidableEq, Repr

def CollectionKind.empty : CollectionKind → Cell
  | .list | .pairs _ => .list []
  | .mapping => .mapping []
  | .set => .set []

/-- A collection whose contents are not yet read. -/
structure Pending where
  node : Nat
  cell : Nat
  kind : CollectionKind

/-- What can be wrong with a document: its form, or a scalar that its type refuses. -/
inductive Refusal
  | form (e : Error)
  | scalar (f : Fault)

def Refusal.fault (document : Text) : Refusal → Fault
  | .form e => e.fault document
  | .scalar f => f

structure Builder where
  graph : Graph
  store : Store
  /-- The slots of the nodes met so far. -/
  built : List (Nat × Slot)
  /-- The collections to fill, the last one first. -/
  pending : List Pending

namespace Builder

def fail {α : Type} (context : Option (Text × Mark)) (problem : Text) (mark : Mark) :
    Except Refusal α :=
  .error (.form (.marked .constructor (context.map fun c => (c.1, some c.2)) problem mark))

def node (b : Builder) (i : Nat) : Node := (b.graph[i]?).getD ⟨[], .scalar [], default⟩

/-- The text of a scalar; a mapping lends that of its default value. -/
def scalarText (b : Builder) : Nat → Nat → Except Refusal Text
  | 0, i => fail none "expected a scalar node, but found mapping" (b.node i).start
  | fuel + 1, i =>
    let n := b.node i
    match n.content with
    | .scalar t => .ok t
    | .sequence _ => fail none "expected a scalar node, but found sequence" n.start
    | .mapping es =>
      match es.find? fun e => (b.node e.1).tag == commonTag "value" with
      | some e => b.scalarText fuel e.2
      | none => fail none "expected a scalar node, but found mapping" n.start

def finish (b : Builder) (i : Nat) (s : Slot) : Slot × Builder :=
  (s, { b with built := (i, s) :: b.built })

/-- Gives a collection a cell, to be filled later. -/
def postpone (b : Builder) (i : Nat) (kind : CollectionKind) : Slot × Builder :=
  let (cell, store) := b.store.push kind.empty
  { b with store := store, pending := ⟨i, cell, kind⟩ :: b.pending }.finish i (.ref cell)

/-- The types whose values are read from a scalar's text. -/
def scalarReaders : List (String × (Text → Except Fault Value)) := [
  ("null", fun _ => .ok .null), ("bool", Scalar.boolean), ("int", Scalar.integer),
  ("float", Scalar.float), ("timestamp", Scalar.timestamp), ("str", fun t => .ok (.text t))]

def collectionKinds : List (String × CollectionKind) := [
  ("seq", .list), ("map", .mapping), ("set", .set), ("omap", .pairs "an ordered map"),
  ("pairs", .pairs "pairs")]

def object (b : Builder) (i : Nat) : Except Refusal (Slot × Builder) :=
  match b.built.find? fun p => p.1 = i with
  | some (_, s) => .ok (s, b)
  | none =>
    let n := b.node i
    let isTag (name : String) : Bool := n.tag == commonTag name
    match collectionKinds.find? fun k => isTag k.1, scalarReaders.find? fun r => isTag r.1 with
    | some (_, kind), _ => .ok (b.postpone i kind)
    | none, some (_, read) => do
      let t ← b.scalarText (b.graph.size + 1) i
      match read t with
      | .ok v => return b.finish i (.leaf v)
      | .error f => throw (.scalar f)
    | none, none =>
      if isTag "binary" then do
        let t ← b.scalarText (b.graph.size + 1) i
        match Scalar.binary t with
        | .ok bytes => return b.finish i (.leaf (.bytes bytes))
        | .error problem => fail none problem n.start
      else
        fail none ("could not determine a constructor for the tag " ++ n.tag.literal) n.start

def objects (b : Builder) : List Nat → Except Refusal (List Slot × Builder)
  | [] => .ok ([], b)
  | i :: is => do
    let (s, b) ← b.object i
    let (ss, b) ← b.objects is
    return (s :: ss, b)

def entriesOf (b : Builder) (i : Nat) : List (Nat × Nat) :=
  match (b.node i).content with
  | .mapping es => es
  | _ => []

def setEntries (b : Builder) (i : Nat) (es : List (Nat × Nat)) : Builder :=
  { b with graph := b.graph.modify i fun n => { n with content := .mapping es } }

def setTag (b : Builder) (i : Nat) (t : Text) : Builder :=
  { b with graph := b.graph.modify i fun n => { n with tag := t } }

mutual

/-- Moves the entries of merged mappings in front of a mapping's own, from its entry `at` on; `acc`
holds those gathered so far. -/
def flattenFrom : Nat → Nat → Nat → List (Nat × Nat) → Builder → Except Refusal Builder
  | 0, _, _, _, b => .ok b
  | fuel + 1, i, index, acc, b =>
    let es := b.entriesOf i
    match es[index]? with
    | none => .ok (if acc.isEmpty then b else b.setEntries i (acc ++ es))
    | some (k, v) =>
      let tag := (b.node k).tag
      if tag == commonTag "merge" then do
        let b := b.setEntries i (es.eraseIdx index)
        let value := b.node v
        match value.content with
        | .mapping _ =>
          let b ← flattenFrom fuel v 0 [] b
          flattenFrom fuel i index (acc ++ b.entriesOf v) b
        | .sequence items =>
          let (found, b) ← flattenAll fuel i items b
          flattenFrom fuel i index (acc ++ found.reverse.flatten) b
        | .scalar _ =>
          fail (some ("while constructing a mapping", (b.node i).start))
            "expected a mapping or list of mappings for merging, but found scalar" value.start
      else if tag == commonTag "value" then
        flattenFrom fuel i (index + 1) acc (b.setTag k (commonTag "str"))
      else flattenFrom fuel i (index + 1) acc b

def flattenAll : Nat → Nat → List Nat → Builder → Except Refusal (List (List (Nat × Nat)) × Builder)
  | 0, _, _, b => .ok ([], b)
  | _ + 1, _, [], b => .ok ([], b)
  | fuel + 1, i, j :: js, b =>
    let n := b.node j
    match n.content with
    | .mapping _ => do
      let b ← flattenFrom fuel j 0 [] b
      let es := b.entriesOf j
      let (rest, b) ← flattenAll fuel i js b
      return (es :: rest, b)
    | _ =>
      fail (some ("while constructing a mapping", (b.node i).start))
        ("expected a mapping for merging, but found " ++ n.kindName) n.start

end

def entryCount (b : Builder) : Nat :=
  b.graph.foldl (fun n x => n + match x.content with
    | .mapping es => es.length + 1
    | .sequence is => is.length + 1
    | .scalar _ => 1) 1

def flatten (b : Builder) (i : Nat) : Except Refusal Builder :=
  flattenFrom (b.entryCount ^ 3) i 0 [] b

def keyOf (b : Builder) (mapping key : Nat) (s : Slot) : Except Refusal Value :=
  match s with
  | .leaf v => .ok v
  | .ref _ =>
    fail (some ("while constructing a mapping", (b.node mapping).start)) "found unhashable key"
      (b.node key).start

/-- Reads the entries of a mapping after those in `acc`. -/
def mappingEntries (mapping : Nat) :
    List (Nat × Nat) → List (Value × Slot) → Builder → Except Refusal (List (Value × Slot) × Builder)
  | [], acc, b => .ok (acc, b)
  | (k, v) :: es, acc, b => do
    let (s, b) ← b.object k
    let key ← b.keyOf mapping k s
    let (value, b) ← b.object v
    mappingEntries mapping es (Store.putSlot acc key value) b

def mapping (b : Builder) (i : Nat) : Except Refusal (List (Value × Slot) × Builder) :=
  let n := b.node i
  match n.content with
  | .mapping _ => do
    let b ← b.flatten i
    mappingEntries i (b.entriesOf i) [] b
  | _ => fail none ("expected a mapping node, but found " ++ n.kindName) n.start

def pairItems (context : Text × Mark) : List Nat → Builder → Except Refusal (List Slot × Builder)
  | [], b => .ok ([], b)
  | i :: is, b => do
    let n := b.node i
    match n.content with
    | .mapping [(k, v)] =>
      let (key, b) ← b.object k
      let (value, b) ← b.object v
      let (cell, store) := b.store.push (.tuple [key, value])
      let (rest, b) ← pairItems context is { b with store := store }
      return (.ref cell :: rest, b)
    | .mapping es =>
      fail (some context)
        ("expected a single mapping item, but found " ++ Text.ofNat es.length ++ " items") n.start
    | _ =>
      fail (some context) ("expected a mapping of length 1, but found " ++ n.kindName) n.start

def fill (b : Builder) (p : Pending) : Except Refusal Builder := do
  let n := b.node p.node
  match p.kind with
  | .list =>
    match n.content with
    | .sequence is =>
      let (ss, b) ← b.objects is
      return { b with store := b.store.put p.cell (.list ss) }
    | _ => fail none ("expected a sequence node, but found " ++ n.kindName) n.start
  | .mapping =>
    let (es, b) ← b.mapping p.node
    return { b with store := b.store.put p.cell (.mapping es) }
  | .set =>
    let (es, b) ← b.mapping p.node
    return { b with store := b.store.put p.cell (.set (es.map Prod.fst)) }
  | .pairs what =>
    let context : Text × Mark := ("while constructing " ++ what, n.start)
    match n.content with
    | .sequence is =>
      let (ss, b) ← pairItems context is b
      return { b with store := b.store.put p.cell (.list ss) }
    | _ => fail (some context) ("expected a sequence, but found " ++ n.kindName) n.start

/-- Fills the pending collections, those that they bring with them after them. -/
def fillAll : Nat → Builder → Except Refusal Builder
  | 0, b => .ok b
  | fuel + 1, b =>
    match b.pending.reverse with
    | [] => .ok b
    | ps => do
      let b ← ps.foldlM fill { b with pending := [] }
      fillAll fuel b

end Builder

/-- The value of a text that holds one document, in a store of its own; its collections may lie so
many levels deep within each other. -/
def build (levels : Nat) (t : Text) : Except Refusal (Slot × Store) := do
  match ← (compose levels t).mapError Refusal.form with
  | none => return (.leaf .null, Store.empty)
  | some (root, graph) =>
    let (s, b) ← Builder.object ⟨graph, Store.empty, [], []⟩ root
    let b ← Builder.fillAll (graph.size + 1) b
    return (s, b.store)

/-- Reads a document into a store, with the fault that reports what is wrong with it. -/
def loadShared (levels : Nat) (t : Text) : Except Fault (Slot × Store) :=
  (build levels t).mapError (Refusal.fault t)

def load (levels : Nat) (t : Text) : Except Fault Value := do
  let (s, store) ← loadShared levels t
  return store.unfold s

end ConfigLoader.Yaml
