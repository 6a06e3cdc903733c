import ConfigLoader.Limits

/-! # Shared containers

A store holds containers under numbers, so that one container may stand in several places, or
within itself. A merge changes a mapping in place and stores references, and every place that
shares the mapping shows the change, the walk through its entries included. Unfolding a store gives a
value back; a container met again on the way down shows as a mark, or once more by itself.
-/
namespace ConfigLoader

inductive Slot
  | leaf (v : Value)
  | ref (cell : Nat)
  deriving Inhabited

inductive Cell
  | list (items : List Slot)
  | tuple (items : List Slot)
  | set (keys : List Value)
  | mapping (entries : List (Value × Slot))
  deriving Inhabited

structure Store where
  cells : Array Cell

namespace Store

def empty : Store := ⟨#[]⟩

def push (s : Store) (c : Cell) : Nat × Store := (s.cells.size, ⟨s.cells.push c⟩)

def put (s : Store) (i : Nat) (c : Cell) : Store := ⟨s.cells.setIfInBounds i c⟩

def mapping? (s : Store) (i : Nat) : Option (List (Value × Slot)) :=
  match s.cells[i]? with
  | some (.mapping es) => some es
  | _ => none

def slotDict? (s : Store) : Slot → Option Nat
  | .ref i => if (s.mapping? i).isSome then some i else none
  | .leaf _ => none

def getSlot? (es : List (Value × Slot)) (k : Value) : Option Slot :=
  (es.find? fun e => e.1.sameKey k).map Prod.snd

def putSlot : List (Value × Slot) → Value → Slot → List (Value × Slot)
  | [], k, v => [(k, v)]
  | e :: es, k, v => if e.1.sameKey k then (e.1, v) :: es else e :: putSlot es k v

mutual

/-- Takes a value into the store, every container of it as a new cell. -/
def add (s : Store) : Value → Slot × Store
  | .list vs =>
    let (items, s) := addAll s vs
    let (i, s) := s.push (.list items)
    (.ref i, s)
  | .tuple vs =>
    let (items, s) := addAll s vs
    let (i, s) := s.push (.tuple items)
    (.ref i, s)
  | .set vs =>
    let (i, s) := s.push (.set vs)
    (.ref i, s)
  | .mapping es =>
    let (entries, s) := addEntries s es
    let (i, s) := s.push (.mapping entries)
    (.ref i, s)
  | v => (.leaf v, s)

def addAll (s : Store) : List Value → List Slot × Store
  | [] => ([], s)
  | v :: vs =>
    let (x, s) := add s v
    let (xs, s) := addAll s vs
    (x :: xs, s)

def addEntries (s : Store) : List (Value × Value) → List (Value × Slot) × Store
  | [] => ([], s)
  | (k, v) :: es =>
    let (x, s) := add s v
    let (xs, s) := addEntries s es
    ((k, x) :: xs, s)

end

/-- The value of a slot, unfolded at most `fuel` containers deep; `path` holds the containers above,
and `again` gives what one of them shows where it is met again. -/
def unfoldFrom (s : Store) (again : Nat → Value) : Nat → List Nat → Slot → Value
  | _, _, .leaf v => v
  | 0, _, .ref i => again i
  | fuel + 1, path, .ref i =>
    if path.contains i then again i
    else match s.cells[i]? with
      | none => .null
      | some (.list items) => .list (items.map (unfoldFrom s again fuel (i :: path)))
      | some (.tuple items) => .tuple (items.map (unfoldFrom s again fuel (i :: path)))
      | some (.set keys) => .set keys
      | some (.mapping es) =>
        .mapping (es.map fun e => (e.1, unfoldFrom s again fuel (i :: path) e.2))

def mark (s : Store) (i : Nat) : Value := .cycle (s.mapping? i).isSome

/-- The value of a slot, with marks. -/
def unfold (s : Store) (x : Slot) : Value := unfoldFrom s s.mark (s.cells.size + 1) [] x

/-- The value of a slot as records show it: they copy what they hold, and a container that is met
again they leave as it is, so it shows once more. -/
def dump (s : Store) (x : Slot) : Value :=
  unfoldFrom s (fun i => s.unfold (.ref i)) (s.cells.size + 1) [] x

/-- Takes a mapping into the store; gives its cell. -/
def addMapping (s : Store) (es : List (Value × Value)) : Nat × Store :=
  let (entries, s) := s.addEntries es
  s.push (.mapping entries)

/-! ## Merging in place -/

/-- A mapping has more entries than when the walk through them began. -/
def changedSize : Fault := .of .runtimeError "dictionary changed size during iteration"

/-- Mappings are nested deeper than a merge can follow. -/
def tooDeep : Fault := .recursion " while calling a Python object"

section Merge
variable (into : Store → Nat → Nat → Except Fault Store)

/-- Gives a key of the mapping in cell `i` what stands in a slot. Where both are mappings, `into` merges
the new one into the old one; otherwise the key refers to the slot itself from now on. -/
def mergeEntry (s : Store) (i : Nat) (k : Value) (v : Slot) : Except Fault Store :=
  match s.mapping? i with
  | none => .ok s
  | some base =>
    match (getSlot? base k).bind s.slotDict?, s.slotDict? v with
    | some below, some above => into s below above
    | _, _ => .ok (s.put i (.mapping (putSlot base k v)))

/-- Merges the last `left` entries of the mapping in cell `j`, which had `size` entries when the walk
through them began. The entries are read one by one while the store changes. -/
def mergeEntries (i j size : Nat) : Nat → Store → Except Fault Store
  | left, s =>
    let es := (s.mapping? j).getD []
    if es.length ≠ size then .error changedSize
    else match left with
      | 0 => .ok s
      | left + 1 =>
        match es[size - (left + 1)]? with
        | none => .ok s
        | some (k, v) => do mergeEntries i j size left (← mergeEntry into s i k v)

end Merge

/-- Merges the mapping in cell `j` into the one in cell `i`, at most `depth` mappings deep. -/
def mergeFrom : Nat → Store → Nat → Nat → Except Fault Store
  | 0, _, _, _ => .error tooDeep
  | depth + 1, s, i, j =>
    let size := ((s.mapping? j).getD []).length
    mergeEntries (mergeFrom depth) i j size size s

end Store

/-! ## Registers -/

/-- Mappings that are merged into each other, by the numbers of their registers. -/
structure Registers where
  store : Store
  /-- The cell of each register. -/
  roots : List Nat

namespace Registers

/-- Registers that hold mappings, each in cells of its own. -/
def ofEntries (ms : List (List (Value × Value))) : Registers :=
  ms.foldl (fun r m =>
    let (i, s) := r.store.addMapping m
    ⟨s, r.roots ++ [i]⟩) ⟨.empty, []⟩

def root (r : Registers) (n : Nat) : Nat := (r.roots[n]?).getD 0

def value (r : Registers) (n : Nat) : Value := r.store.unfold (.ref (r.root n))

/-- Merges the second register into the first, at most `depth` mappings deep. -/
def merge (depth : Nat) (r : Registers) (m n : Nat) : Except Fault Registers := do
  return { r with store := ← r.store.mergeFrom depth (r.root m) (r.root n) }

/-- Merges in turn, up to the first that fails. -/
def mergeAll (depth : Nat) (r : Registers) (steps : List (Nat × Nat)) : Except Fault Registers :=
  steps.foldlM (fun r step => r.merge depth step.1 step.2) r

end Registers
end ConfigLoader
