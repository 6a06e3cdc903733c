import ConfigLoader.Text
import ConfigLoader.Number.Binary64

/-! # Values

The values that documents, settings and modules hold: scalars, dates, and containers. A mapping
keeps its keys in insertion order. A place where a container meets itself again holds a mark.
-/
namespace ConfigLoader

structure Date where
  year : Nat
  month : Nat
  day : Nat
  deriving DecidableEq, Repr

structure DateTime where
  date : Date
  hour : Nat
  minute : Nat
  second : Nat
  microsecond : Nat
  offset : Option Int
  deriving DecidableEq, Repr

inductive Value
  | null
  | bool (b : Bool)
  | int (n : Int)
  | float (x : Binary64)
  | text (t : Text)
  | bytes (b : List UInt8)
  | date (d : Date)
  | dateTime (d : DateTime)
  | list (items : List Value)
  | tuple (items : List Value)
  | set (items : List Value)
  | mapping (entries : List (Value × Value))
  | cycle (isMapping : Bool)
  deriving Inhabited

/-- The entries of a mapping in insertion order. -/
abbrev Entries := List (Value × Value)

namespace Value

instance : Coe String Value := ⟨fun s => .text (Text.ofString s)⟩

/-- The integer that a boolean or a number stands for as a key. -/
def wholeNumber? : Value → Option Int
  | .bool b => some (if b then 1 else 0)
  | .int n => some n
  | .float x => x.toInt?
  | _ => none

mutual

/-- Whether two keys are one key: numbers are compared by what they stand for. -/
def sameKey : Value → Value → Bool
  | .null, .null => true
  | .text s, .text t => s == t
  | .bytes s, .bytes t => s == t
  | .date s, .date t => s == t
  | .dateTime s, .dateTime t => s == t
  | .tuple xs, .tuple ys => sameKeys xs ys
  | .float x, .float y => x.same y
  | x, y =>
    match x.wholeNumber?, y.wholeNumber? with
    | some m, some n => m == n
    | _, _ => false

def sameKeys : List Value → List Value → Bool
  | [], [] => true
  | x :: xs, y :: ys => sameKey x y && sameKeys xs ys
  | _, _ => false

end

def typeName : Value → String
  | .null => "NoneType"
  | .bool _ => "bool"
  | .int _ => "int"
  | .float _ => "float"
  | .text _ => "str"
  | .bytes _ => "bytes"
  | .date _ => "date"
  | .dateTime _ => "datetime"
  | .list _ => "list"
  | .tuple _ => "tuple"
  | .set _ => "set"
  | .mapping _ => "dict"
  | .cycle isMapping => if isMapping then "dict" else "list"

/-- The name of a value's type with the module that defines it, where it is not a basic one. -/
def qualifiedTypeName : Value → String
  | .date _ => "datetime.date"
  | .dateTime _ => "datetime.datetime"
  | v => v.typeName

def truthy : Value → Bool
  | .null => false
  | .bool b => b
  | .int n => n != 0
  | .float x => !x.isZero
  | .text t => !t.isEmpty
  | .bytes b => !b.isEmpty
  | .list xs | .tuple xs | .set xs => !xs.isEmpty
  | .mapping es => !es.isEmpty
  | _ => true

def text? : Value → Option Text
  | .text t => some t
  | _ => none

def isDict : Value → Bool
  | .mapping _ => true
  | _ => false

mutual

/-- How many lists and mappings lie within each other, the value itself included. -/
def levels : Value → Nat
  | .list vs | .tuple vs => itemLevels vs + 1
  | .mapping es => entryLevels es + 1
  | .cycle _ => 1
  | _ => 0

def itemLevels : List Value → Nat
  | [] => 0
  | v :: vs => max (levels v) (itemLevels vs)

def entryLevels : List (Value × Value) → Nat
  | [] => 0
  | (_, v) :: es => max (levels v) (entryLevels es)

end

@[simp] theorem itemLevels_le {vs : List Value} {n : Nat} :
    itemLevels vs ≤ n ↔ ∀ v ∈ vs, v.levels ≤ n := by
  induction vs with
  | nil => simp [itemLevels]
  | cons v vs ih => rw [itemLevels, Nat.max_le, ih, List.forall_mem_cons]

@[simp] theorem entryLevels_le {es : List (Value × Value)} {n : Nat} :
    entryLevels es ≤ n ↔ ∀ e ∈ es, e.2.levels ≤ n := by
  induction es with
  | nil => simp [entryLevels]
  | cons e es ih => rw [entryLevels, Nat.max_le, ih, List.forall_mem_cons]

end Value

namespace Entries

def get? (es : Entries) (k : Value) : Option Value :=
  (es.find? fun e => e.1.sameKey k).map Prod.snd

/-- Gives a key a value: a present key keeps its place and its spelling. -/
def put : Entries → Value → Value → Entries
  | [], k, v => [(k, v)]
  | e :: es, k, v => if e.1.sameKey k then (e.1, v) :: es else e :: put es k v

def ofPairs (ps : List (Value × Value)) : Entries :=
  ps.foldl (fun es p => put es p.1 p.2) []

def getText? (es : Entries) (k : String) : Option Value := get? es (.text k)

end Entries

/-! ## Deep merge

The right mapping wins; where both sides hold a mapping, the two are merged in turn. Keys of the
left side keep their places and new keys follow in the order of the right side.
-/

mutual

/-- The value of a key after a merge, from the value before it, if any, and the new one. -/
def Value.mergedWith (old : Option Value) : Value → Value
  | .mapping es => match old with
    | some (.mapping base) => .mapping (Entries.deepMerge base es)
    | _ => .mapping es
  | v => v

def Entries.deepMerge (base : Entries) : List (Value × Value) → Entries
  | [] => base
  | (k, v) :: es => Entries.deepMerge (base.put k (Value.mergedWith (base.get? k) v)) es

end

end ConfigLoader
