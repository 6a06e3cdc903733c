import ConfigLoader.Json.Canonical
import ConfigLoader.Script.Time

/-! # Script values

The values that modules compute: scalars, and objects with a shape and fields. What a module
exports can change while others hold it, so such an object lives in a heap and is held by its place.
-/
namespace ConfigLoader.Script

mutual

inductive Item
  | undefined
  | null
  | bool (b : Bool)
  | number (x : Binary64)
  | text (t : Text)
  | bigint (n : Int)
  | symbol (description : Text)
  | object (shape : Shape) (fields : List (Text × Item))
  /-- The object at a place of the heap. -/
  | cell (n : Nat)

/-- What an object is besides its fields. -/
inductive Shape
  | plain
  | array (items : List Item)
  /-- A function without arguments that always gives the same. -/
  | function (result : Item)
  /-- A date, or one that is none. -/
  | date (time : Option Int)
  | boxed (v : Item)
  | error (name message : Text)
  | map
  | set
  | pattern
  /-- An object with a field `x` that cannot be read. -/
  | faulty (message : Text)
  /-- What the compiler package exports. -/
  | compiler
  /-- What an ES module exports; it cannot be changed. -/
  | namespace

end

instance : Inhabited Item := ⟨.undefined⟩

/-- The objects that are held by their places. -/
abbrev Heap := List Item

namespace Heap

/-- Adds an object; anything else stands for itself. -/
def hold (h : Heap) (v : Item) : Item × Heap :=
  match v with
  | .object .. => (.cell h.length, h ++ [v])
  | v => (v, h)

def get (h : Heap) (n : Nat) : Item := (h[n]?).getD .undefined

/-- What a value is, a held object looked up. -/
def look (h : Heap) : Item → Item
  | .cell n => h.get n
  | v => v

end Heap

namespace Item

def emptyObject : Item := .object .plain []

def ofFields (fs : List (Text × Item)) : Item := .object .plain fs

/-- Gives a field a value: a present one keeps its place. -/
def putField (name : Text) (v : Item) : List (Text × Item) → List (Text × Item)
  | [] => [(name, v)]
  | f :: fs => if f.1 == name then (name, v) :: fs else f :: putField name v fs

mutual

/-- The script value that a document describes. -/
def ofValue : Value → Item
  | .null => .null
  | .bool b => .bool b
  | .int n => .number (Binary64.ofInt n)
  | .float x => .number x
  | .text t => .text t
  | .list vs => .object (.array (ofValues vs)) []
  | .mapping es => .object .plain (ofEntries es)
  | _ => .undefined

def ofValues : List Value → List Item
  | [] => []
  | v :: vs => ofValue v :: ofValues vs

def ofEntries : List (Value × Value) → List (Text × Item)
  | [] => []
  | (k, v) :: es => (Json.Canonical.keyText k, ofValue v) :: ofEntries es

end

/-- Whether a value counts as true. -/
def truthy : Item → Bool
  | .undefined | .null => false
  | .bool b => b
  | .number x => !x.isNaN && !x.isZero
  | .text t => !t.isEmpty
  | .bigint n => n != 0
  | _ => true

def field? (h : Heap) (name : Text) (v : Item) : Option Item :=
  match h.look v with
  | .object _ fs => (fs.find? fun f => f.1 == name).map Prod.snd
  | _ => none

def call? (h : Heap) (v : Item) : Option Item :=
  match h.look v with
  | .object (.function r) _ => some r
  | _ => none

mutual

/-- Whether all places that a value holds are below a bound. -/
def isBelow (n : Nat) : Item → Bool
  | .cell m => m < n
  | .object shape fields => Shape.isBelow n shape && areFieldsBelow n fields
  | _ => true

def areBelow (n : Nat) : List Item → Bool
  | [] => true
  | v :: vs => isBelow n v && areBelow n vs

def areFieldsBelow (n : Nat) : List (Text × Item) → Bool
  | [] => true
  | (_, v) :: fs => isBelow n v && areFieldsBelow n fs

def Shape.isBelow (n : Nat) : Shape → Bool
  | .array items => areBelow n items
  | .function r => isBelow n r
  | .boxed v => isBelow n v
  | _ => true

end

theorem areBelow_iff {n : Nat} {vs : List Item} :
    areBelow n vs = true ↔ ∀ v ∈ vs, isBelow n v = true := by
  induction vs with
  | nil => simp [areBelow]
  | cons v vs ih => simp [areBelow, ih]

theorem areFieldsBelow_iff {n : Nat} {fs : List (Text × Item)} :
    areFieldsBelow n fs = true ↔ ∀ f ∈ fs, isBelow n f.2 = true := by
  induction fs with
  | nil => simp [areFieldsBelow]
  | cons f fs ih =>
    obtain ⟨name, v⟩ := f
    simp [areFieldsBelow, ih]

mutual

@[simp] theorem ofValue_isBelow (n : Nat) : ∀ v : Value, (ofValue v).isBelow n = true
  | .null | .bool _ | .int _ | .float _ | .text _ | .bytes _ | .date _ | .dateTime _ | .tuple _
  | .set _ | .cycle _ => by simp only [ofValue, isBelow]
  | .list vs => by
    simp only [ofValue, isBelow, Shape.isBelow, ofValues_areBelow n vs, areFieldsBelow,
      Bool.and_self]
  | .mapping es => by
    simp only [ofValue, isBelow, Shape.isBelow, ofEntries_areBelow n es, Bool.and_self]

theorem ofValues_areBelow (n : Nat) : ∀ vs : List Value, areBelow n (ofValues vs) = true
  | [] => rfl
  | v :: vs => by
    simp only [ofValues, areBelow, ofValue_isBelow n v, ofValues_areBelow n vs, Bool.and_self]

theorem ofEntries_areBelow (n : Nat) :
    ∀ es : List (Value × Value), areFieldsBelow n (ofEntries es) = true
  | [] => rfl
  | (_, v) :: es => by
    simp only [ofEntries, areFieldsBelow, ofValue_isBelow n v, ofEntries_areBelow n es,
      Bool.and_self]

end

end Item

def Shape.className : Shape → Text
  | .array _ => "Array"
  | .function _ => "Function"
  | .date _ => "Date"
  | .boxed (.text _) => "String"
  | .boxed (.number _) => "Number"
  | .boxed (.bool _) => "Boolean"
  | .boxed (.bigint _) => "BigInt"
  | .boxed (.symbol _) => "Symbol"
  | .error name _ => name
  | .map => "Map"
  | .set => "Set"
  | .pattern => "RegExp"
  | _ => "Object"

end ConfigLoader.Script
