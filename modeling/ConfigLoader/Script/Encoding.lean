import ConfigLoader.Script.Display

/-! # Encoding script values

A script value as a document: functions, symbols and what is undefined have no form, numbers that
are not finite are null, and an object may say itself what stands for it. A large integer, a field
that cannot be read, an object inside itself, and more objects inside each other than the stack has room
for are errors.
-/
namespace ConfigLoader.Script

structure Failure where
  name : Text
  message : Text
  deriving DecidableEq, Repr

def stackFailure : Failure := ⟨"RangeError", "Maximum call stack size exceeded"⟩

namespace Encoding

/-- The way to a part of an object: the index of an item or the name of a field. -/
inductive Step
  | index (n : Nat)
  | field (name : Text)
  deriving DecidableEq, Repr

/-- An object that is being encoded, with the step that led to it. -/
structure Frame where
  step : Step
  className : Text
  place : Option Nat
  deriving DecidableEq, Repr

def Step.text : Step → Text
  | .index n => "index " ++ Text.ofNat n
  | .field [] => "<anonymous>"
  | .field name => "property '" ++ name ++ "'"

def Frame.line (f : Frame) : Text :=
  "\n    |     " ++ f.step.text ++ " -> object with constructor '" ++ f.className ++ "'"

/-- The objects between the first one of a circle and its end; of many, the first two and the
last. -/
def circleLines (between : List Frame) : Text :=
  if between.length ≤ 3 then between.flatMap Frame.line
  else
    (between.take 2).flatMap Frame.line ++ "\n    |     ..." ++
      (between.drop (between.length - 1)).flatMap Frame.line

/-- The error of an object that holds itself; `circle` is the way from it back to it. -/
def circleFailure (circle : List Frame) (last : Step) : Failure :=
  let start : Text := match circle with
    | f :: _ => f.className
    | [] => []
  ⟨"TypeError",
    "Converting circular structure to JSON\n    --> starting at object with constructor '" ++
    start ++ "'" ++ circleLines (circle.drop 1) ++ "\n    --- " ++ last.text ++
    " closes the circle"⟩

def bigintFailure : Failure := ⟨"TypeError", "Do not know how to serialize a BigInt"⟩

/-- What is encoded in place of a value: an object may have a function that gives it, and a date is
its text. -/
def replaced (h : Heap) (v : Item) : Item :=
  match v.field? h "toJSON" with
  | some f => (f.call? h).getD v
  | none =>
    match h.look v with
    | .object (.date none) _ => .null
    | .object (.date (some t)) _ => .text (Time.iso t)
    | _ => v

def unboxed (h : Heap) (v : Item) : Item :=
  match h.look v with
  | .object (.boxed (.symbol _)) _ => v
  | .object (.boxed w) _ => w
  | _ => v

def number (x : Binary64) : Value :=
  if x.isFinite then .float (if x.isZero then .zero false else x) else .null

mutual

/-- Encodes a value that `step` leads to from the objects in `path`, the innermost first; at most `limit`
objects may lie within each other. -/
def encode (limit : Nat) (h : Heap) :
    Nat → List Frame → Step → Item → Except Failure (Option Value)
  | 0, _, _, _ => .ok none
  | fuel + 1, path, step, v =>
    let v := unboxed h (replaced h v)
    match v with
    | .undefined | .symbol _ => .ok none
    | .null => .ok (some .null)
    | .bool b => .ok (some (.bool b))
    | .number x => .ok (some (number x))
    | .text t => .ok (some (.text t))
    | .bigint _ => .error bigintFailure
    | .cell n =>
      if path.any fun f => f.place == some n then
        let inner := path.takeWhile fun f => f.place != some n
        let outer := path.drop inner.length
        .error (circleFailure ((outer.take 1).reverse ++ inner.reverse) step)
      else encodeObject limit h fuel path step (some n) (h.get n)
    | .object .. => encodeObject limit h fuel path step none v

def encodeObject (limit : Nat) (h : Heap) :
    Nat → List Frame → Step → Option Nat → Item → Except Failure (Option Value)
  | 0, _, _, _, _ => .ok none
  | fuel + 1, path, step, place, v =>
    match v with
    | .object (.function _) _ => .ok none
    | .object shape fields =>
      if limit ≤ path.length then .error stackFailure
      else
        let path := ⟨step, shape.className, place⟩ :: path
        match shape with
        | .faulty message => .error ⟨"RangeError", message⟩
        | .array items =>
          (encodeItems limit h fuel path 0 items).map fun vs => some (.list vs)
        | _ =>
          (encodeFields limit h fuel path (Json.Canonical.order Prod.fst fields)).map fun es =>
            some (.mapping es)
    | _ => .ok none

def encodeItems (limit : Nat) (h : Heap) :
    Nat → List Frame → Nat → List Item → Except Failure (List Value)
  | 0, _, _, _ => .ok []
  | _ + 1, _, _, [] => .ok []
  | fuel + 1, path, n, v :: vs => do
    let a ← encode limit h fuel path (.index n) v
    let as ← encodeItems limit h fuel path (n + 1) vs
    return a.getD .null :: as

def encodeFields (limit : Nat) (h : Heap) :
    Nat → List Frame → List (Text × Item) → Except Failure (List (Value × Value))
  | 0, _, _ => .ok []
  | _ + 1, _, [] => .ok []
  | fuel + 1, path, (name, v) :: fs => do
    let a ← encode limit h fuel path (.field name) v
    let as ← encodeFields limit h fuel path fs
    return match a with
      | some a => (.text name, a) :: as
      | none => as

end

def document (limit : Nat) (h : Heap) (v : Item) : Except Failure (Option Value) :=
  encode limit h (4 * (v.levels h)) [] (.field []) v

end Encoding
end ConfigLoader.Script
