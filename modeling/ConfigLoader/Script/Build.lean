import ConfigLoader.Script.Encoding
import ConfigLoader.Text.Blank

/-! # Building script values

A description is a document in which a mapping with the name `$js` stands for a value that no
document can hold. Building gives the value described, or the error that computing it ends with.
-/
namespace ConfigLoader.Script.Item

def constantOne : Item := .object (.function (.number (Binary64.ofInt 1))) []

/-- The digits of an integer in a base that its beginning tells. -/
def wholeDigits? (t : Text) : Option Int :=
  let based (n : Nat) : Option Int := (Text.digits? n (t.drop 2)).map fun n => (n : Int)
  if Text.startsWith "0x" t || Text.startsWith "0X" t then based 16
  else if Text.startsWith "0o" t || Text.startsWith "0O" t then based 8
  else if Text.startsWith "0b" t || Text.startsWith "0B" t then based 2
  else if Text.startsWith "-" t then (Text.digits? 10 (t.drop 1)).map fun n => -(n : Int)
  else if Text.startsWith "+" t then (Text.digits? 10 (t.drop 1)).map fun n => (n : Int)
  else if t.isEmpty then some 0
  else (Text.digits? 10 t).map fun n => (n : Int)

def noInteger (kind shown : Text) : Failure :=
  ⟨kind, "Cannot convert " ++ shown ++ " to a BigInt"⟩

def integer (h : Heap) (arg : Item) : Except Failure Item :=
  match arg with
  | .text t => match wholeDigits? t.trimBlank with
    | some n => .ok (.bigint n)
    | none => .error (noInteger "SyntaxError" t)
  | .number x => match x.toInt? with
    | some n => .ok (.bigint n)
    | none => .error ⟨"RangeError", "The number " ++ numberText x ++
        " cannot be converted to a BigInt because it is not an integer"⟩
  | .bool b => .ok (.bigint (if b then 1 else 0))
  | .bigint n => .ok (.bigint n)
  | v => .error (noInteger "TypeError" ((v.display? h).getD []))

/-- The point of time that a date is made of. -/
def timeOf : Item → Option Int
  | .text t => Time.ofText? t
  | .number x => (x.toInt?).bind fun n => if n.natAbs ≤ Time.limit.natAbs then some n else none
  | .bool b => some (if b then 1 else 0)
  | .null => some 0
  | _ => none

def wrapped : Item → Item
  | .undefined | .null => emptyObject
  | .object shape fields => .object shape fields
  | .cell n => .cell n
  | v => .object (.boxed v) []

def argumentText (h : Heap) : Item → Text
  | .undefined => []
  | v => (v.display? h).getD []

/-- An object at the next place of the heap that is made with its own place. -/
def knot (h : Heap) (f : Item → Item) : Item × Heap :=
  let self : Item := .cell h.length
  (self, h ++ [f self])

def one : Item := .number (Binary64.ofInt 1)

def sparse : Item :=
  .object (.array [one, .undefined, .undefined, .number (Binary64.ofInt 4)]) []

/-- The value of a kind that no document can hold. -/
def special (h : Heap) (kind : Text) (arg : Item) : Except Failure (Item × Heap) :=
  let plain (v : Item) : Except Failure (Item × Heap) := .ok (v, h)
  if kind == "undefined" then plain .undefined
  else if kind == "nan" then plain (.number .nan)
  else if kind == "inf" then plain (.number (.infinity false))
  else if kind == "-inf" then plain (.number (.infinity true))
  else if kind == "-0" then plain (.number (.zero true))
  else if kind == "function" then plain constantOne
  else if kind == "symbol" then plain (.symbol (argumentText h arg))
  else if kind == "bigint" then (integer h arg).map fun v => (v, h)
  else if kind == "date" then plain (.object (.date (timeOf arg)) [])
  else if kind == "map" then plain (.object .map [])
  else if kind == "set" then plain (.object .set [])
  else if kind == "regexp" then plain (.object .pattern [])
  else if kind == "error" then plain (.object (.error "Error" (argumentText h arg)) [])
  else if kind == "toJSON" then plain (ofFields [("toJSON", .object (.function arg) [])])
  else if kind == "boxed" then plain (wrapped arg)
  else if kind == "sparse" then plain sparse
  else if kind == "cycle" then .ok (knot h fun self => ofFields [("a", one), ("self", self)])
  else if kind == "cycle_array" then .ok (knot h fun self => .object (.array [self]) [])
  else if kind == "getter_throws" then plain (.object (.faulty (argumentText h arg)) [])
  else plain .undefined

def mark : Text := "$js"

def fieldOr (name : Text) (fs : List (Text × Item)) : Item :=
  ((fs.find? fun f => f.1 == name).map Prod.snd).getD .undefined

mutual

def build (h : Heap) : Value → Except Failure (Item × Heap)
  | .list vs => do
    let (items, h) ← buildAll h vs
    return (.object (.array items) [], h)
  | .mapping es => do
    let (fields, h) ← buildFields h es
    match fields.find? fun f => f.1 == mark with
    | some (_, kind) => special h (argumentText h kind) (fieldOr "arg" fields)
    | none => return (ofFields fields, h)
  | v => .ok (ofValue v, h)

def buildAll (h : Heap) : List Value → Except Failure (List Item × Heap)
  | [] => .ok ([], h)
  | v :: vs => do
    let (a, h) ← build h v
    let (as, h) ← buildAll h vs
    return (a :: as, h)

def buildFields (h : Heap) : List (Value × Value) → Except Failure (List (Text × Item) × Heap)
  | [] => .ok ([], h)
  | (k, v) :: es => do
    let (a, h) ← build h v
    let (as, h) ← buildFields h es
    return ((Json.Canonical.keyText k, a) :: as, h)

end

end ConfigLoader.Script.Item
