import ConfigLoader.Script.Item

/-! # The text of script values

Scalars show as they are written, lists as their items between commas, and other objects as what
they are. A symbol has no text unless it is shown on its own, and what an ES module exports has none.
-/
namespace ConfigLoader.Script.Item

def numberText (x : Binary64) : Text := x.text Json.Canonical.numberStyle

def errorText (name message : Text) : Text :=
  if name.isEmpty then message
  else if message.isEmpty then name
  else name ++ ": " ++ message

def functionText : Text := "() => 1"

def symbolText (description : Text) : Text := "Symbol(" ++ description ++ ")"

/-- The text of a value, to at most `fuel` levels; `seen` are the lists that it is part of, which
show as nothing. -/
def text? (h : Heap) : Nat → List Nat → Item → Option Text
  | 0, _, _ => none
  | fuel + 1, seen, v =>
    match v with
    | .undefined => some "undefined"
    | .null => some "null"
    | .bool b => some (if b then "true" else "false")
    | .number x => some (numberText x)
    | .text t => some t
    | .bigint n => some (Text.ofInt n)
    | .symbol _ => none
    | .cell n => if seen.contains n then some [] else text? h fuel (n :: seen) (h.get n)
    | .object shape fields =>
      match fields.find? fun f => f.1 == Text.ofString "toString" with
      | some f => (call? h f.2).bind fun r => match h.look r with
        | .object .. => none
        | r => text? h fuel seen r
      | none =>
        match shape with
        | .array items =>
          (items.mapM fun (i : Item) => match i with
            | .undefined | .null => some []
            | i => text? h fuel seen i).map (Text.join ",")
        | .function _ => some functionText
        | .date none => some "Invalid Date"
        | .date (some t) => some (Time.shown t)
        | .boxed v => text? h fuel seen v
        | .error name message => some (errorText name message)
        | .map => some "[object Map]"
        | .set => some "[object Set]"
        | .pattern => some "/a+/g"
        | .namespace => none
        | _ => some "[object Object]"

mutual

/-- The number of values that a value is made of. -/
def size : Item → Nat
  | .object shape fields => 1 + Shape.size shape + fieldsSize fields
  | _ => 1

def sizes : List Item → Nat
  | [] => 0
  | v :: vs => size v + sizes vs

def fieldsSize : List (Text × Item) → Nat
  | [] => 0
  | (_, v) :: fs => size v + fieldsSize fs

def Shape.size : Shape → Nat
  | .array items => sizes items
  | .function r => size r
  | .boxed v => size v
  | _ => 0

end

/-- More levels than a value has before an object comes again. -/
def levels (h : Heap) (v : Item) : Nat := 2 * (size v + sizes h + h.length + 1)

/-- The text of a value that is shown on its own, to at most `limit` levels. -/
def displayWithin? (limit : Nat) (h : Heap) (v : Item) : Option Text :=
  match v with
  | .symbol d => some (symbolText d)
  | v => text? h limit [] v

/-- The text of a value that is shown on its own, however deep it is. -/
def display? (h : Heap) (v : Item) : Option Text := displayWithin? (levels h v) h v

end ConfigLoader.Script.Item
