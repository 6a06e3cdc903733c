import ConfigLoader.Json.Printer

/-! # Canonical JSON

The form in which frames of workers are written. Names that are indices come first, in ascending
order, and the others after them as they are; a surrogate on its own is escaped, and so is nothing
else beyond what the standard asks for.
-/
namespace ConfigLoader.Json.Canonical

/-- The index that a name is: digits without a leading zero, below the limit of indices. -/
def index? (name : Text) : Option Nat := do
  let n ← if name.allDigits then Text.digits? 10 name else none
  if Text.ofNat n == name && n < 2 ^ 32 - 1 then some n else none

/-- Puts an indexed item behind those of smaller indices. -/
def insertIndexed {α : Type} (n : Nat) (a : α) : List (Nat × α) → List (Nat × α)
  | [] => [(n, a)]
  | (m, b) :: r => if n < m then (n, a) :: (m, b) :: r else (m, b) :: insertIndexed n a r

def order {α : Type} (name : α → Text) (items : List α) : List α :=
  let indexed := items.foldl (fun acc a => match index? (name a) with
    | some n => insertIndexed n a acc
    | none => acc) []
  indexed.map Prod.snd ++ items.filter fun a => (index? (name a)).isNone

def keyText : Value → Text
  | .text t => t
  | v => v.display

def orderEntries (es : Entries) : Entries := order (fun e => keyText e.1) es

def numberStyle : Binary64.Style where
  lowPoint := -5
  highPoint := 21
  wholeEnd := []
  exponentWidth := 1
  signedZero := false
  infinity := "Infinity"
  nan := "NaN"

def escapeOne (c : CodePoint) : Text :=
  if c.isSurrogate then unicodeEscape c.val else Json.escapeOne false c

def quote (t : Text) : Text := "\"" ++ t.flatMap escapeOne ++ "\""

def numberText (x : Binary64) : Text := if x.isFinite then x.text numberStyle else "null"

mutual

def print : Value → Text
  | .null => "null"
  | .bool b => if b then "true" else "false"
  | .int n => numberText (Binary64.ofInt n)
  | .float x => numberText x
  | .text t => quote t
  | .list vs => "[" ++ Text.join "," (printItems vs) ++ "]"
  | .mapping es =>
    "\x7b" ++ Text.join "," ((order Prod.fst (printMembers es)).map fun m =>
      quote m.1 ++ ":" ++ m.2) ++ "\x7d"
  | _ => "null"

def printItems : List Value → List Text
  | [] => []
  | v :: vs => print v :: printItems vs

def printMembers : List (Value × Value) → List (Text × Text)
  | [] => []
  | (k, v) :: es => (keyText k, print v) :: printMembers es

end

mutual

/-- How many lists and mappings lie within each other in what is written of a value. -/
def levels : Value → Nat
  | .list vs => itemLevels vs + 1
  | .mapping es => memberLevels es + 1
  | _ => 0

def itemLevels : List Value → Nat
  | [] => 0
  | v :: vs => max (levels v) (itemLevels vs)

def memberLevels : List (Value × Value) → Nat
  | [] => 0
  | (_, v) :: es => max (levels v) (memberLevels es)

end

@[simp] theorem itemLevels_le {vs : List Value} {n : Nat} :
    itemLevels vs ≤ n ↔ ∀ v ∈ vs, levels v ≤ n := by
  induction vs with
  | nil => simp [itemLevels]
  | cons v vs ih => rw [itemLevels, Nat.max_le, ih, List.forall_mem_cons]

@[simp] theorem memberLevels_le {es : List (Value × Value)} {n : Nat} :
    memberLevels es ≤ n ↔ ∀ e ∈ es, levels e.2 ≤ n := by
  induction es with
  | nil => simp [memberLevels]
  | cons e es ih => rw [memberLevels, Nat.max_le, ih, List.forall_mem_cons]

end ConfigLoader.Json.Canonical
