import ConfigLoader.Json.Error

/-! # Writing JSON

A layout says how items are separated and indented, whether text stays within ASCII, how many levels
there is room for, and what becomes of values that have no form of their own.
-/
namespace ConfigLoader.Json

structure Layout where
  indent : Option Nat
  itemSeparator : Text
  nameSeparator : Text
  ascii : Bool
  /-- How many lists and mappings may lie within each other. -/
  levels : Nat
  /-- What the fault of a value that goes deeper says was being done. -/
  place : Text
  /-- The text that stands for a value without a form of its own; without it such a value is a
  fault. -/
  fallback : Option (Value → Except Fault Text)

/-- Whether an integer has more digits than can be shown. -/
def isLong (n : Int) : Bool := digitLimit < (Text.ofNat n.natAbs).length

def longInteger : Fault :=
  Fault.valueError ("Exceeds the limit (" ++ Text.ofNat digitLimit ++
    " digits) for integer string conversion; " ++
    "use sys.set_int_max_str_digits() to increase the limit")

mutual

/-- What is wrong with showing a value at this many levels: the first part that is an integer with
too many digits, or that no level is left for. A set is shown by the list of its items. -/
def flaw? : Nat → Value → Option Fault
  | 0, _ => some (Fault.recursion " while getting the repr of an object")
  | _ + 1, .int n => if isLong n then some longInteger else none
  | levels + 1, .list vs | levels + 1, .tuple vs => itemFlaw? levels vs
  | levels + 1, .set vs => if vs.isEmpty then none else itemFlaw? (levels - 1) vs
  | levels + 1, .mapping es => entryFlaw? levels es
  | _ + 1, _ => none

def itemFlaw? : Nat → List Value → Option Fault
  | _, [] => none
  | levels, v :: vs => (flaw? levels v).or (itemFlaw? levels vs)

def entryFlaw? : Nat → List (Value × Value) → Option Fault
  | _, [] => none
  | levels, (k, v) :: es => ((flaw? levels k).or (flaw? levels v)).or (entryFlaw? levels es)

end

def shownAs (text : Value → Text) (limits : Limits) (v : Value) : Except Fault Text :=
  match flaw? limits.showing v with
  | some f => .error f
  | none => .ok (text v)

def shown : Limits → Value → Except Fault Text := shownAs Value.display

def frameLayout (limits : Limits) : Layout where
  indent := none
  itemSeparator := ", "
  nameSeparator := ": "
  ascii := true
  levels := limits.writing
  place := " while encoding a JSON object"
  fallback := none

def resultLayout (limits : Limits) : Layout where
  indent := some 2
  itemSeparator := ","
  nameSeparator := ": "
  ascii := false
  levels := limits.printing
  place := " while calling a Python object"
  fallback := some (shown limits)

def unicodeEscape (n : Nat) : Text := "\\u" ++ Text.hex 4 n

def escapeOne (ascii : Bool) (c : CodePoint) : Text :=
  if c = '"' then "\\\""
  else if c = '\\' then "\\\\"
  else if c.val = 10 then "\\n"
  else if c.val = 13 then "\\r"
  else if c.val = 9 then "\\t"
  else if c.val = 12 then "\\f"
  else if c.val = 8 then "\\b"
  else if c.val < 32 then unicodeEscape c.val
  else if !ascii || c.val < 127 then [c]
  else if c.val < 0x10000 then unicodeEscape c.val
  else
    unicodeEscape (0xD800 + (c.val - 0x10000) / 0x400) ++
      unicodeEscape (0xDC00 + (c.val - 0x10000) % 0x400)

def quote (ascii : Bool) (t : Text) : Text := "\"" ++ t.flatMap (escapeOne ascii) ++ "\""

def floatText (x : Binary64) : Text :=
  x.text { Value.floatStyle with infinity := "Infinity", nan := "NaN" }

def intText (n : Int) : Except Fault Text :=
  if isLong n then .error longInteger else .ok (Text.ofInt n)

def nameText (l : Layout) : Value → Except Fault Text
  | .text t => .ok t
  | .null => .ok "null"
  | .bool b => .ok (if b then "true" else "false")
  | .int n => intText n
  | .float x => .ok (floatText x)
  | v =>
    let name : String := if l.indent.isSome then v.typeName else v.qualifiedTypeName
    .error (Fault.typeError ("keys must be str, int, float, bool or None, not " ++ name))

def newline (l : Layout) (depth : Nat) : Text :=
  match l.indent with
  | none => []
  | some n => 10 :: List.replicate (n * depth) 32

/-- Items between brackets, each on a line of its own where the layout indents. -/
def bracket (l : Layout) (depth : Nat) (opening closing : CodePoint) (items : List Text) : Text :=
  match items with
  | [] => [opening, closing]
  | items =>
    opening :: newline l (depth + 1) ++
      Text.join (l.itemSeparator ++ newline l (depth + 1)) items ++ newline l depth ++ [closing]

/-- What is between brackets, where a level is left at this depth. -/
def within {α : Type} (l : Layout) (depth : Nat) (items : Except Fault α) : Except Fault α :=
  if depth < l.levels then items else .error (Fault.recursion l.place)

@[simp] theorem within_of_lt {α : Type} {l : Layout} {depth : Nat} (h : depth < l.levels)
    (items : Except Fault α) : within l depth items = items := if_pos h

@[simp] theorem within_of_le {α : Type} {l : Layout} {depth : Nat} (h : l.levels ≤ depth)
    (items : Except Fault α) : within l depth items = .error (Fault.recursion l.place) :=
  if_neg (Nat.not_lt.mpr h)

mutual

def print (l : Layout) (depth : Nat) : Value → Except Fault Text
  | .null => .ok "null"
  | .bool b => .ok (if b then "true" else "false")
  | .int n => intText n
  | .float x => .ok (floatText x)
  | .text t => .ok (quote l.ascii t)
  | .list vs => (within l depth (printItems l (depth + 1) vs)).map (bracket l depth '[' ']')
  | .tuple vs => (within l depth (printItems l (depth + 1) vs)).map (bracket l depth '[' ']')
  | .mapping es =>
    (within l depth (printMembers l (depth + 1) es)).map (bracket l depth '\x7b' '\x7d')
  | .cycle _ => within l depth (.error (Fault.valueError "Circular reference detected"))
  | v =>
    match l.fallback with
    | some f => (f v).map (quote l.ascii)
    | none => .error (Fault.typeError
        ("Object of type " ++ v.typeName ++ " is not JSON serializable"))

def printItems (l : Layout) (depth : Nat) : List Value → Except Fault (List Text)
  | [] => .ok []
  | v :: vs => do
    let t ← print l depth v
    let ts ← printItems l depth vs
    return t :: ts

def printMembers (l : Layout) (depth : Nat) : List (Value × Value) → Except Fault (List Text)
  | [] => .ok []
  | (k, v) :: es => do
    let name ← nameText l k
    let t ← print l depth v
    let ts ← printMembers l depth es
    return (quote l.ascii name ++ l.nameSeparator ++ t) :: ts

end

def dump (l : Layout) (v : Value) : Except Fault Text := print l 0 v

end ConfigLoader.Json
