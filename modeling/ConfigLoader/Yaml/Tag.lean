import ConfigLoader.Text

/-! # Types of plain scalars

A plain scalar takes its type from its text.
-/
namespace ConfigLoader.Yaml

/-- The full name of a type of the common schema. -/
def commonTag (name : String) : Text := "tag:yaml.org,2002:" ++ Text.ofString name

namespace Plain

def isWord (words : List String) (t : Text) : Bool := words.any fun w => Text.ofString w == t

def isBool (t : Text) : Bool :=
  isWord ["yes", "Yes", "YES", "no", "No", "NO", "true", "True", "TRUE", "false", "False", "FALSE",
    "on", "On", "ON", "off", "Off", "OFF"] t

def isNull (t : Text) : Bool := isWord ["", "~", "null", "Null", "NULL"] t

def unsigned (t : Text) : Text :=
  match t with
  | c :: r => if c = '-' || c = '+' then r else t
  | [] => []

def isDigitBar (c : CodePoint) : Bool := c.isDigit || c = '_'

/-- Digits and underscores after a digit that passes a test. -/
def isRun (first : CodePoint → Bool) (t : Text) : Bool :=
  match t with
  | c :: r => first c && r.all isDigitBar
  | [] => false

def isNonzero (c : CodePoint) : Bool := c.isDigit && c != '0'

/-- A place of a number in base sixty. -/
def isSixty (t : Text) : Bool :=
  match t with
  | [c] => c.isDigit
  | [c, d] => c.isDigit && c.val < 54 && d.isDigit
  | _ => false

def isSexagesimal (first : CodePoint → Bool) (t : Text) : Bool :=
  match Text.splitAt ':' t with
  | head :: p :: ps => isRun first head && (p :: ps).all isSixty
  | _ => false

/-- At least one code point, all of which pass a test, after a beginning. -/
def isAfter (start : Text) (f : CodePoint → Bool) (t : Text) : Bool :=
  match Text.afterStart? start t with
  | some r => !r.isEmpty && r.all f
  | none => false

def isInt (t : Text) : Bool :=
  let t := unsigned t
  isAfter "0b" (fun c => c = '0' || c = '1' || c = '_') t ||
    isAfter "0" (fun c => (48 ≤ c.val && c.val ≤ 55) || c = '_') t ||
    t == "0" || isRun isNonzero t ||
    isAfter "0x" (fun c => (c.digit? 16).isSome || c = '_') t ||
    isSexagesimal isNonzero t

def isExponent (t : Text) : Bool :=
  match t with
  | [] => true
  | e :: s :: r => (e = 'e' || e = 'E') && (s = '-' || s = '+') && Text.allDigits r
  | _ => false

def isTail (t : Text) : Bool := isExponent (t.dropWhile isDigitBar)

def isFloat (t : Text) : Bool :=
  let u := unsigned t
  let whole := u.takeWhile fun (c : CodePoint) => c != '.'
  let pointed := (u.drop whole.length).length ≠ 0
  let frac := u.drop (whole.length + 1)
  (pointed && isRun (·.isDigit) whole && isTail frac) ||
    (match t with
      | p :: d :: r => p = '.' && d.isDigit && isTail r
      | _ => false) ||
    (pointed && isSexagesimal (·.isDigit) whole && frac.all isDigitBar) ||
    isWord [".inf", ".Inf", ".INF"] u || isWord [".nan", ".NaN", ".NAN"] t

/-- The rest after `low` to `high` digits, as many as there are. -/
def dropDigits? (low high : Nat) (t : Text) : Option (Text × Text) :=
  let ds := (t.take high).takeWhile (·.isDigit)
  if low ≤ ds.length then some (ds, t.drop ds.length) else none

def dropChar? (f : CodePoint → Bool) (t : Text) : Option Text :=
  match t with
  | c :: r => if f c then some r else none
  | [] => none

structure TimeParts where
  year : Text
  month : Text
  day : Text
  /-- Hour, minute, second, and the digits of a fraction. -/
  time : Option (Text × Text × Text × Text)
  /-- Nothing, universal time, or a sign with hours and minutes. -/
  zone : Option (Option (Bool × Text × Text))
  deriving DecidableEq, Repr

def isBlankChar (c : CodePoint) : Bool := c = ' ' || c.val = 9

def zone? (t : Text) : Option (Option (Option (Bool × Text × Text))) :=
  if t.isEmpty then some none
  else
    let t := t.dropWhile isBlankChar
    match t with
    | [] => none
    | c :: r =>
      if c = 'Z' then if r.isEmpty then some (some none) else none
      else if c = '-' || c = '+' then do
        let (hours, r) ← dropDigits? 1 2 r
        if r.isEmpty then return some (some (c = '-', hours, []))
        else
          let r ← dropChar? (fun (c : CodePoint) => c = ':') r
          let (minutes, r) ← dropDigits? 2 2 r
          if r.isEmpty then return some (some (c = '-', hours, minutes)) else none
      else none

/-- Reads a point in time whose months and days have at least `least` digits. -/
def time? (least : Nat) (t : Text) : Option TimeParts := do
  let dash (c : CodePoint) : Bool := c = '-'
  let colon (c : CodePoint) : Bool := c = ':'
  let (year, r) ← dropDigits? 4 4 t
  let (month, r) ← dropDigits? least 2 (← dropChar? dash r)
  let (day, r) ← dropDigits? least 2 (← dropChar? dash r)
  match r with
  | [] => return ⟨year, month, day, none, none⟩
  | c :: more =>
    let r ← if c = 'T' || c = 't' then some more
      else if isBlankChar c then some (r.dropWhile isBlankChar) else none
    let (hour, r) ← dropDigits? 1 2 r
    let (minute, r) ← dropDigits? 2 2 (← dropChar? colon r)
    let (second, r) ← dropDigits? 2 2 (← dropChar? colon r)
    let (frac, r) := match r with
      | p :: more =>
        if p = '.' then (more.takeWhile (·.isDigit), more.dropWhile (·.isDigit)) else ([], r)
      | [] => ([], [])
    let zone ← zone? r
    return ⟨year, month, day, some (hour, minute, second, frac), zone⟩

/-- A date with two digits for month and day, or a point in time. -/
def isTimestamp (t : Text) : Bool :=
  match time? 1 t with
  | some p => p.time.isSome || (p.month.length = 2 && p.day.length = 2)
  | none => false

end Plain

/-- The text without a line feed at its very end. -/
def dropLastBreak (t : Text) : Text := if t.getLast? = some 10 then t.dropLast else t

def plainTag (t : Text) : Text :=
  let t := dropLastBreak t
  if Plain.isBool t then commonTag "bool"
  else if Plain.isFloat t then commonTag "float"
  else if Plain.isInt t then commonTag "int"
  else if t == "<<" then commonTag "merge"
  else if Plain.isNull t then commonTag "null"
  else if Plain.isTimestamp t then commonTag "timestamp"
  else if t == "=" then commonTag "value"
  else if t == "!" || t == "&" || t == "*" then commonTag "yaml"
  else commonTag "str"

end ConfigLoader.Yaml
