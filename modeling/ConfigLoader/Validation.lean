import ConfigLoader.Diagnostic
import ConfigLoader.Fault
import ConfigLoader.Text.Utf8
import ConfigLoader.Validation.Problem

/-! # Reading fields of records

Fields are read leniently: numbers from digits, booleans from words, texts from bytes. A record is
read field by field, and every problem is reported, in the order of the fields.
-/
namespace ConfigLoader.Validation

abbrev Reader (α : Type) := Value → Except Rule α

def isBlank (c : CodePoint) : Bool :=
  (9 ≤ c.val && c.val ≤ 13) || c.val = 32 || c.val = 0x85 || c.val = 0xA0 || c.val = 0x1680 ||
    (0x2000 ≤ c.val && c.val ≤ 0x200A) || c.val = 0x2028 || c.val = 0x2029 || c.val = 0x202F ||
    c.val = 0x205F || c.val = 0x3000

/-- Plain decimal digits with an optional minus and no leading zero. -/
def plainInteger? (t : Text) : Option Int :=
  let read (ds : Text) : Option Int :=
    if ds.allDigits && (ds.length = 1 || ds.head? != some (CodePoint.ofChar '0')) then
      (Text.digits? 10 ds).map Int.ofNat
    else none
  match t with
  | c :: r => if c = '-' then (read r).map (- ·) else read t
  | [] => none

/-- Drops leading zeros; nothing when the text does not begin like a number. -/
def dropZeros (t : Text) : Option Text :=
  match t with
  | [] => none
  | c :: r =>
    if c = '0' then
      let rest := r.dropWhile fun (d : CodePoint) => d = '0' || d = '_'
      match rest with
      | [] => t.getLast?.map ([·])
      | d :: _ =>
        if d.isDigit then some rest
        else if d = '.' then
          match (t.take (t.length - rest.length)).getLast? with
          | some z => some (z :: rest)
          | none => none
        else none
    else if c.isDigit || c = '-' then some t
    else none

def dropFraction (t : Text) : Text :=
  let whole := t.takeWhile fun (c : CodePoint) => c != '.'
  let fraction := (t.drop whole.length).drop 1
  if fraction.all fun (c : CodePoint) => c = '0' then whole else t

/-- Drops single underscores between digits; doubled or outer ones stay. -/
def dropUnderscores (t : Text) : Text :=
  let bar : CodePoint := '_'
  if t.head? = some bar || t.getLast? = some bar || Text.hasInfix [bar, bar] t then t
  else t.filter fun c => c != bar

def cleanInteger (t : Text) : Option Text :=
  let t := Text.trim isBlank t
  let t := match t with
    | c :: r => if c = '+' && r.head? != some (CodePoint.ofChar '-') then r else t
    | [] => t
  (dropZeros t).map fun t => dropUnderscores (dropFraction t)

def integerOfText (t : Text) : Except Rule Int :=
  let digits := (t.filter (·.isDigit)).length
  match plainInteger? t with
  | some n => if 4300 < digits then .error .integerSize else .ok n
  | none =>
    match (cleanInteger t).bind plainInteger? with
    | some n => if 4300 < digits then .error .integerSize else .ok n
    | none => .error .integerParsing

def integerOfFloat (x : Binary64) : Except Rule Int :=
  if !x.isFinite then .error .finiteNumber
  else match x.toInt? with
    | none => .error .integerFraction
    | some n => if -2 ^ 63 < n && n < 2 ^ 63 then .ok n else .error .integerSize

def encodable (onBytes : Rule) : Value → Except Rule (Option Text)
  | .text t => if t.any (·.isSurrogate) then .error .textEncoding else .ok (some t)
  | .bytes b => match Text.Utf8.decode b with
    | .ok t => .ok (some t)
    | .error _ => .error onBytes
  | _ => .ok none

def integer : Reader Int
  | .int n => .ok n
  | .bool b => .ok (if b then 1 else 0)
  | .float x => integerOfFloat x
  | v => do
    match ← encodable .integerParsing v with
    | some t => integerOfText t
    | none => .error .integerType

def text : Reader Text
  | .text t => .ok t
  | .bytes b => match Text.Utf8.decode b with
    | .ok t => .ok t
    | .error _ => .error .textEncoding
  | _ => .error .textType

def trueWords : List Text := ["1", "on", "t", "true", "y", "yes"]

def falseWords : List Text := ["0", "off", "f", "false", "n", "no"]

def booleanOfInteger (n : Int) : Except Rule Bool :=
  if n = 0 then .ok false else if n = 1 then .ok true else .error .booleanParsing

def boolean : Reader Bool
  | .bool b => .ok b
  | .int n => if -2 ^ 63 ≤ n && n < 2 ^ 63 then booleanOfInteger n else .error .booleanType
  | .float x => match integerOfFloat x with
    | .ok n => booleanOfInteger n
    | .error _ => .error .booleanType
  | v => do
    match ← encodable .booleanParsing v with
    | some t =>
      let word := t.asciiLower
      if trueWords.contains word then .ok true
      else if falseWords.contains word then .ok false
      else .error .booleanParsing
    | none => .error .booleanType

def mapping : Reader Entries
  | .mapping es => .ok es
  | _ => .error .mappingType

def optional {α : Type} (read : Reader α) : Reader (Option α)
  | .null => .ok none
  | v => (read v).map some

/-- A field of a record: absent, it takes its default, or it is a problem when it has none. -/
def field {α : Type} (es : Entries) (name : String) (default : Option α) (read : Reader α) :
    Except Problem α :=
  match Entries.getText? es name, default with
  | some v, _ => match read v with
    | .ok a => .ok a
    | .error rule => .error ⟨rule, [name], v⟩
  | none, some a => .ok a
  | none, none => .error ⟨.missing, [name], .mapping es⟩

/-- A record's fields as far as they were read: a value, or the problems so far in order. -/
abbrev Checked (α : Type) := Except (List Problem) α

/-- Adds a field to what was read, and its problem to the problems. -/
def Checked.and {α β γ : Type} (f : α → β → γ) : Checked α → Except Problem β → Checked γ
  | .ok a, .ok b => .ok (f a b)
  | .ok _, .error p => .error [p]
  | .error ps, .ok _ => .error ps
  | .error ps, .error p => .error (ps ++ [p])

def record {α : Type} (name : String) (read : Entries → Checked α) (v : Value) : Checked α :=
  match v with
  | .mapping es => read es
  | v => .error [⟨.record name, [], v⟩]

/-- The fault that reports all problems of a record. -/
def orFault {α : Type} (title : String) : Checked α → Except Fault α
  | .ok a => .ok a
  | .error ps => .error ⟨.validationError, [], .validation title ps, none, false⟩

end ConfigLoader.Validation

namespace ConfigLoader.Diagnostic
open Validation

def ofEntries (es : Entries) : Checked Diagnostic :=
  let start : Checked (Int → Text → Text → Option Text → Option Int → Option Int → Diagnostic) :=
    .ok Diagnostic.mk
  let apply {α β : Type} (f : α → β) (a : α) : β := f a
  let c := start.and apply (field es "code" none integer)
  let c := c.and apply (field es "category" (some "error") text)
  let c := c.and apply (field es "message" none text)
  let c := c.and apply (field es "file" (some none) (optional text))
  let c := c.and apply (field es "line" (some none) (optional integer))
  c.and apply (field es "column" (some none) (optional integer))

/-- Reads a diagnostic from a mapping; other keys are ignored. -/
def read (v : Value) : Except Fault Diagnostic :=
  orFault "Diagnostic" (record "Diagnostic" ofEntries v)

end ConfigLoader.Diagnostic
