import ConfigLoader.Json.Error

/-! # Reading JSON

A lenient reader: `NaN` and the infinities are values, a repeated name keeps its first place and
its last value, and an escape may name a surrogate on its own. A reader works at a place of the
document and gives what it read with the place after it.
-/
namespace ConfigLoader.Json

structure Place where
  index : Nat
  rest : Text
  deriving DecidableEq, Repr

namespace Place

def skip (p : Place) (n : Nat) : Place := ⟨p.index + n, p.rest.drop n⟩

def fail {α : Type} (p : Place) (e : Problem) : Except Error α := .error ⟨e, p.index⟩

end Place

def isSpace (c : CodePoint) : Bool := c.val = 32 || c.val = 9 || c.val = 10 || c.val = 13

def skipSpace (p : Place) : Place := p.skip (p.rest.takeWhile isSpace).length

def hexValue? (t : Text) : Option Nat := if t.length = 4 then Text.digits? 16 t else none

/-- What a character stands for after a backslash. -/
def simpleEscape? (c : CodePoint) : Option CodePoint :=
  if c = '"' || c = '\\' || c = '/' then some c
  else if c = 'b' then some 8
  else if c = 'f' then some 12
  else if c = 'n' then some 10
  else if c = 'r' then some 13
  else if c = 't' then some 9
  else none

/-- A low surrogate written as an escape at the start of a text that goes on after it; a fault when
its digits are none. -/
def lowEscape (t : Text) : Except Unit (Option CodePoint) :=
  match t with
  | b :: u :: r =>
    if b = '\\' && u = 'u' && 4 < r.length then
      match hexValue? (r.take 4) with
      | none => .error ()
      | some n => if (CodePoint.ofNat n).isLowSurrogate then .ok (some (.ofNat n)) else .ok none
    else .ok none
  | _ => .ok none

/-- The text of a string after its opening quote; `acc` holds what was read, in reverse, and `start`
is the place of the quote. -/
def readString (start : Place) : Nat → Text → Place → Except Error (Text × Place)
  | 0, _, _ => start.fail .unterminated
  | fuel + 1, acc, p =>
    match p.rest with
    | [] => start.fail .unterminated
    | c :: r =>
      if c = '"' then .ok (acc.reverse, p.skip 1)
      else if c = '\\' then
        match r with
        | [] => start.fail .unterminated
        | e :: r =>
          if e = 'u' then
            match (if 4 < r.length then hexValue? (r.take 4) else none) with
            | none => (p.skip 1).fail .badUnicodeEscape
            | some n =>
              let high : CodePoint := .ofNat n
              let after := p.skip 6
              if high.isHighSurrogate then
                match lowEscape after.rest with
                | .error _ => (after.skip 1).fail .badUnicodeEscape
                | .ok (some low) =>
                  readString start fuel (CodePoint.ofSurrogates high low :: acc) (after.skip 6)
                | .ok none => readString start fuel (high :: acc) after
              else readString start fuel (high :: acc) after
          else match simpleEscape? e with
            | some d => readString start fuel (d :: acc) (p.skip 2)
            | none => p.fail .badEscape
      else if c.val < 32 then p.fail .controlCharacter
      else readString start fuel (c :: acc) (p.skip 1)

def readText (p : Place) : Except Error (Text × Place) :=
  readString p (p.rest.length + 1) [] (p.skip 1)

/-- A number's parts: sign, whole digits, fraction digits, and the exponent if one is written. -/
structure NumberParts where
  negative : Bool
  whole : Text
  fraction : Text
  exponent : Option Int
  length : Nat
  deriving DecidableEq, Repr

def exponent? (t : Text) : Option (Int × Nat) :=
  match t with
  | e :: r =>
    if e = 'e' || e = 'E' then
      let (sign, negative) : Nat × Bool := match r with
        | s :: _ => if s = '-' then (1, true) else if s = '+' then (1, false) else (0, false)
        | [] => (0, false)
      let ds := (r.drop sign).takeWhile (·.isDigit)
      (Text.digits? 10 ds).map fun n => (if negative then -(n : Int) else n, 1 + sign + ds.length)
    else none
  | [] => none

def fraction (t : Text) : Text :=
  match t with
  | c :: r => if c = '.' then r.takeWhile (·.isDigit) else []
  | [] => []

/-- The longest number at the start of a text: a leading zero stands alone. -/
def number? (t : Text) : Option NumberParts :=
  let negative := t.head? = some (CodePoint.ofChar '-')
  let sign := if negative then 1 else 0
  let r := t.drop sign
  let whole := match r with
    | c :: _ => if c = '0' then [c] else r.takeWhile (·.isDigit)
    | [] => []
  if whole.isEmpty then none
  else
    let r := r.drop whole.length
    let frac := fraction r
    let pointed := if frac.isEmpty then 0 else 1 + frac.length
    match exponent? (r.drop pointed) with
    | some (e, n) => some ⟨negative, whole, frac, some e, sign + whole.length + pointed + n⟩
    | none => some ⟨negative, whole, frac, none, sign + whole.length + pointed⟩

def NumberParts.isWhole (n : NumberParts) : Bool := n.fraction.isEmpty && n.exponent.isNone

def NumberParts.float (n : NumberParts) : Binary64 :=
  let digits := ((n.whole ++ n.fraction).foldl (fun acc c => acc * 10 + (c.val - 48)) 0 : Nat)
  Binary64.ofDecimal n.negative digits (n.exponent.getD 0 - n.fraction.length)

def NumberParts.int (n : NumberParts) : Int :=
  let m := (n.whole.foldl (fun acc c => acc * 10 + (c.val - 48)) 0 : Nat)
  if n.negative then -(m : Int) else m

def readNumber (p : Place) : Except Error (Value × Place) :=
  match number? p.rest with
  | none => p.fail .expectingValue
  | some n =>
    if n.isWhole then
      if digitLimit < n.whole.length then p.fail (.tooManyDigits n.whole.length)
      else .ok (.int n.int, p.skip n.length)
    else .ok (.float n.float, p.skip n.length)

def words : List (Text × Value) := [
  ("null", .null), ("true", .bool true), ("false", .bool false), ("NaN", .float .nan),
  ("Infinity", .float (.infinity false)), ("-Infinity", .float (.infinity true))]

def word? (p : Place) : Option (Value × Place) :=
  (words.find? fun w => Text.startsWith w.1 p.rest).map fun w => (w.2, p.skip w.1.length)

mutual

/-- The value at a place, with room for so many levels of lists and mappings. -/
def readValue (levels : Nat) : Nat → Place → Except Error (Value × Place)
  | 0, p => p.fail .expectingValue
  | fuel + 1, p =>
    match p.rest with
    | [] => p.fail .expectingValue
    | c :: _ =>
      if c = '"' then (readText p).map fun (t, q) => (.text t, q)
      else if c = '[' then
        match levels with
        | 0 => p.fail (.tooDeep false)
        | levels + 1 =>
          let q := skipSpace (p.skip 1)
          if q.rest.head? = some (CodePoint.ofChar ']') then .ok (.list [], q.skip 1)
          else (readItems levels fuel [] q).map fun (vs, q) => (.list vs, q)
      else if c = '\x7b' then
        match levels with
        | 0 => p.fail (.tooDeep true)
        | levels + 1 =>
          let q := skipSpace (p.skip 1)
          if q.rest.head? = some (CodePoint.ofChar '\x7d') then .ok (.mapping [], q.skip 1)
          else (readMembers levels fuel [] q).map fun (es, q) => (.mapping es, q)
      else match word? p with
        | some r => .ok r
        | none => readNumber p

/-- The items of a list up to its closing bracket; `acc` holds those before, in reverse. -/
def readItems (levels : Nat) : Nat → List Value → Place → Except Error (List Value × Place)
  | 0, _, p => p.fail .expectingValue
  | fuel + 1, acc, p => do
    let (v, q) ← readValue levels fuel p
    let q := skipSpace q
    match q.rest with
    | c :: _ =>
      if c = ']' then .ok ((v :: acc).reverse, q.skip 1)
      else if c = ',' then readItems levels fuel (v :: acc) (skipSpace (q.skip 1))
      else q.fail .expectingComma
    | [] => q.fail .expectingComma

/-- The members of a mapping up to its closing brace, after those in `es`. -/
def readMembers (levels : Nat) : Nat → Entries → Place → Except Error (Entries × Place)
  | 0, _, p => p.fail .expectingName
  | fuel + 1, es, p =>
    match p.rest with
    | [] => p.fail .expectingName
    | c :: _ =>
      if c = '"' then do
        let (name, q) ← readText p
        let q := skipSpace q
        if q.rest.head? = some (CodePoint.ofChar ':') then
          let (v, q) ← readValue levels fuel (skipSpace (q.skip 1))
          let q := skipSpace q
          let es := es.put (.text name) v
          match q.rest with
          | d :: _ =>
            if d = '\x7d' then .ok (es, q.skip 1)
            else if d = ',' then readMembers levels fuel es (skipSpace (q.skip 1))
            else q.fail .expectingComma
          | [] => q.fail .expectingComma
        else q.fail .expectingColon
      else p.fail .expectingName

end

/-- Reads a whole document, with room for so many levels. -/
def parse (levels : Nat) (t : Text) : Except Error Value :=
  if t.head? = some 0xFEFF then .error ⟨.byteOrderMark, 0⟩
  else do
    let (v, p) ← readValue levels (2 * t.length + 2) (skipSpace ⟨0, t⟩)
    let p := skipSpace p
    if p.rest.isEmpty then .ok v else p.fail .extraData

/-- Reads a document, with the fault that reports what is wrong with it. -/
def load (levels : Nat) (t : Text) : Except Fault Value := (parse levels t).mapError (Error.fault t)

end ConfigLoader.Json
