import ConfigLoader.Fault
import ConfigLoader.Validation
import ConfigLoader.Json.Reader

/-! # Reading numbers from text

Numbers may be surrounded by blanks and may hold single underscores between digits.
-/
namespace ConfigLoader.Number

/-- Digits with single underscores between them, as the digits alone. -/
def joinDigits? (isDigit : CodePoint → Bool) : Text → Option Text
  | [] => none
  | [c] => if isDigit c then some [c] else none
  | c :: d :: r =>
    if !isDigit c then none
    else if d = '_' then
      match r with
      | [] => none
      | e :: r => if isDigit e then (joinDigits? isDigit (e :: r)).map (c :: ·) else none
    else (joinDigits? isDigit (d :: r)).map (c :: ·)
termination_by t => t.length

/-- The rest after a sign, and whether it was a minus. -/
def splitSign (t : Text) : Bool × Text :=
  match t with
  | c :: r => if c = '-' then (true, r) else if c = '+' then (false, r) else (false, t)
  | [] => (false, [])

/-- The letter that may follow a leading zero in a base. -/
def baseLetter? (base : Nat) : Option (CodePoint × CodePoint) :=
  if base = 16 then some ('x', 'X')
  else if base = 8 then some ('o', 'O')
  else if base = 2 then some ('b', 'B')
  else none

/-- Drops the mark of a base, and one underscore after it. -/
def dropBase (base : Nat) (t : Text) : Text :=
  match t, baseLetter? base with
  | z :: c :: r, some (low, high) =>
    if z = '0' && (c = low || c = high) then
      match r with
      | u :: more => if u = '_' then more else r
      | [] => []
    else t
  | _, _ => t

def invalidInteger (base : Nat) (t : Text) : Fault :=
  Fault.valueError ("invalid literal for int() with base " ++ Text.ofNat base ++ ": " ++ t.literal)

def integer (base : Nat) (t : Text) : Except Fault Int :=
  let (negative, r) := splitSign (Text.trim Validation.isBlank t)
  match joinDigits? (fun c => (c.digit? base).isSome) (dropBase base r) with
  | none => .error (invalidInteger base t)
  | some ds =>
    if base = 10 && Json.digitLimit < ds.length then
      .error (Fault.valueError (Json.Problem.tooManyDigits ds.length).message)
    else
      let n := (Text.digits? base ds).getD 0
      .ok (if negative then -(n : Int) else n)

def decimal? (t : Text) : Option (Text × Text) :=
  let whole := t.takeWhile fun (c : CodePoint) => c != '.'
  let rest := t.drop whole.length
  let side (s : Text) : Option Text :=
    if s.isEmpty then some [] else joinDigits? (·.isDigit) s
  match rest with
  | [] => (joinDigits? (·.isDigit) whole).map (·, [])
  | _ :: frac =>
    if whole.isEmpty && frac.isEmpty then none
    else do return (← side whole, ← side frac)

def finite? (negative : Bool) (t : Text) : Option Binary64 := do
  let mantissa := t.takeWhile fun (c : CodePoint) => !(c = 'e' || c = 'E')
  let (whole, frac) ← decimal? mantissa
  let exponent : Int ← match t.drop mantissa.length with
    | [] => some 0
    | _ :: e =>
      let (down, ds) := splitSign e
      (joinDigits? (·.isDigit) ds).map fun ds =>
        let n := (Text.digits? 10 ds).getD 0
        if down then -(n : Int) else n
  let digits := (Text.digits? 10 (whole ++ frac)).getD 0
  return Binary64.ofDecimal negative digits (exponent - frac.length)

def float (t : Text) : Except Fault Binary64 :=
  let (negative, r) := splitSign (Text.trim Validation.isBlank t)
  let word := r.asciiLower
  if word == "inf" || word == "infinity" then .ok (.infinity negative)
  else if word == "nan" then .ok .nan
  else match finite? negative r with
    | some x => .ok x
    | none => .error (Fault.valueError ("could not convert string to float: " ++ t.literal))

end ConfigLoader.Number
