import ConfigLoader.Number.Reading
import ConfigLoader.Yaml.Mark
import ConfigLoader.Yaml.Tag

/-! # Scalar values

What the text of a scalar stands for in each type of the common schema.
-/
namespace ConfigLoader.Yaml.Scalar

def boolean (t : Text) : Except Fault Value :=
  let word := t.asciiLower
  if Plain.isWord ["yes", "true", "on"] word then .ok (.bool true)
  else if Plain.isWord ["no", "false", "off"] word then .ok (.bool false)
  else .error (Fault.plain .keyError [.text word])

def dropBars (t : Text) : Text := t.filter fun (c : CodePoint) => c != '_'

/-- A sign and what follows it; a text needs a first character. -/
def signed (t : Text) : Except Fault (Bool × Text) :=
  if t.isEmpty then .error (.of .indexError "string index out of range")
  else .ok (Number.splitSign t)

/-- The value of places in base sixty, the first one the greatest. -/
def sexagesimal (places : List Int) : Int := places.foldl (fun n p => n * 60 + p) 0

def integer (t : Text) : Except Fault Value := do
  let (negative, r) ← signed (dropBars t)
  let n : Int ←
    if r == "0" then pure 0
    else match Text.afterStart? "0b" r, Text.afterStart? "0x" r with
      | some ds, _ => Number.integer 2 ds
      | _, some ds => Number.integer 16 ds
      | none, none =>
        match r with
        | [] => throw (.of .indexError "string index out of range")
        | c :: _ =>
          if c = '0' then Number.integer 8 r
          else if r.contains (CodePoint.ofChar ':') then
            return .int ((if negative then -1 else 1) *
              sexagesimal (← (Text.splitAt ':' r).mapM (Number.integer 10)))
          else Number.integer 10 r
  return .int (if negative then -n else n)

/-- Adds a place times a power of sixty, which must be small enough for a float. -/
def addPlace (sum : Binary64) (power : Int) (place : Binary64) : Except Fault Binary64 :=
  let scale := Binary64.ofInt power
  if scale.isFinite then .ok (sum.add (place.mul scale))
  else .error (.of .overflowError "int too large to convert to float")

/-- The sum of places times powers of sixty, the last place first, each step rounded. -/
def sexagesimalFloat : List Binary64 → Int → Binary64 → Except Fault Binary64
  | [], _, sum => .ok sum
  | p :: ps, power, sum => do sexagesimalFloat ps (power * 60) (← addPlace sum power p)

def float (t : Text) : Except Fault Value := do
  let (negative, r) ← signed (dropBars t).asciiLower
  let x : Binary64 ←
    if r == ".inf" then pure (.infinity false)
    else if r == ".nan" then return .float .nan
    else if r.contains (CodePoint.ofChar ':') then
      sexagesimalFloat (← (Text.splitAt ':' r).mapM Number.float).reverse 1 (.zero false)
    else Number.float r
  return .float (if negative then x.neg else x)

def daysIn (year month : Nat) : Nat :=
  let leap := year % 4 = 0 && (year % 100 ≠ 0 || year % 400 = 0)
  if month = 2 then (if leap then 29 else 28)
  else if month = 4 ∨ month = 6 ∨ month = 9 ∨ month = 11 then 30
  else 31

def number (t : Text) : Nat := (Text.digits? 10 t).getD 0

def checkDate (d : Date) : Except Fault Unit :=
  if d.year = 0 then
    .error (Fault.valueError ("year " ++ Text.ofNat d.year ++ " is out of range"))
  else if d.month < 1 ∨ 12 < d.month then .error (Fault.valueError "month must be in 1..12")
  else if d.day < 1 ∨ daysIn d.year d.month < d.day then
    .error (Fault.valueError "day is out of range for month")
  else .ok ()

def checkTime (hour minute second : Nat) : Except Fault Unit :=
  if 23 < hour then .error (Fault.valueError "hour must be in 0..23")
  else if 59 < minute then .error (Fault.valueError "minute must be in 0..59")
  else if 59 < second then .error (Fault.valueError "second must be in 0..59")
  else .ok ()

/-- The offset that a sign, hours and minutes stand for; it must be less than a day. -/
def offset (negative : Bool) (hours minutes : Text) : Except Fault Int :=
  let m : Int := number hours * 60 + number minutes
  let m := if negative then -m else m
  if m.natAbs < 1440 then .ok m
  else
    let days := m.fdiv 1440
    let rest := (m.fmod 1440) * 60
    let shown : Text :=
      if rest = 0 then "days=" ++ Text.ofInt days
      else "days=" ++ Text.ofInt days ++ ", seconds=" ++ Text.ofInt rest
    .error (Fault.valueError ("offset must be a timedelta strictly between " ++
      "-timedelta(hours=24) and timedelta(hours=24), not datetime.timedelta(" ++ shown ++ ")"))

/-- The offset of a time with a zone: none of its own is zero. -/
def zoneOffset : Option (Option (Bool × Text × Text)) → Except Fault (Option Int)
  | none => .ok none
  | some none => .ok (some 0)
  | some (some (negative, hours, minutes)) => (offset negative hours minutes).map some

/-- A fraction of a second in millionths; further digits are cut. -/
def millionths (t : Text) : Nat :=
  number ((t ++ List.replicate 6 (CodePoint.ofChar '0')).take 6)

def timestamp (t : Text) : Except Fault Value :=
  match Plain.time? 1 (dropLastBreak t) with
  | none => .error (Fault.noAttribute .null "groupdict")
  | some p => do
    let d : Date := ⟨number p.year, number p.month, number p.day⟩
    match p.time with
    | none =>
      checkDate d
      return .date d
    | some (hour, minute, second, frac) =>
      let zone ← zoneOffset p.zone
      checkDate d
      checkTime (number hour) (number minute) (number second)
      return .dateTime ⟨d, number hour, number minute, number second, millionths frac, zone⟩

/-- The six bits that a character of a binary scalar stands for. -/
def sixBits? (c : CodePoint) : Option Nat :=
  if c.isUpper then some (c.val - 65)
  else if c.isLower then some (c.val - 71)
  else if c.isDigit then some (c.val + 4)
  else if c = '+' then some 62
  else if c = '/' then some 63
  else none

/-- Where reading a binary scalar stands: bytes in reverse, pending bits and how many places of a
group of four are filled, and how many padding characters came in a row. -/
structure BinaryState where
  bytes : List UInt8
  pending : Nat
  filled : Nat
  padding : Nat
  finished : Bool

/-- One character: padding that completes a group ends the scalar, and others are skipped. -/
def BinaryState.step (s : BinaryState) (c : CodePoint) : BinaryState :=
  if s.finished then s
  else if c = '=' then
    if 2 ≤ s.filled && 4 ≤ s.filled + s.padding + 1 then { s with finished := true }
    else { s with padding := if 2 ≤ s.filled then s.padding + 1 else s.padding }
  else match sixBits? c with
    | none => s
    | some v =>
      match s.filled with
      | 0 => { s with pending := v, filled := 1, padding := 0 }
      | 1 => { s with
          bytes := UInt8.ofNat (s.pending * 4 + v / 16) :: s.bytes
          pending := v % 16, filled := 2, padding := 0 }
      | 2 => { s with
          bytes := UInt8.ofNat (s.pending * 16 + v / 4) :: s.bytes
          pending := v % 4, filled := 3, padding := 0 }
      | _ => { s with
          bytes := UInt8.ofNat (s.pending * 64 + v) :: s.bytes
          pending := 0, filled := 0, padding := 0 }

def binary (t : Text) : Except Text (List UInt8) :=
  match t.findIdx? fun c => 128 ≤ c.val with
  | some i =>
    let c := (t[i]?).getD 0
    let run := ((t.drop i).takeWhile fun c => 128 ≤ c.val).length
    let place : Text :=
      if run = 1 then
        "character " ++ Fault.escapedCharacter c.val ++ " in position " ++ Text.ofNat i
      else "characters in position " ++ Text.ofNat i ++ "-" ++ Text.ofNat (i + run - 1)
    .error ("failed to convert base64 data into ascii: 'ascii' codec can't encode " ++ place ++
      ": ordinal not in range(128)")
  | none =>
    let s := t.foldl BinaryState.step ⟨[], 0, 0, 0, false⟩
    if s.finished || s.filled = 0 then .ok s.bytes.reverse
    else if s.filled = 1 then
      .error ("failed to decode base64 data: Invalid base64-encoded string: " ++
        "number of data characters (" ++ Text.ofNat (s.bytes.length / 3 * 4 + 1) ++
        ") cannot be 1 more than a multiple of 4")
    else .error "failed to decode base64 data: Incorrect padding"

end ConfigLoader.Yaml.Scalar
