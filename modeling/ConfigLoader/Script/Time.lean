import ConfigLoader.Text

/-! # Points of time

A point of time is a number of milliseconds since the start of 1970, in universal time. It is read
from the standard forms of dates and times and written in the longest of them.
-/
namespace ConfigLoader.Script.Time

def msPerDay : Int := 86400000

/-- The farthest point of time, on either side. -/
def limit : Int := 8640000000000000

/-- The number of days from the start of 1970 to a date; the day may lie beyond its month. -/
def daysOf (year month day : Int) : Int :=
  let y := if month ≤ 2 then year - 1 else year
  let era := y.fdiv 400
  let yearOfEra := y - era * 400
  let shifted := (month + 9).fmod 12
  let dayOfYear := (153 * shifted + 2).fdiv 5 + day - 1
  let dayOfEra := yearOfEra * 365 + yearOfEra.fdiv 4 - yearOfEra.fdiv 100 + dayOfYear
  era * 146097 + dayOfEra - 719468

def civil (days : Int) : Int × Int × Int :=
  let z := days + 719468
  let era := z.fdiv 146097
  let dayOfEra := z - era * 146097
  let yearOfEra :=
    (dayOfEra - dayOfEra.fdiv 1460 + dayOfEra.fdiv 36524 - dayOfEra.fdiv 146096).fdiv 365
  let dayOfYear := dayOfEra - (365 * yearOfEra + yearOfEra.fdiv 4 - yearOfEra.fdiv 100)
  let shifted := (5 * dayOfYear + 2).fdiv 153
  let day := dayOfYear - (153 * shifted + 2).fdiv 5 + 1
  let month := if shifted < 10 then shifted + 3 else shifted - 9
  (yearOfEra + era * 400 + (if month ≤ 2 then 1 else 0), month, day)

def padded (width : Nat) (n : Int) : Text := Text.padded width n.natAbs

def clock (t : Int) : Text :=
  let ms := t.fmod msPerDay
  padded 2 (ms / 3600000) ++ ":" ++ padded 2 (ms / 60000 % 60) ++ ":" ++ padded 2 (ms / 1000 % 60)

/-- The longest standard form. -/
def iso (t : Int) : Text :=
  let (y, m, d) := civil (t.fdiv msPerDay)
  let year : Text :=
    if 0 ≤ y && y ≤ 9999 then padded 4 y
    else if y < 0 then "-" ++ padded 6 y
    else "+" ++ padded 6 y
  year ++ "-" ++ padded 2 m ++ "-" ++ padded 2 d ++ "T" ++ clock t ++ "." ++
    padded 3 (t.fmod 1000) ++ "Z"

def dayNames : List String := ["Sun", "Mon", "Tue", "Wed", "Thu", "Fri", "Sat"]

def monthNames : List String :=
  ["Jan", "Feb", "Mar", "Apr", "May", "Jun", "Jul", "Aug", "Sep", "Oct", "Nov", "Dec"]

/-- The form that shows a point of time to a reader. -/
def shown (t : Int) : Text :=
  let days := t.fdiv msPerDay
  let (y, m, d) := civil days
  let dayName := dayNames.getD ((days + 4).fmod 7).toNat ""
  let monthName := monthNames.getD (m - 1).toNat ""
  let sign : Text := if y < 0 then "-" else []
  dayName ++ " " ++ monthName ++ " " ++ padded 2 d ++ " " ++ sign ++ padded 4 y ++ " " ++ clock t ++
    " GMT+0000 (Coordinated Universal Time)"

/-! ## Reading -/

/-- A number of exactly `n` digits at the start of a text. -/
def digits? (n : Nat) (t : Text) : Option (Int × Text) := do
  let ds := t.take n
  if ds.length = n && ds.all (·.isDigit) then
    return ((← Text.digits? 10 ds : Nat), t.drop n)
  else none

def part? (mark : Char) (lo hi : Int) (t : Text) : Option (Int × Text) :=
  match t with
  | c :: r =>
    if c = mark then
      match digits? 2 r with
      | some (n, r) => if lo ≤ n && n ≤ hi then some (n, r) else none
      | none => none
    else none
  | [] => none

def year? (t : Text) : Option (Int × Text) :=
  match t with
  | c :: r =>
    if c = '+' then digits? 6 r
    else if c = '-' then (digits? 6 r).map fun (n, r) => (-n, r)
    else digits? 4 t
  | [] => none

def fraction (t : Text) : Option (Int × Text) :=
  match t with
  | c :: r =>
    if c = '.' then
      let ds := r.takeWhile (·.isDigit)
      if ds.isEmpty then none
      else (Text.digits? 10 ((ds ++ Text.ofString "00").take 3)).map fun n =>
        ((n : Int), r.drop ds.length)
    else some (0, t)
  | [] => some (0, [])

/-- The offset from universal time in minutes, at the end of a text. -/
def zone? (t : Text) : Option Int :=
  match t with
  | [] => some 0
  | c :: _ =>
    if t == Text.ofString "Z" then some 0
    else if c = '+' || c = '-' then do
      let (h, r) ← part? (if c = '+' then '+' else '-') 0 23 t
      let (m, r) ← part? ':' 0 59 r
      if r.isEmpty then some (if c = '+' then h * 60 + m else -(h * 60 + m)) else none
    else none

/-- The time of day in milliseconds with the offset, after the mark that begins it. -/
def clock? (t : Text) : Option Int := do
  let (h, r) ← digits? 2 t
  let (m, r) ← part? ':' 0 59 r
  let (s, r) := (part? ':' 0 59 r).getD (0, r)
  let (f, r) ← fraction r
  let zone ← zone? r
  let ms := ((h * 60 + m) * 60 + s) * 1000 + f
  if h < 24 || ms = msPerDay then some (ms - zone * 60000) else none

/-- The point of time that a standard form names. -/
def ofText? (t : Text) : Option Int := do
  let (y, r) ← year? t
  let (m, r, more) := match part? '-' 1 12 r with
    | some (m, r) => (m, r, true)
    | none => (1, r, false)
  let (d, r) := if more then (part? '-' 1 31 r).getD (1, r) else (1, r)
  let start := daysOf y m d * msPerDay
  let ms ← match r with
    | [] => some 0
    | c :: r => if c = 'T' || c = ' ' then clock? r else none
  if (start + ms).natAbs ≤ limit.natAbs then some (start + ms) else none

end ConfigLoader.Script.Time
