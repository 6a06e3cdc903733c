import ConfigLoader.Text.Printable
import ConfigLoader.Number.Shortest
import ConfigLoader.Value

/-! # Literals

The text of a value as it would be written in a program, and the plain text that shows a value in
a message: a text shows as itself, a date without its constructor, anything else as its literal.
-/
namespace ConfigLoader

namespace Text

/-- Single quotes, or double ones around a text that holds single ones only. -/
def quoteFor (t : Text) : CodePoint :=
  if t.contains (CodePoint.ofChar '\'') && !t.contains (CodePoint.ofChar '"') then '"' else '\''

def escaped (q c : CodePoint) : Text :=
  if c = '\\' || c = q then ['\\', c]
  else if c = '\n' then "\\n"
  else if c = '\r' then "\\r"
  else if c = '\t' then "\\t"
  else if c.isPrintable then [c]
  else if c.val < 0x100 then "\\x" ++ hex 2 c.val
  else if c.val < 0x10000 then "\\u" ++ hex 4 c.val
  else "\\U" ++ hex 8 c.val

def literal (t : Text) : Text :=
  let q := quoteFor t
  q :: t.flatMap (escaped q) ++ [q]

end Text

namespace Value

/-- Numbers in literals and in printed documents. -/
def floatStyle : Binary64.Style where
  lowPoint := -3
  highPoint := 16
  wholeEnd := ".0"
  exponentWidth := 2
  signedZero := true
  infinity := "inf"
  nan := "nan"

def byteLiteral (b : List UInt8) : Text :=
  let t : Text := b.map fun x => CodePoint.ofNat x.toNat
  let q := t.quoteFor
  let one (c : CodePoint) : Text :=
    if c.val < 127 then Text.escaped q c else "\\x" ++ Text.hex 2 c.val
  "b" ++ q :: t.flatMap one ++ [q]

end Value

namespace Date

def iso (d : Date) : Text :=
  Text.padded 4 d.year ++ "-" ++ Text.padded 2 d.month ++ "-" ++ Text.padded 2 d.day

def parts (d : Date) : List Text := [Text.ofNat d.year, Text.ofNat d.month, Text.ofNat d.day]

end Date

namespace DateTime

def offsetText (minutes : Int) : Text :=
  let n := minutes.natAbs
  let sign : Text := if minutes < 0 then "-" else "+"
  sign ++ Text.padded 2 (n / 60) ++ ":" ++ Text.padded 2 (n % 60)

def isoWith (sep : Text) (d : DateTime) : Text :=
  let fraction : Text := if d.microsecond = 0 then [] else "." ++ Text.padded 6 d.microsecond
  let zone : Text := match d.offset with
    | none => []
    | some m => offsetText m
  d.date.iso ++ sep ++ Text.padded 2 d.hour ++ ":" ++ Text.padded 2 d.minute ++ ":" ++
    Text.padded 2 d.second ++ fraction ++ zone

def iso (d : DateTime) : Text := d.isoWith "T"

def offsetLiteral (minutes : Int) : Text :=
  if minutes = 0 then "datetime.timezone.utc"
  else
    let seconds := minutes * 60
    let days := seconds.fdiv 86400
    let rest := seconds.fmod 86400
    let inner : Text :=
      if days = 0 then "seconds=" ++ Text.ofInt rest
      else "days=" ++ Text.ofInt days ++ ", seconds=" ++ Text.ofInt rest
    "datetime.timezone(datetime.timedelta(" ++ inner ++ "))"

def literal (d : DateTime) : Text :=
  let small : List Text :=
    if d.microsecond ≠ 0 then [Text.ofNat d.second, Text.ofNat d.microsecond]
    else if d.second ≠ 0 then [Text.ofNat d.second]
    else []
  let zone : List Text := match d.offset with
    | none => []
    | some m => ["tzinfo=" ++ offsetLiteral m]
  let parts := d.date.parts ++ [Text.ofNat d.hour, Text.ofNat d.minute] ++ small ++ zone
  "datetime.datetime(" ++ Text.join ", " parts ++ ")"

end DateTime

namespace Value

mutual

def literal : Value → Text
  | .null => "None"
  | .bool b => if b then "True" else "False"
  | .int n => Text.ofInt n
  | .float x => x.text floatStyle
  | .text t => t.literal
  | .bytes b => byteLiteral b
  | .date d => "datetime.date(" ++ Text.join ", " d.parts ++ ")"
  | .dateTime d => d.literal
  | .list xs => "[" ++ Text.join ", " (literals xs) ++ "]"
  | .tuple xs =>
    match literals xs with
    | [t] => "(" ++ t ++ ",)"
    | ts => "(" ++ Text.join ", " ts ++ ")"
  | .set xs =>
    match literals xs with
    | [] => "set()"
    | ts => "\x7b" ++ Text.join ", " ts ++ "\x7d"
  | .mapping es => "\x7b" ++ Text.join ", " (entryLiterals es) ++ "\x7d"
  | .cycle isMapping => if isMapping then "\x7b...\x7d" else "[...]"

def literals : List Value → List Text
  | [] => []
  | x :: xs => literal x :: literals xs

def entryLiterals : List (Value × Value) → List Text
  | [] => []
  | (k, v) :: es => (literal k ++ ": " ++ literal v) :: entryLiterals es

end

def display : Value → Text
  | .text t => t
  | .date d => d.iso
  | .dateTime d => d.isoWith " "
  | v => v.literal

end Value
end ConfigLoader
