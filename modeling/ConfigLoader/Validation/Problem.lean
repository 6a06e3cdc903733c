import ConfigLoader.Value.Literal

/-! # Problems found by validation

A problem names the rule a field breaks, the path of the field, and the value found there.
-/
namespace ConfigLoader.Validation

inductive Rule
  | integerType
  | integerParsing
  | integerSize
  | integerFraction
  | finiteNumber
  | textType
  | textEncoding
  | booleanType
  | booleanParsing
  | mappingType
  | record (name : String)
  | missing
  deriving DecidableEq, Repr

def Rule.code : Rule → String
  | .integerType => "int_type"
  | .integerParsing => "int_parsing"
  | .integerSize => "int_parsing_size"
  | .integerFraction => "int_from_float"
  | .finiteNumber => "finite_number"
  | .textType => "string_type"
  | .textEncoding => "string_unicode"
  | .booleanType => "bool_type"
  | .booleanParsing => "bool_parsing"
  | .mappingType => "dict_type"
  | .record _ => "model_type"
  | .missing => "missing"

def Rule.message : Rule → Text
  | .integerType => "Input should be a valid integer"
  | .integerParsing => "Input should be a valid integer, unable to parse string as an integer"
  | .integerSize => "Unable to parse input string as an integer, exceeded maximum size"
  | .integerFraction => "Input should be a valid integer, got a number with a fractional part"
  | .finiteNumber => "Input should be a finite number"
  | .textType => "Input should be a valid string"
  | .textEncoding => "Input should be a valid string, unable to parse raw data as a unicode string"
  | .booleanType => "Input should be a valid boolean"
  | .booleanParsing => "Input should be a valid boolean, unable to interpret input"
  | .mappingType => "Input should be a valid dictionary"
  | .record name => "Input should be a valid dictionary or instance of " ++ name
  | .missing => "Field required"

structure Problem where
  rule : Rule
  path : List Text
  input : Value

/-- The longest beginning of a text that takes at most `n` bytes. -/
def takeBytes (width : CodePoint → Nat) : Nat → Text → Text
  | _, [] => []
  | n, c :: r => if width c ≤ n then c :: takeBytes width (n - width c) r else []

def byteWidth (c : CodePoint) : Nat :=
  if c.val < 0x80 then 1 else if c.val < 0x800 then 2 else if c.val < 0x10000 then 3 else 4

/-- A literal of more than fifty bytes shows its first 25 and its last 24. -/
def shorten (t : Text) : Text :=
  if 50 < (t.map byteWidth).foldl (· + ·) 0 then
    takeBytes byteWidth 25 t ++ "..." ++ (takeBytes byteWidth 24 t.reverse).reverse
  else t

def helpPage : Text := "https:" ++ Text.ofString "//errors.pydantic.dev/2.14/v/"

def Problem.lines (p : Problem) : List Text :=
  let place : List Text := if p.path.isEmpty then [] else [Text.join "." p.path]
  place ++ [
    "  " ++ p.rule.message ++ " [type=" ++ p.rule.code ++ ", input_value=" ++
      shorten p.input.literal ++ ", input_type=" ++ p.input.typeName ++ "]",
    "    For further information visit " ++ helpPage ++ p.rule.code]

def report (title : String) (ps : List Problem) : Text :=
  let count := Text.ofNat ps.length ++
    (if ps.length = 1 then " validation error" else " validation errors" : String)
  Text.join "\n" ((count ++ " for " ++ title) :: ps.flatMap Problem.lines)

end ConfigLoader.Validation
