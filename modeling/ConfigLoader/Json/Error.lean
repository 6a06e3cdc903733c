import ConfigLoader.Limits

/-! # Faults of JSON documents -/
namespace ConfigLoader.Json

inductive Problem
  | expectingValue
  | expectingName
  | expectingColon
  | expectingComma
  | extraData
  | unterminated
  | controlCharacter
  | badEscape
  | badUnicodeEscape
  | byteOrderMark
  /-- An integer of so many digits. -/
  | tooManyDigits (count : Nat)
  /-- A list or a mapping that no level is left for. -/
  | tooDeep (isMapping : Bool)
  deriving DecidableEq, Repr

/-- What is wrong, and before which code point. -/
structure Error where
  problem : Problem
  index : Nat
  deriving DecidableEq, Repr

/-- The most digits that an integer is read from or written with. -/
def digitLimit : Nat := 4300

def Problem.message : Problem → Text
  | .expectingValue => "Expecting value"
  | .expectingName => "Expecting property name enclosed in double quotes"
  | .expectingColon => "Expecting ':' delimiter"
  | .expectingComma => "Expecting ',' delimiter"
  | .extraData => "Extra data"
  | .unterminated => "Unterminated string starting at"
  | .controlCharacter => "Invalid control character at"
  | .badEscape => "Invalid \\escape"
  | .badUnicodeEscape => "Invalid \\uXXXX escape"
  | .byteOrderMark => "Unexpected UTF-8 BOM (decode using utf-8-sig)"
  | .tooManyDigits count =>
    "Exceeds the limit (" ++ Text.ofNat digitLimit ++
      " digits) for integer string conversion: value has " ++ Text.ofNat count ++
      " digits; use sys.set_int_max_str_digits() to increase the limit"
  | .tooDeep isMapping =>
    " while decoding a JSON " ++ (if isMapping then "object" else "array" : String) ++
      " from a unicode string"

def position (t : Text) (index : Nat) : Nat × Nat :=
  let before := t.take index
  let line := before.count 10 + 1
  let column := (before.reverse.takeWhile fun c => c != 10).length + 1
  (line, column)

def Error.fault (t : Text) (e : Error) : Fault :=
  match e.problem with
  | .tooManyDigits _ => Fault.valueError e.problem.message
  | .tooDeep _ => Fault.recursion e.problem.message
  | p =>
    let (line, column) := position t e.index
    Fault.documentFault .jsonDecodeError
      (p.message ++ ": line " ++ Text.ofNat line ++ " column " ++ Text.ofNat column ++
        " (char " ++ Text.ofNat e.index ++ ")")

end ConfigLoader.Json
