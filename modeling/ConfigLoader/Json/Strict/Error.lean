import ConfigLoader.Text

/-! # What is wrong with strict JSON

A fault names what was expected, or the character that cannot stand where it stands, with some of
the text around it. Positions count units of UTF-16.
-/
namespace ConfigLoader.Json.Strict

inductive Problem
  | unexpectedEnd
  | unexpectedCharacter
  | unexpectedNumber
  | unexpectedText
  | expectedNameOrBrace
  | expectedName
  | expectedColon
  | expectedCommaOrBracket
  | expectedCommaOrBrace
  | unterminatedText
  | controlCharacter
  | badEscape
  | badUnicodeEscape
  | missingDigits
  | missingFraction
  | missingExponent
  | extraText
  deriving DecidableEq, Repr

/-- What is wrong, and before which code point. -/
structure Error where
  problem : Problem
  index : Nat
  deriving DecidableEq, Repr

def Problem.message? : Problem → Option Text
  | .unexpectedEnd | .unexpectedCharacter => none
  | .unexpectedNumber => some "Unexpected number in JSON"
  | .unexpectedText => some "Unexpected string in JSON"
  | .expectedNameOrBrace => some "Expected property name or '\x7d' in JSON"
  | .expectedName => some "Expected double-quoted property name in JSON"
  | .expectedColon => some "Expected ':' after property name in JSON"
  | .expectedCommaOrBracket => some "Expected ',' or ']' after array element in JSON"
  | .expectedCommaOrBrace => some "Expected ',' or '\x7d' after property value in JSON"
  | .unterminatedText => some "Unterminated string in JSON"
  | .controlCharacter => some "Bad control character in string literal in JSON"
  | .badEscape => some "Bad escaped character in JSON"
  | .badUnicodeEscape => some "Bad Unicode escape in JSON"
  | .missingDigits => some "No number after minus sign in JSON"
  | .missingFraction => some "Unterminated fractional number in JSON"
  | .missingExponent => some "Exponent part is missing a number in JSON"
  | .extraText => some "Unexpected non-whitespace character after JSON"

/-- The line and the column of a unit, both from one; a carriage return and a line feed end one
line. -/
def location (before : List Nat) : Nat × Nat :=
  let step (acc : Nat × Nat × Bool) (u : Nat) : Nat × Nat × Bool :=
    let (line, column, cr) := acc
    if u = 10 then (if cr then (line, 1, false) else (line + 1, 1, false))
    else if u = 13 then (line + 1, 1, true)
    else (line, column + 1, false)
  let (line, column, _) := before.foldl step (1, 1, false)
  (line, column)

/-- How many units are shown on either side of a character that cannot stand. -/
def contextWidth : Nat := 10

/-- Texts that come from values which were never JSON. -/
def strayWords : List Text := ["[object Object]", "NaN", "Infinity", "undefined"]

/-- The character that cannot stand, and the text around it. -/
def unexpectedMessage (source : Text) (units : List Nat) (pos : Nat) : Text :=
  if strayWords.contains source then "\"" ++ source ++ "\" is not valid JSON"
  else
    let head := "Unexpected token '" ++ Text.ofUnits16 ((units.drop pos).take 1) ++ "', "
    let n := units.length
    let context : Text :=
      if n ≤ 2 * contextWidth then "\"" ++ source ++ "\""
      else
        let start := pos - contextWidth
        let shown := Text.ofUnits16 ((units.drop start).take (pos + contextWidth - start))
        if pos < contextWidth then "\"" ++ shown ++ "\"..."
        else if pos < n - contextWidth then "...\"" ++ shown ++ "\"..."
        else "...\"" ++ shown ++ "\""
    head ++ context ++ " is not valid JSON"

def Error.message (source : Text) (e : Error) : Text :=
  let units := source.units16
  let before := Text.units16 (source.take e.index)
  match e.problem, e.problem.message? with
  | .unexpectedEnd, _ => "Unexpected end of JSON input"
  | _, none => unexpectedMessage source units before.length
  | _, some m =>
    let (line, column) := location before
    m ++ " at position " ++ Text.ofNat before.length ++ " (line " ++ Text.ofNat line ++
      " column " ++ Text.ofNat column ++ ")"

end ConfigLoader.Json.Strict
