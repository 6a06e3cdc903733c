import ConfigLoader.Text.Utf8
import ConfigLoader.Yaml.Source
import ConfigLoader.Yaml.Token

/-! # Names, tags and directives -/
namespace ConfigLoader.Yaml

def scanName (s : Source) : Except Error (Token.Kind × Source) :=
  let start := s.mark
  let isAlias := s.current = '*'
  let context : Text := if isAlias then "while scanning an alias" else "while scanning an anchor"
  let (name, after) := s.step.span isNameCharacter
  if name.isEmpty then expected context "alphabetic or numeric character" start s.step
  else if endsToken after.current || oneOf "?:,]\x7d%@`" after.current then
    .ok (if isAlias then .alias name else .anchor name, after)
  else expected context "alphabetic or numeric character" start after

/-- One byte after a percent sign. -/
def escapedByte (context : Text) (start : Mark) (s : Source) : Except Error (UInt8 × Source) :=
  let s := s.step
  match (s.peek 0).digit? 16, (s.peek 1).digit? 16 with
  | some a, some b => .ok (UInt8.ofNat (a * 16 + b), s.advance 2)
  | found, _ =>
    let bad := if found.isNone then s.peek 0 else s.peek 1
    .error (.scanner context ("expected URI escape sequence of 2 hexadecimal numbers, but found " ++
      Text.literal [bad]) start s.mark)

def escapedBytes (context : Text) (start : Mark) :
    Nat → Source → Except Error ((List UInt8) × Source)
  | 0, s => .ok ([], s)
  | fuel + 1, s =>
    if s.current = '%' then do
      let (b, s) ← escapedByte context start s
      let (bs, s) ← escapedBytes context start fuel s
      return (b :: bs, s)
    else .ok ([], s)

def isUriCharacter (c : CodePoint) : Bool :=
  c.isDigit || c.isLetter || oneOf "-;/?:@&=+$,_.!~*'()[]" c

/-- A piece of an address; `acc` holds what came before. -/
def scanUriFrom (noun : Text) (start : Mark) : Nat → Text → Source → Except Error (Text × Source)
  | 0, acc, s => .ok (acc, s)
  | fuel + 1, acc, s => do
    let (part, s) := s.span isUriCharacter
    if s.current = '%' then
      let (bytes, after) ← escapedBytes ("while scanning a " ++ noun) start s.size s
      match Text.Utf8.decode bytes with
      | .ok t => scanUriFrom noun start fuel (acc ++ part ++ t) after
      | .error f => .error (.scanner ("while scanning a " ++ noun) f.message start s.mark)
    else .ok (acc ++ part, s)

def scanUri (noun : Text) (start : Mark) (s : Source) : Except Error (Text × Source) :=
  if isUriCharacter s.current || s.current = '%' then scanUriFrom noun start (s.size + 1) [] s
  else expected ("while parsing a " ++ noun) "URI" start s

/-- A handle: an exclamation mark, or a name between two. -/
def scanHandle (noun : Text) (start : Mark) (s : Source) : Except Error (Text × Source) :=
  let context := "while scanning a " ++ noun
  if s.current ≠ '!' then expected context "'!'" start s
  else if s.peek 1 = 32 then .ok (['!'], s.step)
  else
    let (name, after) := s.step.span isNameCharacter
    if after.current = '!' then .ok ("!" ++ name ++ "!", after.step)
    else expected context "'!'" start after

/-- Whether a second exclamation mark comes before the end of the word. -/
def hasHandle (s : Source) : Bool :=
  ((s.rest.drop 1).takeWhile fun c => !endsWord c).contains (CodePoint.ofChar '!')

def scanTagBody (start : Mark) (s : Source) : Except Error ((Option Text × Text) × Source) :=
  if s.peek 1 = '<' then do
    let (uri, after) ← scanUri "tag" start (s.advance 2)
    if after.current = '>' then return ((none, uri), after.step)
    else expected "while parsing a tag" "'>'" start after
  else if endsToken (s.peek 1) then .ok ((none, "!"), s.step)
  else do
    let (handle, s) ← if hasHandle s then scanHandle "tag" start s else pure (("!" : Text), s.step)
    let (suffix, s) ← scanUri "tag" start s
    return ((some handle, suffix), s)

def scanTag (s : Source) : Except Error (Token.Kind × Source) := do
  let ((handle, suffix), after) ← scanTagBody s.mark s
  if endsWord after.current then return (.tag handle suffix, after)
  else expected "while scanning a tag" "' '" s.mark after

def directiveContext : Text := "while scanning a directive"

def scanDirectiveNumber (start : Mark) (s : Source) : Except Error (Nat × Source) :=
  let (ds, after) := s.span (·.isDigit)
  match Text.digits? 10 ds with
  | some n => .ok (n, after)
  | none => expected directiveContext "a digit" start s

def scanVersion (start : Mark) (s : Source) : Except Error (Directive × Source) := do
  let (major, s) ← scanDirectiveNumber start s.skipSpaces
  if s.current ≠ '.' then expected directiveContext "a digit or '.'" start s
  else
    let (minor, s) ← scanDirectiveNumber start s.step
    if endsWord s.current then return (.version major minor, s)
    else expected directiveContext "a digit or ' '" start s

def scanTagDirective (start : Mark) (s : Source) : Except Error (Directive × Source) := do
  let (handle, s) ← scanHandle "directive" start s.skipSpaces
  if s.current ≠ ' ' then expected directiveContext "' '" start s
  else
    let (leading, s) ← scanUri "directive" start s.skipSpaces
    if endsWord s.current then return (.tag handle leading, s)
    else expected directiveContext "' '" start s

/-- A directive, from its percent sign to the end of its line; it is marked up to its value. -/
def scanDirective (s : Source) : Except Error (Token × Source) := do
  let start := s.mark
  let (name, after) := s.step.span isNameCharacter
  if name.isEmpty || !endsWord after.current then
    expected directiveContext "alphabetic or numeric character" start after
  else
    let (d, stop, s) ←
      if name == "YAML" then do
        let (d, s) ← scanVersion start after
        pure (d, s.mark, s)
      else if name == "TAG" then do
        let (d, s) ← scanTagDirective start after
        pure (d, s.mark, s)
      else pure (Directive.other name, after.mark, after.skip fun c => !endsLine c)
    let s := s.skipSpaces.skipComment
    if endsLine s.current then return (⟨.directive d, start, stop⟩, s.lineBreak.2)
    else expected directiveContext "a comment or a line break" start s

end ConfigLoader.Yaml
