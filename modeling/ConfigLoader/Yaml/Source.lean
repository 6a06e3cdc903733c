import ConfigLoader.Yaml.Mark

/-! # Source

What is left of a document, with the mark of its first code point. Past the end stands the null
character, which no document may hold.
-/
namespace ConfigLoader.Yaml

structure Source where
  rest : Text
  mark : Mark
  deriving Inhabited

def endsLine (c : CodePoint) : Bool := c.val = 0 || isBreak c

def endsWord (c : CodePoint) : Bool := endsLine c || c.val = 32

/-- End of the document or of a line, a space or a tab. -/
def endsToken (c : CodePoint) : Bool := endsWord c || c.val = 9

def isNameCharacter (c : CodePoint) : Bool := c.isDigit || c.isLetter || c = '-' || c = '_'

def oneOf (s : String) (c : CodePoint) : Bool := (Text.ofString s).contains c

namespace Source

def ofText (t : Text) : Source := ⟨t, ⟨0, 0, 0⟩⟩

def peek (s : Source) (n : Nat) : CodePoint := (s.rest[n]?).getD 0

def current (s : Source) : CodePoint := s.rest.headD 0

/-- Moves over one code point: a break starts a line, and a byte order mark takes no column. -/
def step (s : Source) : Source :=
  match s.rest with
  | [] => s
  | c :: r =>
    let m := s.mark
    let broken := isBreak c && !(c.val = 13 && r.head? = some 10)
    ⟨r, if broken then ⟨m.index + 1, m.line + 1, 0⟩
      else ⟨m.index + 1, m.line, if c.val = 0xFEFF then m.column else m.column + 1⟩⟩

def advance (s : Source) : Nat → Source
  | 0 => s
  | n + 1 => s.step.advance n

/-- The code points up to the first that fails the test, and the source after them. -/
def span (s : Source) (f : CodePoint → Bool) : Text × Source :=
  let t := s.rest.takeWhile f
  (t, s.advance t.length)

def skip (s : Source) (f : CodePoint → Bool) : Source := (s.span f).2

def skipSpaces (s : Source) : Source := s.skip fun c => c.val = 32

def skipIndent (s : Source) (column : Nat) : Source :=
  let n := (s.rest.takeWhile fun c => c.val = 32).length
  s.advance (min n (column - s.mark.column))

def skipComment (s : Source) : Source :=
  if s.current = '#' then s.skip fun c => !endsLine c else s

def lineBreak (s : Source) : Text × Source :=
  let c := s.current
  if c.val = 13 && s.peek 1 = 10 then ([10], s.advance 2)
  else if c.val = 13 || c.val = 10 || c.val = 0x85 then ([10], s.step)
  else if c.val = 0x2028 || c.val = 0x2029 then ([c], s.step)
  else ([], s)

/-- Whether a marker of three equal characters stands here, followed by a blank. -/
def atMarker (s : Source) (c : CodePoint) : Bool :=
  s.rest.take 3 == [c, c, c] && endsToken (s.peek 3)

/-- Whether the start or the end of a document is marked here. -/
def atDocumentMarker (s : Source) : Bool := s.atMarker '-' || s.atMarker '.'

def size (s : Source) : Nat := s.rest.length

end Source

def expected (context what : Text) (start : Mark) (s : Source) {α : Type} : Except Error α :=
  .error (.scanner context ("expected " ++ what ++ ", but found " ++ Text.literal [s.current]) start
    s.mark)

end ConfigLoader.Yaml
