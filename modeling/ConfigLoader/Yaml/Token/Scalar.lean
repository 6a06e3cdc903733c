import ConfigLoader.Yaml.Source
import ConfigLoader.Yaml.Token

/-! # Scalars

Texts are gathered in reverse. A line break between words becomes a space, and further breaks stay.
-/
namespace ConfigLoader.Yaml

/-- What a break and the breaks after it become in a folded text. -/
def folded (first : Text) (more : List Text) : Text :=
  if first != [10] then first ++ more.flatten
  else if more.isEmpty then [32]
  else more.flatten

def blockContext : Text := "while scanning a block scalar"

/-- How a block scalar ends: the last break is dropped, kept, or kept with those after it. -/
inductive Chomp
  | strip
  | clip
  | keep
  deriving DecidableEq, Repr

def chomp? (c : CodePoint) : Option Chomp :=
  if c = '+' then some .keep else if c = '-' then some .strip else none

def indentDigit (start : Mark) (s : Source) : Except Error (Option Nat × Source) :=
  match s.current.digit? 10 with
  | none => .ok (none, s)
  | some 0 => .error (.scanner blockContext
      "expected indentation indicator in the range 1-9, but found 0" start s.mark)
  | some n => .ok (some n, s.step)

/-- The indicators after `|` or `>`: an ending and an indentation in either order. -/
def blockIndicators (start : Mark) (s : Source) : Except Error (Chomp × Option Nat × Source) := do
  let (chomp, indent, s) ← match chomp? s.current with
    | some c => do
      let (n, s) ← indentDigit start s.step
      pure (c, n, s)
    | none => do
      let (n, rest) ← indentDigit start s
      match n, chomp? rest.current with
      | some _, some c => pure (c, n, rest.step)
      | _, _ => pure (Chomp.clip, n, rest)
  if endsWord s.current then return (chomp, indent, s)
  else expected blockContext "chomping or indentation indicators" start s

/-- The blank lines before a block scalar without an indentation of its own: its breaks, the
greatest column reached, and the end of the last break. -/
def blockIndentation : Nat → Nat → Mark → Source → List Text × Nat × Mark × Source
  | 0, most, stop, s => ([], most, stop, s)
  | fuel + 1, most, stop, s =>
    let s := s.skipSpaces
    let most := max most s.mark.column
    if isBreak s.current then
      let (b, s) := s.lineBreak
      let (bs, most, stop, s) := blockIndentation fuel most s.mark s
      (b :: bs, most, stop, s)
    else ([], most, stop, s)

/-- Blank lines of a block scalar that is indented by `indent`, and the end of the last one. -/
def blockBreaks (indent : Nat) : Nat → Mark → Source → List Text × Mark × Source
  | 0, stop, s => ([], stop, s)
  | fuel + 1, stop, s =>
    let s := s.skipIndent indent
    if isBreak s.current then
      let (b, s) := s.lineBreak
      let (bs, stop, s) := blockBreaks indent fuel s.mark s
      (b :: bs, stop, s)
    else ([], stop, s)

/-- The lines of a block scalar: its text in reverse, the last break, the breaks after it, and the
end. -/
def blockLines (fold : Bool) (indent : Nat) :
    Nat → Text → Text → List Text → Mark → Source → Text × Text × List Text × Mark × Source
  | 0, acc, last, breaks, stop, s => (acc, last, breaks, stop, s)
  | fuel + 1, acc, last, breaks, stop, s =>
    if s.mark.column = indent && !s.rest.isEmpty then
      let leading := oneOf " \t" s.current
      let (line, s) := s.span fun c => !endsLine c
      let acc := line.reverse ++ breaks.flatten.reverse ++ acc
      let (last, s) := s.lineBreak
      let (breaks, stop, s) := blockBreaks indent s.size s.mark s
      if s.mark.column = indent && !s.rest.isEmpty then
        let joint : Text :=
          if fold && last == [10] && !leading && !oneOf " \t" s.current then
            if breaks.isEmpty then [32] else []
          else last
        blockLines fold indent fuel (joint.reverse ++ acc) last breaks stop s
      else (acc, last, breaks, stop, s)
    else (acc, last, breaks, stop, s)

def scanBlockScalar (parent : Int) (s : Source) : Except Error (Token × Source) := do
  let start := s.mark
  let fold := s.current = '>'
  let (chomp, given, s) ← blockIndicators start s.step
  let s := s.skipSpaces.skipComment
  if !endsLine s.current then expected blockContext "a comment or a line break" start s
  else
    let s := s.lineBreak.2
    let least := (max (parent + 1) 1).toNat
    let (indent, breaks, stop, s) := match given with
      | none =>
        let (bs, most, stop, s) := blockIndentation (s.size + 1) 0 s.mark s
        (max least most, bs, stop, s)
      | some n =>
        let indent := least + n - 1
        let (bs, stop, s) := blockBreaks indent (s.size + 1) s.mark s
        (indent, bs, stop, s)
    let (acc, last, breaks, stop, s) := blockLines fold indent (s.size + 1) [] [] breaks stop s
    let tail : Text := match chomp with
      | .strip => []
      | .clip => last
      | .keep => last ++ breaks.flatten
    return (⟨.scalar (acc.reverse ++ tail) false, start, stop⟩, s)

/-- What a character stands for after a backslash. -/
def escapes : List (CodePoint × CodePoint) := [
  ('0', 0), ('a', 7), ('b', 8), ('t', 9), (9, 9), ('n', 10), ('v', 11), ('f', 12), ('r', 13),
  ('e', 27), (' ', 32), ('"', 34), ('\\', 92), ('/', 47), ('N', 0x85), ('_', 0xA0), ('L', 0x2028),
  ('P', 0x2029)]

/-- The number of digits after a letter that begins a numbered escape. -/
def escapeLength? (c : CodePoint) : Option Nat :=
  if c = 'x' then some 2 else if c = 'u' then some 4 else if c = 'U' then some 8 else none

def numbered (n : Nat) : Except Error CodePoint :=
  if h : n < 0x110000 then .ok ⟨n, h⟩ else .error (.character n)

def quotedBreaks (start : Mark) : Nat → Source → Except Error ((List Text) × Source)
  | 0, s => .ok ([], s)
  | fuel + 1, s =>
    if s.atDocumentMarker then
      .error (.scanner "while scanning a quoted scalar" "found unexpected document separator" start
        s.mark)
    else
      let s := s.skip fun c => c.val = 32 || c.val = 9
      if isBreak s.current then do
        let (b, s) := s.lineBreak
        let (bs, s) ← quotedBreaks start fuel s
        return (b :: bs, s)
      else .ok ([], s)

def scanEscape (start : Mark) (s : Source) : Except Error (Text × Source) :=
  let context : Text := "while scanning a double-quoted scalar"
  let s := s.step
  let c := s.current
  match escapes.find? fun e => e.1 = c, escapeLength? c with
  | some (_, d), _ => .ok ([d], s.step)
  | none, some n =>
    let s := s.step
    let ds := s.rest.take n
    match ds.find? fun d => (d.digit? 16).isNone with
    | none =>
      if ds.length = n then do
        let d ← numbered ((Text.digits? 16 ds).getD 0)
        return ([d], s.advance n)
      else .error (.scanner context ("expected escape sequence of " ++ Text.ofNat n ++
          " hexadecimal numbers, but found " ++ Text.literal [0]) start s.mark)
    | some d =>
      .error (.scanner context ("expected escape sequence of " ++ Text.ofNat n ++
        " hexadecimal numbers, but found " ++ Text.literal [d]) start s.mark)
  | none, none =>
    if isBreak c then do
      let (bs, s) ← quotedBreaks start (s.size + 1) s.lineBreak.2
      return (bs.flatten, s)
    else
      .error (.scanner context ("found unknown escape character " ++ Text.literal [c]) start s.mark)

def quotedFrom (double : Bool) (start : Mark) : Nat → Text → Source → Except Error (Text × Source)
  | 0, acc, s => .ok (acc, s)
  | fuel + 1, acc, s =>
    let quote : CodePoint := if double then '"' else '\''
    let (word, s) := s.span fun c => !(endsToken c || oneOf "'\"\\" c)
    let acc := word.reverse ++ acc
    let c := s.current
    if !double && c = '\'' && s.peek 1 = '\'' then
      quotedFrom double start fuel ('\'' :: acc) (s.advance 2)
    else if (double && c = '\'') || (!double && oneOf "\"\\" c) then
      quotedFrom double start fuel (c :: acc) s.step
    else if double && c = '\\' then do
      let (t, s) ← scanEscape start s
      quotedFrom double start fuel (t.reverse ++ acc) s
    else if c = quote then .ok (acc, s.step)
    else do
      let (spaces, s) := s.span fun c => c.val = 32 || c.val = 9
      if s.rest.isEmpty then
        .error
          (.scanner "while scanning a quoted scalar" "found unexpected end of stream" start s.mark)
      else if isBreak s.current then
        let (first, s) := s.lineBreak
        let (more, s) ← quotedBreaks start (s.size + 1) s
        quotedFrom double start fuel ((folded first more).reverse ++ acc) s
      else quotedFrom double start fuel (spaces.reverse ++ acc) s

def scanQuoted (s : Source) : Except Error (Token × Source) := do
  let double := s.current = '"'
  let (acc, after) ← quotedFrom double s.mark (s.size + 1) [] s.step
  return (⟨.scalar acc.reverse false, s.mark, after.mark⟩, after)

def plainLength (flow : Bool) : Text → Nat
  | [] => 0
  | c :: r =>
    let next := r.headD 0
    if endsToken c || (c = ':' && (endsToken next || (flow && oneOf ",[]\x7b\x7d" next))) ||
        (flow && oneOf ",?[]\x7b\x7d" c) then 0
    else plainLength flow r + 1

/-- Breaks between the words of a plain scalar; nothing when a document marker follows one. -/
def plainBreaks : Nat → Source → Option (List Text) × Source
  | 0, s => (some [], s)
  | fuel + 1, s =>
    if s.atDocumentMarker then (none, s)
    else
      let s := s.skipSpaces
      if isBreak s.current then
        let (b, s) := s.lineBreak
        let (bs, s) := plainBreaks fuel s
        (bs.map (b :: ·), s)
      else (some [], s)

/-- Spaces between the words of a plain scalar: their text, and whether a line was ended. -/
def plainSpaces (s : Source) : Text × Bool × Source :=
  let (spaces, s) := s.span fun c => c.val = 32
  if isBreak s.current then
    let (first, s) := s.lineBreak
    match plainBreaks (s.size + 1) s with
    | (none, s) => ([], true, s)
    | (some more, s) => (folded first more, true, s)
  else (spaces, false, s)

/-- The words of a plain scalar: text in reverse, its end, and whether a line was ended last. -/
def plainFrom (flow : Bool) (indent : Int) :
    Nat → Text → Text → Mark → Bool → Source → Text × Mark × Bool × Source
  | 0, acc, _, stop, ended, s => (acc, stop, ended, s)
  | fuel + 1, acc, spaces, stop, ended, s =>
    let n := if s.current = '#' then 0 else plainLength flow s.rest
    if n = 0 then (acc, stop, ended, s)
    else
      let acc := (s.rest.take n).reverse ++ spaces.reverse ++ acc
      let s := s.advance n
      let stop := s.mark
      let (spaces, ended, s) := plainSpaces s
      if spaces.isEmpty || s.current = '#' || (!flow && (s.mark.column : Int) < indent) then
        (acc, stop, ended, s)
      else plainFrom flow indent fuel acc spaces stop ended s

/-- A plain scalar below the indentation `parent`, and whether a line was ended after it. -/
def scanPlain (flow : Bool) (parent : Int) (s : Source) : Token × Bool × Source :=
  let (acc, stop, ended, after) := plainFrom flow (parent + 1) (s.size + 1) [] [] s.mark false s
  (⟨.scalar acc.reverse true, s.mark, stop⟩, ended, after)

end ConfigLoader.Yaml
