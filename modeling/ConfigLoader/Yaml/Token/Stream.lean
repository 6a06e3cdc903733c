import ConfigLoader.Yaml.Token.Scalar
import ConfigLoader.Yaml.Token.Tag

/-! # The token stream

A scanner adds tokens to the end of a queue and gives them out from its front. A token that may yet
turn out to be a key waits, because a key mark is then put before it. The stream is the list of the
tokens given out, with the fault that ended it, if one did.
-/
namespace ConfigLoader.Yaml

/-- A token that may turn out to be a key without an indicator. -/
structure KeyCandidate where
  number : Nat
  required : Bool
  mark : Mark

structure Scanner where
  source : Source
  /-- How many flow collections are open. -/
  flow : Nat
  queue : List Token
  /-- How many tokens were given out. -/
  taken : Nat
  indent : Int
  indents : List Int
  /-- Whether a key without an indicator may start here. -/
  allowKey : Bool
  /-- Candidates by the number of open flow collections. -/
  candidates : List (Nat × KeyCandidate)
  done : Bool

namespace Scanner

def ofText (t : Text) : Scanner :=
  let s := Source.ofText t
  ⟨s, 0, [⟨.streamStart, s.mark, s.mark⟩], 0, -1, [], true, [], false⟩

def mark (s : Scanner) : Mark := s.source.mark

def fail {α : Type} (s : Scanner) (problem : Text) : Except Error α :=
  .error (.marked .scanner none problem s.mark)

def push (s : Scanner) (t : Token) : Scanner := { s with queue := s.queue ++ [t] }

/-- Adds a token without extent. -/
def pushHere (s : Scanner) (k : Token.Kind) : Scanner := s.push ⟨k, s.mark, s.mark⟩

/-- Adds a token for the next `n` code points and moves over them. -/
def pushOver (s : Scanner) (k : Token.Kind) (n : Nat) : Scanner :=
  let after := s.source.advance n
  { s.push ⟨k, s.mark, after.mark⟩ with source := after }

def insert (s : Scanner) (i : Nat) (t : Token) : Scanner :=
  { s with queue := s.queue.take i ++ t :: s.queue.drop i }

def candidate? (s : Scanner) : Option KeyCandidate :=
  (s.candidates.find? fun c => c.1 = s.flow).map Prod.snd

def missingColon {α : Type} (s : Scanner) (c : KeyCandidate) : Except Error α :=
  .error (.scanner "while scanning a simple key" "could not find expected ':'" c.mark s.mark)

/-- Whether a candidate lies on an earlier line or too far back. -/
def isStale (s : Scanner) (c : KeyCandidate) : Bool :=
  c.mark.line ≠ s.mark.line || c.mark.index + 1024 < s.mark.index

def dropStale (s : Scanner) : Except Error Scanner :=
  match s.candidates.find? fun c => s.isStale c.2 && c.2.required with
  | some c => s.missingColon c.2
  | none => .ok { s with candidates := s.candidates.filter fun c => !s.isStale c.2 }

def dropCandidate (s : Scanner) : Except Error Scanner :=
  match s.candidate? with
  | some c =>
    if c.required then s.missingColon c
    else .ok { s with candidates := s.candidates.filter fun c => c.1 ≠ s.flow }
  | none => .ok s

def saveCandidate (s : Scanner) : Except Error Scanner :=
  if s.allowKey then do
    let required := s.flow = 0 && s.indent = s.mark.column
    let c : KeyCandidate := ⟨s.taken + s.queue.length, required, s.mark⟩
    let s ← s.dropCandidate
    return { s with candidates := s.candidates ++ [(s.flow, c)] }
  else .ok s

def allow (s : Scanner) (b : Bool) : Scanner := { s with allowKey := b }

/-- Closes the block collections that are indented deeper than a column. -/
def unwindFrom (column : Int) : List Int → Scanner → Scanner
  | [], s => s
  | i :: is, s =>
    if column < s.indent then
      unwindFrom column is { s.pushHere .blockEnd with indent := i, indents := is }
    else s

def unwind (s : Scanner) (column : Int) : Scanner :=
  if s.flow = 0 then unwindFrom column s.indents s else s

/-- Opens a block collection at a column deeper than the last. -/
def addIndent (s : Scanner) (column : Nat) : Option Scanner :=
  if s.indent < column then some { s with indents := s.indent :: s.indents, indent := column }
  else none

/-- Opens a block collection here where the column is deeper than the last. -/
def openBlock (s : Scanner) (k : Token.Kind) : Scanner :=
  match s.addIndent s.mark.column with
  | some s => s.pushHere k
  | none => s

def fetchStreamEnd (s : Scanner) : Except Error Scanner := do
  let s ← (s.unwind (-1)).dropCandidate
  return { (s.allow false).pushHere .streamEnd with candidates := [], done := true }

def fetchDirective (s : Scanner) : Except Error Scanner := do
  let s ← (s.unwind (-1)).dropCandidate
  let (t, after) ← scanDirective s.source
  return { (s.allow false).push t with source := after }

def fetchDocumentMark (s : Scanner) (k : Token.Kind) : Except Error Scanner := do
  let s ← (s.unwind (-1)).dropCandidate
  return (s.allow false).pushOver k 3

def fetchFlowStart (s : Scanner) (k : Token.Kind) : Except Error Scanner := do
  let s ← s.saveCandidate
  return ({ s with flow := s.flow + 1 }.allow true).pushOver k 1

def fetchFlowEnd (s : Scanner) (k : Token.Kind) : Except Error Scanner := do
  let s ← s.dropCandidate
  return ({ s with flow := s.flow - 1 }.allow false).pushOver k 1

def fetchFlowEntry (s : Scanner) : Except Error Scanner := do
  let s ← (s.allow true).dropCandidate
  return s.pushOver .flowEntry 1

def fetchBlockEntry (s : Scanner) : Except Error Scanner :=
  if s.flow = 0 && !s.allowKey then s.fail "sequence entries are not allowed here"
  else do
    let s := if s.flow = 0 then s.openBlock .blockSequenceStart else s
    let s ← (s.allow true).dropCandidate
    return s.pushOver .blockEntry 1

def fetchKey (s : Scanner) : Except Error Scanner :=
  if s.flow = 0 && !s.allowKey then s.fail "mapping keys are not allowed here"
  else do
    let s := if s.flow = 0 then s.openBlock .blockMappingStart else s
    let s ← (s.allow (s.flow = 0)).dropCandidate
    return s.pushOver .key 1

/-- Marks a candidate as a key, and opens a block mapping before it where it starts one. -/
def markKey (s : Scanner) (c : KeyCandidate) : Scanner :=
  let s := { s with candidates := s.candidates.filter fun c => c.1 ≠ s.flow }
  let i := c.number - s.taken
  let s := s.insert i ⟨.key, c.mark, c.mark⟩
  let s := if s.flow = 0 then
      match s.addIndent c.mark.column with
      | some s => s.insert i ⟨.blockMappingStart, c.mark, c.mark⟩
      | none => s
    else s
  s.allow false

def fetchValue (s : Scanner) : Except Error Scanner :=
  match s.candidate? with
  | some c => .ok ((s.markKey c).pushOver .value 1)
  | none =>
    if s.flow = 0 && !s.allowKey then s.fail "mapping values are not allowed here"
    else do
      let s := if s.flow = 0 then s.openBlock .blockMappingStart else s
      let s ← (s.allow (s.flow = 0)).dropCandidate
      return s.pushOver .value 1

/-- Adds a token that a function scans here; it may turn out to be a key. -/
def fetchPiece (s : Scanner) (scan : Source → Except Error (Token.Kind × Source)) :
    Except Error Scanner := do
  let s ← s.saveCandidate
  let (k, after) ← scan s.source
  return { (s.allow false).push ⟨k, s.mark, after.mark⟩ with source := after }

def fetchQuoted (s : Scanner) : Except Error Scanner := do
  let s ← s.saveCandidate
  let (t, after) ← scanQuoted s.source
  return { (s.allow false).push t with source := after }

def fetchBlockScalar (s : Scanner) : Except Error Scanner := do
  let s ← (s.allow true).dropCandidate
  let (t, after) ← scanBlockScalar s.indent s.source
  return { s.push t with source := after }

def fetchPlain (s : Scanner) : Except Error Scanner := do
  let s ← s.saveCandidate
  let (t, ended, after) := scanPlain (s.flow ≠ 0) s.indent s.source
  return { (s.allow ended).push t with source := after }

def skipToToken : Nat → Scanner → Scanner
  | 0, s => s
  | fuel + 1, s =>
    let source := s.source.skipSpaces.skipComment
    if isBreak source.current then
      let s := { s with source := source.lineBreak.2 }
      skipToToken fuel (if s.flow = 0 then s.allow true else s)
    else { s with source := source }

def startsPlain (s : Scanner) : Bool :=
  let c := s.source.current
  let spaced := endsToken (s.source.peek 1)
  !(endsToken c || oneOf "-?:,[]\x7b\x7d#&*!|>'\"%@`" c) ||
    (!spaced && (c = '-' || (s.flow = 0 && oneOf "?:" c)))

def fetchNext (s : Scanner) : Except Error Scanner :=
  let c := s.source.current
  let start := s.mark.column = 0
  let spaced := endsToken (s.source.peek 1)
  if s.source.rest.isEmpty then s.fetchStreamEnd
  else if c = '%' && start then s.fetchDirective
  else if start && s.source.atMarker '-' then s.fetchDocumentMark .documentStart
  else if start && s.source.atMarker '.' then s.fetchDocumentMark .documentEnd
  else if c = '[' then s.fetchFlowStart .flowSequenceStart
  else if c = '\x7b' then s.fetchFlowStart .flowMappingStart
  else if c = ']' then s.fetchFlowEnd .flowSequenceEnd
  else if c = '\x7d' then s.fetchFlowEnd .flowMappingEnd
  else if c = ',' then s.fetchFlowEntry
  else if c = '-' && spaced then s.fetchBlockEntry
  else if c = '?' && (s.flow ≠ 0 || spaced) then s.fetchKey
  else if c = ':' && (s.flow ≠ 0 || spaced) then s.fetchValue
  else if c = '*' || c = '&' then s.fetchPiece scanName
  else if c = '!' then s.fetchPiece scanTag
  else if (c = '|' || c = '>') && s.flow = 0 then s.fetchBlockScalar
  else if c = '\'' || c = '"' then s.fetchQuoted
  else if s.startsPlain then s.fetchPlain
  else .error (.scannerWithin "while scanning for the next token"
    ("found character " ++ Text.literal [c] ++ " that cannot start any token") s.mark)

/-- Adds at least one token to the queue. -/
def fetch (s : Scanner) : Except Error Scanner := do
  let source := if s.mark.index = 0 && s.source.current = 0xFEFF then s.source.step else s.source
  let s := skipToToken (source.size + 1) { s with source := source }
  let s ← s.dropStale
  (s.unwind s.mark.column).fetchNext

/-- The number of the first token that may yet turn out to be a key. -/
def firstCandidate? (s : Scanner) : Option Nat := (s.candidates.map fun c => c.2.number).min?

/-- Gives out tokens as soon as they are settled, in at most `fuel` steps. -/
def run : Nat → Scanner → List Token × Option Error
  | 0, _ => ([], none)
  | fuel + 1, s =>
    match s.queue with
    | [] =>
      if s.done then ([], none)
      else match s.fetch with
        | .error e => ([], some e)
        | .ok s => run fuel s
    | t :: ts =>
      if s.done then
        let (rest, e) := run fuel { s with queue := ts, taken := s.taken + 1 }
        (t :: rest, e)
      else match s.dropStale with
        | .error e => ([], some e)
        | .ok s =>
          if s.firstCandidate? = some s.taken then
            match s.fetch with
            | .error e => ([], some e)
            | .ok s => run fuel s
          else
            let (rest, e) := run fuel { s with queue := ts, taken := s.taken + 1 }
            (t :: rest, e)

end Scanner

/-- The first code point that no document may hold, with its index. -/
def unreadable? (t : Text) : Option (CodePoint × Nat) :=
  let readable (c : CodePoint) : Bool :=
    c.val = 9 || c.val = 10 || c.val = 13 || (32 ≤ c.val && c.val ≤ 126) || c.val = 0x85 ||
      (0xA0 ≤ c.val && c.val ≤ 0xD7FF) || (0xE000 ≤ c.val && c.val ≤ 0xFFFD) || 0x10000 ≤ c.val
  let before := (t.takeWhile readable).length
  (t[before]?).map fun c => (c, before)

/-- The tokens of a document up to its end or its first fault. -/
def Token.stream (t : Text) : List Token × Option Error :=
  match unreadable? t with
  | some (c, i) => ([], some (.unreadable c i))
  | none => (Scanner.ofText t).run (8 * t.length + 16)

end ConfigLoader.Yaml
