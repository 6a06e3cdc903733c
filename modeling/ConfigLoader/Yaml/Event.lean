import ConfigLoader.Yaml.Token.Stream

/-! # Events

The token stream as nested nodes: each scalar is an event, and each collection has one at its start
and one at its end. A parser is in one state, and the states it returns to stand on a stack.
-/
namespace ConfigLoader.Yaml

structure Properties where
  anchor : Option Text
  tag : Option Text
  deriving DecidableEq, Repr

inductive Event.Kind
  | streamStart
  | streamEnd
  | documentStart
  | documentEnd
  | alias (name : Text)
  /-- The mark `plain` tells that the type of a scalar without a tag is found from its text. -/
  | scalar (properties : Properties) (plain : Bool) (text : Text)
  | sequenceStart (properties : Properties)
  | sequenceEnd
  | mappingStart (properties : Properties)
  | mappingEnd
  deriving DecidableEq, Repr

structure Event where
  kind : Event.Kind
  start : Mark
  stop : Mark
  deriving DecidableEq, Repr

inductive ParserState
  | streamStart
  | implicitDocumentStart
  | documentStart
  | documentEnd
  | documentContent
  | blockNode
  | blockSequenceFirst
  | blockSequenceEntry
  | indentlessEntry
  | blockMappingFirst
  | blockMappingKey
  | blockMappingValue
  | flowSequenceFirst
  | flowSequenceEntry
  | flowPairKey
  | flowPairValue
  | flowPairEnd
  | flowMappingFirst
  | flowMappingKey
  | flowMappingValue
  | flowMappingEmptyValue
  deriving DecidableEq, Repr

structure Parser where
  tokens : List Token
  state : Option ParserState
  states : List ParserState
  /-- Where the open collections began. -/
  marks : List Mark
  handles : List (Text × Text)

/-- Why no event follows: the tokens ended, or they do not fit. -/
inductive Stop
  | noToken
  | error (e : Error)

namespace Parser

def defaultHandles : List (Text × Text) := [("!", "!"), ("!!", "tag:yaml.org,2002:")]

def ofTokens (ts : List Token) : Parser := ⟨ts, some .streamStart, [], [], []⟩

def peek (p : Parser) : Except Stop Token :=
  match p.tokens with
  | t :: _ => .ok t
  | [] => .error .noToken

def drop (p : Parser) : Parser := { p with tokens := p.tokens.drop 1 }

def goto (p : Parser) (s : ParserState) : Parser := { p with state := some s }

def push (p : Parser) (s : ParserState) : Parser := { p with states := s :: p.states }

/-- Goes on in the state on top of the stack. -/
def pop (p : Parser) : Parser := { p with state := p.states.head?, states := p.states.drop 1 }

def dropMark (p : Parser) : Parser := { p with marks := p.marks.drop 1 }

def fail {α : Type} (context : Option (Text × Mark)) (problem : Text) (mark : Mark) :
    Except Stop α :=
  .error (.error (.marked .parser (context.map fun c => (c.1, some c.2)) problem mark))

abbrev Step := Except Stop (Event × Parser)

def isDirective : Token.Kind → Bool
  | .directive _ => true
  | _ => false

def emptyScalar (p : Parser) (m : Mark) : Step := .ok (⟨.scalar ⟨none, none⟩ true [], m, m⟩, p)

def directives : Nat → Bool → List (Text × Text) → Parser →
    Except Stop (List (Text × Text) × Parser)
  | 0, _, hs, p => .ok (hs, p)
  | fuel + 1, versioned, hs, p => do
    let t ← p.peek
    match t.kind with
    | .directive (.version major _) =>
      if versioned then fail none "found duplicate YAML directive" t.start
      else if major ≠ 1 then
        fail none "found incompatible YAML document (version 1.* is required)" t.start
      else directives fuel true hs p.drop
    | .directive (.tag handle leading) =>
      if hs.any fun h => h.1 == handle then
        fail none ("duplicate tag handle " ++ handle.literal) t.start
      else directives fuel versioned (hs ++ [(handle, leading)]) p.drop
    | .directive (.other _) => directives fuel versioned hs p.drop
    | _ => .ok (hs, p)

def isDocumentEnd (t : Token) : Bool := t.kind = .documentEnd

def documentStart (p : Parser) : Step := do
  let p := { p with tokens := p.tokens.dropWhile isDocumentEnd }
  let first ← p.peek
  if first.kind = .streamEnd then
    return (⟨.streamEnd, first.start, first.stop⟩, { p.drop with state := none })
  else
    let (hs, p) ← directives (p.tokens.length + 1) false [] p
    let t ← p.peek
    if t.kind = .documentStart then
      let known := hs ++ defaultHandles.filter fun h => !hs.any fun g => g.1 == h.1
      return (⟨.documentStart, first.start, t.stop⟩,
        (({ p.drop with handles := known }).push .documentEnd).goto .documentContent)
    else
      fail none ("expected '<document start>', but found " ++ Text.literal t.kind.name) t.start

def implicitDocumentStart (p : Parser) : Step := do
  let t ← p.peek
  if isDirective t.kind || t.kind = .documentStart || t.kind = .streamEnd then p.documentStart
  else return (⟨.documentStart, t.start, t.start⟩,
    (({ p with handles := defaultHandles }).push .documentEnd).goto .blockNode)

def documentEnd (p : Parser) : Step := do
  let t ← p.peek
  if t.kind = .documentEnd then
    return (⟨.documentEnd, t.start, t.stop⟩, p.drop.goto .documentStart)
  else return (⟨.documentEnd, t.start, t.start⟩, p.goto .documentStart)

structure NodeHead where
  properties : Properties
  handle : Option Text
  start : Option Mark
  stop : Option Mark
  tagMark : Option Mark

def NodeHead.addAnchor (h : NodeHead) (name : Text) (t : Token) : NodeHead :=
  { h with properties.anchor := some name, start := h.start.or t.start, stop := t.stop }

def NodeHead.addTag (h : NodeHead) (handle : Option Text) (suffix : Text) (t : Token) : NodeHead :=
  { h with
    properties.tag := some suffix
    handle := handle
    start := h.start.or t.start
    stop := t.stop
    tagMark := t.start }

/-- An anchor and a tag, in either order, each at most once. -/
def nodeHead (p : Parser) : Except Stop (NodeHead × Parser) := do
  let h : NodeHead := ⟨⟨none, none⟩, none, none, none, none⟩
  let t ← p.peek
  match t.kind with
  | .anchor name =>
    let h := h.addAnchor name t
    let p := p.drop
    let u ← p.peek
    match u.kind with
    | .tag handle suffix => return (h.addTag handle suffix u, p.drop)
    | _ => return (h, p)
  | .tag handle suffix =>
    let h := h.addTag handle suffix t
    let p := p.drop
    let u ← p.peek
    match u.kind with
    | .anchor name => return (h.addAnchor name u, p.drop)
    | _ => return (h, p)
  | _ => return (h, p)

def resolveHandle (p : Parser) (h : NodeHead) : Except Stop Properties :=
  match h.properties.tag, h.handle with
  | some suffix, some handle =>
    match p.handles.find? fun g => g.1 == handle with
    | some (_, full) => .ok { h.properties with tag := some (full ++ suffix) }
    | none =>
      fail (h.start.map fun m => ("while parsing a node", m))
        ("found undefined tag handle " ++ handle.literal) (h.tagMark.getD default)
  | _, _ => .ok h.properties

def node (block indentless : Bool) (p : Parser) : Step := do
  let first ← p.peek
  match first.kind with
  | .alias name => return (⟨.alias name, first.start, first.stop⟩, p.drop.pop)
  | _ =>
    let (h, p) ← p.nodeHead
    let props ← p.resolveHandle h
    let t ← p.peek
    let start := h.start.getD t.start
    let collection (k : Properties → Event.Kind) (stop : Mark) (s : ParserState) : Step :=
      .ok (⟨k props, start, stop⟩, p.goto s)
    match t.kind with
    | .blockEntry =>
      if indentless then return (⟨.sequenceStart props, start, t.stop⟩, p.goto .indentlessEntry)
      else missing props h t start p
    | .scalar text plain =>
      let found := (plain && props.tag.isNone) || props.tag = some ("!" : Text)
      return (⟨.scalar props found text, start, t.stop⟩, p.drop.pop)
    | .flowSequenceStart => collection .sequenceStart t.stop .flowSequenceFirst
    | .flowMappingStart => collection .mappingStart t.stop .flowMappingFirst
    | .blockSequenceStart =>
      if block then collection .sequenceStart t.start .blockSequenceFirst
      else missing props h t start p
    | .blockMappingStart =>
      if block then collection .mappingStart t.start .blockMappingFirst
      else missing props h t start p
    | _ => missing props h t start p
where
  /-- A node without content is an empty scalar if it has properties. -/
  missing (props : Properties) (h : NodeHead) (t : Token) (start : Mark) (p : Parser) : Step :=
    if props.anchor.isSome || props.tag.isSome then
      let found := props.tag.isNone || props.tag = some ("!" : Text)
      .ok (⟨.scalar props found [], start, h.stop.getD start⟩, p.pop)
    else
      let noun : Text := if block then "block" else "flow"
      fail (some ("while parsing a " ++ noun ++ " node", start))
        ("expected the node content, but found " ++ Text.literal t.kind.name) t.start

/-- A node after an indicator, or an empty scalar where one of some tokens follows at once. -/
def nodeUnless (p : Parser) (ends : List Token.Kind) (after : Mark) (next : ParserState)
    (block indentless : Bool) : Step := do
  let t ← p.peek
  if ends.contains t.kind then (p.goto next).emptyScalar after
  else (p.push next).node block indentless

/-- Ends the open collection with the next token. -/
def close (p : Parser) (k : Event.Kind) : Step := do
  let t ← p.peek
  return (⟨k, t.start, t.stop⟩, p.drop.pop.dropMark)

def openMark (p : Parser) : Mark := p.marks.headD default

/-- Notes where a collection begins and moves over its start. -/
def enter (p : Parser) : Except Stop Parser := do
  let t ← p.peek
  return { p.drop with marks := t.start :: p.marks }

def blockSequenceEntry (p : Parser) : Step := do
  let t ← p.peek
  match t.kind with
  | .blockEntry => p.drop.nodeUnless [.blockEntry, .blockEnd] t.stop .blockSequenceEntry true false
  | .blockEnd => p.close .sequenceEnd
  | k =>
    fail (some ("while parsing a block collection", p.openMark))
      ("expected <block end>, but found " ++ Text.literal k.name) t.start

def indentlessEntry (p : Parser) : Step := do
  let t ← p.peek
  match t.kind with
  | .blockEntry =>
    p.drop.nodeUnless [.blockEntry, .key, .value, .blockEnd] t.stop .indentlessEntry true false
  | _ => return (⟨.sequenceEnd, t.start, t.start⟩, p.pop)

def blockMappingKey (p : Parser) : Step := do
  let t ← p.peek
  match t.kind with
  | .key => p.drop.nodeUnless [.key, .value, .blockEnd] t.stop .blockMappingValue true true
  | .blockEnd => p.close .mappingEnd
  | k =>
    fail (some ("while parsing a block mapping", p.openMark))
      ("expected <block end>, but found " ++ Text.literal k.name) t.start

def blockMappingValue (p : Parser) : Step := do
  let t ← p.peek
  match t.kind with
  | .value => p.drop.nodeUnless [.key, .value, .blockEnd] t.stop .blockMappingKey true true
  | _ => (p.goto .blockMappingKey).emptyScalar t.start

/-- Moves over the comma before every entry but the first. -/
def comma (p : Parser) (first : Bool) (context closing : Text) : Except Stop Parser := do
  let t ← p.peek
  if first then return p
  else if t.kind = .flowEntry then return p.drop
  else
    fail (some (context, p.openMark))
      ("expected ',' or '" ++ closing ++ "', but got " ++ Text.literal t.kind.name) t.start

def flowSequenceEntry (first : Bool) (p : Parser) : Step := do
  let t ← p.peek
  if t.kind = .flowSequenceEnd then p.close .sequenceEnd
  else
    let p ← p.comma first "while parsing a flow sequence" "]"
    let t ← p.peek
    match t.kind with
    | .key => return (⟨.mappingStart ⟨none, none⟩, t.start, t.stop⟩, p.goto .flowPairKey)
    | .flowSequenceEnd => p.close .sequenceEnd
    | _ => (p.push .flowSequenceEntry).node false false

def flowPairKey (p : Parser) : Step := do
  let t ← p.peek
  p.drop.nodeUnless [.value, .flowEntry, .flowSequenceEnd] t.stop .flowPairValue false false

def flowPairValue (p : Parser) : Step := do
  let t ← p.peek
  match t.kind with
  | .value => p.drop.nodeUnless [.flowEntry, .flowSequenceEnd] t.stop .flowPairEnd false false
  | _ => (p.goto .flowPairEnd).emptyScalar t.start

def flowPairEnd (p : Parser) : Step := do
  let t ← p.peek
  return (⟨.mappingEnd, t.start, t.start⟩, p.goto .flowSequenceEntry)

def flowMappingKey (first : Bool) (p : Parser) : Step := do
  let t ← p.peek
  if t.kind = .flowMappingEnd then p.close .mappingEnd
  else
    let p ← p.comma first "while parsing a flow mapping" "\x7d"
    let t ← p.peek
    match t.kind with
    | .key =>
      p.drop.nodeUnless [.value, .flowEntry, .flowMappingEnd] t.stop .flowMappingValue false false
    | .flowMappingEnd => p.close .mappingEnd
    | _ => (p.push .flowMappingEmptyValue).node false false

def flowMappingValue (p : Parser) : Step := do
  let t ← p.peek
  match t.kind with
  | .value => p.drop.nodeUnless [.flowEntry, .flowMappingEnd] t.stop .flowMappingKey false false
  | _ => (p.goto .flowMappingKey).emptyScalar t.start

def flowMappingEmptyValue (p : Parser) : Step := do
  let t ← p.peek
  (p.goto .flowMappingKey).emptyScalar t.start

def step (p : Parser) : ParserState → Step
  | .streamStart => do
    let t ← p.peek
    return (⟨.streamStart, t.start, t.stop⟩, p.drop.goto .implicitDocumentStart)
  | .implicitDocumentStart => p.implicitDocumentStart
  | .documentStart => p.documentStart
  | .documentEnd => p.documentEnd
  | .documentContent => do
    let t ← p.peek
    if isDirective t.kind || [.documentStart, .documentEnd, .streamEnd].contains t.kind then
      p.pop.emptyScalar t.start
    else p.node true false
  | .blockNode => p.node true false
  | .blockSequenceFirst => do (← p.enter).blockSequenceEntry
  | .blockSequenceEntry => p.blockSequenceEntry
  | .indentlessEntry => p.indentlessEntry
  | .blockMappingFirst => do (← p.enter).blockMappingKey
  | .blockMappingKey => p.blockMappingKey
  | .blockMappingValue => p.blockMappingValue
  | .flowSequenceFirst => do flowSequenceEntry true (← p.enter)
  | .flowSequenceEntry => p.flowSequenceEntry false
  | .flowPairKey => p.flowPairKey
  | .flowPairValue => p.flowPairValue
  | .flowPairEnd => p.flowPairEnd
  | .flowMappingFirst => do flowMappingKey true (← p.enter)
  | .flowMappingKey => p.flowMappingKey false
  | .flowMappingValue => p.flowMappingValue
  | .flowMappingEmptyValue => p.flowMappingEmptyValue

/-- The events up to the end of the stream or to a stop, at most `fuel` of them. -/
def run : Nat → Parser → List Event × Option Stop
  | 0, _ => ([], none)
  | fuel + 1, p =>
    match p.state with
    | none => ([], none)
    | some s =>
      match p.step s with
      | .error e => ([], some e)
      | .ok (e, p) =>
        let (es, stop) := run fuel p
        (e :: es, stop)

end Parser

/-- The events of a document up to its end or its first fault. -/
def Event.stream (t : Text) : List Event × Option Error :=
  let (ts, scanError) := Token.stream t
  let (es, stop) := (Parser.ofTokens ts).run (4 * ts.length + 8)
  (es, match stop with
    | none => none
    | some .noToken => scanError
    | some (.error e) => some e)

end ConfigLoader.Yaml
