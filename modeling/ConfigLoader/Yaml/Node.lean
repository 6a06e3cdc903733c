import ConfigLoader.Yaml.Event
import ConfigLoader.Yaml.Tag

/-! # Nodes

A document as a graph: nodes stand under numbers, and an alias is the number of the node it names,
so that nodes may be shared and may contain themselves.
-/
namespace ConfigLoader.Yaml

inductive Node.Content
  | scalar (text : Text)
  | sequence (items : List Nat)
  | mapping (entries : List (Nat × Nat))
  deriving Repr

structure Node where
  tag : Text
  content : Node.Content
  start : Mark
  deriving Repr

def Node.kindName (n : Node) : String :=
  match n.content with
  | .scalar _ => "scalar"
  | .sequence _ => "sequence"
  | .mapping _ => "mapping"

abbrev Graph := Array Node

/-- What is left of the events, the nodes so far, and the named ones among them. -/
structure Composer where
  events : List Event
  /-- The fault after the last event. -/
  ending : Error
  nodes : Graph
  anchors : List (Text × Nat)

namespace Composer

def next (c : Composer) : Except Error (Event × Composer) :=
  match c.events with
  | e :: es => .ok (e, { c with events := es })
  | [] => .error c.ending

def peekKind (c : Composer) : Except Error Event.Kind :=
  match c.events with
  | e :: _ => .ok e.kind
  | [] => .error c.ending

/-- Adds a node, under a name if it has one. -/
def add (c : Composer) (anchor : Option Text) (n : Node) : Nat × Composer :=
  let i := c.nodes.size
  (i, { c with
    nodes := c.nodes.push n
    anchors := match anchor with
      | some a => (a, i) :: c.anchors
      | none => c.anchors })

def set (c : Composer) (i : Nat) (content : Node.Content) : Composer :=
  { c with nodes := c.nodes.modify i fun n => { n with content := content } }

/-- Refuses a name that a node has already. -/
def checkAnchor (c : Composer) (anchor : Option Text) (mark : Mark) : Except Error Unit :=
  match anchor with
  | none => .ok ()
  | some a =>
    match c.anchors.find? fun p => p.1 == a with
    | none => .ok ()
    | some (_, i) =>
      .error (.marked .composer
        (some ("found duplicate anchor " ++ a.literal ++ "; first occurrence",
          c.nodes[i]?.map Node.start)) "second occurrence" mark)

def tagOr (p : Properties) (default : Text) : Text :=
  match p.tag with
  | none => default
  | some t => if t == "!" then default else t

mutual

/-- Composes a node, with room for so many levels of collections. -/
def node (levels : Nat) : Nat → Composer → Except Error (Nat × Composer)
  | 0, c => .error c.ending
  | fuel + 1, c => do
    let (e, c) ← c.next
    match e.kind with
    | .alias name =>
      match c.anchors.find? fun p => p.1 == name with
      | some (_, i) => return (i, c)
      | none =>
        .error (.marked .composer none ("found undefined alias " ++ name.literal) e.start)
    | .scalar props plain text =>
      c.checkAnchor props.anchor e.start
      let default := if plain then plainTag text else commonTag "str"
      return c.add props.anchor ⟨tagOr props default, .scalar text, e.start⟩
    | .sequenceStart props =>
      c.checkAnchor props.anchor e.start
      match levels with
      | 0 => .error .tooDeep
      | levels + 1 =>
        let (i, c) := c.add props.anchor ⟨tagOr props (commonTag "seq"), .sequence [], e.start⟩
        let (items, c) ← items levels fuel c
        return (i, c.set i (.sequence items))
    | .mappingStart props =>
      c.checkAnchor props.anchor e.start
      match levels with
      | 0 => .error .tooDeep
      | levels + 1 =>
        let (i, c) := c.add props.anchor ⟨tagOr props (commonTag "map"), .mapping [], e.start⟩
        let (entries, c) ← entries levels fuel c
        return (i, c.set i (.mapping entries))
    | _ => .error c.ending

def items (levels : Nat) : Nat → Composer → Except Error (List Nat × Composer)
  | 0, c => .error c.ending
  | fuel + 1, c => do
    if (← c.peekKind) = .sequenceEnd then return ([], { c with events := c.events.drop 1 })
    else
      let (i, c) ← node levels fuel c
      let (is, c) ← items levels fuel c
      return (i :: is, c)

def entries (levels : Nat) : Nat → Composer → Except Error (List (Nat × Nat) × Composer)
  | 0, c => .error c.ending
  | fuel + 1, c => do
    if (← c.peekKind) = .mappingEnd then return ([], { c with events := c.events.drop 1 })
    else
      let (k, c) ← node levels fuel c
      let (v, c) ← node levels fuel c
      let (es, c) ← entries levels fuel c
      return ((k, v) :: es, c)

end

def single (levels : Nat) (c : Composer) : Except Error (Option (Nat × Graph)) := do
  let (_, c) ← c.next
  if (← c.peekKind) = .streamEnd then return none
  else
    let (_, c) ← c.next
    let (root, c) ← node levels (2 * c.events.length + 2) c
    let (_, c) ← c.next
    let (e, c) ← c.next
    if e.kind = .streamEnd then return some (root, c.nodes)
    else
      .error (.marked .composer
        (some ("expected a single document in the stream", (c.nodes[root]?).map (·.start)))
        "but found another document" e.start)

end Composer

/-- The graph of a text that holds one document, with its root; nothing for an empty text. -/
def compose (levels : Nat) (t : Text) : Except Error (Option (Nat × Graph)) :=
  let (events, stop) := Event.stream t
  Composer.single levels ⟨events, stop.getD (.unreadable 0 0), #[], []⟩

end ConfigLoader.Yaml
