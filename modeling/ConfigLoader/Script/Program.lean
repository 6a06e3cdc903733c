import ConfigLoader.Json.Canonical
import ConfigLoader.Json.Strict
import ConfigLoader.Text.Blank

/-! # Programs

What an evaluated module does: a list of statements, with what its compiler tells it. A program is
read from a document. The file of a script holds a program between `run(` and `);`, or one of two
statements in the words of the language: it hands on another module, or it ends with an error.
-/
namespace ConfigLoader.Script

inductive Statement
  | setDefault (v : Option Value)
  | setExports (v : Option Value)
  | setField (name : Text) (v : Option Value)
  | require (id : Option Value) (as : Text)
  /-- The exports become those of another module. -/
  | handOn (id : Text)
  | options (as : Text)
  | emitName (as : Text)
  | touched (as : Text)
  | filename (as : Text)
  | count (as : Text)
  | log (text : Text)
  | exit (code : Option Value)
  | throw (v : Option Value)
  /-- Throws an error after fields of it were set: a name as it is given, and others that are built. -/
  | throwError (constructor : Text) (message name : Option Value)
      (fields : List (Text × Option Value))

/-- A program with the options, the name and the file checks that its compiler tells it. -/
structure Code where
  statements : List Statement
  options : Value
  emitName : Text
  touched : Value

namespace Statement

def textOf (es : Entries) (name : String) : Text :=
  match Entries.getText? es name with
  | some (.text t) => t
  | some v => Json.Canonical.print v
  | none => "undefined"

def ofValue? (v : Value) : Option Statement :=
  match v with
  | .mapping es =>
    let value := Entries.getText? es "value"
    let as := textOf es "as"
    let kind := textOf es "do"
    if kind == "default" then some (.setDefault value)
    else if kind == "exports" then some (.setExports value)
    else if kind == "set" then some (.setField (textOf es "key") value)
    else if kind == "require" then some (.require (Entries.getText? es "id") as)
    else if kind == "options" then some (.options as)
    else if kind == "emit_name" then some (.emitName as)
    else if kind == "touched" then some (.touched as)
    else if kind == "filename" then some (.filename as)
    else if kind == "count" then some (.count as)
    else if kind == "log" then some (.log (textOf es "text"))
    else if kind == "exit" then some (.exit (Entries.getText? es "code"))
    else if kind == "throw" then some (.throw value)
    else if kind == "throw_error" then
      some (.throwError (textOf es "ctor") (Entries.getText? es "message")
        (Entries.getText? es "name") [])
    else none
  | _ => none

def ofDocument (v : Value) : List Statement :=
  match v with
  | .list vs => vs.filterMap ofValue?
  | _ => []

end Statement

/-! ## Script files -/

/-- The name that scripts go by where a compiled module has the name of what was emitted. -/
def scriptName : Text := "js"

/-- What stands between a beginning and an end, blank space around each left out. -/
def between? (opening closing t : Text) : Option Text := do
  let r ← Text.afterStart? opening t
  let inner ← Text.afterStart? closing.reverse (Text.trimBlankEnd r).reverse
  return Text.trimBlank inner.reverse

def quoted? (t : Text) : Option Text :=
  match t with
  | c :: r =>
    if c = '\'' then
      if r.getLast? = some (CodePoint.ofChar '\'') then some r.dropLast else none
    else match Json.Strict.parse? t with
      | some (.text s) => some s
      | _ => none
  | [] => none

def withoutSemicolon (t : Text) : Text :=
  let t := t.trimBlank
  if Text.endsWith ";" t then Text.trimBlankEnd t.dropLast else t

def thrownError? (t : Text) : Option Statement := do
  let r ← Text.afterStart? "throw new " t
  let name := r.takeWhile fun (c : CodePoint) => c != '('
  let inner ← between? "(" ")" (r.drop name.length)
  if inner.isEmpty then some (.throwError name none none [])
  else some (.throwError name (some (.text (← quoted? inner))) none [])

def isValueAlone (t : Text) : Bool :=
  match Json.Strict.parse? t with
  | some (.mapping es) => es.isEmpty
  | v => v.isSome

def ofFileText? (t : Text) : Option (List Statement) :=
  let t := withoutSemicolon t
  if t.isEmpty || isValueAlone t then some []
  else match between? "run(" ")" t with
    | some inner => (Json.Strict.parse? inner).map Statement.ofDocument
    | none =>
      match (between? "module.exports = require(" ")" t).bind quoted? with
      | some id => some [.handOn id]
      | none => (thrownError? t).map fun s => [s]

def Code.ofFileText? (t : Text) : Option Code :=
  (Script.ofFileText? t).map fun ss => ⟨ss, .null, scriptName, .null⟩

end ConfigLoader.Script
