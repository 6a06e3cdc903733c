import ConfigLoader.FileTree
import ConfigLoader.Json.Strict
import ConfigLoader.TypeScript

/-! # Scripted compilers

A compiler whose sources are documents: a source says what the compiler finds, which files it emits
and what the emitted program does. A list is the program alone. The configuration of a project is the
nearest `tsconfig.json` at or above a directory.
-/
namespace ConfigLoader.TypeScript.Scripted
open Script (Code Failure Item Statement)

structure Plan where
  program : List Statement
  /-- Findings when the source is transpiled. -/
  transpiling : List Finding
  before : List Finding
  emitting : List Finding
  /-- The names of the emitted files, if the source names any. -/
  emitted : Option (List Text)
  /-- Files that are asked for, by names from the directory of the source. -/
  touched : List Text

def itemsOf : Value → List Value
  | .list vs => vs
  | _ => []

def textsOf (v : Value) : List Text := (itemsOf v).filterMap Value.text?

def field (es : Entries) (name : String) : Value := (Entries.getText? es name).getD .null

/-! ## Findings -/

mutual

def chainOf : Value → Chain
  | .text t => .node t []
  | .mapping es => .node ((entryText es).getD []) (chainsIn es)
  | _ => .node [] []

/-- The text of the first entry of a chain that holds one. -/
def entryText : List (Value × Value) → Option Text
  | [] => none
  | (k, v) :: es =>
    match k, v with
    | .text name, .text t => if name == Text.ofString "messageText" then some t else entryText es
    | _, _ => entryText es

def chainsIn : List (Value × Value) → List Chain
  | [] => []
  | (k, v) :: es =>
    match k with
    | .text name => if name == Text.ofString "next" then chainsOf v else chainsIn es
    | _ => chainsIn es

def chainsOf : Value → List Chain
  | .list vs => chainAll vs
  | _ => []

def chainAll : List Value → List Chain
  | [] => []
  | v :: vs => chainOf v :: chainAll vs

end

def categoryOf (v : Value) : Option Category :=
  match v.wholeNumber? with
  | some 0 => some .warning
  | some 1 => some .error
  | some 2 => some .suggestion
  | some 3 => some .message
  | _ => none

def coordinate (v : Option Value) : Int := (v.bind Value.wholeNumber?).getD 0

/-- The place of a finding; files are named from the directory of the process. -/
def placeOf (here : Location) (es : Entries) : Option Place :=
  match Entries.getText? es "file" with
  | some (.text file) =>
    if file.isEmpty then none
    else
      let pos := itemsOf (field es "pos")
      some ⟨(Path.resolve here file).text, coordinate pos[0]?, coordinate pos[1]?⟩
  | _ => none

def findingOf? (here : Location) : Value → Option Finding
  | .mapping es => some {
      code := Entries.getText? es "code"
      category := categoryOf (field es "category")
      text := chainOf (field es "text")
      place := placeOf here es
      hasStart := (Entries.getText? es "start").isSome }
  | _ => none

def findingsOf (here : Location) (v : Value) : List Finding :=
  (itemsOf v).filterMap (findingOf? here)

/-! ## Sources -/

def unreadable : Finding where
  code := some (.int 1005)
  category := some .error
  text := .node "',' expected." []
  place := none
  hasStart := false

def Plan.ofValue (here : Location) : Value → Plan
  | .list vs => ⟨Statement.ofDocument (.list vs), [], [], [], none, []⟩
  | .mapping es => {
      program := Statement.ofDocument (field es "program")
      transpiling := findingsOf here (field es "diagnostics")
      before := findingsOf here (field es "pre")
      emitting := findingsOf here (field es "emit_diagnostics")
      emitted := match Entries.getText? es "emit" with
        | some (.list vs) => some (textsOf (.list vs))
        | _ => none
      touched := textsOf (field es "touch") }
  | _ => ⟨[], [], [], [], none, []⟩

def Plan.ofSource (here : Location) (source : Text) : Plan :=
  match Json.Strict.parse? source with
  | some v => .ofValue here v
  | none => ⟨[], [unreadable], [unreadable], [], none, []⟩

/-! ## Words -/

def categoryName : Category → Text
  | .warning => "Warning"
  | .error => "Error"
  | .suggestion => "Suggestion"
  | .message => "Message"

mutual

/-- The text of a chain, each explanation on a line of its own and indented by its depth. -/
def flatten (depth : Nat) : Chain → Text
  | .node text next =>
    (if depth = 0 then text else 10 :: List.replicate (2 * depth) 32 ++ text) ++
      flattenAll (depth + 1) next

def flattenAll (depth : Nat) : List Chain → Text
  | [] => []
  | c :: cs => flatten depth c ++ flattenAll depth cs

end

def codeText (f : Finding) : Text :=
  match f.code with
  | none => "undefined"
  | some v => ((Item.ofValue v).display? []).getD []

/-- The finding as a line of a report; files are shown from a directory. -/
def line (dir : Location) (f : Finding) : Text :=
  let place : Text := match f.place with
    | none => []
    | some p =>
      Path.relative dir (Path.toLocation p.file) ++ "(" ++ Text.ofInt (p.line + 1) ++ "," ++
        Text.ofInt (p.column + 1) ++ "): "
  let category : Text := match f.category with
    | some c => Text.lower (categoryName c)
    | none => "undefined"
  place ++ category ++ " TS" ++ codeText f ++ ": " ++ flatten 0 f.text ++ "\n"

def format (directory : Value) (fs : List Finding) : Text :=
  fs.flatMap (line (Path.toLocation ((directory.text?).getD [])))

/-! ## Options -/

/-- The field that sets what an object inherits; assigning it adds no field. -/
def isInherited (e : Value × Value) : Bool := Json.Canonical.keyText e.1 == "__proto__"

/-- The fields that a copy of a document has as an object: a text has its units, and a scalar has
none. -/
def fieldsOf : Value → Entries
  | .mapping es => (Json.Canonical.orderEntries es).filter fun e => !isInherited e
  | .list vs => (List.zip (List.range vs.length) vs).map fun p => (.text (Text.ofNat p.1), p.2)
  | .text t =>
    let units := t.units16
    (List.zip (List.range units.length) units).map fun p =>
      (.text (Text.ofNat p.1), .text [CodePoint.ofNat p.2])
  | _ => []

def fileName : Text := "tsconfig.json"

/-- The first of a directory's places that holds a configuration, of those with at most `n` names, the
longest first. -/
def nearestOf (t : FileTree) (dir : Location) : Nat → Option Location
  | 0 => if t.hasFile (Location.text [fileName]) then some [] else none
  | n + 1 =>
    if t.hasFile (Location.text (dir.take (n + 1) ++ [fileName])) then some (dir.take (n + 1))
    else nearestOf t dir n

/-- The directory of the nearest configuration at or above a directory. -/
def nearest? (t : FileTree) (dir : Location) : Option Location := nearestOf t dir dir.length

def nullDocument : Failure :=
  ⟨"TypeError", "Cannot read properties of null (reading 'compilerOptions')"⟩

/-- The options that a configuration gives, with the directory that it stands in, as seen from that of
the process. -/
def parseConfig (here : Location) (v : Value) (dir : Text) : Except Failure Entries :=
  match v with
  | .null => .error nullDocument
  | v =>
    let given := match v with
      | .mapping es => (Entries.getText? es "compilerOptions").getD .null
      | _ => .null
    let place := Path.relative here (Path.toLocation dir)
    .ok ((fieldsOf given).put "configDir" (.text place))

/-! ## Output -/

/-- The name of an emitted program when a source is transpiled. -/
def transpiled : Text := "transpile"

def outputName (file : Text) : Text :=
  let name := Path.name file
  let stem? (ending : Text) : Option Text :=
    (Text.afterStart? ending.reverse name.reverse).map List.reverse
  match (stem? ".ts").orElse fun _ => (stem? ".mts").orElse fun _ => stem? ".cts" with
  | some stem => stem ++ ".js"
  | none => name

def compared (source : Text) : Option Text → Value
  | none => .null
  | some t => .bool (t == source)

def touch (host : Host) (file source name : Text) : Value :=
  let path := (Path.toLocation file).parent.text ++ "/" ++ name
  .list [.bool (host.fileExists path), compared source (host.sourceText path),
    compared source (host.readFile path)]

/-- The compiler of a process that runs in a directory. -/
def compiler (here : Location) : TypeScript where
  version := "0.0.0-fake"
  sourceText v := (((v.map Item.ofValue).getD .undefined).display? []).getD []
  transpile _ source options :=
    let plan := Plan.ofSource here source
    (plan.transpiling, ⟨plan.program, .mapping options, transpiled, .null⟩)
  check host file options :=
    let source := (host.sourceText file).getD []
    let plan := Plan.ofSource here source
    let touched : Value := .list (plan.touched.map (touch host file source))
    { before := plan.before
      emitting := plan.emitting
      files := (plan.emitted.getD [outputName file]).map fun name =>
        (name, ⟨plan.program, .mapping options, name, touched⟩) }
  findConfigFile t dir := (nearest? t (Path.toLocation dir)).map fun d => Location.text (d ++ [fileName])
  readConfigFile t file := (t.text? file).bind Json.Strict.parse?
  parseConfig _ := parseConfig here
  convertOptions v _ := .ok (fieldsOf v)
  commonJS := .float (Binary64.ofInt 1)
  categoryName c := some (categoryName c)
  flatten := flatten 0
  format directory fs := some (format directory fs)

end ConfigLoader.TypeScript.Scripted
