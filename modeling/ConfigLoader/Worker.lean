import ConfigLoader.Modules.Evaluation

/-! # Workers

A worker reads lines and writes frames, each a line of JSON. The first line that is not blank holds
the settings; the compiler package is loaded with them, and the answer tells that the worker is
ready or that it is not. Every later line is a request to compile and evaluate a source, and has one
frame as its answer. A line that is no request ends the worker.
-/
namespace ConfigLoader
open Script (Item Failure)
open Modules (Stop State Run Surroundings)
open TypeScript (Rejection Pipeline)

/-- What a worker finds on its machine: the engine, the files, the script that it executes, the file of
the compiler package, and the compiler that this package exports to a process in a directory. -/
structure Worker.Site where
  engine : Engine
  tree : FileTree
  script : Text
  package : Text
  compiler : Location → TypeScript

/-- What the settings of a worker come to. -/
structure Worker.Session where
  /-- The directory that requests are relative to; a text once the worker is ready. -/
  directory : Value
  pipeline : Pipeline

inductive Worker.Phase
  | waiting
  | ready (s : Worker.Session)
  /-- The compiler package could not be loaded; the worker ends when its lines are handled. -/
  | failed (s : Worker.Session)
  | ended (code : Nat)

structure Worker where
  /-- The directory that the process runs in. -/
  here : Location
  phase : Worker.Phase
  state : State
  /-- What follows the last line end. -/
  pending : Text

namespace Worker

def startState (script : Text) : State where
  heap := [Item.emptyObject, .cell 0]
  cache := [(script, 1)]
  memory := .empty
  projects := []
  count := 0
  notes := []

def start (script : Text) (here : Location) : Worker := ⟨here, .waiting, startState script, []⟩

def exitCode? (w : Worker) : Option Nat :=
  match w.phase with
  | .ended code => some code
  | _ => none

/-- Ends a worker that met an error it does not handle. -/
def crash (w : Worker) (notes : List Text) : Worker :=
  { w with phase := .ended 1, state := { w.state with notes := notes ++ w.state.notes } }

/-! ## Surroundings -/

def unusable (name message : String) : Failure := ⟨Text.ofString name, Text.ofString message⟩

/-- The error of using a package that was not loaded. -/
def noCompiler : Failure := unusable "TypeError"
  "Cannot read properties of null (reading 'convertCompilerOptionsFromJson')"

def otherPackage : Failure := unusable "TypeError"
  "ts.convertCompilerOptionsFromJson is not a function"

/-- Compiles with a pipeline; what is learned of projects is kept. -/
def compile (p : Pipeline) (t : FileTree) (file source : Text) : Run Script.Code := do
  let s ← get
  let (r, projects) := p.compile t file source s.projects
  set { s with projects := projects }
  match r with
  | .ok code => return code
  | .error (.failed f) => throw (.raised (Modules.errorItem f))
  | .error (.found es) => throw (.found es)

/-- Modules before there is a compiler. -/
def plainSurroundings (site : Site) (ts : TypeScript) : Surroundings where
  engine := site.engine
  tree := site.tree
  package := site.package
  version := ts.version
  compile := none

def surroundings (site : Site) (ts : TypeScript) (p : Pipeline) : Surroundings :=
  { plainSurroundings site ts with compile := some (compile p site.tree) }

/-! ## Frames -/

def frameLine (v : Value) : Text := Json.Canonical.print v ++ "\n"

/-- The frame of a document that the stack has room for. -/
def frame? (e : Engine) (v : Value) : Option Text :=
  if Json.Canonical.levels v ≤ e.frames then some (frameLine v) else none

/-- A field of a frame with the form of a script value; a value without a form is left out, and one whose
form is an error makes the frame one. -/
def formField? (e : Engine) (s : State) (name : String) (v : Item) : Option Entries :=
  match Script.Encoding.document e.frames s.heap v with
  | .ok (some d) => some [(.text (Text.ofString name), d)]
  | .ok none => some []
  | .error _ => none

/-- The number of a request as a field of its answer. -/
def idField (id : Option Value) : Entries :=
  match id with
  | some v => [("id", v)]
  | none => []

def answer (id : Option Value) (status : String) (fields : Entries) : Value :=
  .mapping (idField id ++ ([("status", status)] : Entries) ++ fields)

/-! ## Handshake -/

def field? (v : Value) (name : String) : Option Value :=
  match v with
  | .mapping es => Entries.getText? es name
  | _ => none

def fieldItem (v : Value) (name : String) : Item :=
  ((field? v name).map Item.ofValue).getD .undefined

def shown? (e : Engine) (s : State) (v : Item) : Option Text :=
  match v with
  | .symbol _ => none
  | v => v.displayWithin? e.texts s.heap

def anchorName : Text := "__ts_config_loader__.js"

/-- The file from which the compiler package is required, by the directory of the settings. -/
def anchor (directory : Value) : Except Failure Text :=
  match directory with
  | .text d =>
    let p := d ++ "/" ++ anchorName
    if Path.isAbsolute p then .ok (Path.toLocation p).text
    else .error ⟨"TypeError",
      "The argument 'filename' must be a file URL object, file URL string, " ++
        "or absolute path string. Received '" ++ Path.normalize p ++ "'"⟩
  | v => .error (Modules.failure "TypeError" (Modules.notOfType "path" "string" (some v)))

def loadPackage (c : Surroundings) (settings directory : Value) : Run Item := do
  let file ← Modules.lift (anchor directory)
  Modules.require c c.engine.calls [file] (field? settings "typescript")

def runLoad (c : Surroundings) (settings directory : Value) (s : State) :
    Except Stop Item × State :=
  ((loadPackage c settings directory).run).run s

def sessionOf (here : Location) (settings directory : Value)
    (compiler : Except Failure TypeScript) : Session where
  directory := directory
  pipeline := {
    compiler := compiler
    typeCheck := (fieldItem settings "type_check").truthy
    options := (field? settings "compiler_options").getD .null
    directory := directory
    here := here }

/-- What an error has under a name that all errors have. -/
def given (field : Text) (v : Item) (fields : List (Text × Item)) : Item :=
  ((fields.find? fun f => f.1 == field).map Prod.snd).getD v

/-- What a value that was raised says of itself; nothing can be asked of null. -/
def messageOf? (e : Engine) (s : State) (v : Item) : Option Text :=
  match s.heap.look v with
  | .undefined | .null => none
  | .object (.error _ message) fields => shown? e s (given "message" (.text message) fields)
  | v => shown? e s ((v.field? s.heap "message").getD .undefined)

/-- The answer to a handshake that failed. -/
def refusal (e : Engine) (s : State) (settings : Value) (v : Item) : Option Text := do
  let message ← messageOf? e s v
  let name ← shown? e s (fieldItem settings "typescript")
  return frameLine (.mapping [("status", "error"),
    ("error", .text ("Cannot load TypeScript module '" ++ name ++ "': " ++ message))])

/-- The answer to a handshake; the version is what the package says, as far as it has a form. -/
def readyFrame (e : Engine) (s : State) (exported : Item) : Option Text :=
  match s.heap.look exported with
  | .undefined | .null => none
  | v => do
    let version ← formField? e s "version" ((v.field? s.heap "version").getD .undefined)
    frame? e (.mapping (("status", "ready") :: version))

def isCompiler (s : State) (exported : Item) : Bool :=
  match s.heap.look exported with
  | .object .compiler _ => true
  | _ => false

def givenDirectory (here : Location) (settings : Value) : Value :=
  match field? settings "cwd" with
  | some v => if (Item.ofValue v).truthy then v else .text here.text
  | none => .text here.text

def greet (site : Site) (settings : Value) (w : Worker) : List Text × Worker :=
  let ts := site.compiler w.here
  let directory := givenDirectory w.here settings
  let (r, s) := runLoad (plainSurroundings site ts) settings directory w.state
  let w := { w with state := s }
  match r with
  | .error (.exited code) => ([], { w with phase := .ended code })
  | .error (.found _) => ([], w.crash [])
  | .error (.raised v) =>
    match refusal site.engine s settings v with
    | some frame =>
      let session := sessionOf w.here settings directory (.error noCompiler)
      ([frame], { w with phase := .failed session })
    | none => ([], w.crash [])
  | .ok exported =>
    let compiler := if isCompiler s exported then .ok ts else .error otherPackage
    match readyFrame site.engine s exported with
    | some frame =>
      ([frame], { w with phase := .ready (sessionOf w.here settings directory compiler) })
    | none => ([], w.crash [])

/-! ## Requests -/

def requestFile? (w : Worker) (directory : Value) (request : Value) : Option Text := do
  let path ← (field? request "path").bind Value.text?
  if Path.isAbsolute path then return (Path.toLocation path).text
  let d ← directory.text?
  return (Path.resolve (Path.resolve w.here d) path).text

def sourceOf (ts : TypeScript) (request : Value) : Text :=
  match field? request "source" with
  | some (.text t) => t
  | v => ts.sourceText v

/-- What a module gives to those who load it: its default export, if that counts as true. -/
def selected (s : State) (exported : Item) : Item :=
  if exported.truthy then
    match exported.field? s.heap "default" with
    | some d => if d.truthy then d else exported
    | none => exported
  else exported

def thrownDocument? (e : Engine) (s : State) (v : Item) : Option Value :=
  match v with
  | .undefined => some .null
  | v =>
    match Script.Encoding.document e.values s.heap v with
    | .ok (some d) => some d
    | _ => (v.displayWithin? e.texts s.heap).map Value.text

/-- What an error says of itself in an answer, where all of it has a form: the name of its class, its
message and its stack, unless it was given others. -/
def errorFields? (e : Engine) (s : State) (name message : Text) (fields : List (Text × Item)) :
    Option Entries := do
  let stack := given "stack" (.text (Item.errorText name message)) fields
  return (← formField? e s "name" (given "name" (.text name) fields)) ++
    (← formField? e s "message" (given "message" (.text message) fields)) ++
    (← formField? e s "stack" (if stack.truthy then stack else .text []))

def stoppedAnswer? (e : Engine) (ts : TypeScript) (s : State) (directory : Value)
    (id : Option Value) : Stop → Option Value
  | .exited _ => none
  | .found es => do
    let findings ← es.mapM (TypeScript.Finding.document? ts)
    let report ← ts.report? directory es
    return answer id "diagnostics" [("message", .text report), ("diagnostics", .list findings)]
  | .raised v =>
    match s.heap.look v with
    | .object (.error name message) fields =>
      (errorFields? e s name message fields).map (answer id "error")
    | _ => (thrownDocument? e s v).map fun d => answer id "thrown" [("value", d)]

def answer? (e : Engine) (ts : TypeScript) (s : State) (directory : Value) (id : Option Value) :
    Except Stop Value → Option Value
  | .ok v => some (answer id "ok" [("value", v)])
  | .error stop => stoppedAnswer? e ts s directory id stop

def execute (c : Surroundings) (p : Pipeline) (script file source : Text) : Run Item := do
  let code ← compile p c.tree file source
  Modules.runEntry c script file code

/-- Executes a source; modules that are new are forgotten after it, and the value is encoded. -/
def evaluate (c : Surroundings) (p : Pipeline) (script file source : Text) (s : State) :
    Except Stop Value × State :=
  let (r, t) := ((execute c p script file source).run).run s
  let t := Modules.forgetNew s t
  match r with
  | .error e => (.error e, t)
  | .ok exported =>
    match Script.Encoding.document c.engine.values t.heap (selected t exported) with
    | .ok d => (.ok (d.getD .null), t)
    | .error f => (.error (.raised (Modules.errorItem f)), t)

def endCode : Except Stop Value → Nat
  | .error (.exited code) => code
  | _ => 1

/-- Answers a request; what its evaluation made and left to nothing is given back then. Where there is
no answer, or no room to write it, the worker ends. -/
def handle (site : Site) (c : Surroundings) (session : Session) (request : Value) (w : Worker) :
    List Text × Worker :=
  match requestFile? w session.directory request with
  | none => ([], w.crash [])
  | some file =>
    let ts := site.compiler w.here
    let source := sourceOf ts request
    let (r, s) := evaluate c session.pipeline site.script file source w.state
    let w := { w with state := Modules.sweep w.state s }
    match (answer? c.engine ts s session.directory (field? request "id") r).bind
        (frame? c.engine) with
    | some frame => ([frame], w)
    | none => ([], { w with phase := .ended (endCode r) })

/-! ## Lines -/

/-- Whether settings can be given a field. -/
def isObject : Value → Bool
  | .mapping _ | .list _ => true
  | _ => false

/-- Reads a line: gives the frames that answer it. -/
def readLine (site : Site) (line : Text) (w : Worker) : List Text × Worker :=
  if line.isBlank then ([], w)
  else match w.phase with
    | .ended _ => ([], w)
    | phase =>
      match Json.Strict.parse line with
      | .error e => ([], w.crash [e.message line, line])
      | .ok v =>
        let ts := site.compiler w.here
        match phase with
        | .ready session => handle site (surroundings site ts session.pipeline) session v w
        | .failed session => handle site (plainSurroundings site ts) session v w
        | _ => if isObject v then greet site v w else ([], w.crash [])

def readLines (site : Site) (w : Worker) : List Text → List Text × Worker
  | [] => ([], w)
  | l :: ls =>
    let (fs, w) := w.readLine site l
    let (gs, w) := readLines site w ls
    (fs ++ gs, w)

def settle (w : Worker) : Worker :=
  match w.phase with
  | .failed _ => { w with phase := .ended 1 }
  | _ => w

/-- Takes a piece of input, which may end within a line. -/
def receive (site : Site) (piece : Text) (w : Worker) : List Text × Worker :=
  let (lines, rest) := Text.splitLines w.pending.reverse piece
  let (fs, w) := { w with pending := rest }.readLines site lines
  (fs, w.settle)

/-- Takes the end of the input. It ends a worker even if its handshake fails only now. -/
def finish (site : Site) (w : Worker) : List Text × Worker :=
  let (fs, w) := if w.pending.isEmpty then ([], w) else w.readLine site w.pending
  match w.phase with
  | .ended code => (fs, { w with phase := .ended code })
  | _ => (fs, { w with phase := .ended 0 })

end Worker
end ConfigLoader
