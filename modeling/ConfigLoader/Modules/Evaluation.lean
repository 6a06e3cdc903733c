import ConfigLoader.Modules.Lookup
import ConfigLoader.Script.Build
import ConfigLoader.Script.Program
import ConfigLoader.TypeScript.Pipeline

/-! # Evaluating modules

A module is evaluated once while it is remembered: what it exports is shared by all that require it,
also while it is still being evaluated. A module whose evaluation is stopped is forgotten. A module
is a place of the heap that holds its exports.
-/
namespace ConfigLoader.Modules
open Script (Item Heap Failure Code Statement)
open TypeScript (Finding Rejection)

inductive Stop
  | raised (v : Item)
  | found (errors : List Finding)
  /-- The process ended itself. -/
  | exited (code : Nat)

structure State where
  heap : Heap
  /-- The modules that are remembered: their files and places. -/
  cache : List (Text × Nat)
  memory : Memory
  projects : TypeScript.Project.Kept
  /-- How often modules asked for the next number. -/
  count : Nat
  /-- What modules logged, the last text first. -/
  notes : List Text

abbrev Run := ExceptT Stop (StateM State)

/-- A module that is being evaluated. -/
structure Module where
  file : Text
  place : Nat
  /-- The files of the modules that led to it, the nearest first. -/
  parents : List Text

/-- What does not change while modules are evaluated. -/
structure Surroundings where
  engine : Engine
  tree : FileTree
  /-- The file that exports the compiler package, and the version it tells. -/
  package : Text
  version : Text
  /-- Compiles the text of a file; without a compiler such files are scripts. -/
  compile : Option (Text → Text → Run Code)

/-! ## State -/

def failure (name : String) (message : Text) : Failure := ⟨name, message⟩

def errorItem (f : Failure) : Item := .object (.error f.name f.message) []

def raise {α : Type} (name : String) (message : Text) : Run α :=
  throw (.raised (errorItem (failure name message)))

def lift {α : Type} (r : Except Failure α) : Run α :=
  match r with
  | .ok a => return a
  | .error f => throw (.raised (errorItem f))

/-- Runs a look-up on what look-ups remember. -/
def find {α : Type} (f : Find α) : Run α := do
  let s ← get
  let (r, m) := f.run s.memory
  set { s with memory := m }
  lift r

def State.exportsOf (s : State) (place : Nat) : Item := s.heap.get place

def setPlace (place : Nat) (v : Item) : Run Unit :=
  modify fun s => { s with heap := s.heap.set place v }

def hold (v : Item) : Run Item := do
  let s ← get
  let (v, heap) := s.heap.hold v
  set { s with heap := heap }
  return v

def setExports (m : Module) (v : Item) : Run Unit := do
  setPlace m.place (← hold v)

/-- The value that a description gives; what is left out is undefined. -/
def build (v : Option Value) : Run Item := do
  match v with
  | none => return .undefined
  | some v =>
    let s ← get
    let (item, heap) ← lift (Item.build s.heap v)
    set { s with heap := heap }
    return item

def newPlace : Run Nat := do
  let s ← get
  let n := s.heap.length
  set { s with heap := s.heap ++ [Item.emptyObject, .cell n] }
  return n + 1

def note (t : Text) : Run Unit := modify fun s => { s with notes := t :: s.notes }

def forget (file : Text) (s : State) : State :=
  { s with cache := s.cache.filter fun e => e.1 != file }

def whenStopped {α : Type} (f : State → State) (r : Run α) : Run α := ExceptT.mk do
  match ← r.run with
  | .ok a => return .ok a
  | .error e => modify f; return .error e

/-! ## Setting fields -/

def scalarText (v : Item) : Text :=
  let shown := (v.display? []).getD []
  match v with
  | .text _ => "string '" ++ shown ++ "'"
  | .number _ => "number '" ++ shown ++ "'"
  | .bool _ => "boolean '" ++ shown ++ "'"
  | .bigint _ => "bigint '" ++ shown ++ "'"
  | _ => "symbol '" ++ shown ++ "'"

/-- A list with an item at an index; missing items before it are undefined. -/
def putItem (vs : List Item) (n : Nat) (v : Item) : List Item :=
  if n < vs.length then vs.set n v
  else vs ++ List.replicate (n - vs.length) Item.undefined ++ [v]

def withField (name : Text) (v : Item) : Item → Item
  | .object (.array vs) fields =>
    match Json.Canonical.index? name with
    | some n => .object (.array (putItem vs n v)) fields
    | none => .object (.array vs) (Item.putField name v fields)
  | .object shape fields => .object shape (Item.putField name v fields)
  | w => w

/-- The error of setting a field of what an ES module exports. -/
def unchangeable (name : Text) (fields : Exports) : Text :=
  if fields.any fun f => f.1 == name then
    "Cannot assign to read only property '" ++ name ++ "' of object '[object Module]'"
  else "Cannot add property " ++ name ++ ", object is not extensible"

def setFieldAt (n : Nat) (name : Text) (v : Item) : Run Unit := do
  match (← get).heap.get n with
  | .object .namespace fields => raise "TypeError" (unchangeable name fields)
  | w => setPlace n (withField name v w)

def setField (m : Module) (name : Text) (v : Item) : Run Unit := do
  let s ← get
  match s.exportsOf m.place with
  | .cell n => setFieldAt n name v
  | .undefined =>
    raise "TypeError" ("Cannot set properties of undefined (setting '" ++ name ++ "')")
  | .null => raise "TypeError" ("Cannot set properties of null (setting '" ++ name ++ "')")
  | w => raise "TypeError" ("Cannot create property '" ++ name ++ "' on " ++ scalarText w)

/-! ## Errors and exits -/

def errorNames : List Text := [
  "Error", "TypeError", "RangeError", "SyntaxError", "ReferenceError", "EvalError", "URIError"]

/-- What an instance of a class is that is made of one argument. An unknown class is an error. -/
def instanceOf (constructor : Text) (arg : Item) : Except Failure Item :=
  let message := Item.argumentText [] arg
  if errorNames.contains constructor then .ok (errorItem ⟨constructor, message⟩)
  else if constructor == "AggregateError" then
    match arg with
    | .text _ | .object (.array _) _ => .ok (errorItem ⟨constructor, []⟩)
    | v => .error (failure "TypeError" (((v.display? []).getD []) ++
        " is not iterable (cannot read property Symbol(Symbol.iterator))"))
  else if constructor == "String" then .ok (.object (.boxed (.text message)) [])
  else if constructor == "Object" then .ok (Item.wrapped arg)
  else if constructor == "Array" then .ok (.object (.array [arg]) [])
  else .ok (errorItem (failure "Error" message))

def received (v : Option Value) : Text :=
  match v with
  | none => "undefined"
  | some .null => "null"
  | some (.bool b) => "type boolean (" ++ (if b then Text.ofString "true" else "false") ++ ")"
  | some (.int n) => "type number (" ++ Item.numberText (Binary64.ofInt n) ++ ")"
  | some (.float x) =>
    let shown : Text := if x.isZero && x.isNegative then "-0" else Item.numberText x
    "type number (" ++ shown ++ ")"
  | some (.text t) =>
    let t : Text := if t.units16.length > 28 then Text.ofUnits16 (t.units16.take 25) ++ "..." else t
    if t.contains (CodePoint.ofChar '\'') then "type string (" ++ Json.Canonical.quote t ++ ")"
    else "type string ('" ++ t ++ "')"
  | some (.list _) => "an instance of Array"
  | some _ => "an instance of Object"

def notOfType (argument kind : String) (v : Option Value) : Text :=
  "The \"" ++ Text.ofString argument ++ "\" argument must be of type " ++ Text.ofString kind ++
    ". Received " ++ received v

def exitCode (v : Option Value) : Except Failure Nat :=
  match v with
  | none | some .null => .ok 0
  | some v =>
    let number? : Option Binary64 := match v with
      | .int n => some (Binary64.ofInt n)
      | .float x => some x
      | .text t => if t.isEmpty then none else (Json.number? t.trimBlank).map (·.float)
      | _ => none
    match number? with
    | none => .error (failure "TypeError" (notOfType "code" "number" (some v)))
    | some x => match x.toInt? with
      | some n => .ok (n % 256).toNat
      | none => .error (failure "RangeError"
          ("The value of \"code\" is out of range. It must be an integer. Received " ++
            Item.numberText x))

/-! ## Statements -/

/-- An object with fields set in turn to values that are built. -/
def withFields (v : Item) : List (Text × Option Value) → Run Item
  | [] => return v
  | (name, w) :: fields => do
    let a ← build w
    withFields (withField name a v) fields

def perform (require : Option Value → Run Item) (code : Code) (m : Module) :
    Statement → Run Unit
  | .setDefault v => do setField m "default" (← build v)
  | .setExports v => do setExports m (← build v)
  | .setField name v => do setField m name (← build v)
  | .require id as => do setField m as (← require id)
  | .handOn id => do setExports m (← require (some (.text id)))
  | .options as => setField m as (Item.ofValue code.options)
  | .emitName as => setField m as (.text code.emitName)
  | .touched as => setField m as (Item.ofValue code.touched)
  | .filename as => setField m as (.text (Path.name m.file))
  | .count as => do
    modify fun s => { s with count := s.count + 1 }
    setField m as (.number (Binary64.ofInt (← get).count))
  | .log text => note text
  | .exit code => do throw (.exited (← lift (exitCode code)))
  | .throw v => do throw (.raised (← build v))
  | .throwError constructor message name fields => do
    let arg := (message.map Item.ofValue).getD .undefined
    let v ← lift (instanceOf constructor arg)
    let v := match name with
      | none => v
      | some name => withField "name" (Item.ofValue name) v
    throw (.raised (← withFields v fields))

def performAll (require : Option Value → Run Item) (code : Code) (m : Module) :
    List Statement → Run Unit
  | [] => return ()
  | st :: sts => do
    perform require code m st
    performAll require code m sts

def runCode (require : Option Value → Run Item) (code : Code) (m : Module) : Run Unit :=
  performAll require code m code.statements

/-! ## Files -/

def readFile (t : FileTree) (file : Text) : Run Text := lift (textOf t file)

def libraryError (t : FileTree) (file : Text) : Text :=
  match t.bytes file with
  | .ok b =>
    file ++ (if b.length < 64 then Text.ofString ": file too short" else ": invalid ELF header")
  | .error .isDirectory => file ++ ": cannot read file data: Is a directory"
  | .error e => file ++ ": cannot open shared object file: " ++ e.reason

def compiledExtensions : List Text := [".ts", ".mts", ".cts"]

/-- The extensions that are handled, in the order in which they are tried. -/
def Surroundings.extensions (c : Surroundings) : List Text :=
  ([".js", ".json", ".node"] : List Text) ++ if c.compile.isSome then compiledExtensions else []

/-- The longest extension of a name that is handled; a dot at its start counts for nothing. -/
def extensionOf (extensions : List Text) (name : Text) : Text :=
  let starts := (List.range name.length).filter fun i =>
    0 < i && name[i]? = some (CodePoint.ofChar '.')
  ((starts.map fun i => name.drop i).find? extensions.contains).getD ".js"

def byteOrderMark : CodePoint := 0xFEFF

def withoutMark (t : Text) : Text :=
  match t with
  | c :: r => if c = byteOrderMark then r else t
  | [] => []

def runDocument (t : FileTree) (m : Module) : Run Unit := do
  let text := withoutMark (← readFile t m.file)
  match Json.Strict.parse text with
  | .ok v => setExports m (Item.ofValue v)
  | .error e => raise "SyntaxError" (m.file ++ ": " ++ e.message text)

def script (text : Text) : Run Code :=
  match Code.ofFileText? (withoutMark text) with
  | some code => return code
  | none => raise "SyntaxError" "Invalid or unexpected token"

def runPlain (c : Surroundings) (require : Option Value → Run Item) (m : Module) : Run Unit := do
  match ← find (openFile c.engine c.tree m.file) with
  | .script text => runCode require (← script text) m
  | .esModule (.ok fields) => setPlace m.place (.object .namespace fields)
  | .esModule (.error v) => throw (.raised v)

def runFile (c : Surroundings) (require : Option Value → Run Item) (m : Module) : Run Unit := do
  let extension := extensionOf c.extensions (Path.name m.file)
  if m.file == c.package then
    setExports m (.object .compiler [("version", .text c.version)])
  else if extension == ".json" then runDocument c.tree m
  else if extension == ".node" then raise "Error" (libraryError c.tree m.file)
  else match c.compile, compiledExtensions.contains extension with
    | some compile, true => do
      let text ← readFile c.tree m.file
      runCode require (← compile m.file text) m
    | _, _ => runPlain c require m

/-! ## Requiring -/

def stackText (files : List Text) : Text := files.flatMap fun f => "\n- " ++ f

def notFound (request : Text) (parents : List Text) : Text :=
  "Cannot find module '" ++ request ++ "'\nRequire stack:" ++ stackText parents

def requestText (id : Option Value) : Except Failure Text :=
  match id with
  | some (.text t) =>
    if t.isEmpty then
      .error (failure "TypeError" "The argument 'id' must be a non-empty string. Received ''")
    else .ok t
  | v => .error (failure "TypeError" (notOfType "id" "string" v))

def resolve (c : Surroundings) (parents : List Text) (request : Text) : Run Text := do
  match ← find (lookup c.tree c.extensions (parents.headD []) request) with
  | some file => return file
  | none => raise "Error" (notFound request parents)

def enter (file : Text) (evaluate : Nat → Run Unit) : Run Item := do
  let place ← newPlace
  modify fun s => { s with cache := s.cache ++ [(file, place)] }
  whenStopped (forget file) (evaluate place)
  return (← get).exportsOf place

/-- What the module of a file exports, evaluated if it is not remembered. -/
def load (file : Text) (evaluate : Nat → Run Unit) : Run Item := do
  match assoc? file (← get).cache with
  | some place => return (← get).exportsOf place
  | none => enter file evaluate

/-- What the module of a request exports; `parents` are the files of the modules that led to the
request. -/
def require (c : Surroundings) : Nat → List Text → Option Value → Run Item
  | 0, _, _ => throw (.raised (errorItem Script.stackFailure))
  | depth + 1, parents, id => do
    let file ← resolve c parents (← lift (requestText id))
    load file fun place => runFile c (require c depth (file :: parents)) ⟨file, place, parents⟩

/-- Evaluates the program of an entry, which is not remembered, and gives what it exports. -/
def runEntry (c : Surroundings) (script file : Text) (code : Code) : Run Item := do
  let place ← newPlace
  runCode (require c c.engine.calls [file, script]) code ⟨file, place, [script]⟩
  return (← get).exportsOf place

/-! ## Forgetting -/

def isPackageFile (file : Text) : Bool := Text.hasInfix "/node_modules/" file

/-- Forgets the modules that were not remembered in an earlier state, but for those of packages. -/
def forgetNew (before after : State) : State :=
  { after with cache := after.cache.filter fun e =>
      (assoc? e.1 before.cache).isSome || isPackageFile e.1 }

/-- Gives back the places that an earlier state did not have, if nothing that is remembered leads to
them. -/
def sweep (before after : State) : State :=
  let n := before.heap.length
  let old := after.heap.take n
  if after.cache.all (fun e => e.2 < n) && Item.areBelow n old then { after with heap := old }
  else after

end ConfigLoader.Modules
