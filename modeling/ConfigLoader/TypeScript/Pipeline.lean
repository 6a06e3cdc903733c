import ConfigLoader.TypeScript.Options

/-! # Compiling a source

Every source goes one way: the options for its file are settled, the source is transpiled or checked
and emitted, and errors among the findings stop it before anything is evaluated.
-/
namespace ConfigLoader.TypeScript
open Script (Code Failure Item)

/-- Why a source is not compiled. -/
inductive Rejection
  | failed (f : Failure)
  | found (errors : List Finding)

/-- What is used to compile every source of a worker. -/
structure Pipeline where
  /-- The compiler, or the error of using what was loaded in its place. -/
  compiler : Except Failure TypeScript
  typeCheck : Bool
  /-- The options of the settings, and the directory that they are given for. -/
  options : Value
  directory : Value
  /-- The directory that the process runs in. -/
  here : Location

namespace Pipeline

/-- Stops on the errors among some findings. -/
def failOn (fs : List Finding) : Except Rejection Unit :=
  match fs.filter Finding.isError with
  | [] => .ok ()
  | es => .error (.found es)

/-- Whether a file that was emitted holds a script. -/
def isScript (name : Text) : Bool :=
  Text.endsWith ".js" name || Text.endsWith ".cjs" name || Text.endsWith ".mjs" name

def transpile (ts : TypeScript) (file source : Text) (options : Entries) :
    Except Rejection Code := do
  let (findings, code) := ts.transpile file source options
  failOn findings
  return code

/-- The files as a check sees them: at the path of the source is the source, whatever is there. -/
def host (t : FileTree) (here : Location) (file source : Text) : Host :=
  let isSource (name : Text) : Bool := (Path.resolve here name).text == file
  let text? (name : Text) : Option Text := if isSource name then some source else t.text? name
  { fileExists := fun name => isSource name || t.hasFile name, sourceText := text?,
    readFile := text? }

/-- Checks a source and takes the last script that is emitted; when there is none, the source is
transpiled. -/
def check (ts : TypeScript) (host : Host) (file source : Text) (options : Entries) :
    Except Rejection Code := do
  let r := ts.check host file options
  failOn r.before
  failOn r.emitting
  match (r.files.filter fun f => isScript f.1).getLast? with
  | some f => return f.2
  | none => transpile ts file source options

def compileWith (p : Pipeline) (ts : TypeScript) (t : FileTree) (file source : Text)
    (options : Entries) : Except Rejection Code :=
  if p.typeCheck then check ts (host t p.here file source) file source options
  else transpile ts file source options

/-- The options of the settings as the compiler takes them; what counts as false stands for none. -/
def converted (p : Pipeline) (ts : TypeScript) : Except Failure Entries :=
  ts.convertOptions (if (Item.ofValue p.options).truthy then p.options else .mapping []) p.directory

/-- The effective options for a file. The options of the settings are converted before those of its
project are looked up. -/
def effective (p : Pipeline) (ts : TypeScript) (t : FileTree) (file : Text) (k : Project.Kept) :
    Except Failure Entries × Project.Kept :=
  match p.converted ts with
  | .error f => (.error f, k)
  | .ok settings =>
    let (r, k) := Project.options ts t (Path.toLocation file).parent k
    (r.map fun project => Options.effective ts project settings, k)

def compile (p : Pipeline) (t : FileTree) (file source : Text) (k : Project.Kept) :
    Except Rejection Code × Project.Kept :=
  match p.compiler with
  | .error f => (.error (.failed f), k)
  | .ok ts =>
    match p.effective ts t file k with
    | (.error f, k) => (.error (.failed f), k)
    | (.ok options, k) => (p.compileWith ts t file source options, k)

end Pipeline
end ConfigLoader.TypeScript
