import ConfigLoader.Engine
import ConfigLoader.FileTree
import ConfigLoader.Json.Strict

/-! # Looking up modules

A request names a module by a path or by a package. It is settled to a file: the path as it is, with
an extension, or as a directory with a description or an index. What was found, the links on the way,
the descriptions that were read and the ES modules that were evaluated are remembered for good, whatever
becomes of the files.
-/
namespace ConfigLoader.Modules
open Script (Failure)

inductive Kind
  | script
  | esModule
  deriving DecidableEq, Repr

structure Description where
  /-- The entry file, if it is named by a text. -/
  main : Option Text
  /-- What the files below the directory hold where their names do not tell. -/
  kind : Option Kind
  deriving DecidableEq, Repr

/-- What lookups remember. -/
structure Memory where
  /-- Files by request and starting directories. -/
  found : List ((Text × List Text) × Text)
  /-- Paths by the paths that lead to them through links. -/
  real : List (Text × Text)
  /-- Descriptions by their files. -/
  descriptions : List (Text × Description)
  /-- The files of ES modules that were evaluated, with the texts that they had then. -/
  modules : List (Text × Text)

def Memory.empty : Memory := ⟨[], [], [], []⟩

abbrev Find := ExceptT Failure (StateM Memory)

def assoc? {α β : Type} [BEq α] (k : α) (l : List (α × β)) : Option β :=
  (l.find? fun p => p.1 == k).map Prod.snd

def join (dir p : Text) : Text := (Path.resolve (Path.toLocation dir) p).text

/-- Follows names from a settled place; a link that was followed before leads where it led then. -/
def settle (t : FileTree) :
    Nat → List (Text × Text) → Location → List Text → Location × List (Text × Text)
  | 0, real, here, rest => (here ++ rest, real)
  | _ + 1, real, here, [] => (here, real)
  | fuel + 1, real, here, n :: rest =>
    let next := here ++ [n]
    let path := Location.text next
    match assoc? path real with
    | some p =>
      if p == path then settle t fuel real next rest
      else settle t fuel real [] (Path.toLocation p ++ rest)
    | none =>
      match t.at? next with
      | some (.link target) =>
        let l := Path.resolve here target
        settle t fuel ((path, l.text) :: real) [] (l ++ rest)
      | _ => settle t fuel real next rest

/-- The path of an existing file with its links followed. -/
def realPath (t : FileTree) (p : Text) : Find Text := do
  let m ← get
  match assoc? p m.real with
  | some r => return r
  | none =>
    let names := Path.toLocation p
    let (l, real) := settle t (t.walkFuel names * (names.length + 2)) m.real [] names
    set { m with real := (p, l.text) :: real }
    return l.text

def tryFile (t : FileTree) (p : Text) : Find (Option Text) :=
  if t.hasFile p then some <$> realPath t p else return none

def tryExtensions (t : FileTree) (base : Text) : List Text → Find (Option Text)
  | [] => return none
  | e :: es => do
    match ← tryFile t (base ++ e) with
    | some f => return some f
    | none => tryExtensions t base es

def badDescription (p : Text) : Failure := ⟨"Error", "Invalid package config " ++ p ++ "."⟩

/-- Whether a field of a description is absent or a text. -/
def isTextOrAbsent (es : Entries) (name : String) : Bool :=
  match Entries.getText? es name with
  | none | some (.text _) => true
  | _ => false

def kindNamed (type : Option Value) : Option Kind :=
  match type with
  | some (.text t) =>
    if t == Text.ofString "module" then some .esModule
    else if t == Text.ofString "commonjs" then some .script
    else none
  | _ => none

def describe (p : Text) (bytes : List UInt8) : Except Failure Description :=
  match Json.Strict.parse? (Text.Utf8.decodeLenient bytes) with
  | some (.mapping es) =>
    if isTextOrAbsent es "name" && isTextOrAbsent es "type" then
      .ok ⟨(Entries.getText? es "main").bind Value.text?, kindNamed (Entries.getText? es "type")⟩
    else .error (badDescription p)
  | _ => .error (badDescription p)

def description (t : FileTree) (dir : Text) : Find (Option Description) := do
  let p := join dir "package.json"
  match assoc? p (← get).descriptions with
  | some d => return some d
  | none =>
    match t.bytes p with
    | .error _ => return none
    | .ok bytes =>
      match describe p bytes with
      | .error f => throw f
      | .ok d =>
        modify fun m => { m with descriptions := (p, d) :: m.descriptions }
        return some d

/-- The entry file of a directory whose description names one. -/
def entryFile (t : FileTree) (dir : Text) : Find (Option Text) :=
  (fun d => d.bind Description.main) <$> description t dir

/-- The first description that there is in directories in turn; a bad one is an error. -/
def firstDescription (t : FileTree) : List Location → Find (Option Description)
  | [] => return none
  | l :: ls => do
    match ← description t l.text with
    | some d => return some d
    | none => firstDescription t ls

def packagesName : Text := "node_modules"

/-- A place and those around it, the innermost first, up to a directory of packages or the outermost
place. -/
def outwards (l : Location) : List Location :=
  ((List.range l.length).reverse.map fun n => l.take (n + 1)).takeWhile fun d =>
    d.name != packagesName

def nearestDescription (t : FileTree) (file : Text) : Find (Option Description) :=
  firstDescription t (outwards (Path.toLocation file).parent)

def noEntryFile (p : Text) : Failure :=
  ⟨"Error", "Cannot find module '" ++ p ++
    "'. Please verify that the package.json has a valid \"main\" entry"⟩

def firstOf (tries : List (Find (Option Text))) : Find (Option Text) :=
  match tries with
  | [] => return none
  | f :: fs => do
    match ← f with
    | some p => return some p
    | none => firstOf fs

def tryDirectory (t : FileTree) (extensions : List Text) (dir : Text) : Find (Option Text) := do
  let index := tryExtensions t (join dir "index") extensions
  match ← entryFile t dir with
  | some main =>
    if main.isEmpty then index
    else
      let p := join dir main
      match ← firstOf [tryFile t p, tryExtensions t p extensions,
          tryExtensions t (join p "index") extensions, index] with
      | some f => return some f
      | none => throw (noEntryFile p)
  | none => index

def endsInDirectory (request : Text) : Bool :=
  Text.endsWith "/" request || Text.endsWith "/." request || Text.endsWith "/.." request ||
    request == Text.ofString "." || request == Text.ofString ".."

def isRelative (request : Text) : Bool :=
  Text.startsWith "./" request || Text.startsWith "../" request ||
    request == Text.ofString "." || request == Text.ofString ".."

/-- Whether a request stays below the directory that it starts from. -/
def staysInside (request : Text) : Bool :=
  !(isRelative request && Text.startsWith ".." (Path.normalize request))

def search (t : FileTree) (extensions : List Text) (request : Text) :
    List Text → Find (Option Text)
  | [] => return none
  | dir :: dirs => do
    if staysInside request && !dir.isEmpty && !t.hasDirectory dir then
      search t extensions request dirs
    else
      let base := join dir request
      let direct := if endsInDirectory request then return none
        else firstOf [tryFile t base, tryExtensions t base extensions]
      let asDirectory :=
        if t.hasDirectory base then tryDirectory t extensions base else return none
      match ← firstOf [direct, asDirectory] with
      | some f => return some f
      | none => search t extensions request dirs

def packageDirectories (l : Location) : List Text :=
  ((List.range (l.length + 1)).reverse.map fun n => l.take n).filterMap fun d =>
    if d.getLast? == some packagesName then none else some (Location.text (d ++ [packagesName]))

def isPath (request : Text) : Bool :=
  match request with
  | a :: r => a = '.' && (match r with
    | [] => true
    | b :: _ => b = '.' || b = '/')
  | [] => false

def directories (parent : Text) (request : Text) : List Text :=
  let dir := (Path.toLocation parent).parent
  if Path.isAbsolute request then [[]]
  else if isPath request then [dir.text]
  else packageDirectories dir

/-- What was found for a request in directories before, or what is found now and kept then. -/
def retrieve (t : FileTree) (extensions : List Text) (request : Text) (dirs : List Text) :
    Find (Option Text) := do
  match assoc? (request, dirs) (← get).found with
  | some f => return some f
  | none =>
    match ← search t extensions request dirs with
    | some f =>
      modify fun m => { m with found := ((request, dirs), f) :: m.found }
      return some f
    | none => return none

/-- Settles the request of a module to a file. The description that the module itself is under is
read first. -/
def lookup (t : FileTree) (extensions : List Text) (parent request : Text) :
    Find (Option Text) := do
  let _ ← nearestDescription t parent
  retrieve t extensions request (directories parent request)

/-! ## Kinds of files -/

def kindOf (t : FileTree) (file : Text) : Find (Option Kind) :=
  if Text.endsWith ".cjs" file then return some .script
  else if Text.endsWith ".mjs" file then return some .esModule
  else if Text.endsWith ".js" file then
    (fun d => d.bind Description.kind) <$> nearestDescription t file
  else return none

/-- Whether the text of a file is that of an ES module; where nothing else tells, its syntax does. -/
def isModule (e : Engine) (kind : Option Kind) (text : Text) : Bool :=
  match kind with
  | some k => k == .esModule
  | none => e.hasModuleSyntax text

/-- What an ES module comes to. Once evaluated it stays as it is: what its file holds later makes no
difference. -/
def importModule (e : Engine) (file text : Text) : Find Completion := do
  match assoc? file (← get).modules with
  | some kept => liftExcept (e.readModule file kept)
  | none =>
    let r ← liftExcept (e.readModule file text)
    modify fun m => { m with modules := (file, text) :: m.modules }
    return r

/-! ## Opening files -/

def readError (e : LookupError) (file : Text) : Text :=
  match e with
  | .missing => "ENOENT: no such file or directory, open '" ++ file ++ "'"
  | .notDirectory => "ENOTDIR: not a directory, open '" ++ file ++ "'"
  | .isDirectory => "EISDIR: illegal operation on a directory, read"
  | .loop => "ELOOP: too many symbolic links encountered, open '" ++ file ++ "'"
  | .nameTooLong => "ENAMETOOLONG: name too long, open '" ++ file ++ "'"

def textOf (t : FileTree) (file : Text) : Except Failure Text :=
  match t.bytes file with
  | .ok b => .ok (Text.Utf8.decodeLenient b)
  | .error e => .error ⟨"Error", readError e file⟩

/-- What a file holds that is not compiled: the text of a script, or an ES module, evaluated. -/
inductive Opened
  | script (text : Text)
  | esModule (r : Completion)

/-- Opens a file. The description that tells its kind is looked for before it is read. -/
def openFile (e : Engine) (t : FileTree) (file : Text) : Find Opened := do
  let kind ← kindOf t file
  let text ← liftExcept (textOf t file)
  if isModule e kind text then return .esModule (← importModule e file text)
  else return .script text

end ConfigLoader.Modules
