import ConfigLoader.FileTree
import ConfigLoader.Json.Reader
import ConfigLoader.Loader
import ConfigLoader.Text.LowerCase
import ConfigLoader.Yaml.Document

/-! # Configuration files

A configuration file is read and given to the reader that its extension asks for. A table pairs
extensions with readers; what a reader does is left to those who use the table. The standard table
knows a loader for modules, and documents that need none.
-/
namespace ConfigLoader.ConfigFile

abbrev Table (R : Type) := List (Text × R)

/-- The reader of an extension, without regard to case: the last one in the table. -/
def Table.find? {R : Type} (t : Table R) (extension : Text) : Option R :=
  ((List.reverse t).find? fun e => e.1.lower == extension.lower).map Prod.snd

/-- A file that is to be read: where it is, what it holds, and by which reader. -/
structure Request (R : Type) where
  path : Text
  content : Text
  reader : R

def unsupported (path : Text) : Fault :=
  let kind := Path.suffix path
  let shown : Text := if kind.isEmpty then "files without extension" else kind
  .of .unsupportedExtensionError ("No loader registered for " ++ shown ++ ": " ++ path)

/-- Finds a file and its reader: resolve the path, look up the extension, read the file. -/
def open? {R : Type} (table : Table R) (t : FileTree) (path : Text) : Except Fault (Request R) := do
  let p := (← t.resolve (Path.tidy path)).text
  match table.find? (Path.suffix p) with
  | none => throw (unsupported p)
  | some reader =>
    if ← t.isFile p then return ⟨p, ← t.readText p, reader⟩
    else throw (.of .fileNotFoundError ("Config file not found: " ++ p))

structure Loaded where
  path : Text
  value : Value

def loadingRecord (path content : Text) : LogRecord :=
  ⟨.debug, .host, "Loading " ++ path ++ " (" ++ Text.ofNat content.length ++ " chars)"⟩

/-- Loads a file with the reader that a table gives it, in a state that takes records. -/
def load {R σ : Type} (table : Table R) (record : LogRecord → σ → σ)
    (read : R → Text → Text → σ → Except Fault Value × σ) (t : FileTree) (path : Text) (s : σ) :
    Except Fault Loaded × σ :=
  match open? table t path with
  | .error f => (.error f, s)
  | .ok q =>
    let (r, s) := read q.reader q.path q.content (record (loadingRecord q.path q.content) s)
    (r.map (Loaded.mk q.path), s)

inductive Reader
  | typescript
  | json
  | yaml
  deriving DecidableEq, Repr

def standardTable : Table Reader := [
  (".ts", .typescript), (".mts", .typescript), (".cts", .typescript), (".json", .json),
  (".yaml", .yaml), (".yml", .yaml)]

/-- Reads a document, or gives a module to a loader. -/
def readStandard {W S : Type} (limits : Limits) (ops : ServiceOps W S) (reader : Reader)
    (path content : Text) (l : Loader W S) : Except Fault Value × Loader W S :=
  match reader with
  | .json => (Json.load limits.reading content, l)
  | .yaml => (Yaml.load limits.composing content, l)
  | .typescript => l.call ops (.text path) (.text content)

def loadStandard {W S : Type} (limits : Limits) (ops : ServiceOps W S) (t : FileTree) (path : Text)
    (l : Loader W S) : Except Fault Loaded × Loader W S :=
  load standardTable Loader.record (readStandard limits ops) t path l

end ConfigLoader.ConfigFile
