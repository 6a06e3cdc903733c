import ConfigLoader.TypeScript

/-! # Compiler options

The options for a file come from three layers: the nearest configuration of the project, the
settings of the worker, and fixed options that make the output a script that can be run. A later
layer wins.
-/
namespace ConfigLoader.TypeScript
namespace Options

def assign (below layer : Entries) : Entries :=
  layer.foldl (fun es e => es.put e.1 e.2) below

def fixed (ts : TypeScript) : Entries := [
  ("module", ts.commonJS), ("noEmit", .bool false), ("noEmitOnError", .bool false),
  ("emitDeclarationOnly", .bool false), ("declaration", .bool false), ("sourceMap", .bool false),
  ("inlineSourceMap", .bool false), ("composite", .bool false), ("incremental", .bool false)]

/-- The options that are always left out. -/
def dropped : List Text := ["outDir", "outFile"]

def isDropped (e : Value × Value) : Bool := dropped.contains (Json.Canonical.keyText e.1)

/-- The effective options over the two lower layers. -/
def effective (ts : TypeScript) (project settings : Entries) : Entries :=
  (assign (assign project settings) (fixed ts)).filter fun e => !isDropped e

end Options

/-! ## Project configurations

The options of a project stand in a configuration that the compiler finds for the directory of a file. A
configuration that cannot be read gives none. The first options found for a directory are kept.
-/

namespace Project
open Script (Failure)

def lookup (ts : TypeScript) (t : FileTree) (dir : Location) : Except Failure Entries :=
  match ts.findConfigFile t dir.text with
  | none | some [] => .ok []
  | some file =>
    match ts.readConfigFile t file with
    | none => .ok []
    | some v => ts.parseConfig t v (Path.directory file)

abbrev Kept := List (Location × Entries)

def Kept.get? (k : Kept) (dir : Location) : Option Entries :=
  (k.find? fun e => e.1 == dir).map Prod.snd

/-- The options for the files of a directory: those kept for it, or those looked up, which are kept
then. -/
def options (ts : TypeScript) (t : FileTree) (dir : Location) (k : Kept) : Except Failure Entries × Kept :=
  match k.get? dir with
  | some es => (.ok es, k)
  | none =>
    match lookup ts t dir with
    | .ok es => (.ok es, (dir, es) :: k)
    | .error f => (.error f, k)

end Project
end ConfigLoader.TypeScript
