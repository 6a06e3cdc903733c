import ConfigLoader.Child.Machine
import ConfigLoader.Command
import ConfigLoader.Compiler
import ConfigLoader.TypeScript.Scripted

/-! # Main

The command on the files that its arguments name. Documents are loaded; a program cannot be started
from here, so a module ends with the fault of a start that fails.
-/
namespace ConfigLoader.Main

def read? (path : String) : IO (Option (List UInt8)) := do
  try
    return some (← IO.FS.readBinFile path).toList
  catch _ => return none

/-- The path with its links followed, if something is there. -/
def real? (path : String) : IO (Option String) := do
  try
    return some (← IO.FS.realPath path).toString
  catch _ => return none

def add (t : FileTree) (path : Text) : IO FileTree := do
  let place := Path.resolve t.cwd path
  match ← real? place.text.toString with
  | none => return t
  | some real =>
    let realPlace := Path.toLocation real
    let t := if realPlace == place then t
      else (t.makeDirectories place.parent).put place (.link real)
    match ← read? real with
    | some bytes => return t.write real (.file bytes)
    | none => return t.write real .directory

def changes (before after : FileTree) : List (Location × List UInt8) :=
  after.entries.filterMap fun e => match e.2 with
    | .file bytes => if before.at? e.1 = some e.2 then none else some (e.1, bytes)
    | _ => none

/-- The settings files that are looked for when no argument names one. -/
def defaults : IO (List Text) := do
  let home := (← IO.getEnv "HOME").getD "/"
  let base := (← IO.getEnv "XDG_CONFIG_HOME").getD (home ++ "/.config")
  let dir := Text.ofString base ++ "/ts-config-loader/"
  return [dir ++ "config.yaml", dir ++ "config.yml"]

def script : Text := "ts_worker.js"

def machine (t : FileTree) : Child.Machine :=
  ⟨.plain, t, script, [], TypeScript.Scripted.compiler, [], []⟩

def site (here stamp : Text) (defaults : List Text) : Command.Site Child.Machine Compiler where
  program := "cli"
  limits := .usual
  ops := Compiler.service (Child.Machine.ops .usual) ⟨here, script⟩
  world := machine
  write _ m := m
  defaults := defaults
  stamp := stamp

def exitCode : Command.Ending → UInt32
  | .exit code => UInt32.ofNat (code % 256).toNat
  | .escaped _ => 1

/-- What is shown of a fault that nothing handles. -/
def escapedText : Command.Ending → Text
  | .exit _ => []
  | .escaped f => f.kind.name ++ ": " ++ f.message ++ "\n"

end ConfigLoader.Main

open ConfigLoader in
def main (args : List String) : IO UInt32 := do
  let args := args.map Text.ofString
  let here := Text.ofString (← IO.currentDir).toString
  let defaults ← Main.defaults
  let place := Path.toLocation here
  let start : FileTree := (FileTree.mk [] place).makeDirectories place
  let tree ← (args ++ defaults).foldlM Main.add start
  let stamp := Text.ofNat (← IO.monoMsNow)
  let o := Command.run (Main.site here stamp defaults) tree args
  for (place, bytes) in Main.changes tree o.tree do
    IO.FS.writeBinFile place.text.toString (ByteArray.mk bytes.toArray)
  IO.print o.report.output.toString
  IO.eprint (o.report.errors ++ o.report.parting ++ Main.escapedText o.report.ending).toString
  return Main.exitCode o.report.ending
