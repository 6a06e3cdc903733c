import ConfigLoader.Validation
import ConfigLoader.Value

/-! # Compiler settings

Settings are a record with a default for every field. User settings are merged over the defaults
and the result is read as a record.
-/
namespace ConfigLoader

structure Settings where
  nodeExecutable : Text
  typescript : Text
  cwd : Option Text
  typeCheck : Bool
  compilerOptions : Entries

namespace Settings
open Validation

def default : Settings := ⟨"node", "typescript", none, true, []⟩

/-- The defaults as a mapping that user settings are merged over. -/
def defaultEntries : Entries := [
  ("node_executable", "node"),
  ("typescript", "typescript"),
  ("cwd", .null),
  ("type_check", .bool true),
  ("compiler_options", .mapping [])]

def ofEntries (es : Entries) : Checked Settings :=
  let start : Checked (Text → Text → Option Text → Bool → Entries → Settings) := .ok Settings.mk
  let apply {α β : Type} (f : α → β) (a : α) : β := f a
  let c := start.and apply (field es "node_executable" (some default.nodeExecutable) text)
  let c := c.and apply (field es "typescript" (some default.typescript) text)
  let c := c.and apply (field es "cwd" (some default.cwd) (optional text))
  let c := c.and apply (field es "type_check" (some default.typeCheck) boolean)
  c.and apply (field es "compiler_options" (some default.compilerOptions) mapping)

/-- Reads settings from a mapping; other keys are ignored. -/
def read (v : Value) : Except Fault Settings :=
  orFault "CompilerSettings" (record "CompilerSettings" ofEntries v)

def build (raw : Value) : Except Fault Settings :=
  match raw with
  | .mapping es => read (.mapping (Entries.deepMerge defaultEntries es))
  | v => .error (Fault.noAttribute v "items")

end Settings
end ConfigLoader
