import ConfigLoader.FileTree
import ConfigLoader.Script.Encoding
import ConfigLoader.Script.Program
import ConfigLoader.Text.LowerCase

/-! # TypeScript compilers

What a worker asks of the compiler package: to find, read and convert options, to transpile a source on
its own or to check it as part of a program and emit files, which give findings and code to evaluate, and
to put findings into words.
-/
namespace ConfigLoader
open Script (Code Failure)

namespace TypeScript

inductive Category
  | warning
  | error
  | suggestion
  | message
  deriving DecidableEq, Repr

/-- The text of a finding with those that explain it. -/
inductive Chain
  | node (text : Text) (next : List Chain)

structure Place where
  file : Text
  line : Int
  column : Int
  deriving DecidableEq, Repr

/-- What a compiler has to say about a source. -/
structure Finding where
  code : Option Value
  /-- None of the categories where it is unknown. -/
  category : Option Category
  text : Chain
  place : Option Place
  /-- Whether the finding says where it starts. -/
  hasStart : Bool

namespace Finding

def isError (f : Finding) : Bool := f.category == some .error

def number (n : Int) : Value := .float (Binary64.ofInt n)

/-- The place of a finding as fields of a reply. -/
def placeFields (p : Place) : Entries :=
  [("file", .text p.file), ("line", number (p.line + 1)), ("column", number (p.column + 1))]

def noPlace : Entries := [("file", .null), ("line", .null), ("column", .null)]

end Finding

/-- What a compiler sees of the files when it checks a source. -/
structure Host where
  fileExists : Text → Bool
  sourceText : Text → Option Text
  readFile : Text → Option Text

/-- The result of a check: findings before and while files are emitted, and those files. -/
structure Checked where
  before : List Finding
  emitting : List Finding
  files : List (Text × Code)

end TypeScript

open TypeScript in
/-- A compiler package. Sources are given by the path and text of a file, with options. -/
structure TypeScript where
  version : Text
  /-- The text that a source is taken for that is none. -/
  sourceText : Option Value → Text
  transpile : Text → Text → Entries → List Finding × Code
  check : Host → Text → Entries → Checked
  /-- The configuration of a project for a directory. -/
  findConfigFile : FileTree → Text → Option Text
  /-- Reads a configuration, if it can be read. -/
  readConfigFile : FileTree → Text → Option Value
  /-- The options of a configuration that stands in a directory. -/
  parseConfig : FileTree → Value → Text → Except Failure Entries
  /-- Converts options that are given for a directory. -/
  convertOptions : Value → Value → Except Failure Entries
  /-- The option for modules that are scripts. -/
  commonJS : Value
  categoryName : Category → Option Text
  flatten : Chain → Text
  /-- The report of findings for readers in a directory. -/
  format : Value → List Finding → Option Text

namespace TypeScript
variable (ts : TypeScript)

namespace Finding

def message (f : Finding) : Text := ts.flatten f.text

/-- The finding as a part of a reply, if its category has a name: its place is told only where it starts
somewhere. -/
def document? (f : Finding) : Option Value := do
  let name ← f.category.bind ts.categoryName
  let code : Entries := match f.code with
    | some v => [("code", v)]
    | none => []
  let place : Entries := match f.place, f.hasStart with
    | some p, true => placeFields p
    | _, _ => noPlace
  return .mapping (code ++
    ([("category", .text (Text.lower name)), ("message", .text (f.message ts))] : Entries) ++ place)

end Finding

/-- The report of findings under its heading, if they can be put into words. -/
def report? (directory : Value) (fs : List Finding) : Option Text :=
  (ts.format directory fs).map fun report =>
    "Unable to compile TypeScript:\n" ++ Text.trimBlankEnd report

end TypeScript
end ConfigLoader
