import ConfigLoader.Script.Encoding
import ConfigLoader.Script.Program

/-! # Script engines

What a worker runs its scripts on: a stack that has an end, and modules of two kinds. A script is a list
of statements here, as a compiler gives it; of an ES module the engine tells what evaluating its text
comes to.
-/
namespace ConfigLoader
open Script (Failure Item)

/-- The values that an ES module exports by name. -/
abbrev Exports := List (Text × Item)

/-- What evaluating an ES module comes to: what it exports, or the value that it throws. -/
abbrev Completion := Except Item Exports

/-- Whether a completion holds no place of a heap. -/
def Completion.isPlaceFree : Completion → Bool
  | .ok es => Item.areFieldsBelow 0 es
  | .error v => v.isBelow 0

structure Engine where
  /-- How many modules can lead to each other. -/
  calls : Nat
  /-- How many objects within each other can be written as JSON while a request is handled. -/
  values : Nat
  /-- How many can be written in a frame. -/
  frames : Nat
  /-- To how many levels values are shown as text. -/
  texts : Nat
  /-- There is room for the findings in an answer, and for a scalar. -/
  enough : 3 ≤ frames ∧ 1 ≤ texts
  /-- Whether a text is that of an ES module, where nothing else tells. -/
  hasModuleSyntax : Text → Bool
  /-- Evaluates the text of an ES module in a file, if it can be read. -/
  readModule : Text → Text → Except Failure Completion
  placeFree : ∀ file text r, readModule file text = .ok r → r.isPlaceFree = true

/-! ## A plain engine -/

namespace Engine

/-- What a line of an ES module exports: a constant, or what is exported by default. -/
def exported? (line : Text) : Option (Text × Value) := do
  let r ← Text.afterStart? "export " (Script.withoutSemicolon line)
  match Text.afterStart? "default " r with
  | some value => return ("default", ← Json.Strict.parse? value)
  | none =>
    let r ← Text.afterStart? "const " r
    let name := r.takeWhile fun (c : CodePoint) => c != ' '
    let value ← Text.afterStart? " = " (r.drop name.length)
    return (name, ← Json.Strict.parse? value)

def linesOf (text : Text) : List Text :=
  (Text.splitAt '\n' text).filter fun l => !l.isBlank

/-- What an ES module exports whose lines are exports; a module with a default export says so. -/
def exportsOf? (text : Text) : Option (List (Text × Value)) := do
  let es ← (linesOf text).mapM exported?
  if es.any fun e => e.1 == Text.ofString "default" then
    return (("__esModule", .bool true) :: es)
  else return es

def unreadable : Failure := ⟨"SyntaxError", "Invalid or unexpected token"⟩

def readExports (_ text : Text) : Except Failure Completion :=
  match exportsOf? text with
  | some es => .ok (.ok (es.map fun e => (e.1, Item.ofValue e.2)))
  | none => .error unreadable

theorem readExports_placeFree (file text : Text) (r : Completion)
    (h : readExports file text = .ok r) : r.isPlaceFree = true := by
  unfold readExports at h
  split at h
  · cases h
    exact Item.areFieldsBelow_iff.mpr fun f hf => by
      obtain ⟨e, -, rfl⟩ := List.mem_map.mp hf
      exact Item.ofValue_isBelow 0 e.2
  · cases h

/-- An engine for ES modules whose lines are exports, with about the room that stacks have. -/
def plain : Engine where
  calls := 600
  values := 4000
  frames := 4000
  texts := 3000
  enough := by decide
  hasModuleSyntax text := (exportsOf? text).any fun es => !es.isEmpty
  readModule := readExports
  placeFree := readExports_placeFree

end Engine
end ConfigLoader
