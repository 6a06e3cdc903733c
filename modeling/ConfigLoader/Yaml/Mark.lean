import ConfigLoader.Limits

/-! # Marks and faults of YAML documents

A mark is a place of a document. A fault shows the place with an excerpt of its line.
-/
namespace ConfigLoader.Yaml

structure Mark where
  index : Nat
  line : Nat
  column : Nat
  deriving DecidableEq, Repr, Inhabited

/-- The line breaks: line feed, carriage return, next line, line and paragraph separator. -/
def isBreak (c : CodePoint) : Bool :=
  c.val = 10 || c.val = 13 || c.val = 0x85 || c.val = 0x2028 || c.val = 0x2029

namespace Mark

/-- A side of so many code points is cut, to five less. -/
def excerptWidth : Nat := 37

def spaces (n : Nat) : Text := List.replicate n 32

/-- One side of an excerpt, outwards from the place, and whether it was cut. -/
def side (t : Text) : Text × Bool :=
  let line := t.takeWhile fun c => !isBreak c
  if excerptWidth ≤ line.length then (line.take (excerptWidth - 5), true) else (line, false)

def excerpt (document : Text) (m : Mark) : Text :=
  let (before, cutBefore) := side (document.take m.index).reverse
  let (after, cutAfter) := side (document.drop m.index)
  let dots : Text := " ... "
  let head : Text := if cutBefore then dots else []
  let tail : Text := if cutAfter then dots else []
  spaces 4 ++ head ++ before.reverse ++ after ++ tail ++ "\n" ++
    spaces (4 + before.length + head.length) ++ "^"

def describe (document : Text) (m : Mark) : Text :=
  "  in \"<unicode string>\", line " ++ Text.ofNat (m.line + 1) ++ ", column " ++
    Text.ofNat (m.column + 1) ++ ":\n" ++ excerpt document m

end Mark

/-- The stages that can find a document at fault. -/
inductive Stage
  | scanner
  | parser
  | composer
  | constructor
  deriving DecidableEq, Repr

def Stage.kind : Stage → Fault.Kind
  | .scanner => .scannerError
  | .parser => .parserError
  | .composer => .composerError
  | .constructor => .constructorError

inductive Error
  /-- A problem at a mark, found in a context that began at another. -/
  | marked (stage : Stage) (context : Option (Text × Option Mark)) (problem : Text) (mark : Mark)
  | unreadable (c : CodePoint) (index : Nat)
  /-- An escape with a number that no character has. -/
  | character (n : Nat)
  /-- Collections lie within each other too deep to be composed. -/
  | tooDeep

def Error.scanner (context problem : Text) (start mark : Mark) : Error :=
  .marked .scanner (some (context, some start)) problem mark

/-- A problem in a context whose beginning is not shown. -/
def Error.scannerWithin (context problem : Text) (mark : Mark) : Error :=
  .marked .scanner (some (context, none)) problem mark

def Error.fault (document : Text) : Error → Fault
  | .character n =>
    if n < 2 ^ 31 then Fault.valueError "chr() arg not in range(0x110000)"
    else .of .overflowError "Python int too large to convert to C int"
  | .tooDeep => .recursion " while calling a Python object"
  | .unreadable c index =>
    Fault.documentFault .readerError
      ("unacceptable character #x" ++ Text.hex 4 c.val ++
        ": special characters are not allowed\n  in \"<unicode string>\", position " ++ Text.ofNat index)
  | .marked stage context problem mark =>
    let place : List Text := match context with
      | none => []
      | some (text, none) => [text]
      | some (text, some m) =>
        if m.line = mark.line ∧ m.column = mark.column then [text]
        else [text, m.describe document]
    Fault.documentFault stage.kind
      (Text.join "\n" (place ++ [problem, mark.describe document]))

end ConfigLoader.Yaml
