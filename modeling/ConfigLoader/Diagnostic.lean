import ConfigLoader.Text

/-! # Diagnostics -/
namespace ConfigLoader

/-- What a compiler reports about a place in a file. -/
structure Diagnostic where
  code : Int
  category : Text
  message : Text
  file : Option Text
  line : Option Int
  column : Option Int
  deriving DecidableEq, Repr

namespace Diagnostic

def location (d : Diagnostic) : Text :=
  match d.file, d.line with
  | none, _ => []
  | some f, none => f ++ ": "
  | some f, some l =>
    let column := match d.column with
      | none => 1
      | some c => if c = 0 then 1 else c
    f ++ "(" ++ Text.ofInt l ++ "," ++ Text.ofInt column ++ "): "

def format (d : Diagnostic) : Text :=
  d.location ++ d.category ++ " TS" ++ Text.ofInt d.code ++ ": " ++ d.message

end Diagnostic
end ConfigLoader
