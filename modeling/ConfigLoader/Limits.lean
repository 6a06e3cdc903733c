import ConfigLoader.Fault

/-! # Limits of nesting

What lies within something else is gone through by calls within calls, and the stack has an end. So
there is a limit on nesting for every way to go through values, and going further is a fault.
-/
namespace ConfigLoader

/-- How many levels of nesting there is room for on the stack, for each way to go through values. -/
structure Limits where
  /-- Reading JSON. -/
  reading : Nat
  /-- Writing JSON on one line. -/
  writing : Nat
  /-- Writing JSON that is indented. -/
  printing : Nat
  /-- Showing values in messages. -/
  showing : Nat
  /-- Merging mappings. -/
  merging : Nat
  /-- Composing the nodes of YAML documents. -/
  composing : Nat
  /-- There is room for a leaf, for the mapping of a mapping that settings are, and for the findings in an
  answer. -/
  enough : 2 ≤ writing ∧ 1 ≤ showing ∧ 2 ≤ merging ∧ 3 ≤ reading

/-- About what a stack of a thousand calls has room for. -/
def Limits.usual : Limits := ⟨990, 990, 990, 990, 990, 480, by decide⟩

namespace Fault

/-- The stack has no room left; `place` says what was being done. -/
def recursion (place : Text) : Fault :=
  of .recursionError ("maximum recursion depth exceeded" ++ place)

end Fault
end ConfigLoader
