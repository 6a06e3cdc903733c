import ConfigLoader.Text

/-! # Blank characters

The characters that scripts take for space or the end of a line.
-/
namespace ConfigLoader

def CodePoint.isBlank (c : CodePoint) : Bool :=
  (9 ≤ c.val && c.val ≤ 13) || c.val = 0x20 || c.val = 0xA0 || c.val = 0x1680 ||
    (0x2000 ≤ c.val && c.val ≤ 0x200A) || c.val = 0x2028 || c.val = 0x2029 || c.val = 0x202F ||
    c.val = 0x205F || c.val = 0x3000 || c.val = 0xFEFF

namespace Text

def isBlank (t : Text) : Bool := t.all (·.isBlank)

def trimBlank (t : Text) : Text := Text.trim (·.isBlank) t

def trimBlankEnd (t : Text) : Text := Text.trimEnd (·.isBlank) t

/-- The lines of a text. A line ends at a line feed, a carriage return, or both of them in this
order; `line` holds the line so far, in reverse, and what no end follows is left over. -/
def splitLines (line : Text) : Text → List Text × Text
  | [] => ([], line.reverse)
  | [c] =>
    if c.val = 10 || c.val = 13 then ([line.reverse], []) else ([], (c :: line).reverse)
  | c :: d :: r =>
    if c.val = 13 && d.val = 10 then
      let (ls, rest) := splitLines [] r
      (line.reverse :: ls, rest)
    else if c.val = 10 || c.val = 13 then
      let (ls, rest) := splitLines [] (d :: r)
      (line.reverse :: ls, rest)
    else splitLines (c :: line) (d :: r)

end Text
end ConfigLoader
