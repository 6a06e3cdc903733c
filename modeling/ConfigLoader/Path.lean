import ConfigLoader.Text

/-! # Paths

A path as text is taken apart at slashes. A place in a file tree is a list of names from the root.
-/
namespace ConfigLoader

/-- The names from the root to a file or directory. -/
abbrev Location := List Text

namespace Location

def text (l : Location) : Text :=
  match l with
  | [] => "/"
  | l => l.flatMap fun n => '/' :: n

def parent (l : Location) : Location := l.dropLast

def name (l : Location) : Text := l.getLast?.getD []

end Location

namespace Path

def isAbsolute (p : Text) : Bool := p.head? = some (CodePoint.ofChar '/')

/-- The names of a path; empty ones and dots for the same directory are dropped. -/
def names (p : Text) : List Text :=
  (Text.splitAt '/' p).filter fun n => !n.isEmpty && n != Text.ofString "."

/-- One slash, or two where a path begins with exactly two. -/
def rootOf (p : Text) : Text :=
  match Text.afterStart? "//" p with
  | some r => if isAbsolute r then "/" else "//"
  | none => if isAbsolute p then "/" else []

/-- A path without empty names and dots; the empty path is a dot. -/
def tidy (p : Text) : Text :=
  let t := rootOf p ++ Text.join "/" (names p)
  if t.isEmpty then "." else t

/-- Adds a name to those before it, the last one first; a pair of dots takes a name back. -/
def takeName (absolute : Bool) (before : List Text) (n : Text) : List Text :=
  if n == Text.ofString ".." then
    match before with
    | [] => if absolute then [] else [n]
    | m :: r => if m == Text.ofString ".." then n :: before else r
  else n :: before

/-- Takes back a name for each pair of dots, as far as there are names. -/
def collapse (absolute : Bool) (ns : List Text) : List Text :=
  (ns.foldl (takeName absolute) []).reverse

/-- The path with every pair of dots taken back, without a look at the files. -/
def normalize (p : Text) : Text :=
  let t := rootOf p ++ Text.join "/" (collapse (isAbsolute p) (names p))
  if t.isEmpty then "." else t

def joinTo (dir p : Text) : Text :=
  if isAbsolute p then p
  else if dir.isEmpty || Text.endsWith "/" dir then dir ++ p
  else dir ++ "/" ++ p

def absolute (dir p : Text) : Text := normalize (joinTo dir p)

/-- The place that an absolute path names, every pair of dots taken back. -/
def toLocation (p : Text) : Location := collapse true (names p)

/-- The place of a path that is relative to another place. -/
def resolve (base : Location) (p : Text) : Location :=
  if isAbsolute p then toLocation p else collapse true (base ++ names p)

def name (p : Text) : Text := (names p).getLast?.getD []

/-- What stands before the last name of a path, without the slash between them. -/
def directory (p : Text) : Text :=
  let slash := CodePoint.ofChar '/'
  match (p.reverse.dropWhile (· == slash)).dropWhile (· != slash) with
  | [] => if isAbsolute p then "/" else "."
  | [_] => "/"
  | _ :: above => if isAbsolute p && above.length == 1 then "//" else above.reverse

/-- The last dot of a name and what follows it, where something stands on both sides. -/
def suffix (p : Text) : Text :=
  let n := name p
  let after := n.reverse.takeWhile fun (c : CodePoint) => c != '.'
  let stem := n.length - after.length
  if after.isEmpty || stem < 2 then [] else '.' :: after.reverse

def relative (base target : Location) : Text :=
  let shared := (List.zip base target).takeWhile (fun p => p.1 == p.2) |>.length
  let ups := List.replicate (base.length - shared) (Text.ofString "..")
  Text.join "/" (ups ++ target.drop shared)

end Path
end ConfigLoader
