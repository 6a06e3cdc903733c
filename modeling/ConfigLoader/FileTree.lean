import ConfigLoader.Fault
import ConfigLoader.Path
import ConfigLoader.Text.Utf8

/-! # File trees

Files, directories and symbolic links under places, with a current directory. A place is settled by
following the links on the way to it; a failed look-up has a number and a reason.
-/
namespace ConfigLoader

inductive Entry
  | file (bytes : List UInt8)
  | directory
  | link (target : Text)
  deriving DecidableEq, Repr

structure FileTree where
  entries : List (Location × Entry)
  cwd : Location
  deriving DecidableEq, Repr

inductive LookupError
  | missing
  | notDirectory
  | isDirectory
  | loop
  | nameTooLong
  deriving DecidableEq, Repr

def LookupError.number : LookupError → Int
  | .missing => 2
  | .notDirectory => 20
  | .isDirectory => 21
  | .loop => 40
  | .nameTooLong => 36

def LookupError.reason : LookupError → Text
  | .missing => "No such file or directory"
  | .notDirectory => "Not a directory"
  | .isDirectory => "Is a directory"
  | .loop => "Too many levels of symbolic links"
  | .nameTooLong => "File name too long"

/-- The fault of a system call that names a file. -/
def LookupError.fault (e : LookupError) (file : Text) : Fault :=
  Fault.system e.number e.reason (some (.text file))

namespace FileTree

/-- The entry at a place, links not followed. -/
def at? (t : FileTree) (l : Location) : Option Entry :=
  match l with
  | [] => some .directory
  | l => (t.entries.find? fun e => e.1 == l).map Prod.snd

def isLink (t : FileTree) (l : Location) : Bool :=
  match t.at? l with
  | some (.link _) => true
  | _ => false

def nameLimit : Nat := 255

def tooLong (n : Text) : Bool := nameLimit < (Text.Utf8.encode n).length

/-- The fewest bytes of a path that the system does not take as a whole. -/
def pathLimit : Nat := 4096

def longPath (p : Text) : Bool := pathLimit ≤ (Text.Utf8.encode p).length

/-- The most links that are followed on the way to a place. -/
def linkLimit : Nat := 40

/-- Follows names from a settled place, with at most `links` links and `fuel` steps. -/
def walk (t : FileTree) : Nat → Nat → Location → List Text → Except LookupError Location
  | 0, _, _, _ => .error .loop
  | _ + 1, _, here, [] => .ok here
  | fuel + 1, links, here, n :: rest =>
    if t.at? here ≠ some .directory then
      .error (if (t.at? here).isSome then .notDirectory else .missing)
    else if n == Text.ofString ".." then walk t fuel links here.parent rest
    else if tooLong n then .error .nameTooLong
    else
      match t.at? (here ++ [n]) with
      | none => .error .missing
      | some (.link target) =>
        match links with
        | 0 => .error .loop
        | links + 1 =>
          let start := if Path.isAbsolute target then [] else here
          walk t fuel links start (Path.names target ++ rest)
      | some _ => walk t fuel links (here ++ [n]) rest

def walkFuel (t : FileTree) (ns : List Text) : Nat :=
  (t.entries.foldl (fun n e => match e.2 with
    | .link target => n + target.length
    | _ => n) 0 + ns.length + 1) * (linkLimit + 2)

def refusal? (p : Text) : Option LookupError :=
  if longPath p then some .nameTooLong else if p.isEmpty then some .missing else none

/-- A place that a walk ends at, if the path may end there: a slash at its end asks for a directory. -/
def arrive (t : FileTree) (p : Text) (l : Location) : Except LookupError Location :=
  if Text.endsWith "/" p && t.at? l ≠ some .directory then .error .notDirectory else .ok l

theorem arrive_eq_ok {t : FileTree} {p : Text} {q r : Location} (h : t.arrive p q = .ok r) :
    q = r := by
  unfold arrive at h
  split at h
  · cases h
  · cases h
    rfl

/-- The settled place of a path that is relative to `base`, every link followed. -/
def locateFrom (t : FileTree) (base : Location) (p : Text) : Except LookupError Location :=
  match refusal? p with
  | some e => .error e
  | none =>
    match t.walk (t.walkFuel (Path.names p)) linkLimit (if Path.isAbsolute p then [] else base)
      (Path.names p) with
    | .error e => .error e
    | .ok l => t.arrive p l

def locate (t : FileTree) (p : Text) : Except LookupError Location := t.locateFrom t.cwd p

def stat (t : FileTree) (p : Text) : Except LookupError Entry := do
  let l ← t.locate p
  match t.at? l with
  | some e => .ok e
  | none => .error .missing

def bytes (t : FileTree) (p : Text) : Except LookupError (List UInt8) := do
  match ← t.stat p with
  | .file b => .ok b
  | .directory => .error .isDirectory
  | .link _ => .error .loop

/-- Whether a path names a file, links followed. -/
def hasFile (t : FileTree) (p : Text) : Bool :=
  match t.stat p with
  | .ok (.file _) => true
  | _ => false

def hasDirectory (t : FileTree) (p : Text) : Bool :=
  match t.stat p with
  | .ok .directory => true
  | _ => false

/-- The text of a file; bytes that are no text become replacement characters. -/
def text? (t : FileTree) (p : Text) : Option Text :=
  (t.bytes p).toOption.map Text.Utf8.decodeLenient

/-- Replaces the entry at a place, or adds one. -/
def put (t : FileTree) (l : Location) (e : Entry) : FileTree :=
  if t.entries.any fun x => x.1 == l then
    { t with entries := t.entries.map fun x => if x.1 == l then (l, e) else x }
  else { t with entries := t.entries ++ [(l, e)] }

/-- Adds the missing directories on the way to a place and at it. -/
def makeDirectories (t : FileTree) (l : Location) : FileTree :=
  ((List.range l.length).map fun i => l.take (i + 1)).foldl
    (fun t d => if (t.at? d).isSome then t else t.put d .directory) t

def remove (t : FileTree) (l : Location) : FileTree :=
  { t with entries := t.entries.filter fun e => !(l.isPrefixOf e.1) }

/-- A path whose links are followed, as it is spelt: its names from the root, or from the current
directory. -/
structure Spelling where
  absolute : Bool
  names : List Text
  deriving DecidableEq, Repr

namespace Spelling

/-- Goes on with a name; a pair of dots takes a name back where there is one. -/
def add (s : Spelling) (n : Text) : Spelling :=
  { s with names := (Path.takeName s.absolute s.names.reverse n).reverse }

def text (s : Spelling) : Text :=
  if s.absolute then Location.text s.names else Text.join "/" s.names

def location (s : Spelling) (cwd : Location) : Location :=
  Path.collapse true (if s.absolute then s.names else cwd ++ s.names)

end Spelling

/-- Links met, with what they lead to once that is known. -/
abbrev Links := List (Spelling × Option Spelling)

def Links.note (seen : Links) (s : Spelling) (r : Option Spelling) : Links :=
  (s, r) :: seen.filter fun e => e.1 != s

/-- The result of settling a path by its names alone but for links: the path reached, the links met,
and whether no link led back to itself. -/
structure Settled where
  path : Spelling
  seen : Links
  complete : Bool

/-- The link at a place, where the system takes the path to it. -/
def linkAt? (t : FileTree) (s : Spelling) : Option Text :=
  match t.at? (s.location t.cwd) with
  | some (.link target) => if longPath s.text then none else some target
  | _ => none

/-- Settles a path as far as there are files; missing ones are kept as they are written. -/
def settle (t : FileTree) : Nat → Spelling → List Text → Links → Settled
  | 0, here, rest, seen => ⟨rest.foldl Spelling.add here, seen, false⟩
  | _ + 1, here, [], seen => ⟨here, seen, true⟩
  | fuel + 1, here, n :: rest, seen =>
    let next := here.add n
    if n == Text.ofString ".." then settle t fuel next rest seen
    else
      match t.linkAt? next with
      | some target =>
        match seen.find? fun e => e.1 == next with
        | some (_, some s) => settle t fuel s rest seen
        | some (_, none) => ⟨rest.foldl Spelling.add next, seen, false⟩
        | none =>
          let start := if Path.isAbsolute target then ⟨true, []⟩ else here
          let r := settle t fuel start (Path.names target) (seen.note next none)
          if r.complete then settle t fuel r.path rest (r.seen.note next (some r.path))
          else ⟨rest.foldl Spelling.add r.path, r.seen, false⟩
      | none => settle t fuel next rest seen

/-- The absolute path with its links followed, whether or not all of it exists. -/
def realPath (t : FileTree) (p : Text) : Location :=
  let ns := Path.names p
  (t.settle (t.walkFuel ns) ⟨Path.isAbsolute p, []⟩ ns []).path.location t.cwd

/-- A null character, which no system call takes. -/
def holdsNull (p : Text) : Bool := p.contains 0

def nullFault : Fault := Fault.valueError "embedded null byte"

/-- The resolved place of a path; a link that leads back to itself is a fault. -/
def resolve (t : FileTree) (p : Text) : Except Fault Location :=
  if holdsNull p then .error nullFault
  else
    let l := t.realPath p
    match t.stat l.text with
    | .error .loop =>
      .error (.of .runtimeError ("Symlink loop from " ++ l.text.literal))
    | _ => .ok l

/-- Whether a test holds of what a path names: nothing there is no fault, a name too long is. -/
def test (t : FileTree) (p : Text) (f : Entry → Bool) : Except Fault Bool :=
  if holdsNull p then .ok false
  else match t.stat p with
    | .ok e => .ok (f e)
    | .error .nameTooLong => .error (LookupError.nameTooLong.fault p)
    | .error _ => .ok false

def isFile (t : FileTree) (p : Text) : Except Fault Bool :=
  t.test p fun
    | .file _ => true
    | _ => false

def isPresent (t : FileTree) (p : Text) : Except Fault Bool := t.test p fun _ => true

/-- The text of a file, with every kind of line end read as a line feed. -/
def readText (t : FileTree) (p : Text) : Except Fault Text :=
  match t.bytes p with
  | .error e => .error (e.fault p)
  | .ok b => match Text.Utf8.decode b with
    | .error f => .error (Fault.ofUtf8 f.start f.count b f.reason.message)
    | .ok text => .ok (Text.unifyNewlines text)

def write (t : FileTree) (p : Text) (e : Entry) : FileTree :=
  match e with
  | .directory => t.makeDirectories (t.realPath p)
  | .link _ =>
    let l := Path.resolve t.cwd p
    let dir := t.realPath l.parent.text
    (t.makeDirectories dir).put (dir ++ [l.name]) e
  | .file _ =>
    let l := t.realPath p
    (t.makeDirectories l.parent).put l e

end FileTree
end ConfigLoader
