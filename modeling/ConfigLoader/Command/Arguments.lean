import ConfigLoader.FileTree
import ConfigLoader.Text.Similar
import ConfigLoader.Value.Literal

/-! # Arguments

The arguments of the command: one configuration file, and options before or after it. All arguments
are read before any is checked. The options that only show a text come first, then the options in
the order in which they are given, then the file.
-/
namespace ConfigLoader.Command

inductive Switch
  | settings
  | noTypeCheck
  | debugLog
  | version
  | help
  deriving DecidableEq, Repr

namespace Switch

def all : List Switch := [.settings, .noTypeCheck, .debugLog, .version, .help]

def name : Switch → Text
  | .settings => "--settings"
  | .noTypeCheck => "--no-type-check"
  | .debugLog => "--debug-log"
  | .version => "--version"
  | .help => "--help"

def ofName? (t : Text) : Option Switch := all.find? fun s => s.name == t

def ofLetter? (c : CodePoint) : Option Switch := if c = 's' then some .settings else none

def takesValue : Switch → Bool
  | .settings | .debugLog => true
  | _ => false

end Switch

def argumentName : Text := "CONFIG_FILE"

inductive Subject
  | config
  | settings
  | debugLog
  deriving DecidableEq, Repr

def Subject.hint : Subject → Text
  | .config => "'" ++ argumentName ++ "'"
  | .settings => "'-s' / '--settings'"
  | .debugLog => "'--debug-log'"

inductive UsageError
  | unknownOption (name : Text) (near : List Text)
  | missingValue (name : Text)
  | unwantedValue (name : Text)
  | missingFile (s : Subject) (file : Text)
  | directory (s : Subject) (file : Text)
  | missingArgument
  | extraArguments (args : List Text)
  deriving DecidableEq, Repr

namespace UsageError

def invalid (s : Subject) (reason : Text) : Text := "Invalid value for " ++ s.hint ++ ": " ++ reason

def offers (near : List Text) : Text :=
  match near with
  | [] => []
  | [n] => " Did you mean " ++ n.literal ++ "?"
  | ns => " (Possible options: " ++ Text.join ", " (ns.map Text.literal) ++ ")"

def message : UsageError → Text
  | .unknownOption name near => "No such option " ++ name.literal ++ "." ++ offers near
  | .missingValue name => "Option " ++ name.literal ++ " requires an argument."
  | .unwantedValue name => "Option " ++ name.literal ++ " does not take a value."
  | .missingFile s file => invalid s ("File " ++ file.literal ++ " does not exist.")
  | .directory s file => invalid s ("File " ++ file.literal ++ " is a directory.")
  | .missingArgument => "Missing argument '" ++ argumentName ++ "'."
  | .extraArguments args =>
    let noun : Text := if args.length = 1 then "argument" else "arguments"
    "Got unexpected extra " ++ noun ++ " (" ++ Text.join " " args ++ ")"

/-- Whether the usage is shown above the message. -/
def showsUsage : UsageError → Bool
  | .missingValue _ | .unwantedValue _ => false
  | _ => true

end UsageError

/-! ## Reading -/

structure Given where
  settings : Option Text
  debugLog : Option Text
  noTypeCheck : Bool
  /-- The options in the order in which they are given first. -/
  mentioned : List Switch
  /-- The arguments that are no options. -/
  rest : List Text

namespace Given

def empty : Given := ⟨none, none, false, [], []⟩

def mention (s : Switch) (g : Given) : Given :=
  if g.mentioned.contains s then g else { g with mentioned := g.mentioned ++ [s] }

def setFlag (s : Switch) (g : Given) : Given :=
  let g := g.mention s
  match s with
  | .noTypeCheck => { g with noTypeCheck := true }
  | _ => g

/-- Gives an option a value; the last one counts. -/
def setValue (s : Switch) (v : Text) (g : Given) : Given :=
  let g := g.mention s
  match s with
  | .settings => { g with settings := some v }
  | .debugLog => { g with debugLog := some v }
  | _ => g

def addRest (ts : List Text) (g : Given) : Given := { g with rest := g.rest ++ ts }

end Given

/-- An option at the start of arguments: what it sets, and whether its value follows. -/
inductive Reading
  | done (g : Given)
  /-- The option under this name takes the next argument. -/
  | needsValue (s : Switch) (name : Text) (g : Given)

/-- Reads an option by its name, with a value if one is attached. -/
def readLong (name : Text) (value : Option Text) (g : Given) : Except UsageError Reading :=
  match Switch.ofName? name, value with
  | none, _ => .error (.unknownOption name (Text.closeTo name (Switch.all.map Switch.name)))
  | some s, some v =>
    if s.takesValue then .ok (.done (g.setValue s v)) else .error (.unwantedValue name)
  | some s, none =>
    if s.takesValue then .ok (.needsValue s name g) else .ok (.done (g.setFlag s))

def readLetters (g : Given) : Text → Except UsageError Reading
  | [] => .ok (.done g)
  | c :: r =>
    let name : Text := ['-', c]
    match Switch.ofLetter? c with
    | none => .error (.unknownOption name [])
    | some s =>
      if s.takesValue then
        if r.isEmpty then .ok (.needsValue s name g) else .ok (.done (g.setValue s r))
      else readLetters (g.setFlag s) r

def splitValue (t : Text) : Text × Option Text :=
  let name := t.takeWhile fun (c : CodePoint) => c != '='
  match t.drop name.length with
  | [] => (name, none)
  | _ :: v => (name, some v)

def startsWithDash (t : Text) : Bool := Text.startsWith "-" t && 1 < t.length

/-- Reads one option. A name that is unknown is read as letters, unless it has two dashes. -/
def readOption (t : Text) (g : Given) : Except UsageError Reading :=
  let (name, value) := splitValue t
  if (Switch.ofName? name).isSome || Text.startsWith "--" t then readLong name value g
  else readLetters g (t.drop 1)

/-- Reads arguments; two dashes alone end the options. -/
def readArguments (g : Given) : List Text → Except UsageError Given
  | [] => .ok g
  | t :: ts =>
    if t == Text.ofString "--" then .ok (g.addRest ts)
    else if startsWithDash t then
      match readOption t g with
      | .error e => .error e
      | .ok (.done g) => readArguments g ts
      | .ok (.needsValue s name g) =>
        match ts with
        | [] => .error (.missingValue name)
        | v :: ts => readArguments (g.setValue s v) ts
    else readArguments (g.addRest [t]) ts

/-! ## Checking -/

structure Options where
  config : Text
  settings : Option Text
  noTypeCheck : Bool
  debugLog : Option Text

inductive Request
  | help
  | version
  | load (o : Options)

/-- Arguments that are wrong, or a path that no system call takes. -/
inductive Refusal
  | usage (e : UsageError)
  | fault (f : Fault)

/-- Checks the path of a file: no directory, and where it has to exist, something. -/
def checkFile (t : FileTree) (s : Subject) (file : Text) : Except Refusal Unit :=
  if FileTree.holdsNull file then .error (.fault FileTree.nullFault)
  else match t.stat file with
    | .ok .directory => .error (.usage (.directory s file))
    | .ok _ => .ok ()
    | .error _ => if s = .settings then .error (.usage (.missingFile s file)) else .ok ()

def checkSwitch (t : FileTree) (g : Given) (s : Switch) : Except Refusal Unit :=
  match s, g.settings, g.debugLog with
  | .settings, some file, _ => checkFile t .settings file
  | .debugLog, _, some file => checkFile t .debugLog file
  | _, _, _ => .ok ()

def shownFirst? (g : Given) : Option Request :=
  g.mentioned.findSome? fun
    | .help => some .help
    | .version => some .version
    | _ => none

def Given.check (t : FileTree) (g : Given) : Except Refusal Request :=
  match shownFirst? g with
  | some r => .ok r
  | none => do
    g.mentioned.forM (checkSwitch t g)
    match g.rest with
    | [] => throw (.usage .missingArgument)
    | [file] =>
      checkFile t .config file
      return .load ⟨file, g.settings, g.noTypeCheck, g.debugLog⟩
    | file :: extra =>
      checkFile t .config file
      throw (.usage (.extraArguments extra))

/-- Reads and checks the arguments of the command. -/
def Request.ofArguments (t : FileTree) (args : List Text) : Except Refusal Request :=
  match readArguments .empty args with
  | .error e => .error (.usage e)
  | .ok g => g.check t

end ConfigLoader.Command
