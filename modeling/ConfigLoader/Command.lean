import ConfigLoader.Command.Arguments
import ConfigLoader.ConfigFile
import ConfigLoader.Json.Printer
import ConfigLoader.Settings.Section
import ConfigLoader.Settings.Shared

/-! # The command

The command loads one configuration file and prints the value as JSON. Settings come from a settings
file, with what the arguments override. Faults of the settings and of the file are reported; the
loader is closed on every way out, and a fault of closing takes the place of any other. A request to exit
may carry a text, which comes last among the errors.
-/
namespace ConfigLoader.Command

/-! ## Texts -/

def usageLine (program : Text) : Text :=
  "Usage: " ++ program ++ " [OPTIONS] " ++ argumentName ++ "\n"

def helpText (program : Text) : Text :=
  usageLine program ++ "\n" ++
  "  Load CONFIG_FILE (.ts, .json, .yaml) and print the resulting config as JSON.\n" ++
  "\nOptions:\n" ++
  "  -s, --settings FILE  Path to YAML settings file (defaults to the user config\n" ++
  "                       dir).\n" ++
  "  --no-type-check      Transpile only; skip type checking.\n" ++
  "  --debug-log FILE     Write debug logging to this file.\n" ++
  "  --version            Show the version and exit.\n" ++
  "  --help               Show this message and exit.\n"

def version : Text := "0.3.0"

def versionText (program : Text) : Text := program ++ ", version " ++ version ++ "\n"

def errorLine (message : Text) : Text := "Error: " ++ message ++ "\n"

def usageReport (program : Text) (e : UsageError) : Text :=
  let head : Text := if e.showsUsage then
    usageLine program ++ "Try '" ++ program ++ " --help' for help.\n\n" else []
  head ++ errorLine e.message

def isStyleParameter (c : CodePoint) : Bool := c.isDigit || c = ';' || c = '?'

/-- How long the style at the start of a text is: an escape, a bracket, parameters and a letter. -/
def styleLength : Text → Nat
  | [] => 0
  | escape :: t =>
    if escape.val = 27 then
      match t with
      | [] => 0
      | bracket :: t =>
        let count := (t.takeWhile isStyleParameter).length
        if bracket = '[' && (t[count]?.any (·.isLetter)) then count + 3 else 0
    else 0

/-- A text without its styles, as it is written where nothing shows them; the first `skip` code points
are left out. -/
def withoutStyles (skip : Nat) : Text → Text
  | [] => []
  | c :: t =>
    match skip, styleLength (c :: t) with
    | skip + 1, _ | 0, skip + 1 => withoutStyles skip t
    | 0, 0 => c :: withoutStyles 0 t

/-- Lone surrogates as escapes, where they cannot be written. -/
def escapeSurrogates (t : Text) : Text :=
  t.flatMap fun c => if c.isSurrogate then Json.unicodeEscape c.val else [c]

def writtenErrors (t : Text) : Text := escapeSurrogates (withoutStyles 0 t)

/-- The fault of writing a text that holds lone surrogates. -/
def encodingFault? (t : Text) : Option Fault :=
  let start := (t.takeWhile fun c => !c.isSurrogate).length
  let run := ((t.drop start).takeWhile (·.isSurrogate)).length
  if run = 0 then none
  else some (.plain .unicodeEncodeError
    ["utf-8", .text t, .int start, .int (start + run), "surrogates not allowed"])

/-! ## Endings -/

inductive Ending
  | exit (code : Int)
  /-- A fault that nothing handles. -/
  | escaped (f : Fault)

/-- What a run leaves: what it writes, and how it ends. -/
structure Report where
  output : Text
  /-- The errors that the run reports. -/
  errors : Text
  /-- What a request to exit has written to the errors after that. -/
  parting : Text
  ending : Ending

namespace Report

def ok (output : Text) : Report := ⟨output, [], [], .exit 0⟩

/-- The end of a run that reports errors. -/
def failure (code : Int) (errors : Text) : Report := ⟨[], writtenErrors errors, [], .exit code⟩

/-- What a request to exit carries: a code, or something to show. -/
def exitCode (args : List Value) : Text × Int :=
  let shown (v : Value) : Text × Int := (escapeSurrogates (v.display ++ "\n"), 1)
  match args with
  | [] | [.null] => ([], 0)
  | [.int n] => ([], n)
  | [.bool b] => ([], if b then 1 else 0)
  | [v] => shown v
  | vs => shown (.tuple vs)

/-- Whether a fault says that nobody reads what is written. -/
def isBrokenPipe (f : Fault) : Bool :=
  f.isSystem && 2 ≤ f.args.length && f.args.length ≤ 5 && (f.args.headD .null).sameKey (.int 32)

/-- The end of a run by a fault, after some errors were reported. Interrupts abort the run, requests
to exit are met, a broken pipe ends it without a word, and any other fault escapes. -/
def ofFault (errors : Text) (f : Fault) : Report :=
  let errors := writtenErrors errors
  if f.kind == .keyboardInterrupt || f.kind.isA .eofError then
    ⟨[], errors ++ "\nAborted!\n", [], .exit 1⟩
  else if f.kind == .systemExit then
    let (t, code) := exitCode f.args
    ⟨[], errors, t, .exit code⟩
  else if isBrokenPipe f then ⟨[], errors, [], .exit 1⟩
  else ⟨[], errors, [], .escaped f⟩

end Report

/-! ## Faults that are reported -/

def isSettingsFault (f : Fault) : Bool :=
  f.kind.isA .fileNotFoundError || f.kind.isA .valueError || f.kind.isA .yamlError

def isLoadFault (f : Fault) : Bool := f.kind.isA .compileError || isSettingsFault f

/-- What is reported of a fault of loading, or the fault that goes on: this one, or that of showing a
thrown value. -/
def loadReport (limits : Limits) (f : Fault) : Except Fault Text :=
  if isLoadFault f then .ok (errorLine f.message)
  else if f.kind == .thrownValue then
    (Json.shownAs Value.literal limits (f.args.headD .null)).map fun t =>
      errorLine ("config threw a non-Error value: " ++ t)
  else .error f

/-! ## Printing -/

def printed (limits : Limits) (v : Value) : Except Fault Text := do
  let t := (← Json.dump (Json.resultLayout limits) v) ++ "\n"
  match encodingFault? t with
  | some f => throw f
  | none => return t

def printReport (limits : Limits) (v : Value) : Report :=
  match printed limits v with
  | .ok t => .ok t
  | .error f => .ofFault [] f

/-! ## Log file -/

def logLine (stamp : Text) (r : LogRecord) : Text :=
  stamp ++ " " ++ r.level.name ++ " " ++ r.logger.name ++ " " ++ r.message ++ "\n"

/-- The place of a file that can be added to: one that exists, or a new one in a directory. -/
def appendable (t : FileTree) (p : Text) : Except LookupError Location :=
  match t.locate p with
  | .ok l => if t.at? l = some .directory then .error .isDirectory else .ok l
  | .error .missing =>
    let l := t.realPath p
    match t.at? l.parent with
    | some .directory => .ok l
    | some _ => .error .notDirectory
    | none => .error .missing
  | .error e => .error e

def append (t : FileTree) (l : Location) (text : Text) : FileTree :=
  let before := match t.at? l with
    | some (.file b) => b
    | _ => []
  t.put l (.file (before ++ Text.Utf8.encode text))

def startRecord (file : Text) : LogRecord :=
  ⟨.info, .host, "Debug logging started → " ++ Path.tidy file⟩

/-- Opens the log file, if there is to be one, and writes that logging started. -/
def openLog (stamp : Text) (t : FileTree) (file : Option Text) :
    Except Fault (Option Location × FileTree) :=
  match file with
  | none => .ok (none, t)
  | some file =>
    if file.isEmpty then .ok (none, t)
    else
      let p := Path.absolute t.cwd.text file
      match appendable t p with
      | .error e => .error (e.fault p)
      | .ok l => .ok (some l, append t l (logLine stamp (startRecord file)))

/-! ## Running -/

/-- What the command runs with: its name, the limits of nesting, the services for settings in a world that
holds the files, what writing a text to the output does to that world, the default settings files, and
the stamp of log lines. -/
structure Site (W S : Type) where
  program : Text
  limits : Limits
  ops : Settings → ServiceOps W S
  world : FileTree → W
  write : Text → W → W
  defaults : List Text
  stamp : Text

/-- A run of the command: its report, the files after it, and, as far as it came, the settings and
the loader. -/
structure Outcome (W S : Type) where
  report : Report
  tree : FileTree
  settings : Option Settings
  loader : Option (Loader W S)

variable {W S : Type}

def overrides (o : Options) : Value :=
  if o.noTypeCheck then .mapping [("type_check", .bool false)] else .null

def settingsOf (limits : Limits) (t : FileTree) (defaults : List Text) (o : Options) :
    Except Fault Settings := do
  let (i, store) ← Settings.loadRaw limits t defaults o.settings (overrides o)
  Settings.buildFrom limits (.ref i) store

def settingsReport (f : Fault) : Report :=
  if isSettingsFault f then .failure 1 (errorLine f.message) else .ofFault [] f

/-- Loads the file, closes the loader, and reports. -/
def load (limits : Limits) (ops : ServiceOps W S) (t : FileTree) (file : Text) (l : Loader W S) :
    Report × Loader W S :=
  match ConfigFile.loadStandard limits ops t file l with
  | (.ok c, l) =>
    match l.close ops with
    | (.ok _, l) => (printReport limits c.value, l)
    | (.error g, l) => (.ofFault [] g, l)
  | (.error f, l) =>
    match loadReport limits f, l.close ops with
    | .ok t, (.ok _, l) => (.failure 1 t, l)
    | .error f, (.ok _, l) => (.ofFault [] f, l)
    | .ok t, (.error g, l) => (.ofFault t g, l)
    | .error _, (.error g, l) => (.ofFault [] g, l)

def Report.emit (write : Text → W → W) (r : Report) (l : Loader W S) : Loader W S :=
  if r.output.isEmpty then l
  else { l with state := { l.state with world := write r.output l.state.world } }

/-- The records of a loader as lines, the oldest first. -/
def logText (stamp : Text) (l : Loader W S) : Text :=
  l.state.log.reverse.flatMap (logLine stamp)

def runLoad (site : Site W S) (t : FileTree) (o : Options) : Outcome W S :=
  match openLog site.stamp t o.debugLog with
  | .error f => ⟨.ofFault [] f, t, none, none⟩
  | .ok (log, t) =>
    match settingsOf site.limits t site.defaults o with
    | .error f => ⟨settingsReport f, t, none, none⟩
    | .ok s =>
      let (r, l) := load site.limits (site.ops s) t o.config (.start (site.world t))
      let l := r.emit site.write l
      let t := match log with
        | some place => append t place (logText site.stamp l)
        | none => t
      ⟨r, t, some s, some l⟩

def run (site : Site W S) (t : FileTree) (args : List Text) : Outcome W S :=
  match Request.ofArguments t args with
  | .error (.usage e) => ⟨.failure 2 (usageReport site.program e), t, none, none⟩
  | .error (.fault f) => ⟨.ofFault [] f, t, none, none⟩
  | .ok .help => ⟨.ok (helpText site.program), t, none, none⟩
  | .ok .version => ⟨.ok (versionText site.program), t, none, none⟩
  | .ok (.load o) => runLoad site t o

end ConfigLoader.Command
