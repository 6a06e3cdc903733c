import ConfigLoader.Compiler.Reply
import ConfigLoader.Json.Printer
import ConfigLoader.Json.Reader
import ConfigLoader.Loader
import ConfigLoader.Path
import ConfigLoader.Child
import ConfigLoader.Settings

/-! # Compilers in a child process

A compiler starts one worker process and talks to it in frames: a frame is one line of JSON, and
each frame that is written is answered by one that is read. The first exchange hands over the
settings. A process that is given up is shut down: its input is closed, it is waited for, with more
force when it does not end, and its output is closed.
-/
namespace ConfigLoader

/-- Where compilers run: the current directory, and the script that workers execute. -/
structure Compiler.Site where
  directory : Text
  script : Text

structure Compiler where
  settings : Settings
  /-- The worker process, once it is registered. -/
  process : Option Child.Handle
  /-- The number of the last request. -/
  lastId : Nat
  /-- What the last registered worker said its version is. -/
  version : Value

namespace Compiler

variable {W : Type}

def new (s : Settings) : Compiler := ⟨s, none, 0, .null⟩

def isRegistered (ops : ChildOps W) (c : Compiler) (w : W) : Bool :=
  match c.process with
  | some h => ops.isRunning h w
  | none => false

/-! ## Frames -/

def frame (limits : Limits) (message : Value) : Except Fault Text :=
  (Json.dump (Json.frameLayout limits) message).map (· ++ "\n")

def closedInput : Fault := .of .osError "worker stdin is closed"

def endOfOutput : Fault := .plain .eofError []

/-- Writes a message as a frame. -/
def send (ops : ChildOps W) (h : Child.Handle) (message : Value) (w : W) :
    Except Fault Unit × W :=
  if ops.hasInput h w then
    match frame ops.limits message with
    | .error f => (.error f, w)
    | .ok text =>
      match ops.act h (.write text) w with
      | (.error f, w) => (.error f, w)
      | (.ok _, w) => let (r, w) := ops.act h .flush w; (r.map fun _ => (), w)
  else (.error closedInput, w)

def receive (ops : ChildOps W) (h : Child.Handle) (w : W) : Except Fault Value × W :=
  if ops.hasOutput h w then
    match ops.act h .readLine w with
    | (.error f, w) => (.error f, w)
    | (.ok line, w) =>
      (if line.isEmpty then .error endOfOutput else Json.load ops.limits.reading line, w)
  else (.error endOfOutput, w)

/-- Writes a message and reads the answer. -/
def exchange (ops : ChildOps W) (h : Child.Handle) (message : Value) (w : W) :
    Except Fault Value × W :=
  match send ops h message w with
  | (.error f, w) => (.error f, w)
  | (.ok _, w) => receive ops h w

/-! ## Shutting down -/

def isTimeout : Except Fault Text → Bool
  | .error f => f.kind == .timeoutExpired
  | .ok _ => false

/-- The time that a worker has to end on its own, and after it was told to end. -/
def patience : Nat := 5
def lastPatience : Nat := 1

/-- Waits for a process, with more force each time that the wait runs out. -/
def awaitEnd (ops : ChildOps W) (h : Child.Handle) (w : W) : Except Fault Text × W :=
  let (r, w) := ops.act h (.wait (some patience)) w
  if isTimeout r then
    match ops.act h .terminate w with
    | (.error f, w) => (.error f, w)
    | (.ok _, w) =>
      let (r, w) := ops.act h (.wait (some lastPatience)) w
      if isTimeout r then
        match ops.act h .kill w with
        | (.error f, w) => (.error f, w)
        | (.ok _, w) => ops.act h (.wait none) w
      else (r, w)
  else (r, w)

/-- Closes the input of a process; that it cannot be closed does not matter. -/
def closeInput (ops : ChildOps W) (h : Child.Handle) (w : W) : Except Fault Unit × W :=
  if ops.hasInput h w then
    match ops.act h .closeInput w with
    | (.error f, w) => (if f.isSystem then .ok () else .error f, w)
    | (.ok _, w) => (.ok (), w)
  else (.ok (), w)

def closeOutput (ops : ChildOps W) (h : Child.Handle) (w : W) : Except Fault Unit × W :=
  if ops.hasOutput h w then
    let (r, w) := ops.act h .closeOutput w
    (r.map fun _ => (), w)
  else (.ok (), w)

def shutdown (ops : ChildOps W) (h : Child.Handle) (w : W) : Except Fault Unit × W :=
  match closeInput ops h w with
  | (.error f, w) => (.error f, w)
  | (.ok _, w) =>
    match awaitEnd ops h w with
    | (.error f, w) => (.error f, w)
    | (.ok _, w) => closeOutput ops h w

/-- Shuts a process down and ends with a fault that tells of it, made of the exit code. -/
def giveUp {α : Type} (ops : ChildOps W) (h : Child.Handle) (tell : Text → Fault) (w : W) :
    Except Fault α × W :=
  match shutdown ops h w with
  | (.error f, w) => (.error f, w)
  | (.ok _, w) =>
    let code : Text := match ops.exitCode h w with
      | some n => Text.ofInt n
      | none => "None"
    (.error (tell code), w)

/-! ## Registering -/

def directory (site : Site) (s : Settings) : Text :=
  match s.cwd with
  | some d => if d.isEmpty then site.directory else d
  | none => site.directory

def handshake (site : Site) (s : Settings) : Value := .mapping [
  ("cwd", .text (directory site s)),
  ("typescript", .text s.typescript),
  ("type_check", .bool s.typeCheck),
  ("compiler_options", .mapping s.compilerOptions)]

def startupFault (message : Text) : Fault := .of .compilerStartupError message

/-- A pipe that ended or failed. -/
def isBroken (f : Fault) : Bool := f.kind.isA .eofError || f.isSystem

/-- A failed handshake: a broken pipe, or text that is no frame. -/
def isNoHandshake (f : Fault) : Bool := isBroken f || f.kind.isA .valueError

/-- What a worker answers to the handshake: its version, or what went wrong. -/
def greeting (reply : Value) : Except Fault (Except Value Value) := do
  if Reply.isStatus (← Reply.field reply "status" .null) "ready" then
    return .ok (← Reply.field reply "version" .null)
  else return .error (← Reply.field reply "error" "unknown")

def greet (ops : ChildOps W) (site : Site) (s : Settings) (w : W) :
    Except Fault (Child.Handle × Value) × W :=
  match ops.start ⟨s.nodeExecutable, site.script, directory site s⟩ w with
  | (.error f, w) =>
    (.error (if f.isSystem then
      startupFault ("Cannot start Node.js (" ++ s.nodeExecutable ++ "): " ++ f.message)
      else f), w)
  | (.ok h, w) =>
    match exchange ops h (handshake site s) w with
    | (.error f, w) =>
      if isNoHandshake f then
        giveUp ops h (fun code =>
          startupFault ("TypeScript worker exited during startup (code " ++ code ++ ")")) w
      else (.error f, w)
    | (.ok reply, w) =>
      match greeting reply with
      | .error f => (.error f, w)
      | .ok (.ok version) => (.ok (h, version), w)
      | .ok (.error reason) =>
        giveUp ops h (fun _ =>
          startupFault ("TypeScript worker failed to init: " ++ reason.display)) w

def startedMessage (number : Nat) (version : Value) (typeCheck : Bool) : Text :=
  "TypeScript worker started (pid=" ++ Text.ofNat number ++ ", typescript=" ++ version.display ++
    ", type_check=" ++ (Value.bool typeCheck).display ++ ")"

def alreadyRegistered : Fault := .of .runtimeError "TypeScript compiler already registered"

def register (ops : ChildOps W) (site : Site) (c : Compiler) (l : Logged W) :
    Except Fault Unit × Compiler × Logged W :=
  if c.isRegistered ops l.world then (.error alreadyRegistered, c, l)
  else
    match greet ops site c.settings l.world with
    | (.error f, w) => (.error f, c, { l with world := w })
    | (.ok (h, version), w) =>
      let l := { l with world := w }
      (.ok (), { c with process := some h, version := version },
        l.note .info .compiler (startedMessage (ops.number h w) version c.settings.typeCheck))

/-! ## Requests -/

def notRegistered : Fault := .of .runtimeError
  ("Compiler not registered. Call register() first, " ++
    "or loader.close() to recover after the worker exited")

/-- The absolute form of a path; a path is a text or bytes. -/
def absolutePath (site : Site) : Value → Except Fault Value
  | .text p => .ok (.text (Path.absolute site.directory p))
  | .bytes b => .ok (.bytes b)
  | v => .error (Fault.typeError
      ("expected str, bytes or os.PathLike object, not " ++ v.qualifiedTypeName))

def request (id : Nat) (path source : Value) : Value :=
  .mapping [("id", .int id), ("path", path), ("source", source)]

def exitedUnexpectedly (code : Text) : Fault := .of .runtimeError
  ("TypeScript worker exited unexpectedly (code " ++ code ++
    "); call loader.close() to start a fresh worker on the next load")

/-- Sends a file and its content to the worker. A broken pipe ends the registration; any other
fault keeps it. -/
def compile (ops : ChildOps W) (site : Site) (path source : Value) (c : Compiler)
    (l : Logged W) : Except Fault Value × Compiler × Logged W :=
  match c.process with
  | none => (.error notRegistered, c, l)
  | some h =>
    let c := { c with lastId := c.lastId + 1 }
    match absolutePath site path with
    | .error f => (.error f, c, l)
    | .ok p =>
      match exchange ops h (request c.lastId p source) l.world with
      | (.ok reply, w) => ((Reply.read reply).bind Reply.outcome, c, { l with world := w })
      | (.error f, w) =>
        if isBroken f then
          let (r, w) := giveUp ops h exitedUnexpectedly w
          (r, { c with process := none }, { l with world := w })
        else (.error f, c, { l with world := w })

def close (ops : ChildOps W) (c : Compiler) (l : Logged W) :
    Except Fault Unit × Compiler × Logged W :=
  match c.process with
  | none => (.ok (), c, l)
  | some h =>
    let l := l.note .debug .compiler
      ("closing TypeScript worker (pid=" ++ Text.ofNat (ops.number h l.world) ++ ")")
    let (r, w) := shutdown ops h l.world
    (r, { c with process := none }, { l with world := w })

/-- Compilers as the services of a loader: a service is built by registering it. -/
def service (ops : ChildOps W) (site : Site) (s : Settings) : ServiceOps W Compiler where
  create l :=
    let (r, c, l) := register ops site (new s) l
    (r.map fun _ => c, l)
  compile path source c l := compile ops site path source c l
  close c l := let (r, _, l) := close ops c l; (r, l)

end Compiler
end ConfigLoader
