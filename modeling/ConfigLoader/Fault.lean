import ConfigLoader.Diagnostic
import ConfigLoader.Fault.Kind
import ConfigLoader.Validation.Problem

/-! # Faults

What an operation can end with instead of a value. A fault has a kind, arguments from which its
message is made, and the details that some kinds carry.
-/
namespace ConfigLoader

namespace Fault

inductive Detail
  | none
  /-- The text of a document's fault, with its place. -/
  | report (message : Text)
  /-- The files that a failed system call names. -/
  | files (first second : Option Value)
  | diagnostics (ds : List Diagnostic)
  /-- Name and stack of an error of an evaluated module. -/
  | script (name stack : Value)
  | validation (title : String) (problems : List Validation.Problem)

end Fault

structure Fault where
  kind : Fault.Kind
  args : List Value
  detail : Fault.Detail
  cause : Option Fault
  chained : Bool

namespace Fault

instance : Inhabited Fault := ⟨⟨.exception, [], .none, none, false⟩⟩

def plain (kind : Kind) (args : List Value) : Fault := ⟨kind, args, .none, none, false⟩

def of (kind : Kind) (message : Text) : Fault := plain kind [.text message]

def documentFault (kind : Kind) (message : Text) : Fault :=
  ⟨kind, [.text message], .report message, none, false⟩

/-- An ordinary fault, which loaders report; the others pass through. -/
def isOrdinary (f : Fault) : Bool := f.kind.isA .exception

def isSystem (f : Fault) : Bool := f.kind.isA .osError

/-- The arguments as one message: one argument shows as itself, more as a tuple. -/
def argsMessage : List Value → Text
  | [] => []
  | [v] => v.display
  | vs => (Value.tuple vs).literal

/-- The kind that a system error number stands for. -/
def kindOfErrno (n : Int) : Option Kind :=
  if n = 11 ∨ n = 114 ∨ n = 115 then some .blockingIOError
  else if n = 32 ∨ n = 108 then some .brokenPipeError
  else if n = 10 then some .childProcessError
  else if n = 103 then some .connectionAbortedError
  else if n = 111 then some .connectionRefusedError
  else if n = 104 then some .connectionResetError
  else if n = 17 then some .fileExistsError
  else if n = 2 then some .fileNotFoundError
  else if n = 4 then some .interruptedError
  else if n = 21 then some .isADirectoryError
  else if n = 20 then some .notADirectoryError
  else if n = 1 ∨ n = 13 then some .permissionError
  else if n = 3 then some .processLookupError
  else if n = 110 then some .timeoutError
  else none

def system (errno : Int) (reason : Text) (file : Option Value) : Fault :=
  ⟨(kindOfErrno errno).getD .osError, [.int errno, .text reason], .files file none, none, false⟩

def codingPlace (noun : Text) (one : Nat → Text) (items : List Nat) (start stop : Int) : Text :=
  match items[start.toNat]?, stop == start + 1 with
  | some n, true => noun ++ " " ++ one n ++ " in position " ++ Text.ofInt start
  | _, _ => noun ++ "s in position " ++ Text.ofInt start ++ "-" ++ Text.ofInt (stop - 1)

/-- What a failed encoding or decoding says about the place. -/
def codingMessage (verb : Text) (one : Nat → Text) : List Value → Option Text
  | [encoding, object, .int start, .int stop, reason] =>
    let items : List Nat := match object with
      | .bytes b => b.map (·.toNat)
      | .text t => t.map (·.val)
      | _ => []
    let noun : Text := if verb = "decode" then "byte" else "character"
    some ("'" ++ encoding.display ++ "' codec can't " ++ verb ++ " " ++
      codingPlace noun one items start stop ++ ": " ++ reason.display)
  | _ => none

def escapedCharacter (n : Nat) : Text :=
  if n < 0x100 then "'\\x" ++ Text.hex 2 n ++ "'"
  else if n < 0x10000 then "'\\u" ++ Text.hex 4 n ++ "'"
  else "'\\U" ++ Text.hex 8 n ++ "'"

/-- What a failed translation says about the place. -/
def translationMessage : List Value → Option Text
  | [.text t, .int start, .int stop, reason] =>
    some ("can't translate " ++ codingPlace "character" escapedCharacter (t.map (·.val)) start stop ++
      ": " ++ reason.display)
  | _ => none

/-- The details of a syntax error, from what they are given as. -/
def detailItems? : Value → Option (List Value)
  | .list vs | .tuple vs | .set vs => some vs
  | .mapping es => some (es.map Prod.fst)
  | .text t => some (t.map fun c => .text [c])
  | .bytes b => some (b.map fun n => .int n.toNat)
  | _ => none

/-- A line number as messages show it; one that no machine word holds is shown as -1. -/
def lineText (n : Int) : Text :=
  "line " ++ Text.ofInt (if -2 ^ 63 ≤ n ∧ n < 2 ^ 63 then n else -1)

/-- The file, by its own name, and the line of a syntax error, as far as its details give them. -/
def syntaxPlace (details : List Value) : Text :=
  let file? : Option Text := match details with
    | .text t :: _ => some (t.reverse.takeWhile fun c => c != CodePoint.ofChar '/').reverse
    | _ => none
  let line? : Option Text := match details with
    | _ :: .int n :: _ => some (lineText n)
    | _ => none
  match file?, line? with
  | none, none => []
  | some file, none => " (" ++ file ++ ")"
  | none, some line => " (" ++ line ++ ")"
  | some file, some line => " (" ++ file ++ ", " ++ line ++ ")"

def syntaxMessage : List Value → Text
  | [message, details] => message.display ++ syntaxPlace ((detailItems? details).getD [])
  | args => (args.head?.getD .null).display

def message (f : Fault) : Text :=
  match f.detail with
  | .report t => t
  | .validation title ps => Validation.report title ps
  | .files first second =>
    match f.args with
    | [number, reason] =>
      let head := "[Errno " ++ number.display ++ "] " ++ reason.display
      match first, second with
      | some a, some b => head ++ ": " ++ a.literal ++ " -> " ++ b.literal
      | some a, none => head ++ ": " ++ a.literal
      | none, _ => head
    | args => argsMessage args
  | _ =>
    if f.kind.isA .keyError then
      match f.args with
      | [v] => v.literal
      | args => argsMessage args
    else if f.kind == .unicodeDecodeError then
      (codingMessage "decode" (fun n => "0x" ++ Text.hex 2 n) f.args).getD (argsMessage f.args)
    else if f.kind == .unicodeEncodeError then
      (codingMessage "encode" escapedCharacter f.args).getD (argsMessage f.args)
    else if f.kind == .unicodeTranslateError then
      (translationMessage f.args).getD (argsMessage f.args)
    else if f.kind.isA .syntaxError then syntaxMessage f.args
    else argsMessage f.args

def typeError (message : Text) : Fault := of .typeError message

def valueError (message : Text) : Fault := of .valueError message

/-- A part was asked of a value whose type has none of that name. -/
def noAttribute (v : Value) (name : Text) : Fault :=
  of .attributeError
    ("'" ++ v.qualifiedTypeName ++ "' object has no attribute '" ++ name ++ "'")

def ofUtf8 (start count : Nat) (bytes : List UInt8) (reason : Text) : Fault :=
  plain .unicodeDecodeError
    ["utf-8", .bytes bytes, .int start, .int (start + count), .text reason]

/-- The heading that loaders put over diagnostics. -/
def heading : Text := "Unable to compile TypeScript:\n"

def diagnosticsFault (ds : List Diagnostic) (message : Value) : Fault :=
  let shown := match message with
    | .null => .text (heading ++ Text.join "\n" (ds.map Diagnostic.format))
    | m => m
  ⟨.diagnosticsError, [shown], .diagnostics ds, none, false⟩

/-- An error that an evaluated module ended with. -/
def execution (message name stack : Value) : Fault :=
  let shown := if name.truthy then .text (name.display ++ ": " ++ message.display) else message
  ⟨.executionError, [shown], .script name stack, none, false⟩

/-- A value that an evaluated module threw and that is no error. -/
def thrown (v : Value) : Fault := plain .thrownValue [v]

def compileFailure (message : Text) (cause : Option Fault) (chained : Bool) : Fault :=
  ⟨.compileError, [.text message], .none, cause, chained⟩

/-- The message under which a loader reports a fault: one heading of diagnostics is dropped. -/
def wrappedMessage (f : Fault) : Text :=
  "TypeScriptLoader failed to compile TypeScript:\n" ++ Text.dropStart heading f.message

def wrap (f : Fault) : Fault := compileFailure f.wrappedMessage (some f) true

end Fault
end ConfigLoader
