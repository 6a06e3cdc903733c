import ConfigLoader.Fault

/-! # Faults from a kind and arguments

Some kinds take their arguments by position or by name and refuse others; system errors take their
kind from an error number.
-/
namespace ConfigLoader.Fault

def nameList : List Text → Text
  | [] => []
  | [a] => a
  | [a, b] => a ++ " and " ++ b
  | a :: r => a ++ ", " ++ nameList r

/-- What a constructor that takes `least` to `most` arguments says to too many. -/
def tooMany (kind : Kind) (least most given : Nat) : Fault :=
  let range : Text := if least = most then Text.ofNat (most + 1)
    else "from " ++ Text.ofNat (least + 1) ++ " to " ++ Text.ofNat (most + 1)
  typeError (kind.name ++ ".__init__() takes " ++ range ++ " positional arguments but " ++
    Text.ofNat (given + 1) ++ " were given")

def missingArgument (kind : Kind) (name : Text) : Fault :=
  typeError (kind.name ++ ".__init__() missing 1 required positional argument: '" ++ name ++ "'")

def bindArguments (kind : Kind) (parameters : List Text) (required : Nat) (args : List Value)
    (named : Entries) : Except Fault (List (Option Value)) := do
  let slots : List (Text × Option Value) :=
    (parameters.zip (args.map some ++ List.replicate (parameters.length - args.length) none))
  let slots ← named.foldlM (fun (slots : List (Text × Option Value)) (e : Value × Value) =>
    let name := e.1.display
    match slots.find? fun s => s.1 == name with
    | none => throw (typeError (kind.name ++
        ".__init__() got an unexpected keyword argument '" ++ name ++ "'"))
    | some (_, some _) => throw (typeError (kind.name ++
        ".__init__() got multiple values for argument '" ++ name ++ "'"))
    | some (_, none) =>
      pure (slots.map fun s => if s.1 == name then (s.1, some e.2) else s)) slots
  if parameters.length < args.length then
    throw (tooMany kind required parameters.length args.length)
  match (slots.take required).find? fun s => s.2.isNone with
  | some (name, _) => throw (missingArgument kind name)
  | none => pure (slots.map Prod.snd)

def systemOf (kind : Kind) (args : List Value) : Fault :=
  match args with
  | number :: reason :: rest =>
    if rest.length ≤ 3 then
      let kind := match kind, number with
        | .osError, .int n => (kindOfErrno n).getD kind
        | k, _ => k
      let file (v : Value) : Option Value := match v with
        | .null => none
        | v => some v
      match kind, rest with
      | .blockingIOError, .int _ :: _ | .blockingIOError, .bool _ :: _ =>
        ⟨kind, [number, reason], .files none none, none, false⟩
      | _, _ =>
        ⟨kind, [number, reason], .files (rest.head?.bind file) ((rest[2]?).bind file), none, false⟩
    else plain kind args
  | _ => plain kind args

def wrongCount (range : Text) (given : Nat) : Fault :=
  typeError ("function takes " ++ range ++ " arguments (" ++ Text.ofNat given ++ " given)")

/-- Whether the details of a syntax error can be told apart: the file, the line, the column, the text,
and where it ends. -/
def checkDetails (v : Value) : Except Fault Unit :=
  match detailItems? v with
  | none => throw (typeError ("'" ++ v.qualifiedTypeName ++ "' object is not iterable"))
  | some details =>
    if details.length < 4 then throw (wrongCount "at least 4" details.length)
    else if 6 < details.length then throw (wrongCount "at most 6" details.length)
    else if details.length = 5 then
      throw (typeError "end_offset must be provided when end_lineno is provided")
    else pure ()

/-- Builds a fault as its kind asks; `ds` and `cause` go to the kinds that carry them. -/
def construct (kind : Kind) (args : List Value) (named : Value) (ds : List Diagnostic)
    (cause : Option Fault) : Except Fault Fault := do
  let named : Entries := match named with
    | .mapping es => es
    | _ => []
  match kind with
  | .compileError =>
    match ← bindArguments kind ["message"] 1 args named with
    | some m :: _ => pure ⟨kind, [m], .none, cause, false⟩
    | _ => throw (missingArgument kind "message")
  | .diagnosticsError =>
    match ← bindArguments kind ["diagnostics", "message"] 1 (.list [] :: args) named with
    | _ :: m :: _ => pure (diagnosticsFault ds (m.getD .null))
    | _ => pure (diagnosticsFault ds .null)
  | .executionError =>
    match ← bindArguments kind ["message", "js_name", "stack"] 1 args named with
    | [some m, name, stack] => pure (execution m (name.getD "Error") (stack.getD ""))
    | _ => throw (missingArgument kind "message")
  | .thrownValue =>
    match ← bindArguments kind ["value"] 1 args named with
    | some v :: _ => pure (thrown v)
    | _ => throw (missingArgument kind "value")
  | .unicodeDecodeError | .unicodeEncodeError =>
    if args.length = 5 then pure (plain kind args)
    else throw (wrongCount "exactly 5" args.length)
  | .unicodeTranslateError =>
    if args.length = 4 then pure (plain kind args)
    else throw (wrongCount "exactly 4" args.length)
  | .syntaxError | .indentationError | .tabError =>
    match args with
    | [_, details] => checkDetails details
    | _ => pure ()
    pure (plain kind args)
  | _ => if kind.isA .osError then pure (systemOf kind args) else pure (plain kind args)

end ConfigLoader.Fault
