import ConfigLoader.Validation

/-! # Replies of a compiler process

A reply is a mapping with a status. Each status has fields of its own; a field that is absent has a
default, and no field but the diagnostics is checked.
-/
namespace ConfigLoader.Compiler

inductive Reply
  | value (v : Value)
  | diagnostics (ds : List Diagnostic) (message : Value)
  /-- An error that the evaluated module ended with. -/
  | error (message name stack : Value)
  | thrown (v : Value)
  | unexpected (status : Value)

namespace Reply

/-- A field of a reply, which has to be a mapping. -/
def field (reply : Value) (name : String) (default : Value) : Except Fault Value :=
  match reply with
  | .mapping es => .ok ((Entries.getText? es name).getD default)
  | v => .error (Fault.noAttribute v "get")

/-- The items that a value is made of: keys of a mapping, characters of a text. -/
def itemsOf : Value → Except Fault (List Value)
  | .list vs | .tuple vs | .set vs => .ok vs
  | .mapping es => .ok (es.map Prod.fst)
  | .text t => .ok (t.map fun c => .text [c])
  | .bytes b => .ok (b.map fun n => .int n.toNat)
  | v => .error (Fault.typeError ("'" ++ v.qualifiedTypeName ++ "' object is not iterable"))

def isStatus (status : Value) (name : String) : Bool :=
  match status with
  | .text t => t == Text.ofString name
  | _ => false

def read (reply : Value) : Except Fault Reply := do
  let status ← field reply "status" .null
  if isStatus status "ok" then return .value (← field reply "value" .null)
  else if isStatus status "diagnostics" then
    let ds ← (← itemsOf (← field reply "diagnostics" (.list []))).mapM Diagnostic.read
    return .diagnostics ds (← field reply "message" .null)
  else if isStatus status "error" then
    return .error (← field reply "message" "") (← field reply "name" "Error")
      (← field reply "stack" "")
  else if isStatus status "thrown" then return .thrown (← field reply "value" .null)
  else return .unexpected status

def outcome : Reply → Except Fault Value
  | .value v => .ok v
  | .diagnostics ds message => .error (Fault.diagnosticsFault ds message)
  | .error message name stack => .error (Fault.execution message name stack)
  | .thrown v => .error (Fault.thrown v)
  | .unexpected status => .error (.of .runtimeError
      ("Unexpected reply from TypeScript worker: " ++ status.literal))

end Reply
end ConfigLoader.Compiler
