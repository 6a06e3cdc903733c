import ConfigLoader.FileTree
import ConfigLoader.Settings
import ConfigLoader.Yaml.Document

/-! # The loader section

User settings are the `loader` section of a settings document, with overrides merged into it. The
document is an explicit file, or the first of the default files that exists. Overrides are merged in
place, so a mapping that the section shares by an alias changes everywhere. How deep a document and
the mappings that a merge follows are nested has a limit.
-/
namespace ConfigLoader.Settings

/-- A document's root, or an empty mapping for a root that counts as false. -/
def orEmpty (root : Slot × Store) : Slot × Store :=
  if (root.2.unfold root.1).truthy then root else root.2.add (.mapping [])

def readFile (limits : Limits) (t : FileTree) (path : Text) : Except Fault (Slot × Store) := do
  return orEmpty (← Yaml.loadShared limits.composing (← t.readText path))

def firstExisting (t : FileTree) : List Text → Except Fault (Option Text)
  | [] => .ok none
  | p :: ps => do
    if ← t.isPresent p then return some p else firstExisting t ps

/-- The root of the settings document: of the explicit file, or of the first default file. -/
def document (limits : Limits) (t : FileTree) (defaults : List Text) (path : Option Text) :
    Except Fault (Slot × Store) := do
  match path with
  | some p =>
    let p := Path.tidy p
    if ← t.isPresent p then readFile limits t p
    else throw (.of .fileNotFoundError ("Settings file not found: " ++ p))
  | none =>
    match ← firstExisting t defaults with
    | some p => readFile limits t p
    | none => return Store.empty.add (.mapping [])

def sectionOf (root : Slot × Store) : Except Fault (Nat × Store) :=
  let store := root.2
  match store.slotDict? root.1 with
  | none => .error (Fault.noAttribute (store.unfold root.1) "get")
  | some i =>
    let found := (Store.getSlot? ((store.mapping? i).getD []) "loader").getD (.leaf .null)
    let (slot, store) := orEmpty (found, store)
    match store.slotDict? slot with
    | some j => .ok (j, store)
    | none => .error (Fault.valueError
        ("'loader' section must be a mapping, got " ++ (store.unfold slot).typeName))

/-- Merges overrides into a section; overrides that count as false change nothing. -/
def override (limits : Limits) (base : Nat × Store) (overrides : Value) :
    Except Fault (Nat × Store) :=
  if !overrides.truthy then .ok base
  else match overrides with
    | .mapping es => do
      let (j, store) := base.2.addMapping es
      return (base.1, ← store.mergeFrom limits.merging base.1 j)
    | v => .error (Fault.noAttribute v "items")

/-- The user settings: the `loader` section with overrides, before they are read as a record. -/
def loadRaw (limits : Limits) (t : FileTree) (defaults : List Text) (path : Option Text)
    (overrides : Value) : Except Fault (Nat × Store) := do
  override limits (← sectionOf (← document limits t defaults path)) overrides

end ConfigLoader.Settings
