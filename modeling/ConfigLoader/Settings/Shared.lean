import ConfigLoader.Settings
import ConfigLoader.Limits
import ConfigLoader.Value.Store

/-! # Settings over shared defaults

The defaults and the user settings stand in one store, and every call reads them there. The user
settings are merged in place into a copy of the defaults, which then refers to containers of theirs. How
deep the mappings lie that a merge follows has a limit.
-/
namespace ConfigLoader

/-- A copy of the mapping in a cell, in cells of its own. -/
def Store.copyMapping (s : Store) (d : Nat) : Nat × Store :=
  match s.unfold (.ref d) with
  | .mapping es => s.addMapping es
  | _ => s.addMapping []

namespace Settings

/-- The options of the settings in a cell, as the record shows them. -/
def optionsIn (i : Nat) (s : Store) : Entries :=
  let es := (s.mapping? i).getD []
  let os := (((Store.getSlot? es "compiler_options").bind s.slotDict?).bind s.mapping?).getD []
  os.map fun e => (e.1, s.dump e.2)

section
variable (limits : Limits) (d : Nat)

/-- User settings merged over a copy of the defaults in cell `d`; gives the cell of the result. -/
def layered (raw : Slot) (s : Store) : Except Fault (Nat × Store) := do
  let (i, t) := s.copyMapping d
  match t.slotDict? raw with
  | some j => return (i, ← t.mergeFrom limits.merging i j)
  | none => throw (Fault.noAttribute (s.unfold raw) "items")

/-- Reads settings from user settings merged over the defaults, and gives the store that remains. -/
def buildIn (raw : Slot) (s : Store) : Except Fault Settings × Store :=
  match layered limits d raw s with
  | .ok (i, t) =>
    ((read (t.unfold (.ref i))).map fun r => { r with compilerOptions := optionsIn i t }, t)
  | .error f => (.error f, s)

/-- Builds settings time after time, with what the calls before have left. -/
def buildAll : List Slot → Store → List (Except Fault Settings) × Store
  | [], s => ([], s)
  | raw :: raws, s =>
    let (r, s) := buildIn limits d raw s
    let (rs, s) := buildAll raws s
    (r :: rs, s)

end

/-- Builds settings from user settings that stand in a store, over defaults of its own. -/
def buildFrom (limits : Limits) (raw : Slot) (s : Store) : Except Fault Settings :=
  let (d, s) := s.addMapping defaultEntries
  (buildIn limits d raw s).1

end Settings
end ConfigLoader
