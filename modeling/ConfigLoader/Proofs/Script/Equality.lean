import ConfigLoader.Script.Item

/-! # Equality of script values -/
namespace ConfigLoader.Script

mutual

def Item.same : Item → Item → Bool
  | .undefined, .undefined => true
  | .null, .null => true
  | .bool a, .bool b => a == b
  | .number x, .number y => decide (x = y)
  | .text s, .text t => s == t
  | .bigint m, .bigint n => m == n
  | .symbol s, .symbol t => s == t
  | .object shape fields, .object shape' fields' =>
    Shape.same shape shape' && sameFields fields fields'
  | .cell m, .cell n => m == n
  | _, _ => false

def sameItems : List Item → List Item → Bool
  | [], [] => true
  | v :: vs, w :: ws => Item.same v w && sameItems vs ws
  | _, _ => false

def sameFields : List (Text × Item) → List (Text × Item) → Bool
  | [], [] => true
  | (k, v) :: fs, (l, w) :: gs => k == l && Item.same v w && sameFields fs gs
  | _, _ => false

def Shape.same : Shape → Shape → Bool
  | .plain, .plain => true
  | .array vs, .array ws => sameItems vs ws
  | .function v, .function w => Item.same v w
  | .date a, .date b => a == b
  | .boxed v, .boxed w => Item.same v w
  | .error n m, .error n' m' => n == n' && m == m'
  | .map, .map => true
  | .set, .set => true
  | .pattern, .pattern => true
  | .faulty m, .faulty n => m == n
  | .compiler, .compiler => true
  | .namespace, .namespace => true
  | _, _ => false

end

mutual

theorem Item.same_iff : ∀ v w : Item, v.same w = true ↔ v = w
  | .undefined, w | .null, w | .bool _, w | .number _, w | .text _, w | .bigint _, w
  | .symbol _, w | .cell _, w => by cases w <;> simp [Item.same]
  | .object shape fields, w => by
    cases w with
    | object shape' fields' =>
      simp [Item.same, Shape.same_iff shape shape', sameFields_iff fields fields']
    | _ => simp [Item.same]

theorem sameItems_iff : ∀ vs ws : List Item, sameItems vs ws = true ↔ vs = ws
  | [], ws => by cases ws <;> simp [sameItems]
  | v :: vs, ws => by
    cases ws with
    | nil => simp [sameItems]
    | cons w ws => simp [sameItems, Item.same_iff v w, sameItems_iff vs ws]

theorem sameFields_iff : ∀ fs gs : List (Text × Item), sameFields fs gs = true ↔ fs = gs
  | [], gs => by cases gs <;> simp [sameFields]
  | (k, v) :: fs, gs => by
    cases gs with
    | nil => simp [sameFields]
    | cons g gs =>
      obtain ⟨l, w⟩ := g
      simp [sameFields, Item.same_iff v w, sameFields_iff fs gs]

theorem Shape.same_iff : ∀ a b : Shape, a.same b = true ↔ a = b
  | .plain, b | .date _, b | .error _ _, b | .map, b | .set, b | .pattern, b | .faulty _, b
  | .compiler, b | .namespace, b => by cases b <;> simp [Shape.same]
  | .array vs, b => by
    cases b with
    | array ws => simp [Shape.same, sameItems_iff vs ws]
    | _ => simp [Shape.same]
  | .function v, b => by
    cases b with
    | function w => simp [Shape.same, Item.same_iff v w]
    | _ => simp [Shape.same]
  | .boxed v, b => by
    cases b with
    | boxed w => simp [Shape.same, Item.same_iff v w]
    | _ => simp [Shape.same]

end

instance : DecidableEq Item := fun v w => decidable_of_iff _ (Item.same_iff v w)

end ConfigLoader.Script
