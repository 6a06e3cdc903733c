import ConfigLoader.Modules.Evaluation

/-! # The places that values hold

What is computed from values that hold places below a bound holds none above it, and building a
value adds no place but those that it adds to the heap.
-/
namespace ConfigLoader.Script

namespace Item

mutual

theorem isBelow_mono {n m : Nat} (h : n ≤ m) : ∀ v : Item, v.isBelow n = true → v.isBelow m = true
  | .undefined, _ | .null, _ | .bool _, _ | .number _, _ | .text _, _ | .bigint _, _
  | .symbol _, _ => rfl
  | .cell k, hv => by
    simp only [isBelow, decide_eq_true_eq] at hv ⊢
    omega
  | .object shape fields, hv => by
    simp only [isBelow, Bool.and_eq_true] at hv ⊢
    exact ⟨Shape.isBelow_mono h shape hv.1, areFieldsBelow_mono h fields hv.2⟩

theorem areBelow_mono {n m : Nat} (h : n ≤ m) :
    ∀ vs : List Item, areBelow n vs = true → areBelow m vs = true
  | [], _ => rfl
  | v :: vs, hv => by
    simp only [areBelow, Bool.and_eq_true] at hv ⊢
    exact ⟨isBelow_mono h v hv.1, areBelow_mono h vs hv.2⟩

theorem areFieldsBelow_mono {n m : Nat} (h : n ≤ m) :
    ∀ fs : List (Text × Item), areFieldsBelow n fs = true → areFieldsBelow m fs = true
  | [], _ => rfl
  | (_, v) :: fs, hv => by
    simp only [areFieldsBelow, Bool.and_eq_true] at hv ⊢
    exact ⟨isBelow_mono h v hv.1, areFieldsBelow_mono h fs hv.2⟩

theorem Shape.isBelow_mono {n m : Nat} (h : n ≤ m) :
    ∀ shape : Script.Shape, Shape.isBelow n shape = true → Shape.isBelow m shape = true
  | .array items, hv => areBelow_mono h items hv
  | .function r, hv => Item.isBelow_mono h r hv
  | .boxed v, hv => Item.isBelow_mono h v hv
  | .plain, _ | .date _, _ | .error _ _, _ | .map, _ | .set, _ | .pattern, _ | .faulty _, _
  | .compiler, _ | .namespace, _ => rfl

end

theorem putField_below {n : Nat} (name : Text) {v : Item} (hv : v.isBelow n = true)
    {fs : List (Text × Item)} (hf : areFieldsBelow n fs = true) :
    areFieldsBelow n (putField name v fs) = true := by
  induction fs with
  | nil => simp [putField, areFieldsBelow, hv]
  | cons f fs ih =>
    obtain ⟨k, w⟩ := f
    simp only [areFieldsBelow, Bool.and_eq_true] at hf
    unfold putField
    split
    · simp [areFieldsBelow, hv, hf.2]
    · simp [areFieldsBelow, hf.1, ih hf.2]

end Item

/-! ## Building -/

section
open Item

def Heap.IsClosed (h : Heap) : Prop := areBelow h.length h = true

theorem Heap.IsClosed.get {h : Heap} (hh : Heap.IsClosed h) (n : Nat) :
    (h.get n).isBelow h.length = true := by
  unfold Heap.get
  cases hn : h[n]? with
  | none => rfl
  | some v => exact areBelow_iff.mp hh v (List.mem_of_getElem? hn)

theorem Heap.IsClosed.add {h : Heap} (hh : Heap.IsClosed h) {v : Item}
    (hv : v.isBelow (h.length + 1) = true) : Heap.IsClosed (h ++ [v]) := by
  refine areBelow_iff.mpr fun w hw => ?_
  rw [List.length_append, List.length_singleton]
  rcases List.mem_append.mp hw with hw | hw
  · exact isBelow_mono (Nat.le_succ _) w (areBelow_iff.mp hh w hw)
  · rw [List.mem_singleton.mp hw]
    exact hv

theorem Heap.IsClosed.set {h : Heap} (hh : Heap.IsClosed h) (n : Nat) {v : Item}
    (hv : v.isBelow h.length = true) : Heap.IsClosed (h.set n v) := by
  refine areBelow_iff.mpr fun w hw => ?_
  rw [List.length_set]
  rcases List.mem_or_eq_of_mem_set hw with hw | rfl
  · exact areBelow_iff.mp hh w hw
  · exact hv

end

namespace Item

/-- What building leaves: a closed heap that is no shorter, and a value of it. -/
structure Grows (h : Heap) (v : Item) (h' : Heap) : Prop where
  length : h.length ≤ h'.length
  closed : Heap.IsClosed h'
  below : v.isBelow h'.length = true

theorem wrapped_below {n : Nat} {v : Item} (hv : v.isBelow n = true) :
    (wrapped v).isBelow n = true := by
  cases v with
  | undefined => rfl
  | null => rfl
  | object shape fields => exact hv
  | cell k => exact hv
  | _ => simp [wrapped, isBelow, Shape.isBelow, areFieldsBelow]

theorem integer_below {h : Heap} {arg v : Item} (n : Nat) (hi : integer h arg = .ok v) :
    v.isBelow n = true := by
  unfold integer at hi
  split at hi
  · split at hi <;> cases hi
    rfl
  · split at hi <;> cases hi
    rfl
  · cases hi
    rfl
  · cases hi
    rfl
  · cases hi

theorem knot_grows {h : Heap} (hh : Heap.IsClosed h) (f : Item → Item)
    (hf : (f (.cell h.length)).isBelow (h.length + 1) = true) :
    Grows h (knot h f).1 (knot h f).2 := by
  refine ⟨?_, hh.add hf, ?_⟩
  · simp [knot]
  · simp [knot, isBelow]

theorem of_ite {α : Type} {c P : Prop} [Decidable c] {a b x : α} (h : (if c then a else b) = x)
    (ha : a = x → P) (hb : b = x → P) : P := by
  by_cases hc : c
  · exact ha ((if_pos hc).symm.trans h)
  · exact hb ((if_neg hc).symm.trans h)

/-- Every kind of special value is built of the argument alone or at a place of its own. -/
theorem special_grows {h h' : Heap} {kind : Text} {arg v : Item} (hh : Heap.IsClosed h)
    (ha : arg.isBelow h.length = true) (hs : special h kind arg = .ok (v, h')) :
    Grows h v h' := by
  have hplain : ∀ w : Item, w.isBelow h.length = true →
      (Except.ok (w, h) : Except Failure (Item × Heap)) = .ok (v, h') → Grows h v h' := by
    intro w hw he
    cases he
    exact ⟨Nat.le_refl _, hh, hw⟩
  have hknot : ∀ f : Item → Item, (f (.cell h.length)).isBelow (h.length + 1) = true →
      (Except.ok (knot h f) : Except Failure (Item × Heap)) = .ok (v, h') → Grows h v h' := by
    intro f hf he
    have hg := knot_grows hh f hf
    rw [Except.ok.inj he] at hg
    exact hg
  have hinteger : (integer h arg).map (fun w => (w, h)) = .ok (v, h') → Grows h v h' := by
    intro he
    cases hi : integer h arg with
    | error f => rw [hi] at he; cases he
    | ok w =>
      rw [hi] at he
      exact hplain w (integer_below _ hi) he
  refine of_ite hs (hplain _ rfl) fun hs => ?_
  refine of_ite hs (hplain _ rfl) fun hs => ?_
  refine of_ite hs (hplain _ rfl) fun hs => ?_
  refine of_ite hs (hplain _ rfl) fun hs => ?_
  refine of_ite hs (hplain _ rfl) fun hs => ?_
  refine of_ite hs (hplain _ rfl) fun hs => ?_
  refine of_ite hs (hplain _ rfl) fun hs => ?_
  refine of_ite hs hinteger fun hs => ?_
  refine of_ite hs (hplain _ rfl) fun hs => ?_
  refine of_ite hs (hplain _ rfl) fun hs => ?_
  refine of_ite hs (hplain _ rfl) fun hs => ?_
  refine of_ite hs (hplain _ rfl) fun hs => ?_
  refine of_ite hs (hplain _ rfl) fun hs => ?_
  refine of_ite hs (hplain _ ?_) fun hs => ?_
  · simp [ofFields, isBelow, Shape.isBelow, areFieldsBelow, ha]
  refine of_ite hs (hplain _ (wrapped_below ha)) fun hs => ?_
  refine of_ite hs (hplain _ rfl) fun hs => ?_
  refine of_ite hs (hknot _ ?_) fun hs => ?_
  · simp [ofFields, isBelow, Shape.isBelow, areFieldsBelow, one]
  refine of_ite hs (hknot _ ?_) fun hs => ?_
  · simp [isBelow, Shape.isBelow, areBelow, areFieldsBelow]
  exact of_ite hs (hplain _ rfl) (hplain _ rfl)

theorem argument_below {n : Nat} {fs : List (Text × Item)} (hf : areFieldsBelow n fs = true)
    (name : Text) : (fieldOr name fs).isBelow n = true := by
  unfold fieldOr
  cases hn : fs.find? fun f => f.1 == name with
  | none => rfl
  | some f => exact areFieldsBelow_iff.mp hf f (List.mem_of_find?_eq_some hn)

theorem bind_ok {α β ε : Type} {r : Except ε α} {f : α → Except ε β} {b : β}
    (h : (r >>= f) = .ok b) : ∃ a, r = .ok a ∧ f a = .ok b := by
  cases r with
  | error e => cases h
  | ok a => exact ⟨a, rfl, h⟩

mutual

theorem build_grows {h h' : Heap} {a : Item} (hh : Heap.IsClosed h) :
    ∀ v : Value, build h v = .ok (a, h') → Grows h a h'
  | .list vs, hb => by
    unfold build at hb
    obtain ⟨⟨items, g⟩, hi, hb⟩ := bind_ok hb
    obtain ⟨h1, h2, h3⟩ := buildAll_grows hh vs hi
    cases hb
    exact ⟨h1, h2, by simp [isBelow, Shape.isBelow, areFieldsBelow, h3]⟩
  | .mapping es, hb => by
    unfold build at hb
    obtain ⟨⟨fields, g⟩, hi, hb⟩ := bind_ok hb
    obtain ⟨h1, h2, h3⟩ := buildFields_grows hh es hi
    dsimp only at hb
    split at hb
    · obtain ⟨h4, h5, h6⟩ := special_grows h2 (argument_below h3 "arg") hb
      exact ⟨Nat.le_trans h1 h4, h5, h6⟩
    · cases hb
      exact ⟨h1, h2, by simp [ofFields, isBelow, Shape.isBelow, h3]⟩
  | .null, hb | .bool _, hb | .int _, hb | .float _, hb | .text _, hb | .bytes _, hb
  | .date _, hb | .dateTime _, hb | .tuple _, hb | .set _, hb | .cycle _, hb => by
    unfold build at hb
    cases hb
    exact ⟨Nat.le_refl _, hh, ofValue_isBelow _ _⟩

theorem buildAll_grows {h h' : Heap} {items : List Item} (hh : Heap.IsClosed h) :
    ∀ vs : List Value, buildAll h vs = .ok (items, h') →
      h.length ≤ h'.length ∧ Heap.IsClosed h' ∧ areBelow h'.length items = true
  | [], hb => by
    cases hb
    exact ⟨Nat.le_refl _, hh, rfl⟩
  | v :: vs, hb => by
    unfold buildAll at hb
    obtain ⟨⟨a, g⟩, ha, hb⟩ := bind_ok hb
    obtain ⟨⟨as, k⟩, has, hb⟩ := bind_ok hb
    obtain ⟨h1, h2, h3⟩ := build_grows hh v ha
    obtain ⟨h4, h5, h6⟩ := buildAll_grows h2 vs has
    cases hb
    exact ⟨Nat.le_trans h1 h4, h5, by simp [areBelow, isBelow_mono h4 a h3, h6]⟩

theorem buildFields_grows {h h' : Heap} {fields : List (Text × Item)} (hh : Heap.IsClosed h) :
    ∀ es : List (Value × Value), buildFields h es = .ok (fields, h') →
      h.length ≤ h'.length ∧ Heap.IsClosed h' ∧ areFieldsBelow h'.length fields = true
  | [], hb => by
    cases hb
    exact ⟨Nat.le_refl _, hh, rfl⟩
  | (k, v) :: es, hb => by
    unfold buildFields at hb
    obtain ⟨⟨a, g⟩, ha, hb⟩ := bind_ok hb
    obtain ⟨⟨as, k⟩, has, hb⟩ := bind_ok hb
    obtain ⟨h1, h2, h3⟩ := build_grows hh v ha
    obtain ⟨h4, h5, h6⟩ := buildFields_grows h2 es has
    cases hb
    exact ⟨Nat.le_trans h1 h4, h5, by simp [areFieldsBelow, isBelow_mono h4 a h3, h6]⟩

end

end Item
end ConfigLoader.Script
