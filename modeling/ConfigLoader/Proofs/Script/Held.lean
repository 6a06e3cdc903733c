import ConfigLoader.Proofs.Json.Documents
import ConfigLoader.Script.Encoding

/-! # Held documents

What it is for a script value to hold a document. Its objects may be shared between its parts, and no
function stands among them.
-/
namespace ConfigLoader.Script
open Json (IsDocument)
open Json.Canonical (order order_perm textEntries)

/-- A script value is a document to the heap; objects are held by their places or on their own. -/
inductive Holds (h : Heap) : Item → Value → Prop
  | null : Holds h .null .null
  | bool (b : Bool) : Holds h (.bool b) (.bool b)
  | number {x : Binary64} (hx : x.isFinite = true) : Holds h (.number x) (.float x)
  | text {t : Text} (ht : Text.joinSurrogates t = t) : Holds h (.text t) (.text t)
  | list {ps : List (Item × Value)} (hps : ∀ p ∈ ps, Holds h p.1 p.2) :
      Holds h (.object (.array (ps.map Prod.fst)) []) (.list (ps.map Prod.snd))
  | mapping {ms : List (Text × Item × Value)} (hnames : (ms.map Prod.fst).Nodup)
      (htexts : ∀ m ∈ ms, Text.joinSurrogates m.1 = m.1) (hms : ∀ m ∈ ms, Holds h m.2.1 m.2.2) :
      Holds h (.object .plain (ms.map fun m => (m.1, m.2.1)))
        (.mapping (textEntries (ms.map fun m => (m.1, m.2.2))))
  | cell {n : Nat} {shape : Shape} {fields : List (Text × Item)} {v : Value}
      (hn : h.get n = .object shape fields) (hv : Holds h (.object shape fields) v) :
      Holds h (.cell n) v

namespace Holds
variable {h : Heap} {a : Item} {v w : Value}

theorem isDocument (hv : Holds h a v) : IsDocument v := by
  induction hv with
  | null => exact .null
  | bool b => exact .bool b
  | number hx => exact .number hx
  | text ht => exact .text ht
  | list hps ih =>
    refine .list fun v hv => ?_
    obtain ⟨p, hp, rfl⟩ := List.mem_map.mp hv
    exact ih p hp
  | @mapping ms hnames htexts hms ih =>
    refine .mapping ?_ ?_ ?_
    · rw [List.map_map]
      exact hnames
    · intro m hm
      obtain ⟨f, hf, rfl⟩ := List.mem_map.mp hm
      exact htexts f hf
    · intro m hm
      obtain ⟨f, hf, rfl⟩ := List.mem_map.mp hm
      exact ih f hf
  | cell hn hv ih => exact ih

theorem map_settled {α β γ : Type} {f : α → β} {g : α → γ} {as bs : List α}
    (hf : as.map f = bs.map f) (h : ∀ a ∈ as, ∀ b ∈ bs, f a = f b → g a = g b) :
    as.map g = bs.map g := by
  induction as generalizing bs with
  | nil =>
    cases bs with
    | nil => rfl
    | cons b bs => cases hf
  | cons a as ih =>
    cases bs with
    | nil => cases hf
    | cons b bs =>
      obtain ⟨h1, h2⟩ := List.cons.inj hf
      rw [List.map_cons, List.map_cons, h a (List.mem_cons_self ..) b (List.mem_cons_self ..) h1,
        ih h2 fun c hc d hd => h c (List.mem_cons_of_mem _ hc) d (List.mem_cons_of_mem _ hd)]

theorem unique (hv : Holds h a v) (hw : Holds h a w) : v = w := by
  induction hv generalizing w with
  | null => cases hw; rfl
  | bool b => cases hw; rfl
  | number hx => cases hw; rfl
  | text ht => cases hw; rfl
  | @list ps hps ih =>
    generalize hitems : ps.map Prod.fst = items at hw
    cases hw with
    | @list qs hqs =>
      refine congrArg Value.list (map_settled hitems fun p hp q hq heq => ?_)
      exact ih p hp (heq ▸ hqs q hq)
  | @mapping ms hnames htexts hms ih =>
    generalize hfields : (ms.map fun m => (m.1, m.2.1)) = fields at hw
    cases hw with
    | @mapping ns _ _ hns =>
      refine congrArg (fun es => Value.mapping (textEntries es)) (map_settled hfields ?_)
      intro m hm n hn heq
      obtain ⟨hname, hitem⟩ := Prod.mk.inj heq
      exact Prod.ext hname (ih m hm (hitem ▸ hns n hn))
  | cell hn hv ih =>
    cases hw with
    | cell hn' hw =>
      obtain ⟨rfl, rfl⟩ := Item.object.inj (hn.symm.trans hn')
      exact ih hw

/-! ## Objects of documents -/

/-- An object of a document is a list without names, or a plain one whose fields are documents. -/
theorem object_cases {shape : Shape} {fields : List (Text × Item)}
    (hv : Holds h (.object shape fields) v) :
    (∃ items, shape = .array items ∧ fields = []) ∨
    (shape = .plain ∧ ∀ f ∈ fields, ∃ w, Holds h f.2 w) := by
  cases hv with
  | list hps => exact .inl ⟨_, rfl, rfl⟩
  | mapping hnames htexts hms =>
    refine .inr ⟨rfl, fun f hf => ?_⟩
    obtain ⟨m, hm, rfl⟩ := List.mem_map.mp hf
    exact ⟨m.2.2, hms m hm⟩

theorem look_cases (hv : Holds h a v) :
    (∃ shape fields, h.look a = .object shape fields ∧ Holds h (.object shape fields) v) ∨
    (h.look a = a ∧ ∀ shape fields, a ≠ .object shape fields) := by
  cases hv with
  | cell hn hv => exact .inl ⟨_, _, hn, hv⟩
  | list hps => exact .inl ⟨_, _, rfl, .list hps⟩
  | mapping hnames htexts hms => exact .inl ⟨_, _, rfl, .mapping hnames htexts hms⟩
  | _ => exact .inr ⟨rfl, nofun⟩

theorem call_none (hv : Holds h a v) : a.call? h = none := by
  rw [Item.call?]
  rcases hv.look_cases with ⟨shape, fields, hlook, hobject⟩ | ⟨hlook, hscalar⟩
  · rw [hlook]
    rcases hobject.object_cases with ⟨items, rfl, rfl⟩ | ⟨rfl, -⟩ <;> rfl
  · rw [hlook]
    cases a with
    | object shape fields => exact absurd rfl (hscalar shape fields)
    | _ => rfl

theorem replaced_self (hv : Holds h a v) : Encoding.replaced h a = a := by
  rw [Encoding.replaced, Item.field?]
  rcases hv.look_cases with ⟨shape, fields, hlook, hobject⟩ | ⟨hlook, hscalar⟩
  · rw [hlook]
    rcases hobject.object_cases with ⟨items, rfl, rfl⟩ | ⟨rfl, hfields⟩
    · rfl
    · dsimp only
      cases hfind : fields.find? fun f => f.1 == Text.ofString "toJSON" with
      | none => rfl
      | some f =>
        obtain ⟨w, hw⟩ := hfields f (List.mem_of_find?_eq_some hfind)
        simp only [Option.map_some, hw.call_none, Option.getD_none]
  · rw [hlook]
    cases a with
    | object shape fields => exact absurd rfl (hscalar shape fields)
    | _ => rfl

theorem unboxed_self (hv : Holds h a v) : Encoding.unboxed h a = a := by
  rw [Encoding.unboxed]
  rcases hv.look_cases with ⟨shape, fields, hlook, hobject⟩ | ⟨hlook, hscalar⟩
  · rw [hlook]
    rcases hobject.object_cases with ⟨items, rfl, rfl⟩ | ⟨rfl, -⟩ <;> rfl
  · rw [hlook]
    cases a with
    | object shape fields => exact absurd rfl (hscalar shape fields)
    | _ => rfl

theorem truthy (hv : Holds h a v) : a.truthy = (Item.ofValue v).truthy := by
  induction hv with
  | cell hn hv ih =>
    rw [← ih]
    rfl
  | _ => rfl

end Holds

@[simp] theorem ofValues_eq (vs : List Value) : Item.ofValues vs = vs.map Item.ofValue := by
  induction vs with
  | nil => rfl
  | cons v vs ih => rw [Item.ofValues, ih]; rfl

@[simp] theorem ofEntries_textEntries (ms : List (Text × Value)) :
    Item.ofEntries (textEntries ms) = ms.map fun m => (m.1, Item.ofValue m.2) := by
  induction ms with
  | nil => rfl
  | cons m ms ih => exact congrArg (List.cons (m.1, Item.ofValue m.2)) ih

theorem holds_ofValue (h : Heap) {v : Value} (hv : IsDocument v) : Holds h (Item.ofValue v) v := by
  induction hv with
  | null => exact .null
  | bool b => exact .bool b
  | number hx => exact .number hx
  | text ht => exact .text ht
  | @list vs hvs ih =>
    have hitems : ∀ p ∈ vs.map fun v => (Item.ofValue v, v), Holds h p.1 p.2 := by
      intro p hp
      obtain ⟨v, hv, rfl⟩ := List.mem_map.mp hp
      exact ih v hv
    have hlist := Holds.list hitems
    simp only [List.map_map, Function.comp_def, List.map_id'] at hlist
    rw [Item.ofValue, ofValues_eq]
    exact hlist
  | @mapping ms hnames htexts hms ih =>
    have hfields : ∀ n ∈ ms.map fun m => (m.1, Item.ofValue m.2, m.2),
        Text.joinSurrogates n.1 = n.1 ∧ Holds h n.2.1 n.2.2 := by
      intro n hn
      obtain ⟨m, hm, rfl⟩ := List.mem_map.mp hn
      exact ⟨htexts m hm, ih m hm⟩
    have hmapping := Holds.mapping (by rw [List.map_map]; exact hnames)
      (fun n hn => (hfields n hn).1) fun n hn => (hfields n hn).2
    simp only [List.map_map, Function.comp_def, Prod.mk.eta, List.map_id'] at hmapping
    rw [Item.ofValue, ofEntries_textEntries]
    exact hmapping

end ConfigLoader.Script
