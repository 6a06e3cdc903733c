import Mathlib.Algebra.BigOperators.Group.Finset.Basic
import ConfigLoader.Proofs.Script.Held

/-! # Encoding held documents

A script value that holds a document is encoded as a document with the same text, where the stack has
room for all its levels, and otherwise ends with the error of the stack. No object is part of itself, as
a part is smaller than the whole, so no circle is met, and the sizes of what is held at the places that
are not open bound the way that is left.
-/
namespace ConfigLoader.Script.Encoding
open Item (size sizes fieldsSize)
open Json (IsDocument)
open Json.Canonical (itemLevels levels memberLevels numberText numberText_zero order order_map order_perm
  print print_list print_members_congr print_ordered textEntries)
variable {limit : Nat} {h : Heap} {path : List Frame} {step : Step} {place : Option Nat} {a : Item}
  {v : Value} {S : Finset Nat}

def Told (r : Except Failure (Option Value)) (v : Value) : Prop :=
  ∃ w, r = .ok (some w) ∧ IsDocument w ∧ print w = print v ∧ levels w = levels v

def Tells (limit depth : Nat) (r : Except Failure (Option Value)) (v : Value) : Prop :=
  (depth + levels v ≤ limit ∧ Told r v) ∨ (limit < depth + levels v ∧ r = .error stackFailure)

def stored (h : Heap) (S : Finset Nat) : Nat := ∑ n ∈ S, size (h.get n)

/-- On the way to a document: `S` are the places that are not open, and what is open is larger. -/
structure Inside (limit : Nat) (h : Heap) (path : List Frame) (S : Finset Nat) (v : Value) :
    Prop where
  room : path.length ≤ limit
  left : ∀ n < h.length, (∀ f ∈ path, f.place ≠ some n) → n ∈ S
  around : ∀ f ∈ path, ∀ n, f.place = some n → ∃ w, Holds h (.cell n) w ∧ sizeOf v < sizeOf w

theorem number_told {x : Binary64} (hx : x.isFinite = true) :
    Told (.ok (some (number x))) (.float x) := by
  rw [number, if_pos hx]
  cases hz : x.isZero with
  | false => exact ⟨_, rfl, .number hx, rfl, rfl⟩
  | true =>
    have hzero : (Binary64.zero false).isFinite = true := rfl
    refine ⟨_, rfl, .number hzero, ?_, rfl⟩
    change numberText (.zero false) = numberText x
    rw [numberText_zero hx hz, numberText_zero hzero rfl]

theorem size_pos (a : Item) : 0 < a.size := by
  cases a <;> simp only [size] <;> omega

theorem encodeItems_tells {ps : List (Item × Value)}
    (hps : ∀ p ∈ ps, ∀ fuel step, 3 * (p.1.size + stored h S) ≤ fuel →
      Tells limit path.length (encode limit h fuel path step p.1) p.2) (fuel n : Nat)
    (hfuel : 3 * (sizes (ps.map Prod.fst) + stored h S) ≤ fuel) :
    ((∀ p ∈ ps, path.length + levels p.2 ≤ limit) ∧
      ∃ ws, encodeItems limit h (fuel + 1) path n (ps.map Prod.fst) = .ok ws ∧
        (∀ w ∈ ws, IsDocument w) ∧ ws.map print = (ps.map Prod.snd).map print ∧
        ws.map levels = (ps.map Prod.snd).map levels) ∨
    ((∃ p ∈ ps, limit < path.length + levels p.2) ∧
      encodeItems limit h (fuel + 1) path n (ps.map Prod.fst) = .error stackFailure) := by
  induction ps generalizing fuel n with
  | nil =>
    exact .inl ⟨fun p hp => absurd hp List.not_mem_nil, [], rfl,
      fun w hw => absurd hw List.not_mem_nil, rfl, rfl⟩
  | cons p ps ih =>
    have hpos := size_pos p.1
    simp only [List.map_cons, sizes] at hfuel
    rcases hps p (List.mem_cons_self ..) fuel (.index n) (by omega) with
      ⟨hroom, w, hw, hdocument, hprint, hlevels⟩ | ⟨hdeep, hw⟩
    · obtain ⟨fuel, rfl⟩ : ∃ k, fuel = k + 1 := ⟨fuel - 1, by omega⟩
      rcases ih (fun q hq => hps q (List.mem_cons_of_mem _ hq)) fuel (n + 1) (by omega) with
        ⟨hrooms, ws, hws, hdocuments, hprints, hall⟩ | ⟨⟨q, hq, hdeep⟩, hws⟩
      · refine .inl ⟨List.forall_mem_cons.mpr ⟨hroom, hrooms⟩, w :: ws, ?_,
          List.forall_mem_cons.mpr ⟨hdocument, hdocuments⟩, ?_, ?_⟩
        · rw [List.map_cons, encodeItems, hw, hws]
          rfl
        · rw [List.map_cons, hprint, hprints]
          rfl
        · rw [List.map_cons, hlevels, hall]
          rfl
      · refine .inr ⟨⟨q, List.mem_cons_of_mem _ hq, hdeep⟩, ?_⟩
        rw [List.map_cons, encodeItems, hw, hws]
        rfl
    · refine .inr ⟨⟨p, List.mem_cons_self .., hdeep⟩, ?_⟩
      rw [List.map_cons, encodeItems, hw]
      rfl

theorem encodeFields_tells {ms : List (Text × Item × Value)}
    (hms : ∀ m ∈ ms, ∀ fuel step, 3 * (m.2.1.size + stored h S) ≤ fuel →
      Tells limit path.length (encode limit h fuel path step m.2.1) m.2.2) (fuel : Nat)
    (hfuel : 3 * (fieldsSize (ms.map fun m => (m.1, m.2.1)) + stored h S) ≤ fuel) :
    ((∀ m ∈ ms, path.length + levels m.2.2 ≤ limit) ∧
      ∃ ns : List (Text × Value × Value),
        encodeFields limit h (fuel + 1) path (ms.map fun m => (m.1, m.2.1)) =
          .ok (textEntries (ns.map fun n => (n.1, n.2.1))) ∧
        (ns.map fun n => (n.1, n.2.2)) = (ms.map fun m => (m.1, m.2.2)) ∧
        ∀ n ∈ ns, IsDocument n.2.1 ∧ print n.2.1 = print n.2.2 ∧ levels n.2.1 = levels n.2.2) ∨
    ((∃ m ∈ ms, limit < path.length + levels m.2.2) ∧
      encodeFields limit h (fuel + 1) path (ms.map fun m => (m.1, m.2.1)) =
        .error stackFailure) := by
  induction ms generalizing fuel with
  | nil =>
    exact .inl ⟨fun m hm => absurd hm List.not_mem_nil, [], rfl, rfl,
      fun n hn => absurd hn List.not_mem_nil⟩
  | cons m ms ih =>
    have hpos := size_pos m.2.1
    simp only [List.map_cons, fieldsSize] at hfuel
    rcases hms m (List.mem_cons_self ..) fuel (.field m.1) (by omega) with
      ⟨hroom, w, hw, htold⟩ | ⟨hdeep, hw⟩
    · obtain ⟨fuel, rfl⟩ : ∃ k, fuel = k + 1 := ⟨fuel - 1, by omega⟩
      rcases ih (fun q hq => hms q (List.mem_cons_of_mem _ hq)) fuel (by omega) with
        ⟨hrooms, ns, hns, hrest, htolds⟩ | ⟨⟨q, hq, hdeep⟩, hws⟩
      · refine .inl ⟨List.forall_mem_cons.mpr ⟨hroom, hrooms⟩, (m.1, w, m.2.2) :: ns, ?_, ?_,
          List.forall_mem_cons.mpr ⟨htold, htolds⟩⟩
        · rw [List.map_cons, encodeFields, hw, hns]
          rfl
        · rw [List.map_cons, List.map_cons, hrest]
      · refine .inr ⟨⟨q, List.mem_cons_of_mem _ hq, hdeep⟩, ?_⟩
        rw [List.map_cons, encodeFields, hw, hws]
        rfl
    · refine .inr ⟨⟨m, List.mem_cons_self .., hdeep⟩, ?_⟩
      rw [List.map_cons, encodeFields, hw]
      rfl

theorem fieldsSize_perm {fs gs : List (Text × Item)} (h : fs.Perm gs) :
    fieldsSize fs = fieldsSize gs := by
  induction h with
  | nil => rfl
  | cons f h ih => rw [fieldsSize, fieldsSize, ih]
  | swap f g fs => simp only [fieldsSize]; omega
  | trans h1 h2 ih1 ih2 => exact ih1.trans ih2

/-- The parts of an object are encoded on the way through it. -/
def Along (limit : Nat) (h : Heap) (path : List Frame) (S : Finset Nat) (v : Value) : Prop :=
  path.length ≤ limit → ∀ u, sizeOf u < sizeOf v → Inside limit h path S u

theorem Inside.mono {u : Value} (hi : Inside limit h path S v) (hu : sizeOf u < sizeOf v) :
    Inside limit h path S u where
  room := hi.room
  left := hi.left
  around f hf n hn := by
    obtain ⟨w, hw, hlt⟩ := hi.around f hf n hn
    exact ⟨w, hw, Nat.lt_trans hu hlt⟩

theorem Inside.along (hi : Inside limit h path S v) {f : Frame} (hf : f.place = none) :
    Along limit h (f :: path) S v := by
  intro hroom u hu
  have hu := hi.mono hu
  refine ⟨hroom, fun n hn hno => hu.left n hn fun g hg => hno g (List.mem_cons_of_mem _ hg), ?_⟩
  rintro g hg n hn
  rcases List.mem_cons.mp hg with rfl | hg
  · cases hf.symm.trans hn
  · exact hu.around g hg n hn

theorem Inside.along_cell {n : Nat} (hi : Inside limit h path S v) (hv : Holds h (.cell n) v)
    {f : Frame} (hf : f.place = some n) : Along limit h (f :: path) (S.erase n) v := by
  intro hroom u hu
  have hsmall := hi.mono hu
  refine ⟨hroom, ?_, ?_⟩
  · intro m hm hno
    refine Finset.mem_erase.mpr ⟨?_, hi.left m hm fun g hg => hno g (List.mem_cons_of_mem _ hg)⟩
    rintro rfl
    exact hno f (List.mem_cons_self ..) hf
  · intro g hg m hm
    rcases List.mem_cons.mp hg with rfl | hg
    · obtain rfl : n = m := Option.some.inj (hf.symm.trans hm)
      exact ⟨v, hv, hu⟩
    · exact hsmall.around g hg m hm

theorem Inside.not_open {n : Nat} (hi : Inside limit h path S v) (hv : Holds h (.cell n) v) :
    ∀ f ∈ path, f.place ≠ some n := by
  intro f hf hn
  obtain ⟨w, hw, hlt⟩ := hi.around f hf n hn
  rw [hv.unique hw] at hlt
  exact Nat.lt_irrefl _ hlt

def ObjectTells (limit : Nat) (h : Heap) (shape : Shape) (fields : List (Text × Item)) (v : Value) :
    Prop :=
  ∀ fuel path step place S, path.length ≤ limit →
    Along limit h (⟨step, shape.className, place⟩ :: path) S v →
    3 * ((Item.object shape fields).size + stored h S) ≤ fuel + 1 →
    Tells limit path.length (encodeObject limit h fuel path step place (.object shape fields)) v

def ItemTells (limit : Nat) (h : Heap) (a : Item) (v : Value) : Prop :=
  ∀ fuel path step S, Inside limit h path S v → 3 * (a.size + stored h S) ≤ fuel →
    Tells limit path.length (encode limit h fuel path step a) v

theorem sizeOf_item {ps : List (Item × Value)} {p : Item × Value} (hp : p ∈ ps) :
    sizeOf p.2 < sizeOf (Value.list (ps.map Prod.snd)) := by
  have hmem := List.sizeOf_lt_of_mem (List.mem_map_of_mem (f := Prod.snd) hp)
  rw [Value.list.sizeOf_spec]
  omega

theorem sizeOf_member {ms : List (Text × Item × Value)} {m : Text × Item × Value} (hm : m ∈ ms) :
    sizeOf m.2.2 < sizeOf (Value.mapping (textEntries (ms.map fun m => (m.1, m.2.2)))) := by
  have hentry : (Value.text m.1, m.2.2) ∈ textEntries (ms.map fun m => (m.1, m.2.2)) :=
    List.mem_map_of_mem (List.mem_map_of_mem hm)
  have hmem := List.sizeOf_lt_of_mem hentry
  rw [Prod.mk.sizeOf_spec] at hmem
  rw [Value.mapping.sizeOf_spec]
  omega

theorem encodeObject_deep {fuel : Nat} {shape : Shape} {fields : List (Text × Item)}
    (hf : ∀ r, shape ≠ .function r) (h0 : limit ≤ path.length) :
    encodeObject limit h (fuel + 1) path step place (.object shape fields) =
      .error stackFailure := by
  cases shape with
  | function r => exact absurd rfl (hf r)
  | _ => simp only [encodeObject, h0, if_true]

theorem objectTells_list {ps : List (Item × Value)} (hps : ∀ p ∈ ps, ItemTells limit h p.1 p.2) :
    ObjectTells limit h (.array (ps.map Prod.fst)) [] (.list (ps.map Prod.snd)) := by
  intro fuel path step place S hpath halong hfuel
  have hlevels : levels (.list (ps.map Prod.snd)) = itemLevels (ps.map Prod.snd) + 1 := rfl
  simp only [size, Item.Shape.size, fieldsSize] at hfuel
  obtain ⟨fuel, rfl⟩ : ∃ k, fuel = k + 2 := ⟨fuel - 2, by omega⟩
  rcases Nat.lt_or_ge path.length limit with hroom | h0
  swap
  · exact .inr ⟨by omega, encodeObject_deep nofun h0⟩
  have hparts : ∀ p ∈ ps, ∀ fuel part, 3 * (p.1.size + stored h S) ≤ fuel →
      Tells limit (⟨step, (Shape.array (ps.map Prod.fst)).className, place⟩ :: path).length
        (encode limit h fuel (⟨step, (Shape.array (ps.map Prod.fst)).className, place⟩ :: path) part
          p.1) p.2 :=
    fun p hp fuel part hfuel => hps p hp fuel _ part S (halong hroom p.2 (sizeOf_item hp)) hfuel
  have hitems : path.length + itemLevels (ps.map Prod.snd) + 1 ≤ limit ↔
      ∀ p ∈ ps, path.length + 1 + levels p.2 ≤ limit := by
    have hle : itemLevels (ps.map Prod.snd) ≤ limit - path.length - 1 ↔
        ∀ p ∈ ps, levels p.2 ≤ limit - path.length - 1 := by
      rw [Json.Canonical.itemLevels_le, List.forall_mem_map]
    exact ⟨fun hl p hp => by have := hle.mp (by omega) p hp; omega,
      fun hl => by have := hle.mpr fun p hp => (by have := hl p hp; omega); omega⟩
  rcases encodeItems_tells hparts fuel 0 (by omega) with
    ⟨hrooms, ws, hws, hdocuments, hprints, hall⟩ | ⟨⟨p, hp, hdeep⟩, hws⟩
  · refine .inl ⟨by have := hitems.mpr hrooms; omega, .list ws, ?_, .list hdocuments, ?_, ?_⟩
    · simp only [encodeObject, Nat.not_le.mpr hroom, if_false, hws]
      rfl
    · rw [print_list, hprints, print_list]
    · rw [hlevels, levels]
      refine congrArg Nat.succ (eq_of_forall_ge_iff fun n => ?_)
      rw [Json.Canonical.itemLevels_le, Json.Canonical.itemLevels_le,
        ← List.forall_mem_map (f := levels) (P := (· ≤ n)), hall,
        ← List.forall_mem_map (f := levels) (P := (· ≤ n))]
  · refine .inr ⟨?_, ?_⟩
    · by_contra hle
      have := hitems.mp (by omega) p hp
      rw [List.length_cons] at hdeep
      omega
    · simp only [encodeObject, Nat.not_le.mpr hroom, if_false, hws]
      rfl

theorem levels_fields_le {vs : List (Text × Value)} {n : Nat} :
    levels (.mapping (textEntries vs)) ≤ n + 1 ↔ ∀ v ∈ vs, levels v.2 ≤ n := by
  rw [levels, Nat.succ_le_succ_iff, Json.Canonical.memberLevels_le, textEntries, List.forall_mem_map]

/-- Fields in another order, with values that have as many levels. -/
theorem levels_fields_perm {ws : List (Text × Value × Value)} {vs : List (Text × Value)}
    (hvs : (ws.map fun w => (w.1, w.2.2)).Perm vs) (hws : ∀ w ∈ ws, levels w.2.1 = levels w.2.2) :
    levels (.mapping (textEntries (ws.map fun w => (w.1, w.2.1)))) =
      levels (.mapping (textEntries vs)) := by
  refine congrArg Nat.succ (eq_of_forall_ge_iff fun n => ?_)
  refine Nat.succ_le_succ_iff.symm.trans (levels_fields_le.trans (Iff.trans ?_
    (levels_fields_le.symm.trans Nat.succ_le_succ_iff)))
  rw [List.forall_mem_map]
  calc (∀ w ∈ ws, levels w.2.1 ≤ n) ↔ ∀ w ∈ ws, levels w.2.2 ≤ n :=
        forall₂_congr fun w hw => by rw [hws w hw]
    _ ↔ ∀ v ∈ ws.map fun w => (w.1, w.2.2), levels v.2 ≤ n := by rw [List.forall_mem_map]
    _ ↔ ∀ v ∈ vs, levels v.2 ≤ n := forall_congr' fun v => by rw [hvs.mem_iff]

theorem objectTells_mapping {ms : List (Text × Item × Value)} (hnames : (ms.map Prod.fst).Nodup)
    (htexts : ∀ m ∈ ms, Text.joinSurrogates m.1 = m.1)
    (hms : ∀ m ∈ ms, ItemTells limit h m.2.1 m.2.2) :
    ObjectTells limit h .plain (ms.map fun m => (m.1, m.2.1))
      (.mapping (textEntries (ms.map fun m => (m.1, m.2.2)))) := by
  intro fuel path step place S hpath halong hfuel
  simp only [size, Item.Shape.size] at hfuel
  obtain ⟨fuel, rfl⟩ : ∃ k, fuel = k + 2 := ⟨fuel - 2, by omega⟩
  have hmembers : ∀ n, levels (.mapping (textEntries (ms.map fun m => (m.1, m.2.2)))) ≤ n + 1 ↔
      ∀ m ∈ ms, levels m.2.2 ≤ n := fun n => levels_fields_le.trans List.forall_mem_map
  have hpositive : 0 < levels (.mapping (textEntries (ms.map fun m => (m.1, m.2.2)))) :=
    Nat.succ_pos _
  rcases Nat.lt_or_ge path.length limit with hroom | h0
  swap
  · exact .inr ⟨by omega, encodeObject_deep nofun h0⟩
  -- the fields are encoded in the order of their names; the document has them as they are
  let ns := order Prod.fst ms
  have hperm : ns.Perm ms := order_perm Prod.fst ms
  have horder : order Prod.fst (ms.map fun m => (m.1, m.2.1)) = ns.map fun m => (m.1, m.2.1) :=
    order_map Prod.fst _ ms
  have hsize : fieldsSize (ns.map fun m => (m.1, m.2.1)) =
      fieldsSize (ms.map fun m => (m.1, m.2.1)) := fieldsSize_perm (hperm.map _)
  have hrows : (ns.map fun m => (m.1, m.2.2)) = order Prod.fst (ms.map fun m => (m.1, m.2.2)) :=
    (order_map Prod.fst _ ms).symm
  have hparts : ∀ m ∈ ns, ∀ fuel part, 3 * (m.2.1.size + stored h S) ≤ fuel →
      Tells limit (⟨step, Shape.plain.className, place⟩ :: path).length
        (encode limit h fuel (⟨step, Shape.plain.className, place⟩ :: path) part m.2.1) m.2.2 :=
    fun m hm fuel part hfuel => hms m (hperm.mem_iff.mp hm) fuel _ part S
      (halong hroom m.2.2 (sizeOf_member (hperm.mem_iff.mp hm))) hfuel
  have hencode : encodeObject limit h (fuel + 2) path step place
      (.object .plain (ms.map fun m => (m.1, m.2.1))) =
      (encodeFields limit h (fuel + 1) (⟨step, Shape.plain.className, place⟩ :: path)
        (ns.map fun m => (m.1, m.2.1))).map fun es => some (.mapping es) := by
    simp only [encodeObject, Nat.not_le.mpr hroom, if_false, horder]
  rcases encodeFields_tells hparts fuel (by omega) with
    ⟨hrooms, ws, hws, hvalues, htold⟩ | ⟨⟨m, hm, hdeep⟩, hws⟩
  · have hkeys : ws.map Prod.fst = ns.map Prod.fst := by
      have hfst := congrArg (List.map Prod.fst) hvalues
      rwa [List.map_map, List.map_map] at hfst
    refine .inl ⟨?_, .mapping (textEntries (ws.map fun w => (w.1, w.2.1))), ?_,
      .mapping ?_ ?_ ?_, ?_, ?_⟩
    · have := (hmembers (limit - path.length - 1)).mpr fun m hm => by
        have := hrooms m (hperm.mem_iff.mpr hm)
        rw [List.length_cons] at this
        omega
      omega
    · rw [hencode, hws]
      rfl
    · rw [List.map_map]
      exact hkeys ▸ (hperm.map Prod.fst).nodup_iff.mpr hnames
    · intro w hw
      obtain ⟨r, hr, rfl⟩ := List.mem_map.mp hw
      have hname : r.1 ∈ ns.map Prod.fst := hkeys ▸ List.mem_map_of_mem hr
      obtain ⟨m, hm, hname⟩ := List.mem_map.mp hname
      exact hname ▸ htexts m (hperm.mem_iff.mp hm)
    · intro w hw
      obtain ⟨r, hr, rfl⟩ := List.mem_map.mp hw
      exact (htold r hr).1
    · rw [print_members_congr Prod.fst fun w hw => (htold w hw).2.1, hvalues, hrows, print_ordered]
    · exact levels_fields_perm (hvalues ▸ hperm.map _) fun w hw => (htold w hw).2.2
  · refine .inr ⟨?_, by rw [hencode, hws]; rfl⟩
    by_contra hle
    have := (hmembers (limit - path.length - 1)).mp (by omega) m (hperm.mem_iff.mp hm)
    rw [List.length_cons] at hdeep
    omega

theorem encode_object {fuel : Nat} {shape : Shape} {fields : List (Text × Item)}
    (hv : Holds h (.object shape fields) v) :
    encode limit h (fuel + 1) path step (.object shape fields) =
      encodeObject limit h fuel path step none (.object shape fields) := by
  rw [encode, hv.replaced_self, hv.unboxed_self]

theorem encode_cell {fuel n : Nat} (hv : Holds h (.cell n) v) (hno : ∀ f ∈ path, f.place ≠ some n) :
    encode limit h (fuel + 1) path step (.cell n) =
      encodeObject limit h fuel path step (some n) (h.get n) := by
  have hany : (path.any fun f => f.place == some n) = false := by
    rw [List.any_eq_false]
    intro f hf
    simpa using hno f hf
  rw [encode, hv.replaced_self, hv.unboxed_self]
  simp only [hany, Bool.false_eq_true, if_false]

theorem ObjectTells.item {shape : Shape} {fields : List (Text × Item)}
    (ho : ObjectTells limit h shape fields v) (hv : Holds h (.object shape fields) v) :
    ItemTells limit h (.object shape fields) v := by
  intro fuel path step S hi hfuel
  have hpos := size_pos (.object shape fields)
  obtain ⟨fuel, rfl⟩ : ∃ k, fuel = k + 1 := ⟨fuel - 1, by omega⟩
  rw [encode_object hv]
  exact ho fuel path step none S hi.room (hi.along rfl) hfuel

theorem get_none {n : Nat} (hn : h.length ≤ n) : h.get n = .undefined := by
  rw [Heap.get, List.getElem?_eq_none hn]
  rfl

theorem ObjectTells.cell {n : Nat} {shape : Shape} {fields : List (Text × Item)}
    (ho : ObjectTells limit h shape fields v) (hn : h.get n = .object shape fields)
    (hv : Holds h (.object shape fields) v) : ItemTells limit h (.cell n) v := by
  intro fuel path step S hi hfuel
  have hcell : Holds h (.cell n) v := .cell hn hv
  have hno := hi.not_open hcell
  have hlt : n < h.length := by
    by_contra hge
    rw [get_none (Nat.not_lt.mp hge)] at hn
    cases hn
  have hstored : size (h.get n) + stored h (S.erase n) = stored h S :=
    Finset.add_sum_erase S (fun m => size (h.get m)) (hi.left n hlt hno)
  simp only [size] at hfuel
  obtain ⟨fuel, rfl⟩ : ∃ k, fuel = k + 1 := ⟨fuel - 1, by omega⟩
  rw [encode_cell hcell hno, hn]
  refine ho fuel path step (some n) (S.erase n) hi.room (hi.along_cell hcell rfl) ?_
  rw [← hn]
  omega

theorem scalar_tells {r : Except Failure (Option Value)}
    (ha : ∀ fuel path step, encode limit h (fuel + 1) path step a = r) (hr : Told r v)
    (hv : levels v = 0) : ItemTells limit h a v := by
  intro fuel path step S hi hfuel
  have hpos := size_pos a
  obtain ⟨fuel, rfl⟩ : ∃ k, fuel = k + 1 := ⟨fuel - 1, by omega⟩
  rw [ha]
  exact .inl ⟨by have := hi.room; omega, hr⟩

theorem tells {a : Item} (hv : Holds h a v) :
    ItemTells limit h a v ∧
      ∀ shape fields, a = .object shape fields → ObjectTells limit h shape fields v := by
  -- a cell enters the object at its place with this place open, so objects have a statement of their own
  induction hv with
  | null => exact ⟨scalar_tells (fun _ _ _ => rfl) ⟨_, rfl, .null, rfl, rfl⟩ rfl, nofun⟩
  | bool b => exact ⟨scalar_tells (fun _ _ _ => rfl) ⟨_, rfl, .bool b, rfl, rfl⟩ rfl, nofun⟩
  | number hx => exact ⟨scalar_tells (fun _ _ _ => rfl) (number_told hx) rfl, nofun⟩
  | text ht => exact ⟨scalar_tells (fun _ _ _ => rfl) ⟨_, rfl, .text ht, rfl, rfl⟩ rfl, nofun⟩
  | @list ps hps ih =>
    have ho := objectTells_list fun p hp => (ih p hp).1
    refine ⟨ho.item (.list hps), ?_⟩
    rintro shape fields ⟨⟩
    exact ho
  | @mapping ms hnames htexts hms ih =>
    have ho := objectTells_mapping hnames htexts fun m hm => (ih m hm).1
    refine ⟨ho.item (.mapping hnames htexts hms), ?_⟩
    rintro shape fields ⟨⟩
    exact ho
  | cell hn hv ih => exact ⟨(ih.2 _ _ rfl).cell hn hv, nofun⟩

theorem stored_range (h : Heap) : stored h (Finset.range h.length) = sizes h := by
  induction h with
  | nil => rfl
  | cons a h ih =>
    have hget : ∀ n, Heap.get (a :: h) (n + 1) = Heap.get h n := fun _ => rfl
    rw [stored, List.length_cons, Finset.sum_range_succ', sizes, ← ih]
    simp only [hget]
    exact Nat.add_comm ..

/-- What holds a document is encoded as it where there is room for its levels, and otherwise ends with
the error of the stack. -/
theorem document_tells {a : Item} (hv : Holds h a v) : Tells limit 0 (document limit h a) v := by
  have hi : Inside limit h [] (Finset.range h.length) v := by
    refine ⟨Nat.zero_le _, fun n hn _ => Finset.mem_range.mpr hn, ?_⟩
    exact fun f hf => absurd hf List.not_mem_nil
  refine (tells hv).1 _ [] (.field []) _ hi ?_
  rw [stored_range, Item.levels]
  omega

end ConfigLoader.Script.Encoding
