import ConfigLoader.Proofs.Value.Chains
import ConfigLoader.Proofs.Yaml.Scalars
import ConfigLoader.Yaml.Document

/-! # What building a document ends with

The store of a document that is built refers to cells of its own only, and what stands in its slots
is a value that is no container. A document is refused for its form, or for a scalar.
-/
namespace ConfigLoader
open Fault (Ends)

def Slot.Fits (n : Nat) : Slot → Prop
  | .leaf v => v.IsLeaf
  | .ref d => d < n

theorem Slot.Fits.mono {m n : Nat} {x : Slot} (h : x.Fits m) (hmn : m ≤ n) : x.Fits n := by
  cases x with
  | leaf v => exact h
  | ref d => exact Nat.lt_of_lt_of_le h hmn

def Store.Whole (s : Store) : Prop :=
  ∀ (i : Nat) (c : Cell), s.cells[i]? = some c → ∀ x ∈ c.slots, x.Fits s.cells.size

def Store.KeysApart (s : Store) : Prop :=
  ∀ (i : Nat) (es : List (Value × Slot)), s.cells[i]? = some (.mapping es) → Keyed.Apart es

/-- A store as documents leave it. -/
structure Store.Sound (s : Store) : Prop where
  whole : s.Whole
  apart : s.KeysApart

namespace Store
variable {s : Store} {c : Cell}

theorem Sound.push (h : s.Sound) (hc : ∀ x ∈ c.slots, x.Fits (s.cells.size + 1))
    (hapart : ∀ es, c = .mapping es → Keyed.Apart es) : (s.push c).2.Sound := by
  refine ⟨fun i c' hi x hx => ?_, fun i es hi => ?_⟩
  · rw [size_push]
    rw [Store.push, Array.getElem?_push] at hi
    split at hi
    · cases hi
      exact hc x hx
    · exact (h.whole i c' hi x hx).mono (Nat.le_succ _)
  · rw [Store.push, Array.getElem?_push] at hi
    split at hi
    · exact hapart es (Option.some.inj hi)
    · exact h.apart i es hi

theorem put_cases {i j : Nat} {c' : Cell} (h : (s.put i c).cells[j]? = some c') :
    i = j ∧ c' = c ∨ s.cells[j]? = some c' := by
  by_cases hij : i = j
  · subst hij
    have hlt := lt_size h
    rw [size_put] at hlt
    rw [put_self hlt] at h
    exact .inl ⟨rfl, (Option.some.inj h).symm⟩
  · rw [put_other _ hij] at h
    exact .inr h

theorem Sound.put (h : s.Sound) (i : Nat) (hc : ∀ x ∈ c.slots, x.Fits s.cells.size)
    (hapart : ∀ es, c = .mapping es → Keyed.Apart es) : (s.put i c).Sound := by
  refine ⟨fun j c' hj x hx => ?_, fun j es hj => ?_⟩
  · rw [size_put]
    rcases put_cases hj with ⟨-, rfl⟩ | hj
    · exact hc x hx
    · exact h.whole j c' hj x hx
  · rcases put_cases hj with ⟨-, he⟩ | hj
    · exact hapart es he.symm
    · exact h.apart j es hj

end Store

namespace Yaml

def Refusal.Known : Refusal → Prop
  | .form _ => True
  | .scalar f => Scalar.IsRefusal f

namespace Builder
variable {b b' : Builder} {s : Slot}

/-- The slots that a builder has are those of its store. -/
structure Sound (b : Builder) : Prop where
  built : ∀ e ∈ b.built, e.2.Fits b.store.cells.size
  store : b.store.Sound

structure After (b b' : Builder) : Prop where
  sound : b'.Sound
  size : b.store.cells.size ≤ b'.store.cells.size

theorem After.refl (h : b.Sound) : b.After b := ⟨h, Nat.le_refl _⟩

theorem After.trans {b'' : Builder} (h : b.After b') (h' : b'.After b'') : b.After b'' :=
  ⟨h'.sound, h.size.trans h'.size⟩

theorem After.of_same {b'' : Builder} (h : b.After b') (hstore : b''.store = b'.store)
    (hbuilt : b''.built = b'.built) : b.After b'' := by
  refine ⟨⟨?_, ?_⟩, ?_⟩
  · rw [hstore, hbuilt]
    exact h.sound.built
  · rw [hstore]
    exact h.sound.store
  · rw [hstore]
    exact h.size

theorem scalarText_ends (b : Builder) (fuel i : Nat) :
    Ends (fun _ => True) Refusal.Known (b.scalarText fuel i) := by
  induction fuel generalizing i with
  | zero => exact trivial
  | succ fuel ih =>
    rw [scalarText]
    split
    · exact trivial
    · exact trivial
    · split
      · exact ih _
      · exact trivial

theorem readers_ends : ∀ r ∈ scalarReaders, ∀ t,
    Ends Value.IsLeaf Scalar.IsRefusal (r.2 t) := by
  intro r hr t
  simp only [scalarReaders, List.mem_cons, List.not_mem_nil, or_false] at hr
  rcases hr with rfl | rfl | rfl | rfl | rfl | rfl
  · exact trivial
  · exact Scalar.boolean_ends t
  · exact Scalar.integer_ends t
  · exact Scalar.float_ends t
  · exact Scalar.timestamp_ends t
  · exact trivial

theorem after_finish (h : b.Sound) (i : Nat) (hs : s.Fits b.store.cells.size) :
    b.After (b.finish i s).2 ∧ (b.finish i s).1.Fits (b.finish i s).2.store.cells.size :=
  ⟨⟨⟨List.forall_mem_cons.mpr ⟨hs, h.built⟩, h.store⟩, Nat.le_refl _⟩, hs⟩

theorem after_push (h : b.Sound) {c : Cell} (hc : ∀ x ∈ c.slots, x.Fits b.store.cells.size)
    (hapart : ∀ es, c = .mapping es → Keyed.Apart es) :
    b.After { b with store := (b.store.push c).2 } := by
  have hsize : b.store.cells.size ≤ (b.store.push c).2.cells.size := by
    rw [Store.size_push]
    exact Nat.le_succ _
  exact ⟨⟨fun e he => (h.built e he).mono hsize,
    h.store.push (fun x hx => (hc x hx).mono (Nat.le_succ _)) hapart⟩, hsize⟩

theorem after_put (h : b.Sound) {c : Cell} (i : Nat)
    (hc : ∀ x ∈ c.slots, x.Fits b.store.cells.size)
    (hapart : ∀ es, c = .mapping es → Keyed.Apart es) :
    b.After { b with store := b.store.put i c } := by
  have hsize := Store.size_put b.store i c
  exact ⟨⟨fun e he => hsize ▸ h.built e he, h.store.put i hc hapart⟩, hsize.ge⟩

theorem after_postpone (h : b.Sound) (i : Nat) (kind : CollectionKind) :
    b.After (b.postpone i kind).2 ∧
      (b.postpone i kind).1.Fits (b.postpone i kind).2.store.cells.size := by
  have hpush : b.After { b with
      store := (b.store.push kind.empty).2
      pending := ⟨i, b.store.cells.size, kind⟩ :: b.pending } :=
    (after_push h (by cases kind <;> exact nofun)
      (by cases kind <;> rintro _ ⟨⟩; exact .nil)).of_same rfl rfl
  obtain ⟨hafter, hfits⟩ := after_finish hpush.sound i (s := .ref b.store.cells.size)
    (Store.size_push b.store kind.empty ▸ Nat.lt_succ_self _)
  exact ⟨hpush.trans hafter, hfits⟩

theorem object_ends (h : b.Sound) (i : Nat) :
    Ends (fun r => b.After r.2 ∧ r.1.Fits r.2.store.cells.size) Refusal.Known (b.object i) := by
  unfold object
  split
  · next hfound =>
    exact ⟨.refl h, h.built _ (List.mem_of_find?_eq_some hfound)⟩
  · dsimp only
    split
    · exact after_postpone h i _
    · next hfound =>
      refine (scalarText_ends b _ i).bind fun t _ => ?_
      have hread := readers_ends _ (List.mem_of_find?_eq_some hfound) t
      split
      · next hv =>
        exact after_finish h i (hread.of_ok hv)
      · next hf =>
        exact hread.of_error hf
    · split
      · refine (scalarText_ends b _ i).bind fun t _ => ?_
        split
        · exact after_finish h i trivial
        · exact trivial
      · exact trivial

theorem objects_ends (is : List Nat) : ∀ {b : Builder}, b.Sound →
    Ends (fun r => b.After r.2 ∧ ∀ x ∈ r.1, x.Fits r.2.store.cells.size) Refusal.Known
      (b.objects is) := by
  induction is with
  | nil => exact fun h => ⟨.refl h, nofun⟩
  | cons i is ih =>
    intro b h
    rw [objects]
    refine (object_ends h i).bind fun ⟨s, b'⟩ ⟨ha, hs⟩ =>
      (ih ha.sound).bind fun ⟨ss, b''⟩ ⟨ha', hss⟩ => ?_
    exact ⟨ha.trans ha', List.forall_mem_cons.mpr ⟨hs.mono ha'.size, hss⟩⟩

/-! ## Merged mappings -/

structure Same (b b' : Builder) : Prop where
  store : b'.store = b.store
  built : b'.built = b.built

theorem Same.refl (b : Builder) : b.Same b := ⟨rfl, rfl⟩

theorem Same.trans {b'' : Builder} (h : b.Same b') (h' : b'.Same b'') : b.Same b'' :=
  ⟨h'.store.trans h.store, h'.built.trans h.built⟩

theorem flattenFrom_ends (fuel : Nat) :
    (∀ i index acc b, Ends (Same b) Refusal.Known (flattenFrom fuel i index acc b)) ∧
      ∀ i js b, Ends (fun r => Same b r.2) Refusal.Known (flattenAll fuel i js b) := by
  induction fuel with
  | zero => exact ⟨fun _ _ _ b => .refl b, fun _ _ b => .refl b⟩
  | succ fuel ih =>
    obtain ⟨ihFrom, ihAll⟩ := ih
    constructor
    · intro i index acc b
      rw [flattenFrom]
      dsimp only
      split
      · split
        · exact .refl b
        · exact ⟨rfl, rfl⟩
      · split
        · split
          · exact (ihFrom _ _ _ _).bind fun b' hb =>
              (ihFrom _ _ _ _).mono (fun b'' hb' => Same.trans ⟨hb.store, hb.built⟩ hb') fun _ h => h
          · exact (ihAll _ _ _).bind fun ⟨found, b'⟩ hb =>
              (ihFrom _ _ _ _).mono (fun b'' hb' => Same.trans ⟨hb.store, hb.built⟩ hb') fun _ h => h
          · exact trivial
        · split
          · exact (ihFrom _ _ _ _).mono (fun b'' hb => ⟨hb.store, hb.built⟩) fun _ h => h
          · exact ihFrom _ _ _ _
    · intro i js b
      cases js with
      | nil => exact .refl b
      | cons j js =>
        rw [flattenAll]
        dsimp only
        split
        · exact (ihFrom _ _ _ _).bind fun b' hb => (ihAll _ _ _).bind fun ⟨rest, b''⟩ hb' =>
            hb.trans hb'
        · exact trivial

theorem flatten_ends (b : Builder) (i : Nat) : Ends (Same b) Refusal.Known (b.flatten i) :=
  (flattenFrom_ends _).1 i 0 [] b

/-! ## Filling collections -/

theorem keyOf_ends (b : Builder) (i k : Nat) (s : Slot) :
    Ends (fun _ => True) Refusal.Known (b.keyOf i k s) := by
  cases s with
  | leaf v => exact trivial
  | ref d => exact trivial

structure AreEntries (es : List (Value × Slot)) (s : Store) : Prop where
  fits : ∀ e ∈ es, e.2.Fits s.cells.size
  apart : Keyed.Apart es

theorem mappingEntries_ends (i : Nat) (es : List (Nat × Nat)) : ∀ {b : Builder} {acc}, b.Sound →
    AreEntries acc b.store →
    Ends (fun r => b.After r.2 ∧ AreEntries r.1 r.2.store) Refusal.Known
      (mappingEntries i es acc b) := by
  induction es with
  | nil => exact fun h hacc => ⟨.refl h, hacc⟩
  | cons e es ih =>
    intro b acc h hacc
    obtain ⟨k, v⟩ := e
    rw [mappingEntries]
    refine (object_ends h k).bind fun ⟨s, b'⟩ ⟨ha, _⟩ => (keyOf_ends b' i k s).bind fun key _ =>
      (object_ends ha.sound v).bind fun ⟨x, b''⟩ ⟨ha', hx⟩ => ?_
    have hafter := ha.trans ha'
    refine (ih ha'.sound ⟨fun e he => ?_, ?_⟩).mono (fun r hr => ⟨hafter.trans hr.1, hr.2⟩) fun _ h => h
    · rw [Store.putSlot_eq] at he
      rcases Keyed.mem_or_snd_of_mem_put he with he | rfl
      · exact (hacc.fits e he).mono hafter.size
      · exact hx
    · rw [Store.putSlot_eq]
      exact hacc.apart.put key x

theorem mapping_ends (h : b.Sound) (i : Nat) :
    Ends (fun r => b.After r.2 ∧ AreEntries r.1 r.2.store) Refusal.Known (b.mapping i) := by
  unfold mapping
  dsimp only
  split
  · refine (flatten_ends b i).bind fun b' hb => ?_
    have ha : b.After b' := (After.refl h).of_same hb.store hb.built
    exact (mappingEntries_ends i _ ha.sound ⟨List.forall_mem_nil _, .nil⟩).mono
      (fun r hr => ⟨ha.trans hr.1, hr.2⟩) fun _ h => h
  · exact trivial

theorem pairItems_ends (context : Text × Mark) (is : List Nat) : ∀ {b : Builder}, b.Sound →
    Ends (fun r => b.After r.2 ∧ ∀ x ∈ r.1, x.Fits r.2.store.cells.size) Refusal.Known
      (pairItems context is b) := by
  induction is with
  | nil => exact fun h => ⟨.refl h, nofun⟩
  | cons i is ih =>
    intro b h
    rw [pairItems]
    dsimp only
    split
    · refine (object_ends h _).bind fun ⟨key, b'⟩ ⟨ha, hkey⟩ =>
        (object_ends ha.sound _).bind fun ⟨value, b''⟩ ⟨ha', hvalue⟩ => ?_
      have hpair : ∀ x ∈ [key, value], x.Fits b''.store.cells.size :=
        List.forall_mem_cons.mpr ⟨hkey.mono ha'.size, List.forall_mem_singleton.mpr hvalue⟩
      have hpush := after_push ha'.sound (c := .tuple [key, value]) hpair nofun
      refine (ih hpush.sound).bind fun ⟨items, last⟩ ⟨hrest, hfits⟩ => ?_
      refine ⟨(ha.trans ha').trans (hpush.trans hrest), List.forall_mem_cons.mpr ⟨?_, hfits⟩⟩
      exact Nat.lt_of_lt_of_le (Store.size_push b''.store _ ▸ Nat.lt_succ_self _) hrest.size
    · exact trivial
    · exact trivial

theorem fill_ends (h : b.Sound) (p : Pending) : Ends b.After Refusal.Known (b.fill p) := by
  unfold fill
  dsimp only
  split
  · split
    · exact (objects_ends _ h).bind fun ⟨ss, b'⟩ ⟨ha, hss⟩ =>
        ha.trans (after_put ha.sound p.cell (c := .list ss) hss nofun)
    · exact trivial
  · refine (mapping_ends h p.node).bind fun ⟨es, b'⟩ ⟨ha, hes⟩ => ?_
    refine ha.trans (after_put ha.sound p.cell (c := .mapping es)
      (List.forall_mem_map.mpr hes.fits) ?_)
    rintro _ ⟨⟩
    exact hes.apart
  · refine (mapping_ends h p.node).bind fun ⟨es, b'⟩ ⟨ha, hes⟩ => ?_
    exact ha.trans (after_put ha.sound p.cell (c := .set (es.map Prod.fst)) nofun nofun)
  · split
    · exact (pairItems_ends _ _ h).bind fun ⟨ss, b'⟩ ⟨ha, hss⟩ =>
        ha.trans (after_put ha.sound p.cell (c := .list ss) hss nofun)
    · exact trivial

theorem fillAll_ends (fuel : Nat) : ∀ {b : Builder}, b.Sound →
    Ends b.After Refusal.Known (fillAll fuel b) := by
  induction fuel with
  | zero => exact fun h => .refl h
  | succ fuel ih =>
    intro b h
    rw [fillAll]
    split
    · exact .refl h
    · have hstart : b.After { b with pending := [] } := (After.refl h).of_same rfl rfl
      refine (Ends.foldlM (fun b' hb p => ?_) _ _ hstart).bind fun b' hb => ?_
      · exact (fill_ends hb.sound p).mono (fun b'' hb' => hb.trans hb') fun _ h => h
      · exact (ih hb.sound).mono (fun b'' hb' => hb.trans hb') fun _ h => h

end Builder

theorem sound_empty : Store.empty.Sound := ⟨fun _ _ hc => (nomatch hc), fun _ _ hc => (nomatch hc)⟩

theorem build_ends (levels : Nat) (t : Text) :
    Ends (fun r => r.2.Sound ∧ r.1.Fits r.2.cells.size) Refusal.Known (build levels t) := by
  unfold build
  cases compose levels t with
  | error e => exact trivial
  | ok graph =>
    cases graph with
    | none => exact ⟨sound_empty, trivial⟩
    | some root =>
      obtain ⟨root, graph⟩ := root
      have hstart : (⟨graph, .empty, [], []⟩ : Builder).Sound := ⟨nofun, sound_empty⟩
      refine (Builder.object_ends hstart root).bind fun ⟨s, b⟩ ⟨ha, hs⟩ => ?_
      exact (Builder.fillAll_ends _ ha.sound).bind fun b' hb =>
        ⟨hb.sound.store, hs.mono hb.size⟩

/-! ## Faults of documents -/

@[simp] theorem isA_of_stage (stage : Stage) : stage.kind.isA .yamlError = true := by
  cases stage <;> rfl

/-- The kinds of fault that a document can end with and that are no faults of a value or a document: those
of scalars, and that of collections that are nested too deep. -/
def strayKinds : List Fault.Kind := .recursionError :: Scalar.strayKinds

/-- A document is at fault for its form, or a scalar of it for its value, or it is refused in another
way. -/
theorem loadShared_fault {levels : Nat} {t : Text} {f : Fault} (h : loadShared levels t = .error f) :
    f.kind.isA .yamlError = true ∨ f.kind = .valueError ∨ f.kind ∈ strayKinds := by
  unfold loadShared at h
  cases hb : build levels t with
  | ok r =>
    rw [hb] at h
    cases h
  | error e =>
    rw [hb] at h
    cases h
    have hknown := (build_ends levels t).of_error hb
    cases e with
    | scalar f => exact .inr (hknown.imp_right (List.mem_cons_of_mem _))
    | form e =>
      cases e with
      | marked stage context problem mark => exact .inl (isA_of_stage stage)
      | unreadable c index => exact .inl rfl
      | tooDeep => exact .inr (.inr List.mem_cons_self)
      | character n =>
        refine .inr ?_
        unfold Refusal.fault Error.fault
        dsimp only
        split
        · exact .inl rfl
        · exact .inr (by decide)

theorem loadShared_sound {levels : Nat} {t : Text} {root : Slot} {s : Store}
    (h : loadShared levels t = .ok (root, s)) : s.Sound ∧ root.Fits s.cells.size := by
  unfold loadShared at h
  cases hb : build levels t with
  | error e =>
    rw [hb] at h
    cases h
  | ok r =>
    rw [hb] at h
    cases h
    exact (build_ends levels t).of_ok hb

theorem load_fault {levels : Nat} {t : Text} {f : Fault} (h : load levels t = .error f) :
    f.kind.isA .yamlError = true ∨ f.kind = .valueError ∨ f.kind ∈ strayKinds := by
  unfold load at h
  cases hl : loadShared levels t with
  | error e =>
    rw [hl] at h
    cases h
    exact loadShared_fault hl
  | ok r =>
    rw [hl] at h
    cases h

end Yaml
end ConfigLoader
