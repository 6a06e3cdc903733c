import ConfigLoader.Proofs.Value.Sharing

/-! # Merging in place

Merging one mapping into another at the same place gives the one the value of both laid over each other.
The other one and all below it stay, and when the merge is done the two are settled: merging again finds
nothing to change.
-/
namespace ConfigLoader.Store
open Keyed Relation

variable {s t u : Store} {lay : Layout} {i a b c d : Nat}
  {p q : List Value} {es base rest : List (Value × Slot)} {e : Value × Slot} {k : Value} {x y v : Slot}

theorem slotDict?_eq_some :
    s.slotDict? x = some c ↔ x = .ref c ∧ ∃ es, s.cells[c]? = some (.mapping es) := by
  simp only [← mapping?_eq, ← Option.isSome_iff_exists]
  cases x with
  | leaf v => simp [slotDict?]
  | ref i =>
    rw [slotDict?]
    split
    · next h =>
      simp only [Option.some.injEq, Slot.ref.injEq]
      exact ⟨fun hic => ⟨hic, hic ▸ h⟩, And.left⟩
    · next h =>
      simp only [reduceCtorEq, Slot.ref.injEq, false_iff, not_and]
      rintro rfl
      exact h

/-! ## One entry, and the walk through all -/

section Walk
variable {into : Store → Nat → Nat → Except Fault Store}

theorem mergeEntry_into (ha : s.cells[a]? = some (.mapping base))
    (hc : (get? base k).bind s.slotDict? = some c) (hd : s.slotDict? v = some d) :
    mergeEntry into s a k v = into s c d := by
  rw [mergeEntry, mapping?_eq.mpr ha]
  simp only [getSlot?_eq, hc, hd]

theorem mergeEntry_put (ha : s.cells[a]? = some (.mapping base))
    (h : (get? base k).bind s.slotDict? = none ∨ s.slotDict? v = none) :
    mergeEntry into s a k v = .ok (s.put a (.mapping (Keyed.put base k v))) := by
  rw [mergeEntry, mapping?_eq.mpr ha]
  simp only [getSlot?_eq, putSlot_eq]
  rcases h with h | h
  · rw [h]
  · rw [h]
    split
    · next hd => cases hd
    · rfl

theorem mergeEntries_cons (hb : s.cells[b]? = some (.mapping es)) (hrest : (k, v) :: rest <:+ es) :
    mergeEntries into a b es.length (rest.length + 1) s =
      mergeEntry into s a k v >>= mergeEntries into a b es.length rest.length := by
  obtain ⟨front, rfl⟩ := hrest
  have hat : (front ++ (k, v) :: rest)[(front ++ (k, v) :: rest).length - (rest.length + 1)]? =
      some (k, v) := by
    rw [List.length_append, List.length_cons, Nat.add_sub_cancel,
      List.getElem?_append_right (Nat.le_refl _), Nat.sub_self, List.getElem?_cons_zero]
  rw [mergeEntries, mapping?_eq.mpr hb]
  simp only [Option.getD_some, ne_eq, not_true_eq_false, if_false, hat]

/-- Where each entry either keeps something, from the entries still to come to the rest of them, or ends
with one fault, so does the walk. -/
theorem mergeEntries_ends (Kept : List (Value × Slot) → Store → Prop) {f : Fault} {Q : Prop}
    (hes : ∀ rest s, Kept rest s → s.cells[b]? = some (.mapping es))
    (hstep : ∀ k v rest s, (k, v) :: rest <:+ es → Kept ((k, v) :: rest) s →
      (∃ t, mergeEntry into s a k v = .ok t ∧ Kept rest t) ∨ mergeEntry into s a k v = .error f ∧ Q)
    (hrest : rest <:+ es) (h : Kept rest s) :
    (∃ t, mergeEntries into a b es.length rest.length s = .ok t ∧ Kept [] t) ∨
      mergeEntries into a b es.length rest.length s = .error f ∧ Q := by
  induction rest generalizing s with
  | nil =>
    refine .inl ⟨s, ?_, h⟩
    rw [List.length_nil, mergeEntries, mapping?_eq.mpr (hes _ _ h)]
    simp only [Option.getD_some, ne_eq, not_true_eq_false, if_false]
  | cons e rest ih =>
    obtain ⟨k, v⟩ := e
    rw [List.length_cons, mergeEntries_cons (hes _ _ h) hrest]
    rcases hstep k v rest s hrest h with ⟨t, ht, h'⟩ | ⟨hf, hq⟩
    · rw [ht]
      exact ih ((List.suffix_cons _ _).trans hrest) h'
    · rw [hf]
      exact .inr ⟨rfl, hq⟩

theorem mergeEntries_run (Kept : List (Value × Slot) → Store → Prop)
    (hes : ∀ rest s, Kept rest s → s.cells[b]? = some (.mapping es))
    (hstep : ∀ k v rest s, (k, v) :: rest <:+ es → Kept ((k, v) :: rest) s →
      ∃ t, mergeEntry into s a k v = .ok t ∧ Kept rest t)
    (hrest : rest <:+ es) (h : Kept rest s) :
    ∃ t, mergeEntries into a b es.length rest.length s = .ok t ∧ Kept [] t :=
  (mergeEntries_ends Kept (f := tooDeep) (Q := False) hes
    (fun k v rest s hsuffix hk => .inl (hstep k v rest s hsuffix hk)) hrest h).resolve_right
      fun hf => hf.2

theorem mergeFrom_eq {depth : Nat} (hb : s.cells[b]? = some (.mapping es)) :
    s.mergeFrom (depth + 1) a b = mergeEntries (mergeFrom depth) a b es.length es.length s := by
  rw [mergeFrom, mapping?_eq.mpr hb, Option.getD_some]

end Walk

/-! ## Settled slots -/

/-- All that merging the second slot into the first one would bring is there: it is the same slot, or both
are mappings and each key of the second has a settled slot in the first. -/
inductive Settled (s : Store) : Slot → Slot → Prop
  | same (x : Slot) : Settled s x x
  | keys {c d : Nat} {base es : List (Value × Slot)} (found : Value → Slot)
    (hc : s.cells[c]? = some (.mapping base)) (hd : s.cells[d]? = some (.mapping es))
    (hfound : ∀ e ∈ es, get? base e.1 = some (found e.1))
    (hsettled : ∀ e ∈ es, Settled s (found e.1) e.2) : Settled s (.ref c) (.ref d)

theorem Settled.entry (h : s.Settled (.ref a) (.ref b)) (ha : s.cells[a]? = some (.mapping base))
    (hb : s.cells[b]? = some (.mapping es)) (hes : Distinct es) (he : e ∈ es) :
    ∃ x, get? base e.1 = some x ∧ s.Settled x e.2 := by
  cases h with
  | same =>
    cases ha.symm.trans hb
    exact ⟨e.2, hes.get?_of_mem he (hes.keys e he) rfl, .same _⟩
  | keys found hc hd hfound hsettled =>
    cases ha.symm.trans hc
    cases hb.symm.trans hd
    exact ⟨found e.1, hfound e he, hsettled e he⟩

theorem Settled.mapping (h : s.Settled x (.ref d)) (hd : s.cells[d]? = some (.mapping es)) :
    ∃ c, x = .ref c ∧ ∃ base, s.cells[c]? = some (.mapping base) := by
  cases h with
  | same => exact ⟨d, rfl, es, hd⟩
  | keys _ hc => exact ⟨_, rfl, _, hc⟩

theorem Settled.of_same (h : s.Settled x y)
    (hs : ∀ c, s.Under x c ∨ s.Under y c → t.cells[c]? = s.cells[c]?) : t.Settled x y := by
  induction h with
  | same x => exact .same x
  | keys found hc hd hfound _ ih =>
    refine .keys found ((hs _ (.inl ⟨_, rfl, .refl⟩)).trans hc)
      ((hs _ (.inr ⟨_, rfl, .refl⟩)).trans hd) hfound fun e he => ih e he fun j hj => hs j ?_
    refine hj.imp (fun hj => ⟨_, rfl, hj.of_mem hc ?_⟩) fun hj => ⟨_, rfl, hj.of_mem hd ?_⟩
    · obtain ⟨l, hl, -⟩ := get?_mem (hfound e he)
      exact List.mem_map.mpr ⟨_, hl, rfl⟩
    · exact List.mem_map_of_mem he

theorem Settled.mergeFrom_eq {bound depth : Nat} (hl : s.Laid lay) (hbound : lay.Within bound) :
    ∀ {a b p}, lay.place a = some p → lay.place b = some p → s.Settled (.ref a) (.ref b) →
      bound ≤ depth + p.length → s.mergeFrom depth a b = .ok s := by
  induction depth with
  | zero =>
    intro a b p ha _ _ hdepth
    have := hbound a p ha
    omega
  | succ depth ih =>
    intro a b p ha hb h hdepth
    obtain ⟨base, hbase, -⟩ := hl.placed a p ha
    obtain ⟨es, hes, -⟩ := hl.placed b p hb
    rw [Store.mergeFrom_eq hes]
    have hstep : ∀ k v rest t, (k, v) :: rest <:+ es → t = s →
        ∃ u, mergeEntry (Store.mergeFrom depth) t a k v = .ok u ∧ u = s := by
      rintro k v rest t hrest rfl
      refine ⟨t, ?_, rfl⟩
      have he : (k, v) ∈ es := hrest.subset List.mem_cons_self
      obtain ⟨x, hx, hset⟩ := h.entry hbase hes (hl.distinct b es hes) he
      cases hd : t.slotDict? v with
      | none =>
        rw [mergeEntry_put hbase (.inr hd)]
        cases hset with
        | same => rw [put_of_get? hx, put_same hbase]
        | keys _ _ hd' =>
          rw [slotDict?, mapping?_eq.mpr hd'] at hd
          cases hd
      | some d =>
        obtain ⟨rfl, esd, hesd⟩ := slotDict?_eq_some.mp hd
        obtain ⟨c, rfl, basec, hbasec⟩ := hset.mapping hesd
        obtain ⟨l, hl', hlk⟩ := get?_mem hx
        have hc : (get? base k).bind t.slotDict? = some c := by
          rw [hx, Option.bind_some, slotDict?_eq_some]
          exact ⟨rfl, basec, hbasec⟩
        rw [mergeEntry_into hbase hc hd]
        have hform := ((Value.sameKey_iff _ _).mp hlk).2.2
        refine ih (hl.place_of_mem ha hbase hl' hbasec) (hform ▸ hl.place_of_mem hb hes he hesd) hset ?_
        rw [List.length_append, List.length_singleton]
        omega
    obtain ⟨t, ht, rfl⟩ := mergeEntries_run (fun _ t => t = s) (fun _ _ ht => ht ▸ hes) hstep
      (List.suffix_refl es) rfl
    exact ht

/-! ## Putting a slot under a key -/

theorem isSome_mapping?_put (es : List (Value × Slot)) (ha : s.cells[a]? = some (.mapping base))
    (i : Nat) :
    ((s.put a (.mapping es)).mapping? i).isSome = (s.mapping? i).isSome := by
  by_cases h : a = i
  · subst h
    rw [mapping?_eq.mpr ha, mapping?_eq.mpr (put_self (lt_size ha) _)]
    rfl
  · rw [mapping?, mapping?, put_other _ h]

theorem Hangs.of_same (hsize : t.cells.size = s.cells.size)
    (hkind : ∀ i, (t.mapping? i).isSome = (s.mapping? i).isSome) (h : s.Hangs lay p e) :
    t.Hangs lay p e := by
  rw [Hangs] at h ⊢
  split at h
  · exact h
  · next d _ =>
    refine ⟨hsize ▸ h.1, h.2.trans ?_⟩
    have hd := hkind d
    cases hs : s.mapping? d <;> cases ht : t.mapping? d <;> rw [hs, ht] at hd <;>
      first | rfl | cases hd

theorem Laid.put (h : s.Laid lay) (ha : s.cells[a]? = some (.mapping base))
    (hp : lay.place a = some p) (hk : k.IsKey) (hv : s.Hangs lay p (k, v)) :
    (s.put a (.mapping (Keyed.put base k v))).Laid lay := by
  have hkind := isSome_mapping?_put (Keyed.put base k v) ha
  have hsize := size_put s a (.mapping (Keyed.put base k v))
  refine ⟨fun i q hi => ?_, fun i c hc hi x hx => ?_, fun i es hes => ?_⟩
  · by_cases hai : a = i
    · subst hai
      cases hp.symm.trans hi
      refine ⟨_, put_self (lt_size ha) _, fun e he => Hangs.of_same hsize hkind ?_⟩
      rcases mem_put hk he with he | ⟨rfl, -, hf⟩
      · exact h.hangs hp ha he
      · simpa only [Hangs, hf] using hv
    · obtain ⟨es, hes, hall⟩ := h.placed i q hi
      exact ⟨es, (put_other _ hai).trans hes, fun e he => (hall e he).of_same hsize hkind⟩
  · have hai : a ≠ i := fun hai => by
      rw [hai, hi] at hp
      cases hp
    rw [put_other _ hai] at hc
    exact h.unplaced i c hc hi x hx
  · by_cases hai : a = i
    · subst hai
      rw [put_self (lt_size ha)] at hes
      cases hes
      exact (h.distinct a base ha).put hk
    · rw [put_other _ hai] at hes
      exact h.distinct i es hes

/-! ## What a merge does -/

def Changed (s t : Store) (c : Nat) : Prop := t.cells[c]? ≠ s.cells[c]?

theorem same_of_frame {P : Nat → Prop} (hf : ∀ c, s.Changed t c → ¬ P c) (hc : P c) :
    t.cells[c]? = s.cells[c]? :=
  not_not.mp fun hne => hf c hne hc

structure Merged (s t : Store) (lay : Layout) (p : List Value) (a b : Nat) :
    Prop where
  laid : t.Laid lay
  size : t.cells.size = s.cells.size
  frame : ∀ c, s.Changed t c → (∃ q, lay.place c = some (p ++ q)) ∧ ¬ s.Below b c
  value : t.unfold (.ref a) = (s.unfold (.ref a)).overlay (s.unfold (.ref b))
  settled : t.Settled (.ref a) (.ref b)

structure Entered (s t : Store) (lay : Layout) (p : List Value) (a b : Nat)
    (base : List (Value × Slot)) (k : Value) (v : Slot) : Prop where
  laid : t.Laid lay
  size : t.cells.size = s.cells.size
  frame : ∀ c, s.Changed t c → (c = a ∨ ∃ q, lay.place c = some (p ++ k.keyForm :: q)) ∧ ¬ s.Below b c
  entry : ∃ x, t.cells[a]? = some (.mapping (Keyed.put base k x)) ∧ t.Settled x v ∧
    t.unfold x = ((get? base k).map s.unfold).elim (s.unfold v) (·.overlay (s.unfold v))

theorem Merged.refl (hl : s.Laid lay) (hs : s.Shallow lay) : s.Merged s lay p a a where
  laid := hl
  size := rfl
  frame _ hc := absurd rfl hc
  value := (Value.overlay_self _ (hl.wellFormed (x := .ref a) hs nofun)).symm
  settled := .same _

section Entry
variable (hl : s.Laid lay) (hs : s.Shallow lay) (hab : a ≠ b) (hpa : lay.place a = some p)
  (hpb : lay.place b = some p) (ha : s.cells[a]? = some (.mapping base))
  (hb : s.cells[b]? = some (.mapping es)) (he : (k, v) ∈ es)
include hl hs hab hpa hpb ha hb he

theorem entered_put (h : (get? base k).bind s.slotDict? = none ∨ s.slotDict? v = none) :
    s.Entered (s.put a (.mapping (Keyed.put base k v))) lay p a b base k v := by
  have hk := (hl.distinct b es hb).keys _ he
  have hlaid := hl.put ha hpa hk (hl.hangs hpb hb he)
  have hchanged : ∀ c, s.Changed (s.put a (.mapping (Keyed.put base k v))) c → c = a :=
    fun c hc => by_contra fun hne => hc (put_other _ (Ne.symm hne))
  refine ⟨hlaid, size_put .., fun c hc => ?_, v, put_self (lt_size ha) _, .same v, ?_⟩
  · obtain rfl := hchanged c hc
    exact ⟨.inl rfl, fun hba => hab (hl.eq_of_below hpb hpa hba).symm⟩
  · have hv : (s.put a (.mapping (Keyed.put base k v))).unfold v = s.unfold v := by
      refine unfold_same (size_put ..).ge fun c hu => ?_
      refine put_other _ fun hac => ?_
      exact hl.not_under hpb hb he hpa (hac ▸ hu)
    rw [hv]
    cases hg : get? base k with
    | none => rfl
    | some w =>
      obtain ⟨l, hl', -⟩ := get?_mem hg
      refine (Value.overlay_plain ?_).symm
      rw [isDict_unfold hl hs fun v' hw => hl.leaf_of_mem ha (hw ▸ List.mem_map_of_mem hl'),
        isDict_unfold hl hs fun v' hw => hl.leaf_of_mem hb (hw ▸ List.mem_map_of_mem he)]
      rw [hg, Option.bind_some] at h
      rcases h with h | h
      · exact .inl (by rw [h]; rfl)
      · exact .inr (by rw [h]; rfl)

omit hs hab in
theorem entered_into (hc : get? base k = some (.ref c)) (hv : v = .ref d)
    (h : s.Merged t lay (p ++ [k.keyForm]) c d) : s.Entered t lay p a b base k v := by
  have hdeep : ∀ {j : Nat} {q : List Value}, lay.place j = some (p ++ [k.keyForm] ++ q) →
      lay.place j = some (p ++ k.keyForm :: q) := fun hj => by
    rw [hj, List.append_assoc]
    rfl
  subst hv
  refine ⟨h.laid, h.size, fun j hj => ?_, .ref c, ?_, h.settled, ?_⟩
  · obtain ⟨⟨q, hq⟩, hnot⟩ := h.frame j hj
    refine ⟨.inr ⟨q, hdeep hq⟩, fun hbj => hnot ?_⟩
    obtain ⟨_, hd, hdj⟩ := hl.below_key hpb hb he (hdeep hq) hbj
    cases hd
    exact hdj
  · rw [put_of_get? hc]
    refine (same_of_frame (P := (· = a)) (fun j hj hja => ?_) rfl).trans ha
    obtain ⟨⟨q, hq⟩, -⟩ := h.frame j hj
    rw [hja, hpa] at hq
    have := congrArg List.length (Option.some.inj hq)
    simp only [List.length_append, List.length_singleton] at this
    omega
  · rw [hc]
    exact h.value

theorem mergeEntry_entered (into : Store → Nat → Nat → Except Fault Store)
    (hinto : ∀ c d, lay.place c = some (p ++ [k.keyForm]) → lay.place d = some (p ++ [k.keyForm]) →
      ∃ t, into s c d = .ok t ∧ s.Merged t lay (p ++ [k.keyForm]) c d) :
    ∃ t, mergeEntry into s a k v = .ok t ∧ s.Entered t lay p a b base k v := by
  cases hx : (get? base k).bind s.slotDict? with
  | none => exact ⟨_, mergeEntry_put ha (.inl hx), entered_put hl hs hab hpa hpb ha hb he (.inl hx)⟩
  | some c =>
    cases hv : s.slotDict? v with
    | none => exact ⟨_, mergeEntry_put ha (.inr hv), entered_put hl hs hab hpa hpb ha hb he (.inr hv)⟩
    | some d =>
      obtain ⟨x, hg, hxc⟩ := Option.bind_eq_some_iff.mp hx
      obtain ⟨rfl, esc, hesc⟩ := slotDict?_eq_some.mp hxc
      obtain ⟨hvd, esd, hesd⟩ := slotDict?_eq_some.mp hv
      obtain ⟨l, hl', hlk⟩ := get?_mem hg
      have hform := ((Value.sameKey_iff _ _).mp hlk).2.2
      obtain ⟨t, ht, hm⟩ := hinto c d (hform ▸ hl.place_of_mem hpa ha hl' hesc)
        (hl.place_of_mem hpb hb (hvd ▸ he) hesd)
      exact ⟨t, (mergeEntry_into ha hx hv).trans ht, entered_into hl hpa hpb ha hb he hg hvd hm⟩

end Entry

/-! ## All entries -/

/-- Where a merge stands when the entries `rest` are still to come. -/
structure Midway (s t : Store) (lay : Layout) (p : List Value) (a b : Nat)
    (es rest : List (Value × Slot)) : Prop where
  laid : t.Laid lay
  size : t.cells.size = s.cells.size
  frame : ∀ c, s.Changed t c → (∃ q, lay.place c = some (p ++ q)) ∧ ¬ s.Below b c
  value : (s.unfold (.ref a)).overlay (.mapping (mapped s.unfold es)) =
    (t.unfold (.ref a)).overlay (.mapping (mapped s.unfold rest))
  settled : ∀ e ∈ es, e ∉ rest → ∃ base x, t.cells[a]? = some (.mapping base) ∧
    get? base e.1 = some x ∧ t.Settled x e.2

theorem Entered.other (h : s.Entered t lay p a b base k v) (hl : s.Laid lay)
    (hpa : lay.place a = some p) (hi : lay.place i = some p) (hes : s.cells[i]? = some (.mapping es))
    (he : e ∈ es) (hne : e.1.keyForm ≠ k.keyForm) (hc : s.Under e.2 c) :
    t.cells[c]? = s.cells[c]? := by
  by_contra hchanged
  rcases (h.frame c hchanged).1 with rfl | ⟨q, hq⟩
  · exact hl.not_under hi hes he hpa hc
  · rcases hl.under hi hes he hc with hn | ⟨r, hr⟩
    · rw [hq] at hn
      cases hn
    · rw [hq] at hr
      exact hne (List.cons.inj (List.append_cancel_left (Option.some.inj hr))).1.symm

theorem Midway.entered (hs : s.Shallow lay) (hpa : lay.place a = some p)
    (hpb : lay.place b = some p) (hb : s.cells[b]? = some (.mapping es)) (hrest : (k, v) :: rest <:+ es)
    (h : s.Midway t lay p a b es ((k, v) :: rest)) (ha : t.cells[a]? = some (.mapping base))
    (he : t.Entered u lay p a b base k v) : s.Midway u lay p a b es rest := by
  have hst : t.Shallow lay := hs.of_size h.size
  have hsu : u.Shallow lay := hst.of_size he.size
  have hsame : ∀ c, s.Below b c → t.cells[c]? = s.cells[c]? := fun c hc =>
    same_of_frame (fun c hc => (h.frame c hc).2) hc
  have hbt : t.cells[b]? = some (.mapping es) := (hsame b .refl).trans hb
  have hmem : ∀ {e}, e ∈ (k, v) :: rest → e ∈ es := fun hm => hrest.subset hm
  have hdist : Distinct es := h.laid.distinct b es hbt
  have hk : k.IsKey := hdist.keys _ (hmem List.mem_cons_self)
  obtain ⟨x, hau, hset, hval⟩ := he.entry
  have hother : ∀ e ∈ base, e.1.keyForm ≠ k.keyForm → u.unfold e.2 = t.unfold e.2 := fun e hm hne =>
    unfold_same he.size.ge fun c hc =>
      he.other h.laid hpa hpa ha hm hne hc
  refine ⟨he.laid, he.size.trans h.size, fun c hc => ?_, ?_, fun e hm hnot => ?_⟩
  · by_cases hct : s.Changed t c
    · exact h.frame c hct
    · have hcu : t.Changed u c := fun heq => hc (heq.trans (not_not.mp hct))
      obtain ⟨hplace, hnot⟩ := he.frame c hcu
      refine ⟨?_, fun hbc => hnot (below_same hsame hbc)⟩
      rcases hplace with rfl | ⟨q, hq⟩
      · exact ⟨[], by rw [List.append_nil]; exact hpa⟩
      · exact ⟨_, hq⟩
  · have hv : t.unfold v = s.unfold v :=
      unfold_same h.size.ge fun c hc =>
        hsame c (hc.of_mem hb (List.mem_map_of_mem (hmem List.mem_cons_self)))
    have hrestd : Distinct (mapped s.unfold ((k, v) :: rest)) :=
      (distinct_mapped _).mpr (hdist.sublist hrest.sublist)
    rw [mapped_cons] at hrestd
    rw [h.value, unfold_ref (h.laid.ranked hst) ha, unfold_ref (he.laid.ranked hsu) hau,
      Cell.valueBy, Cell.valueBy, mapped_cons,
      Entries.overlay_cons ((distinct_mapped _).mpr (h.laid.distinct a base ha)) hrestd,
      mapped_put (h.laid.distinct a base ha) hk hother, get?_mapped, hval, hv]
  · by_cases hek : e = (k, v)
    · subst hek
      exact ⟨_, x, hau, get?_put_self hk, hset⟩
    · have hne : e.1.keyForm ≠ k.keyForm := fun hf =>
        hek (hdist.eq_of_form hm (hmem List.mem_cons_self) hf)
      obtain ⟨base', y, ha', hy, hsety⟩ := h.settled e hm fun hin => by
        rcases List.mem_cons.mp hin with heq | hin
        · exact hek heq
        · exact hnot hin
      cases ha.symm.trans ha'
      obtain ⟨l, hl, hlk⟩ := get?_mem hy
      have hf := ((Value.sameKey_iff _ _).mp hlk).2.2
      refine ⟨_, y, hau, (get?_put_other hne.symm).trans hy, hsety.of_same fun c hc => ?_⟩
      rcases hc with hc | hc
      · exact he.other h.laid hpa hpa ha hl (fun h => hne (hf.symm.trans h)) hc
      · exact he.other h.laid hpa hpb hbt hm hne hc

theorem Midway.stays (h : s.Midway t lay p a b es rest) (hb : s.cells[b]? = some (.mapping es)) :
    t.cells[b]? = some (.mapping es) :=
  (same_of_frame (fun c hc => (h.frame c hc).2) .refl).trans hb

theorem Midway.merged (hl : s.Laid lay) (hs : s.Shallow lay) (hpa : lay.place a = some p)
    (hb : s.cells[b]? = some (.mapping es)) (h : s.Midway t lay p a b es []) :
    s.Merged t lay p a b := by
  obtain ⟨base, hbase, -⟩ := h.laid.placed a p hpa
  have hst : t.Shallow lay := hs.of_size h.size
  have hat : ∀ e ∈ es, ∃ x, get? base e.1 = some x ∧ t.Settled x e.2 := by
    intro e he
    obtain ⟨base', x, hbase', hx, hset⟩ := h.settled e he List.not_mem_nil
    cases hbase.symm.trans hbase'
    exact ⟨x, hx, hset⟩
  refine ⟨h.laid, h.size, h.frame, ?_, ?_⟩
  · rw [unfold_ref (hl.ranked hs) hb, Cell.valueBy, h.value,
      unfold_ref (h.laid.ranked hst) hbase, Cell.valueBy]
    exact Entries.overlay_nil.symm
  · refine .keys (fun k => (get? base k).getD (.leaf .null)) hbase (h.stays hb) ?_ ?_
    · intro e he
      obtain ⟨x, hx, -⟩ := hat e he
      rw [hx, Option.getD_some]
    · intro e he
      obtain ⟨x, hx, hset⟩ := hat e he
      rw [hx, Option.getD_some]
      exact hset

/-- Merging a mapping into another one at its place succeeds, given a level for it and for each place
below it. -/
theorem mergeFrom_merged {bound depth : Nat} (hbound : lay.Within bound) :
    ∀ {s : Store} {a b : Nat} {p : List Value}, s.Laid lay → s.Shallow lay → lay.place a = some p →
      lay.place b = some p → bound ≤ depth + p.length →
      ∃ t, s.mergeFrom depth a b = .ok t ∧ s.Merged t lay p a b := by
  induction depth with
  | zero =>
    intro s a b p _ _ ha _ hdepth
    have := hbound a p ha
    omega
  | succ depth ih =>
    intro s a b p hl hs hpa hpb hdepth
    by_cases hab : a = b
    · subst hab
      exact ⟨s, Settled.mergeFrom_eq hl hbound hpa hpa (.same _) hdepth, .refl hl hs⟩
    obtain ⟨es, hes, -⟩ := hl.placed b p hpb
    rw [mergeFrom_eq hes]
    have hstart : s.Midway s lay p a b es es :=
      ⟨hl, rfl, fun _ hc => absurd rfl hc, rfl, fun e he hnot => absurd he hnot⟩
    have hstep : ∀ k v rest t, (k, v) :: rest <:+ es → s.Midway t lay p a b es ((k, v) :: rest) →
        ∃ u, mergeEntry (mergeFrom depth) t a k v = .ok u ∧ s.Midway u lay p a b es rest := by
      intro k v rest t hrest h
      have hst : t.Shallow lay := hs.of_size h.size
      obtain ⟨base, hbase, -⟩ := h.laid.placed a p hpa
      obtain ⟨u, hu, he⟩ := mergeEntry_entered h.laid hst hab hpa hpb hbase
        (h.stays hes) (hrest.subset List.mem_cons_self) (mergeFrom depth) fun c d hc hd =>
          ih h.laid hst hc hd (by
            rw [List.length_append, List.length_singleton]
            omega)
      exact ⟨u, hu, h.entered hs hpa hpb hes hrest hbase he⟩
    obtain ⟨t, ht, hmid⟩ := mergeEntries_run (fun rest t => s.Midway t lay p a b es rest)
      (fun _ _ h => h.stays hes) hstep (List.suffix_refl es) hstart
    exact ⟨t, ht, hmid.merged hl hs hpa hes⟩

end ConfigLoader.Store
