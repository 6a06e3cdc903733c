import ConfigLoader.Proofs.Value.Chains
import ConfigLoader.Proofs.Value.InPlace

/-! # Merging a fresh mapping into any store

A mapping that was just taken in can be merged into any mapping, whatever containers that one shares and
even if it lies within itself, unless it is nested deeper than a merge can follow. The cells before a
frontier refer to nothing beyond it, and what is still to come lies beyond, so the mapping that a walk
reads is none of those that it changes.
-/
namespace ConfigLoader

mutual

/-- How many mappings lie within each other, without a list between them. -/
def Value.nesting : Value → Nat
  | .mapping es => nestingBelow es + 1
  | _ => 0

def Value.nestingBelow : List (Value × Value) → Nat
  | [] => 0
  | (_, v) :: es => max (nesting v) (nestingBelow es)

end

namespace Store
open Keyed

variable {s t : Store} {a b d m : Nat} {es base rest : List (Value × Slot)} {k : Value} {v : Slot}

/-- The cells before a frontier refer to such cells only. -/
def Closed (s : Store) (m : Nat) : Prop := ∀ i < m, ∀ j, s.Refers i j → j < m

structure Kept (s t : Store) (b : Nat) : Prop where
  size : t.cells.size = s.cells.size
  kinds : ∀ i, (t.mapping? i).isSome = (s.mapping? i).isSome
  later : ∀ i, b ≤ i → t.cells[i]? = s.cells[i]?

theorem Kept.refl (s : Store) (b : Nat) : s.Kept s b := ⟨rfl, fun _ => rfl, fun _ _ => rfl⟩

theorem Kept.trans {u : Store} (h : s.Kept t b) (h' : t.Kept u b) : s.Kept u b :=
  ⟨h'.size.trans h.size, fun i => (h'.kinds i).trans (h.kinds i),
    fun i hi => (h'.later i hi).trans (h.later i hi)⟩

theorem Kept.mono (h : s.Kept t d) (hd : d ≤ b) : s.Kept t b :=
  ⟨h.size, h.kinds, fun i hi => h.later i (hd.trans hi)⟩

theorem kept_put (ha : s.cells[a]? = some (.mapping base)) (hab : a < b) :
    s.Kept (s.put a (.mapping es)) b :=
  ⟨size_put .., isSome_mapping?_put es ha, fun _ hi => put_other _ (Nat.ne_of_lt (hab.trans_le hi))⟩

theorem exists_of_isSome (h : (s.mapping? a).isSome) : ∃ es, s.cells[a]? = some (.mapping es) :=
  (Option.isSome_iff_exists.mp h).imp fun _ => mapping?_eq.mp

theorem Closed.chain {xs : List Slot} (h : s.Closed m) (hc : s.Chain m xs d) : s.Closed d := by
  intro i hi j hr
  rcases Nat.lt_or_ge i m with hlt | hge
  · exact (h i hlt j hr).trans_le hc.le
  · exact (hc.refers hge hi hr).2.trans hi

theorem Closed.succ {c : Cell} (h : s.Closed d) (hc : s.cells[d]? = some c)
    (hslots : ∀ j, .ref j ∈ c.slots → j < d) : s.Closed (d + 1) := by
  intro i hi j hr
  rcases Nat.eq_or_lt_of_le (Nat.le_of_lt_succ hi) with rfl | hlt
  · obtain ⟨c', hc', hj⟩ := hr
    cases hc.symm.trans hc'
    exact (hslots j hj).trans (Nat.lt_succ_self _)
  · exact (h i hlt j hr).trans (Nat.lt_succ_self _)

theorem Closed.put (h : s.Closed m) (ha : s.cells[a]? = some (.mapping base)) (ham : a < m)
    (hv : ∀ j, v = .ref j → j < m) : (s.put a (.mapping (Keyed.put base k v))).Closed m := by
  rintro i hi j ⟨c, hc, hj⟩
  by_cases hai : a = i
  · subst hai
    rw [put_self (lt_size ha)] at hc
    cases hc
    obtain ⟨e, he, hej⟩ := List.mem_map.mp hj
    rcases mem_or_snd_of_mem_put he with he | he
    · exact h a ham j (refers_of ha (List.mem_map.mpr ⟨e, he, hej⟩))
    · exact hv j (he ▸ hej)
  · rw [put_other _ hai] at hc
    exact h i hi j (refers_of hc hj)

/-- The mappings at and under a slot lie at most `n` within each other. -/
def Nests (s : Store) : Nat → Slot → Prop
  | 0, x => s.slotDict? x = none
  | n + 1, x => ∀ d es, x = .ref d → s.cells[d]? = some (.mapping es) → ∀ e ∈ es, Nests s n e.2

theorem nests_leaf (s : Store) (n : Nat) (v : Value) : s.Nests n (.leaf v) := by
  cases n with
  | zero => rfl
  | succ n => exact fun _ _ h => nomatch h

theorem nests_other {c : Cell} {d n : Nat} (hd : s.cells[d]? = some c) (hc : ∀ es, c ≠ .mapping es) :
    s.Nests n (.ref d) := by
  have hno : ∀ es, s.cells[d]? ≠ some (.mapping es) := fun es h => hc es (Option.some.inj (hd.symm.trans h))
  cases n with
  | zero =>
    rw [Nests, Option.eq_none_iff_forall_ne_some]
    intro i hi
    obtain ⟨hdi, es, hes⟩ := slotDict?_eq_some.mp hi
    cases hdi
    exact hno es hes
  | succ n =>
    rintro i es hdi hes
    cases hdi
    exact absurd hes (hno es)

theorem Nests.congr {n lo hi : Nat} {xs : List Slot} {x : Slot} (h : s.Nests n x)
    (hch : s.Chain lo xs hi) (hx : x ∈ xs) (hs : ∀ i, lo ≤ i → i < hi → t.cells[i]? = s.cells[i]?) :
    t.Nests n x := by
  induction n generalizing lo hi xs x with
  | zero =>
    cases x with
    | leaf v => rfl
    | ref d =>
      obtain ⟨hlo, hhi⟩ := hch.bounds hx
      rw [Nests, slotDict?, mapping?] at h ⊢
      rwa [hs d hlo hhi]
  | succ n ih =>
    rintro d es rfl hd e he
    obtain ⟨hlo, hhi⟩ := hch.bounds hx
    rw [hs d hlo hhi] at hd
    obtain ⟨mid, hmid, inner⟩ := hch.within hlo hhi hd
    exact ih (h d es rfl hd e he) inner (List.mem_map_of_mem he) fun i hi hi' =>
      hs i (hmid.trans hi) (hi'.trans hhi)

/-- Where a walk through the cell `b` stands with the entries `rest` to come: their cells begin at the
frontier and are as they were. -/
structure Walked (s t : Store) (m b : Nat) (rest : List (Value × Slot)) : Prop where
  kept : s.Kept t b
  frontier : ∃ mid, m ≤ mid ∧ t.Closed mid ∧ s.Chain mid (rest.map Prod.snd) b ∧
    ∀ i, mid ≤ i → i < b → t.cells[i]? = s.cells[i]?

/-- Where a slot is put, all cells from its own on stay, and the frontier moves behind them. -/
theorem Walked.put {mid : Nat} (hkept : s.Kept t b) (hmid : m ≤ mid) (ham : a < m) (hab : a < b)
    (hbase : t.cells[a]? = some (.mapping base)) (hcl : t.Closed mid) (hv : ∀ j, v = .ref j → j < mid)
    (hrest : s.Chain mid (rest.map Prod.snd) b)
    (hsame : ∀ i, mid ≤ i → i < b → t.cells[i]? = s.cells[i]?) :
    s.Walked (t.put a (.mapping (Keyed.put base k v))) m b rest where
  kept := hkept.trans (kept_put hbase hab)
  frontier := ⟨mid, hmid, hcl.put hbase (ham.trans_le hmid) hv, hrest, fun i hi hib =>
    (put_other _ (Nat.ne_of_lt (ham.trans_le (hmid.trans hi)))).trans (hsame i hi hib)⟩

/-- What merging the mapping in cell `b`, whose cells begin at the frontier, into the one in cell `a` ends
with: that succeeds unless the mapping is nested too deep. -/
def MergesFresh (s : Store) (depth a b : Nat) : Prop :=
  (∃ t, s.mergeFrom depth a b = .ok t ∧ s.Kept t b ∧ t.Closed (b + 1)) ∨
    s.mergeFrom depth a b = .error tooDeep ∧ ¬ s.Nests depth (.ref b)

theorem Walked.step {depth : Nat} (ham : a < m) (ha : (s.mapping? a).isSome)
    (hb : s.cells[b]? = some (.mapping es)) (hmem : (k, v) ∈ es) (h : s.Walked t m b ((k, v) :: rest))
    (hinto : ∀ {i d mid es}, t.Closed mid → i < mid → (t.mapping? i).isSome →
      t.cells[d]? = some (.mapping es) → t.Chain mid (es.map Prod.snd) d → t.MergesFresh depth i d) :
    (∃ u, mergeEntry (mergeFrom depth) t a k v = .ok u ∧ s.Walked u m b rest) ∨
      mergeEntry (mergeFrom depth) t a k v = .error tooDeep ∧ ¬ s.Nests (depth + 1) (.ref b) := by
  obtain ⟨hkept, mid, hmid, hcl, hrest, hsame⟩ := h
  obtain ⟨base, hbase⟩ := exists_of_isSome ((hkept.kinds a).trans ha)
  have ham' : a < mid := ham.trans_le hmid
  have hab : a < b := ham'.trans_le hrest.le
  have hwhole := hrest
  rw [List.map_cons] at hrest
  cases hrest with
  | leaf _ hrest =>
    exact .inl ⟨_, mergeEntry_put hbase (.inr rfl), .put hkept hmid ham hab hbase hcl nofun hrest hsame⟩
  | @cell _ d _ c _ hc inner hrest =>
    have hdb : d < b := hrest.le
    have hcd : t.cells[d]? = some c := (hsame d inner.le hdb).trans hc
    have inner' : t.Chain mid c.slots d := inner.congr fun i hi hid => hsame i hi (hid.trans hdb)
    have hcl' : t.Closed (d + 1) := (hcl.chain inner').succ hcd fun j hj => (inner.bounds hj).2
    have hmid' : mid ≤ d + 1 := inner.le.trans (Nat.le_succ d)
    have hle : m ≤ d + 1 := hmid.trans hmid'
    have hput : s.Walked (t.put a (.mapping (Keyed.put base k (.ref d)))) m b rest := by
      refine .put hkept hle ham hab hbase hcl' (fun j hj => ?_) hrest fun i hi => hsame i (hmid'.trans hi)
      cases hj
      exact Nat.lt_succ_self d
    cases hx : (get? base k).bind t.slotDict? with
    | none => exact .inl ⟨_, mergeEntry_put hbase (.inl hx), hput⟩
    | some i =>
      cases hd : t.slotDict? (.ref d) with
      | none => exact .inl ⟨_, mergeEntry_put hbase (.inr hd), hput⟩
      | some d' =>
        obtain ⟨hdd, esd, hesd⟩ := slotDict?_eq_some.mp hd
        cases hdd
        cases hcd.symm.trans hesd
        obtain ⟨x, hg, hxi⟩ := Option.bind_eq_some_iff.mp hx
        obtain ⟨rfl, esi, hesi⟩ := slotDict?_eq_some.mp hxi
        obtain ⟨l, hl, -⟩ := get?_mem hg
        have him : i < mid := hcl a ham' i (refers_of hbase (List.mem_map_of_mem hl))
        rw [mergeEntry_into hbase hx hd]
        rcases hinto hcl him (Option.isSome_of_eq_some (mapping?_eq.mpr hesi)) hesd inner' with
          ⟨u, hu, hkept', hclosed'⟩ | ⟨hf, hdeep⟩
        · exact .inl ⟨u, hu, hkept.trans (hkept'.mono hdb.le), d + 1, hle, hclosed', hrest,
            fun j hj hjb => (hkept'.later j ((Nat.le_succ d).trans hj)).trans (hsame j (hmid'.trans hj) hjb)⟩
        · refine .inr ⟨hf, fun hn => hdeep ?_⟩
          exact (hn b es rfl hb _ hmem).congr hwhole List.mem_cons_self hsame

/-- Merging a mapping whose cells begin at the frontier succeeds unless it is nested too deep. -/
theorem mergeFrom_fresh {depth : Nat} : ∀ {s : Store} {a b m : Nat} {es : List (Value × Slot)},
    s.Closed m → a < m → (s.mapping? a).isSome → s.cells[b]? = some (.mapping es) →
    s.Chain m (es.map Prod.snd) b → s.MergesFresh depth a b := by
  induction depth with
  | zero =>
    intro s a b m es _ _ _ hb _
    refine .inr ⟨rfl, fun hn => ?_⟩
    cases hn.symm.trans (slotDict?_eq_some.mpr ⟨rfl, es, hb⟩)
  | succ depth ih =>
    intro s a b m es hclosed ham ha hb hch
    have hwalk := mergeEntries_ends (fun rest t => s.Walked t m b rest)
      (fun _ _ h => (h.kept.later b (Nat.le_refl b)).trans hb)
      (fun k v rest t hsuffix h => h.step ham ha hb (hsuffix.subset List.mem_cons_self) ih)
      (List.suffix_refl es) ⟨Kept.refl s b, m, Nat.le_refl m, hclosed, hch, fun _ _ _ => rfl⟩
    rw [MergesFresh, mergeFrom_eq hb]
    refine hwalk.imp_left fun ⟨t, ht, hkept, mid, _, hcl, hlast, hsame⟩ => ⟨t, ht, hkept, ?_⟩
    refine (hcl.chain (hlast.congr hsame)).succ ((hkept.later b (Nat.le_refl b)).trans hb) fun j hj => ?_
    exact (hch.bounds hj).2

/-! ## Mappings that were just taken in -/

mutual

theorem nests_add {n : Nat} (s : Store) {t : Store} : (v : Value) → (s.add v).2.Extends t →
    v.nesting ≤ n → t.Nests n (s.add v).1
  | .mapping es, he, hn => by
    rw [add_mapping] at he ⊢
    rw [Value.nesting] at hn
    obtain ⟨n, rfl⟩ := Nat.exists_eq_add_one_of_ne_zero (Nat.ne_zero_of_lt hn)
    rintro d fs hd hfs e hmem
    cases hd
    cases (he (push_snd_self _ _)).symm.trans hfs
    exact nests_addEntries s es ((extends_push ..).trans he) (Nat.le_of_succ_le_succ hn) e hmem
  | .list vs, he, _ => by
    rw [add_list] at he ⊢
    exact nests_other (he (push_snd_self _ _)) nofun
  | .tuple vs, he, _ => by
    rw [add_tuple] at he ⊢
    exact nests_other (he (push_snd_self _ _)) nofun
  | .set vs, he, _ => by
    rw [add_set] at he ⊢
    exact nests_other (he (push_snd_self _ _)) nofun
  | .null, _, _ | .bool _, _, _ | .int _, _, _ | .float _, _, _ | .text _, _, _ | .bytes _, _, _
  | .date _, _, _ | .dateTime _, _, _ | .cycle _, _, _ => nests_leaf t n _

theorem nests_addEntries {n : Nat} (s : Store) {t : Store} : (es : List (Value × Value)) →
    (s.addEntries es).2.Extends t → Value.nestingBelow es ≤ n →
      ∀ e ∈ (s.addEntries es).1, t.Nests n e.2
  | [], _, _ => nofun
  | (k, v) :: es, he, hn => by
    rw [addEntries] at he ⊢
    rw [Value.nestingBelow, Nat.max_le] at hn
    exact List.forall_mem_cons.mpr
      ⟨nests_add s v ((addEntries_chain _ es).1.trans he) hn.1, nests_addEntries _ es he hn.2⟩

end

/-- Merging a mapping that is taken in for it succeeds, unless it is nested too deep, and the mapping that
it is merged into stays one. -/
theorem merge_addMapping {depth : Nat} (s : Store) (es : List (Value × Value))
    (hs : s.Closed s.cells.size) (ha : (s.mapping? a).isSome) :
    (∃ t, (s.addMapping es).2.mergeFrom depth a (s.addMapping es).1 = .ok t ∧
      ∀ i, ((s.addMapping es).2.mapping? i).isSome → (t.mapping? i).isSome) ∨
    (s.addMapping es).2.mergeFrom depth a (s.addMapping es).1 = .error tooDeep ∧
      depth < (Value.mapping es).nesting := by
  obtain ⟨hext, hch⟩ := addMapping_chain s es
  obtain ⟨base, hbase⟩ := exists_of_isSome ha
  have hclosed : (s.addMapping es).2.Closed s.cells.size := by
    rintro i hi j ⟨c, hc, hj⟩
    obtain ⟨c', hc'⟩ : ∃ c', s.cells[i]? = some c' := ⟨_, Array.getElem?_eq_getElem hi⟩
    cases (hext hc').symm.trans hc
    exact hs i hi j (refers_of hc' hj)
  have hroot : (s.addMapping es).2.cells[(s.addMapping es).1]? =
      some (.mapping (s.addEntries es).1) := push_snd_self _ _
  obtain ⟨_, hc, inner⟩ : ∃ c, (s.addMapping es).2.cells[(s.addMapping es).1]? = some c ∧
      (s.addMapping es).2.Chain s.cells.size c.slots (s.addMapping es).1 := by
    cases hch with
    | cell hc inner _ => exact ⟨_, hc, inner⟩
  cases hroot.symm.trans hc
  rcases mergeFrom_fresh hclosed (lt_size hbase)
    (Option.isSome_of_eq_some (mapping?_eq.mpr (hext hbase))) hroot inner with
    ⟨t, ht, hkept, -⟩ | ⟨hf, hdeep⟩
  · exact .inl ⟨t, ht, fun i hi => (hkept.kinds i).trans hi⟩
  · refine .inr ⟨hf, Nat.lt_of_not_le fun hle => hdeep ?_⟩
    have hadded : s.add (.mapping es) = (.ref (s.addMapping es).1, (s.addMapping es).2) := add_mapping s es
    have hnests := nests_add s (t := (s.addMapping es).2) (.mapping es) (hadded ▸ .refl _) hle
    rwa [hadded] at hnests

end Store
end ConfigLoader
