import Mathlib.Data.List.Pairwise
import ConfigLoader.Proofs.Number.Steps
import ConfigLoader.Value

/-! # Keys

A value is a key if it is no container that may change and holds no number that differs from itself. Two
keys are one key if they have one form, in which a number that is an integer is that integer.
-/
namespace ConfigLoader.Value

mutual

/-- Whether a value is a key: hashable, and without a NaN in it. -/
def IsKey : Value → Prop
  | .float x => x.isNaN = false
  | .tuple vs => AreKeys vs
  | .list _ | .set _ | .mapping _ | .cycle _ => False
  | _ => True

def AreKeys : List Value → Prop
  | [] => True
  | v :: vs => v.IsKey ∧ AreKeys vs

end

mutual

def keyForm : Value → Value
  | .bool b => .int (if b then 1 else 0)
  | .float x =>
    match x.toInt? with
    | some n => .int n
    | none => .float x
  | .tuple vs => .tuple (keyForms vs)
  | v => v

def keyForms : List Value → List Value
  | [] => []
  | v :: vs => v.keyForm :: keyForms vs

end

theorem keyForm_whole {v : Value} {n : Int} (h : v.wholeNumber? = some n) :
    v.IsKey ∧ v.keyForm = .int n := by
  cases v with
  | bool b =>
    cases h
    exact ⟨trivial, rfl⟩
  | int m =>
    cases h
    exact ⟨trivial, rfl⟩
  | float x =>
    have hx : x.toInt? = some n := h
    exact ⟨Binary64.isNaN_of_isFinite (Binary64.toInt?_cases hx).1, by rw [keyForm, hx]⟩
  | _ => cases h

theorem whole_of_keyForm {v : Value} {n : Int} (h : v.keyForm = .int n) :
    v.wholeNumber? = some n := by
  cases v with
  | bool b =>
    cases h
    rfl
  | int m =>
    cases h
    rfl
  | float x =>
    rw [keyForm] at h
    cases hx : x.toInt? with
    | some m =>
      rw [hx] at h
      cases h
      exact hx
    | none =>
      rw [hx] at h
      cases h
  | _ => cases h

theorem same_iff (x y : Binary64) : x.same y = true ↔
    x.isNaN = false ∧ y.isNaN = false ∧ (Value.float x).keyForm = (Value.float y).keyForm := by
  constructor
  · intro h
    simp only [Binary64.same, Bool.and_eq_true, Bool.not_eq_true', Bool.or_eq_true, beq_iff_eq] at h
    obtain ⟨⟨hx, hy⟩, he⟩ := h
    refine ⟨hx, hy, ?_⟩
    rcases he with rfl | ⟨zx, zy⟩
    · rfl
    · have hzero : ∀ {z : Binary64}, z.isZero = true → z.toInt? = some 0 := by
        intro z hz
        have hm : z.magnitude = 0 := eq_of_beq hz
        simp [Binary64.toInt?, Binary64.isFinite, Binary64.ratio, Binary64.mantissa,
          Binary64.exponentField, Binary64.fraction, hm]
      rw [keyForm, keyForm, hzero zx, hzero zy]
  · rintro ⟨hx, hy, he⟩
    cases hn : x.toInt? with
    | some n =>
      have hy' : (Value.float y).wholeNumber? = some n :=
        whole_of_keyForm (he.symm.trans (keyForm_whole (v := .float x) hn).2)
      exact Binary64.same_of_toInt hn hy'
    | none =>
      cases hm : y.toInt? with
      | some m => rw [keyForm, keyForm, hn, hm] at he; cases he
      | none =>
        rw [keyForm, keyForm, hn, hm] at he
        cases he
        simp [Binary64.same, hx]

/-- Two numbers, or a number and something else, of which not both are floats. -/
theorem sameWhole_iff {x y : Value}
    (h : x.sameKey y = match x.wholeNumber?, y.wholeNumber? with
      | some m, some n => m == n
      | _, _ => false)
    (hx : (∃ m, x.wholeNumber? = some m) ∨ ∃ n, y.wholeNumber? = some n) :
    x.sameKey y = true ↔ x.IsKey ∧ y.IsKey ∧ x.keyForm = y.keyForm := by
  rw [h]
  constructor
  · intro he
    cases hm : x.wholeNumber? with
    | none => rw [hm] at he; cases he
    | some m =>
      cases hn : y.wholeNumber? with
      | none => rw [hm, hn] at he; cases he
      | some n =>
        rw [hm, hn] at he
        obtain rfl : m = n := eq_of_beq he
        obtain ⟨kx, fx⟩ := keyForm_whole hm
        obtain ⟨ky, fy⟩ := keyForm_whole hn
        exact ⟨kx, ky, fx.trans fy.symm⟩
  · rintro ⟨-, -, he⟩
    rcases hx with ⟨m, hm⟩ | ⟨n, hn⟩
    · have hn := whole_of_keyForm (he.symm.trans (keyForm_whole hm).2)
      rw [hm, hn]
      exact beq_self_eq_true m
    · have hm := whole_of_keyForm (he.trans (keyForm_whole hn).2)
      rw [hm, hn]
      exact beq_self_eq_true n

def IsPlain : Value → Prop
  | .bool _ | .int _ | .float _ | .tuple _ => False
  | _ => True

theorem samePlain_iff {x : Value} (y : Value) (hx : x.IsPlain) :
    x.sameKey y = true ↔ x.IsKey ∧ y.IsKey ∧ x.keyForm = y.keyForm := by
  cases x with
  | bool b | int n | float z | tuple vs => cases hx
  | _ =>
    cases y with
    | float z => cases hz : z.toInt? <;> simp [sameKey, IsKey, keyForm, wholeNumber?, hz]
    | _ => simp [sameKey, IsKey, keyForm, wholeNumber?]

theorem sameFloat_iff (x : Binary64) (y : Value) : (Value.float x).sameKey y = true ↔
    (Value.float x).IsKey ∧ y.IsKey ∧ (Value.float x).keyForm = y.keyForm := by
  cases y with
  | float y => exact same_iff x y
  | bool b | int n => exact sameWhole_iff rfl (.inr ⟨_, rfl⟩)
  | _ => cases hx : x.toInt? <;> simp [sameKey, IsKey, keyForm, wholeNumber?, hx]

mutual

theorem sameKey_iff : (x y : Value) → (x.sameKey y = true ↔
    x.IsKey ∧ y.IsKey ∧ x.keyForm = y.keyForm)
  | .bool b, y => by
    refine sameWhole_iff ?_ (.inl ⟨_, rfl⟩)
    cases y <;> rfl
  | .int n, y => by
    refine sameWhole_iff ?_ (.inl ⟨_, rfl⟩)
    cases y <;> rfl
  | .float x, y => sameFloat_iff x y
  | .tuple xs, y => by
    cases y with
    | tuple ys =>
      rw [sameKey, sameKeys_iff xs ys]
      simp only [IsKey, keyForm, tuple.injEq]
    | float z => cases hz : z.toInt? <;> simp [sameKey, keyForm, wholeNumber?, hz]
    | _ => simp [sameKey, keyForm, wholeNumber?]
  | .null, y | .text _, y | .bytes _, y | .date _, y | .dateTime _, y | .list _, y | .set _, y
  | .mapping _, y | .cycle _, y => samePlain_iff y trivial

theorem sameKeys_iff : (xs ys : List Value) → (sameKeys xs ys = true ↔
    AreKeys xs ∧ AreKeys ys ∧ keyForms xs = keyForms ys)
  | [], [] => by simp only [sameKeys, AreKeys, keyForms, and_self]
  | [], y :: ys => by simp [sameKeys, keyForms]
  | x :: xs, [] => by simp [sameKeys, keyForms]
  | x :: xs, y :: ys => by
    rw [sameKeys, Bool.and_eq_true, sameKey_iff x y, sameKeys_iff xs ys]
    simp only [AreKeys, keyForms, List.cons.injEq]
    grind

end

theorem sameKey_self {k : Value} (hk : k.IsKey) : k.sameKey k = true :=
  (sameKey_iff k k).mpr ⟨hk, hk, rfl⟩

theorem not_sameKey {k l : Value} (h : k.keyForm ≠ l.keyForm) : k.sameKey l = false :=
  Bool.eq_false_iff.mpr fun hs => h ((sameKey_iff k l).mp hs).2.2

theorem sameKey_symm {k l : Value} (h : k.sameKey l = true) : l.sameKey k = true := by
  obtain ⟨hk, hl, hf⟩ := (sameKey_iff k l).mp h
  exact (sameKey_iff l k).mpr ⟨hl, hk, hf.symm⟩

theorem sameKey_left {k l m : Value} (h : k.sameKey l = true) : m.sameKey k = m.sameKey l := by
  obtain ⟨hk, hl, hf⟩ := (sameKey_iff k l).mp h
  rw [Bool.eq_iff_iff, sameKey_iff, sameKey_iff, hf]
  simp only [hk, hl, true_and]

theorem sameKey_right {k l m : Value} (h : k.sameKey l = true) : k.sameKey m = l.sameKey m := by
  obtain ⟨hk, hl, hf⟩ := (sameKey_iff k l).mp h
  rw [Bool.eq_iff_iff, sameKey_iff, sameKey_iff, hf]
  simp only [hk, hl, true_and]

@[simp] theorem sameKey_text {k : Value} {t : Text} : k.sameKey (.text t) = true ↔ k = .text t := by
  constructor
  · intro h
    obtain ⟨-, -, hf⟩ := (sameKey_iff k (.text t)).mp h
    cases k with
    | text t => exact hf
    | float x =>
      rw [keyForm] at hf
      split at hf <;> cases hf
    | _ => cases hf
  · rintro rfl
    exact sameKey_self trivial

end ConfigLoader.Value

/-! ## Lists with keys -/

namespace ConfigLoader.Keyed
variable {α β : Type} {es : List (Value × α)} {k l : Value} {v w : α}

def get? (es : List (Value × α)) (k : Value) : Option α :=
  (es.find? fun e => e.1.sameKey k).map Prod.snd

/-- Puts something under a key: a present key keeps its place and its spelling. -/
def put : List (Value × α) → Value → α → List (Value × α)
  | [], k, v => [(k, v)]
  | e :: es, k, v => if e.1.sameKey k then (e.1, v) :: es else e :: put es k v

structure Distinct (es : List (Value × α)) : Prop where
  keys : ∀ e ∈ es, e.1.IsKey
  apart : es.Pairwise fun a b => a.1.keyForm ≠ b.1.keyForm

theorem distinct_nil : Distinct ([] : List (Value × α)) := ⟨nofun, .nil⟩

theorem distinct_cons {e : Value × α} : Distinct (e :: es) ↔
    e.1.IsKey ∧ (∀ a ∈ es, e.1.keyForm ≠ a.1.keyForm) ∧ Distinct es := by
  constructor
  · rintro ⟨hk, ha⟩
    obtain ⟨hne, ha⟩ := List.pairwise_cons.mp ha
    exact ⟨hk e List.mem_cons_self, hne, fun a h => hk a (List.mem_cons_of_mem _ h), ha⟩
  · rintro ⟨hk, hne, ⟨hks, ha⟩⟩
    refine ⟨fun a h => ?_, List.pairwise_cons.mpr ⟨hne, ha⟩⟩
    rcases List.mem_cons.mp h with rfl | h
    · exact hk
    · exact hks a h

theorem Distinct.sublist {fs : List (Value × α)} (h : Distinct es) (hs : fs.Sublist es) :
    Distinct fs :=
  ⟨fun e he => h.keys e (hs.subset he), h.apart.sublist hs⟩

theorem Distinct.eq_of_form (h : Distinct es) {a b : Value × α} (ha : a ∈ es) (hb : b ∈ es)
    (hf : a.1.keyForm = b.1.keyForm) : a = b := by
  induction es with
  | nil => cases ha
  | cons e es ih =>
    obtain ⟨-, hne, h⟩ := distinct_cons.mp h
    rcases List.mem_cons.mp ha with rfl | ha' <;> rcases List.mem_cons.mp hb with rfl | hb'
    · rfl
    · exact absurd hf (hne b hb')
    · exact absurd hf.symm (hne a ha')
    · exact ih h ha' hb'

@[grind =] theorem get?_cons (e : Value × α) (es : List (Value × α)) (k : Value) :
    get? (e :: es) k = if e.1.sameKey k then some e.2 else get? es k := by
  rw [get?, List.find?_cons]
  cases e.1.sameKey k <;> rfl

theorem get?_mem (h : get? es k = some v) : ∃ l, (l, v) ∈ es ∧ l.sameKey k = true := by
  obtain ⟨e, he, rfl⟩ := Option.map_eq_some_iff.mp h
  have hs := List.find?_some he
  exact ⟨e.1, List.mem_of_find?_eq_some he, hs⟩

theorem get?_eq_none : get? es k = none ↔ ∀ e ∈ es, e.1.sameKey k = false := by
  rw [get?, Option.map_eq_none_iff, List.find?_eq_none]
  exact forall₂_congr fun e _ => Bool.not_eq_true _ ▸ Iff.rfl

theorem Distinct.get?_of_mem (h : Distinct es) (hm : (l, v) ∈ es) (hk : k.IsKey)
    (hf : l.keyForm = k.keyForm) : get? es k = some v := by
  have hs : l.sameKey k = true := (Value.sameKey_iff l k).mpr ⟨h.keys _ hm, hk, hf⟩
  cases hg : get? es k with
  | none => exact absurd hs (Bool.eq_false_iff.mp (get?_eq_none.mp hg _ hm))
  | some w =>
    obtain ⟨m, hw, hms⟩ := get?_mem hg
    have he := h.eq_of_form hw hm (((Value.sameKey_iff m k).mp hms).2.2.trans hf.symm)
    rw [(Prod.mk.inj he).2]

theorem get?_put_self (hk : k.IsKey) : get? (put es k v) k = some v := by
  induction es with
  | nil => rw [put, get?_cons, if_pos (Value.sameKey_self hk)]
  | cons e es ih =>
    rw [put]
    split
    · next hs => rw [get?_cons, if_pos hs]
    · next hs => rw [get?_cons, if_neg hs, ih]

theorem get?_put_other (hf : k.keyForm ≠ l.keyForm) : get? (put es k v) l = get? es l := by
  induction es with
  | nil => rw [put, get?_cons, Value.not_sameKey hf, if_neg Bool.false_ne_true]
  | cons e es ih =>
    rw [put]
    split
    · next hs =>
      have hne : e.1.sameKey l = false :=
        Value.not_sameKey fun he => hf (((Value.sameKey_iff _ _).mp hs).2.2.symm.trans he)
      rw [get?_cons, get?_cons, hne]
      rfl
    · rw [get?_cons, get?_cons, ih]

theorem get?_congr (hs : k.sameKey l = true) : get? es k = get? es l := by
  simp only [get?, Value.sameKey_left hs]

@[grind =] theorem get?_put (es : List (Value × α)) (k : Value) (v : α) (l : Value) :
    get? (put es k v) l = if k.sameKey l then some v else get? es l := by
  induction es with
  | nil => rw [put, get?_cons]
  | cons e es ih =>
    rw [put]
    split
    · next hs =>
      rw [get?_cons, get?_cons, Value.sameKey_right hs]
      split <;> rfl
    · next hs =>
      rw [get?_cons, get?_cons, ih]
      by_cases hl : k.sameKey l = true
      · have he : e.1.sameKey l = false := by
          rw [← Value.sameKey_left hl]
          simpa using hs
        rw [he, if_neg Bool.false_ne_true, if_pos hl, if_pos hl]
      · rw [if_neg hl, if_neg hl]

@[simp] theorem get?_append (es fs : List (Value × α)) (k : Value) :
    get? (es ++ fs) k = (get? es k).or (get? fs k) := by
  rw [get?, List.find?_append, Option.map_or]
  rfl

theorem put_of_get? (h : get? es k = some v) : put es k v = es := by
  induction es with
  | nil => cases h
  | cons e es ih =>
    rw [get?_cons] at h
    rw [put]
    split
    · next hs =>
      rw [if_pos hs] at h
      rw [← Option.some.inj h]
    · next hs =>
      rw [if_neg hs] at h
      rw [ih h]

theorem put_new (h : get? es k = none) : put es k v = es ++ [(k, v)] := by
  induction es with
  | nil => rfl
  | cons e es ih =>
    obtain ⟨he, hes⟩ := List.forall_mem_cons.mp (get?_eq_none.mp h)
    rw [put, he, if_neg Bool.false_ne_true, ih (get?_eq_none.mpr hes), List.cons_append]

theorem mem_put {e : Value × α} (hk : k.IsKey) (h : e ∈ put es k v) :
    e ∈ es ∨ (e.2 = v ∧ e.1.IsKey ∧ e.1.keyForm = k.keyForm) := by
  induction es with
  | nil =>
    obtain rfl := List.mem_singleton.mp h
    exact .inr ⟨rfl, hk, rfl⟩
  | cons a es ih =>
    rw [put] at h
    split at h
    · next hs =>
      obtain ⟨ha, -, hf⟩ := (Value.sameKey_iff _ _).mp hs
      rcases List.mem_cons.mp h with rfl | h
      · exact .inr ⟨rfl, ha, hf⟩
      · exact .inl (List.mem_cons_of_mem _ h)
    · rcases List.mem_cons.mp h with rfl | h
      · exact .inl List.mem_cons_self
      · exact (ih h).imp (List.mem_cons_of_mem _) id

theorem mem_or_snd_of_mem_put {e : Value × α} (h : e ∈ put es k v) : e ∈ es ∨ e.2 = v := by
  induction es with
  | nil => exact .inr (congrArg Prod.snd (List.mem_singleton.mp h))
  | cons a es ih =>
    rw [put] at h
    split at h
    · rcases List.mem_cons.mp h with rfl | h
      · exact .inr rfl
      · exact .inl (List.mem_cons_of_mem _ h)
    · rcases List.mem_cons.mp h with rfl | h
      · exact .inl List.mem_cons_self
      · exact (ih h).imp (List.mem_cons_of_mem _) id

theorem keys_put (hk : (get? es k).isSome) : (put es k v).map Prod.fst = es.map Prod.fst := by
  induction es with
  | nil => cases hk
  | cons e es ih =>
    rw [get?_cons] at hk
    rw [put]
    split
    · rfl
    · next hs =>
      rw [if_neg hs] at hk
      rw [List.map_cons, ih hk, List.map_cons]

theorem Distinct.put (h : Distinct es) (hk : k.IsKey) : Distinct (put es k v) := by
  cases hg : get? es k with
  | none =>
    rw [put_new hg]
    refine ⟨fun e he => ?_, List.pairwise_append.mpr ⟨h.apart, List.pairwise_singleton _ _, ?_⟩⟩
    · rcases List.mem_append.mp he with he | he
      · exact h.keys e he
      · obtain rfl := List.mem_singleton.mp he
        exact hk
    · intro a ha b hb hf
      obtain rfl := List.mem_singleton.mp hb
      have hs := (Value.sameKey_iff a.1 k).mpr ⟨h.keys a ha, hk, hf⟩
      rw [get?_eq_none.mp hg a ha] at hs
      cases hs
  | some w =>
    have hkeys := keys_put (v := v) (Option.isSome_of_eq_some hg)
    have hmap : ∀ {β : Type} (l : List (Value × β)), Distinct l ↔
        (∀ x ∈ l.map Prod.fst, x.IsKey) ∧
          (l.map Prod.fst).Pairwise fun a b => a.keyForm ≠ b.keyForm := by
      intro β l
      rw [List.forall_mem_map, List.pairwise_map]
      exact ⟨fun h => ⟨h.keys, h.apart⟩, fun h => ⟨h.1, h.2⟩⟩
    rw [hmap, hkeys, ← hmap]
    exact h

def mapped (f : α → β) (es : List (Value × α)) : List (Value × β) := es.map fun e => (e.1, f e.2)

@[simp] theorem mapped_cons (f : α → β) (e : Value × α) (es : List (Value × α)) :
    mapped f (e :: es) = (e.1, f e.2) :: mapped f es :=
  rfl

theorem get?_mapped (f : α → β) (es : List (Value × α)) (k : Value) :
    get? (mapped f es) k = (get? es k).map f := by
  induction es with
  | nil => rfl
  | cons e es ih =>
    rw [mapped_cons, get?_cons, get?_cons, ih]
    split <;> rfl

theorem mapped_put {f g : α → β} (h : Distinct es) (hk : k.IsKey)
    (hfg : ∀ e ∈ es, e.1.keyForm ≠ k.keyForm → f e.2 = g e.2) :
    mapped f (put es k v) = put (mapped g es) k (f v) := by
  induction es with
  | nil => rfl
  | cons e es ih =>
    obtain ⟨he, hne, h⟩ := distinct_cons.mp h
    obtain ⟨hfe, hfg⟩ := List.forall_mem_cons.mp hfg
    rw [put, mapped_cons, put]
    cases hs : e.1.sameKey k with
    | true =>
      have hf := ((Value.sameKey_iff _ _).mp hs).2.2
      rw [if_pos rfl, if_pos rfl, mapped_cons]
      refine congrArg (_ :: ·) (List.map_congr_left fun a ha => ?_)
      rw [hfg a ha fun h => hne a ha (hf.trans h.symm)]
    | false =>
      have hf : e.1.keyForm ≠ k.keyForm := fun hf => by
        rw [(Value.sameKey_iff _ _).mpr ⟨he, hk, hf⟩] at hs
        cases hs
      rw [if_neg Bool.false_ne_true, if_neg Bool.false_ne_true, mapped_cons, ih h hfg,
        hfe hf]

theorem distinct_mapped (f : α → β) : Distinct (mapped f es) ↔ Distinct es := by
  induction es with
  | nil => exact ⟨fun _ => distinct_nil, fun _ => distinct_nil⟩
  | cons e es ih =>
    rw [mapped_cons, distinct_cons, distinct_cons, ih, mapped, List.forall_mem_map]

/-! ## Keys apart -/

/-- No key is the same as one before it. This holds also for keys that are not the same as themselves. -/
def Apart (es : List (Value × α)) : Prop := es.Pairwise fun a b => a.1.sameKey b.1 = false

instance (es : List (Value × α)) : Decidable (Apart es) :=
  inferInstanceAs (Decidable (es.Pairwise _))

theorem apart_iff_keys (es : List (Value × α)) :
    Apart es ↔ (es.map Prod.fst).Pairwise fun a b => a.sameKey b = false := by
  rw [List.pairwise_map]
  rfl

theorem apart_mapped (f : α → β) (es : List (Value × α)) : Apart (mapped f es) ↔ Apart es :=
  List.pairwise_map

theorem Apart.put (h : Apart es) (k : Value) (v : α) : Apart (put es k v) := by
  cases hg : get? es k with
  | none =>
    rw [put_new hg]
    refine List.pairwise_append.mpr ⟨h, List.pairwise_singleton _ _, fun a ha b hb => ?_⟩
    obtain rfl := List.mem_singleton.mp hb
    exact get?_eq_none.mp hg a ha
  | some w =>
    rw [apart_iff_keys, keys_put (Option.isSome_of_eq_some hg), ← apart_iff_keys]
    exact h

variable {fs : List (Value × α)}

theorem Apart.get?_before (h : Apart (es ++ (k, v) :: fs)) : get? es k = none := by
  rw [get?_eq_none]
  intro e he
  exact (List.pairwise_append.mp h).2.2 e he (k, v) List.mem_cons_self

theorem Apart.get?_after (h : Apart ((k, v) :: es)) {t : Text} (hk : k.sameKey (.text t) = true) :
    get? es (.text t) = none := by
  rw [get?_eq_none]
  intro e he
  by_contra hs
  rw [Bool.not_eq_false] at hs
  have hne : k.sameKey e.1 = false := (List.pairwise_cons.mp h).1 e he
  rw [Value.sameKey_left hs, hk] at hne
  cases hne

end ConfigLoader.Keyed
