import Mathlib.Data.ENat.Basic
import ConfigLoader.Service.Script

/-! # What a script has in store

How the attempts to build a service end from now on, and the calls of one, each counted from the state
that a script is in.
-/
namespace ConfigLoader.Service

def Plan.fault? : Plan → Option Fault
  | .refuse f => some f
  | .serve _ => none

/-- How the calls of a new service end, counted from zero. -/
def Behaviour.outcome (b : Behaviour) (i : Nat) : Except Fault Value :=
  Script.nthOrLast (.ok .null) b.calls i

def Plan.outcome : Plan → Nat → Except Fault Value
  | .refuse _, _ => .ok .null
  | .serve b, i => b.outcome i

namespace Script

/-- How the attempts from now on end, counted from zero. -/
def planAt (s : Script) (i : Nat) : Plan := nthOrLast (.serve idle) s.plans (s.attempts + i)

def faults (s : Script) (r : Nat) : List Fault :=
  (List.range r).filterMap fun i => (s.planAt i).fault?

/-- The `k`-th attempt from now on is the first that succeeds; `k` is infinite if none does. -/
structure FirstServed (s : Script) (k : ℕ∞) : Prop where
  positive : 1 ≤ k
  refused : ∀ i : ℕ, i + 1 < k → ∃ f, s.planAt i = .refuse f
  served : ∀ i : ℕ, i + 1 = k → ∃ b, s.planAt i = .serve b

section FirstServed
variable {s : Script} {k : ℕ∞} {r : Nat}

theorem FirstServed.lt (hk : s.FirstServed k) (hr : ∀ i < r, ∃ f, s.planAt i = .refuse f) :
    (r : ℕ∞) < k := by
  by_contra hle
  have hle := not_lt.mp hle
  obtain ⟨m, rfl⟩ := ENat.ne_top_iff_exists.mp (ne_top_of_le_ne_top (ENat.natCast_ne_top r) hle)
  have hm : 1 ≤ m := by exact_mod_cast hk.positive
  have hmr : m ≤ r := by exact_mod_cast hle
  obtain ⟨b, hb⟩ := hk.served (m - 1) (by norm_cast; omega)
  obtain ⟨f, hf⟩ := hr (m - 1) (by omega)
  rw [hb] at hf
  cases hf

theorem FirstServed.eq (hk : s.FirstServed k) (hr : ∀ i < r, ∃ f, s.planAt i = .refuse f)
    {b : Behaviour} (hb : s.planAt r = .serve b) : k = ((r + 1 : ℕ) : ℕ∞) := by
  refine le_antisymm (not_lt.mp fun hlt => ?_) (by exact_mod_cast Order.add_one_le_of_lt (hk.lt hr))
  obtain ⟨f, hf⟩ := hk.refused r (by exact_mod_cast hlt)
  rw [hb] at hf
  cases hf

theorem exists_firstServed (s : Script) : ∃ k, s.FirstServed k := by
  classical
  by_cases h : ∃ i b, s.planAt i = .serve b
  · refine ⟨((Nat.find h + 1 : ℕ) : ℕ∞), by norm_cast; omega, fun i hi => ?_, fun i hi => ?_⟩
    · have hlt : i < Nat.find h := by
        have : i + 1 < Nat.find h + 1 := by exact_mod_cast hi
        omega
      cases hp : s.planAt i with
      | refuse f => exact ⟨f, rfl⟩
      | serve b => exact absurd ⟨b, hp⟩ (Nat.find_min h hlt)
    · have heq : i = Nat.find h := by
        have : i + 1 = Nat.find h + 1 := by exact_mod_cast hi
        omega
      rw [heq]
      exact Nat.find_spec h
  · refine ⟨⊤, le_top, fun i _ => ?_, fun i hi => ?_⟩
    · cases hp : s.planAt i with
      | refuse f => exact ⟨f, rfl⟩
      | serve b => exact absurd ⟨i, b, hp⟩ h
    · exact absurd hi (by norm_cast)

end FirstServed

/-- How the calls of a service that was built end from now on, counted from zero. -/
def outcomeAt (s : Script) (k i : Nat) : Except Fault Value :=
  match s.built[k]? with
  | none => .ok .null
  | some b => nthOrLast (.ok .null) b.behaviour.calls (b.calls.length + i)

theorem create_error {s w : Script} {f : Fault} (h : create s = (.error f, w)) :
    s.planAt 0 = .refuse f ∧ (∀ i, w.planAt i = s.planAt (i + 1)) ∧ w.built = s.built := by
  unfold create at h
  cases hp : nthOrLast (.serve idle) s.plans s.attempts with
  | serve b =>
    simp only [hp] at h
    cases h
  | refuse g =>
    simp only [hp] at h
    cases h
    refine ⟨hp, fun i => ?_, rfl⟩
    simp only [planAt]
    congr 1
    omega

theorem create_ok {s w : Script} {k : Nat} (h : create s = (.ok k, w)) :
    ∃ b, s.planAt 0 = .serve b ∧ k = s.built.length ∧
      ∀ i, w.outcomeAt k i = b.outcome i := by
  unfold create at h
  cases hp : nthOrLast (.serve idle) s.plans s.attempts with
  | refuse g =>
    simp only [hp] at h
    cases h
  | serve b =>
    simp only [hp] at h
    cases h
    refine ⟨b, hp, rfl, fun i => ?_⟩
    simp only [outcomeAt, List.getElem?_append_right (Nat.le_refl _), Nat.sub_self,
      List.getElem?_cons_zero, List.length_nil, Nat.zero_add, Behaviour.outcome]

theorem compile_next {s w : Script} {path content : Value} {k : Nat} {r : Except Fault Value}
    (h : compile path content k s = (r, w)) :
    r = s.outcomeAt k 0 ∧ ∀ i, w.outcomeAt k i = s.outcomeAt k (i + 1) := by
  unfold compile at h
  cases hb : s.built[k]? with
  | none =>
    simp only [hb] at h
    cases h
    simp only [outcomeAt, hb, implies_true, and_self]
  | some b =>
    simp only [hb] at h
    cases h
    have hk := (List.getElem?_eq_some_iff.mp hb).1
    refine ⟨?_, fun i => ?_⟩
    · simp only [outcomeAt, hb, Nat.add_zero]
    · simp only [outcomeAt, hb, List.getElem?_set_self hk, List.length_append,
        List.length_singleton]
      congr 1
      omega

end Script

end ConfigLoader.Service
