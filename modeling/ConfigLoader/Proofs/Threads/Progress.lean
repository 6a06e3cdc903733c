import Mathlib
import ConfigLoader.Proofs.Threads.Slot

/-! # Threads get done

A thread is kept from its next step by the lock alone, and the thread that has it can go on. Every
step brings its thread nearer to its end, so that every run can be completed.
-/
namespace ConfigLoader.Threads
variable {W S : Type}

/-! ## The steps that are left -/

def CallPoint.left : CallPoint S → Nat
  | .waiting => 8
  | .checking => 7
  | .building => 6
  | .storing _ => 5
  | .taking => 4
  | .leaving _ => 3
  | .asking _ => 2
  | .reporting _ => 1

def Activity.left : Activity S → Nat
  | .idle => 0
  | .call _ _ p => p.left
  | .close .emptying => 3
  | .close (.leaving _) => 2
  | .close (.closing _) => 1

/-- The steps that a thread has left, at most. -/
def Thread.left (t : Thread S) : Nat := 9 * t.tasks.length + t.activity.left

def Crew.left (x : Crew W S) : Nat := (x.threads.map Thread.left).sum

section Steps
variable {ops : ServiceOps W S} {i n : Nat} {t t' : Thread S} {x x' : Crew W S}

theorem Step.left {x x' : Shared W S} (h : Step ops i t x t' x') : t'.left < t.left := by
  cases h with
  | see ha ht hs | miss ha ht hs | lock ha ht hs =>
    simp only [Thread.left, ha, ht, List.length_cons, Activity.left, CallPoint.left]
    omega
  | _ =>
    simp only [Thread.left, Thread.goes, Thread.ends, *, Activity.left, CallPoint.left]
    omega

theorem sum_set {ts : List (Thread S)} (ht : ts[i]? = some t) (hlt : t'.left < t.left) :
    ((ts.set i t').map Thread.left).sum < (ts.map Thread.left).sum := by
  induction ts generalizing i with
  | nil => cases ht
  | cons u ts ih =>
    cases i with
    | zero =>
      cases ht
      simp only [List.set_cons_zero, List.map_cons, List.sum_cons]
      omega
    | succ i =>
      have := ih (i := i) ht
      simp only [List.set_cons_succ, List.map_cons, List.sum_cons]
      omega

theorem step_left (h : x.step? ops i = some x') : x'.left < x.left := by
  obtain ⟨t, t', ht, hs, hth⟩ := Crew.step?_cases h
  unfold Crew.left
  rw [hth]
  exact sum_set ht hs.left

theorem lock?_blocked {x : Shared W S} (h : x.lock? i = none) : x.holder ≠ none := by
  intro hn
  rw [Shared.lock?, hn] at h
  cases h

theorem step_blocked {x : Shared W S} (h : t.step ops i x = none) (hd : t.isDone = false) :
    x.holder ≠ none ∧ t.activity.holds = false := by
  unfold Thread.step at h
  cases ha : t.activity with
  | idle =>
    cases ht : t.tasks with
    | nil =>
      rw [Thread.isDone, ha, ht] at hd
      cases hd
    | cons task ts =>
      cases task with
      | call path content =>
        simp only [ha, ht] at h
        cases h
      | close =>
        simp only [ha, ht] at h
        exact ⟨lock?_blocked (Option.map_eq_none_iff.mp h), rfl⟩
  | call path content p =>
    simp only [ha] at h
    cases p with
    | waiting => exact ⟨lock?_blocked (Option.map_eq_none_iff.mp h), rfl⟩
    | checking =>
      cases hs : x.slot <;> simp only [Thread.callStep, hs] at h <;> cases h
    | building =>
      rcases hc : ops.create x.state with ⟨r, w⟩
      cases r <;> simp only [Thread.callStep, hc] at h <;> cases h
    | leaving r | reporting r => cases r <;> cases h
    | _ => cases h
  | close p =>
    simp only [ha] at h
    cases p with
    | leaving k => cases k <;> cases h
    | _ => cases h

theorem Sane.progress (ops : ServiceOps W S) (hx : Sane n x) (hd : x.isDone = false) :
    ∃ i x', x.step? ops i = some x' := by
  -- the thread that has the lock, or one that is not done if the lock is free
  have hthread : ∃ (j : Nat) (u : Thread S), x.threads[j]? = some u ∧
      u.step ops j x.shared ≠ none := by
    cases hh : x.shared.holder with
    | some j =>
      have hj := hx.locked.holder j hh
      have hu := List.getElem?_eq_getElem hj
      have hholds := (hx.locked.lock j _ hu).mpr hh
      refine ⟨j, _, hu, fun hnone => ?_⟩
      cases hdone : x.threads[j].isDone with
      | false =>
        have hno := (step_blocked hnone hdone).2
        rw [hholds] at hno
        cases hno
      | true =>
        rw [isDone_idle hdone] at hholds
        cases hholds
    | none =>
      obtain ⟨u, hmem, hu⟩ := List.all_eq_false.mp hd
      obtain ⟨j, hj⟩ := List.mem_iff_getElem?.mp hmem
      refine ⟨j, u, hj, fun hnone => ?_⟩
      exact (step_blocked hnone (Bool.eq_false_iff.mpr hu)).1 hh
  obtain ⟨j, u, hu, hstep⟩ := hthread
  obtain ⟨p, hp⟩ := Option.ne_none_iff_exists'.mp hstep
  refine ⟨j, ⟨p.2, x.threads.set j p.1⟩, ?_⟩
  simp only [Crew.step?, hu, Option.bind_some, hp, Option.map_some]

theorem Sane.completed (ops : ServiceOps W S) (hx : Sane n x) :
    ∃ schedule, (x.run ops schedule).isDone = true := by
  generalize hm : x.left = m
  induction m using Nat.strongRecOn generalizing x with
  | ind m ih =>
    cases hd : x.isDone with
    | true => exact ⟨[], hd⟩
    | false =>
      obtain ⟨i, x', hs⟩ := hx.progress ops hd
      obtain ⟨schedule, hdone⟩ := ih x'.left (hm ▸ step_left hs) (hx.step hs) rfl
      refine ⟨i :: schedule, ?_⟩
      rwa [Crew.run_cons, hs]

end Steps
end ConfigLoader.Threads
