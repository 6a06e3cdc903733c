import ConfigLoader.Proofs.Child.Working
import ConfigLoader.Proofs.Worker.Ready

/-! # Handshakes as callers see them

A worker that answers its handshake with a version is ready for requests; any other answer says that
something went wrong.
-/
namespace ConfigLoader.Worker
open Child.Machine (heard heard_frame)
open Json.Canonical (received received_fields load_line_cases)
open Modules (State Stop)
open Script (Item)

/-- The reply of a worker that could not load its compiler package. -/
def refused (message : Text) : Value :=
  .mapping [("status", "error"), ("error", .text message)]

theorem received_refused (message : Text) :
    received (refused message) = .mapping [("status", "error"), ("error", told message)] :=
  received_fields ["status", "error"] [("status", "error"), ("error", .text message)] rfl (by decide)

@[simp] theorem greeting_refused (message : Text) :
    Compiler.greeting (received (refused message)) = .ok (.error (told message)) := by
  rw [received_refused]
  rfl

theorem refusal_some {e : Engine} {s : State} {settings : Value} {v : Item} {frame : Text}
    (h : refusal e s settings v = some frame) :
    ∃ message, frame = frameLine (refused message) := by
  simp only [refusal, bind, Option.bind_eq_some_iff, pure, Option.some.injEq] at h
  obtain ⟨message, -, name, -, rfl⟩ := h
  exact ⟨_, rfl⟩

theorem runLoad_directory {c : Modules.Surroundings} {settings directory : Value} {s t : State}
    {v : Item} (h : runLoad c settings directory s = (.ok v, t)) :
    ∃ d, directory = .text d := by
  cases directory with
  | text d => exact ⟨d, rfl⟩
  | _ => cases h

theorem greet_answers (site : Site) (settings : Value) (w : Worker) :
    (∃ frame d p, (greet site settings w).1 = [frame] ∧
      (greet site settings w).2.phase = .ready ⟨.text d, p⟩ ∧
      (greet site settings w).2.here = w.here ∧
      (greet site settings w).2.pending = w.pending) ∨
    (∃ message, (greet site settings w).1 = [frameLine (refused message)]) ∨
    (greet site settings w).1 = [] := by
  unfold greet
  dsimp only
  generalize givenDirectory w.here settings = directory
  rcases hr : runLoad (plainSurroundings site (site.compiler w.here)) settings directory w.state
    with ⟨r, s⟩
  cases r with
  | error e =>
    cases e with
    | exited code => exact .inr (.inr rfl)
    | found es => exact .inr (.inr rfl)
    | raised v =>
      cases hf : refusal site.engine s settings v with
      | none => exact .inr (.inr (by simp only [hf]))
      | some frame =>
        obtain ⟨message, rfl⟩ := refusal_some hf
        exact .inr (.inl ⟨message, by simp only [hf]⟩)
  | ok exported =>
    obtain ⟨d, rfl⟩ := runLoad_directory hr
    cases hf : readyFrame site.engine s exported with
    | none => exact .inr (.inr (by simp only [hf]))
    | some frame =>
      dsimp only
      rw [hf]
      exact .inl ⟨frame, d, _, rfl, rfl, rfl, rfl⟩

theorem readLine_waiting (site : Site) {w : Worker} (hw : w.phase = .waiting) (line : Text) :
    (w.readLine site line).1 = [] ∨ ∃ settings, w.readLine site line = greet site settings w := by
  unfold readLine
  rw [hw]
  by_cases hb : line.isBlank = true
  · exact .inl (by simp only [hb, if_true])
  · simp only [hb, Bool.false_eq_true, if_false]
    cases Json.Strict.parse line with
    | error e => exact .inl rfl
    | ok v =>
      by_cases ho : isObject v = true
      · exact .inr ⟨v, by simp only [ho, if_true]⟩
      · exact .inl (by simp only [ho, Bool.false_eq_true, if_false])

/-- A worker whose answer to the first line tells a version is ready, and has written nothing
else. -/
theorem readLine_ready (site : Site) (script : Text) (here : Location) (line : Text) {room : Nat}
    {reply version : Value} (hr : heard room ((start script here).readLine site line).1 = .ok reply)
    (hg : Compiler.greeting reply = .ok (.ok version)) :
    ∃ x : Desk, x.here = here ∧ ∃ s, ((start script here).readLine site line).2 = x.worker s ∧
      ((start script here).readLine site line).1.tail = [] := by
  rcases readLine_waiting site (w := start script here) rfl line with h | ⟨settings, h⟩
  · rw [h] at hr
    cases hr
  · rw [h] at hr ⊢
    rcases greet_answers site settings (start script here) with
      ⟨frame, d, p, h1, h2, h3, h4⟩ | ⟨message, h1⟩ | h1
    · refine ⟨⟨here, d, p⟩, rfl, (greet site settings (start script here)).2.state, ?_, ?_⟩
      · rcases hw : (greet site settings (start script here)).2 with ⟨i, phase, s, rest⟩
        rw [hw] at h2 h3 h4
        obtain rfl : i = here := h3
        obtain rfl : phase = .ready ⟨.text d, p⟩ := h2
        obtain rfl : rest = [] := h4
        rfl
      · rw [h1]
        rfl
    · rw [h1, heard_frame] at hr
      have hload : Json.load room (frameLine (refused message)) = .ok (received (refused message)) ∨
          ∃ f, Json.load room (frameLine (refused message)) = .error f := by
        obtain ⟨-, h⟩ | ⟨-, f, h, -⟩ := load_line_cases room (refused message)
        · exact .inl h
        · exact .inr ⟨f, h⟩
      obtain hload | ⟨f, hload⟩ := hload
      · rw [hload] at hr
        cases hr
        rw [greeting_refused] at hg
        cases hg
      · rw [hload] at hr
        cases hr
    · rw [h1] at hr
      cases hr

end ConfigLoader.Worker
