import ConfigLoader.Proofs.Child.Records
import ConfigLoader.Proofs.Compiler.Traffic

/-! # The course of an exchange and of shutting a process down

What an exchange does with a process is to write, to flush and to read a line, in this order and up to
the first fault. What shutting a process down does with it has a course of its own, which ends before
the output is closed only by a fault that is not foreseen.
-/
namespace ConfigLoader.Compiler
open Child (Action Annals Deed annals)
open Child.Annals (Did)
variable {W : Type} {ops : ChildOps W} {k : Child.Handle} {t u v : Annals W}

/-! ## Exchanges -/

/-- What is done with a process to exchange a message. Nothing is done without an input or a form of
the message, and no line is read without an output. -/
inductive Exchanges (limits : Limits) (m : Value) : List Deed → Prop
  | unsent : Exchanges limits m []
  | unwritten {text f i o} (hm : frame limits m = .ok text) :
      Exchanges limits m [⟨.write text, .error f, i, o⟩]
  | unflushed {text s f i o i' o'} (hm : frame limits m = .ok text) :
      Exchanges limits m [⟨.write text, .ok s, i, o⟩, ⟨.flush, .error f, i', o'⟩]
  | unread {text s s' i o i'} (hm : frame limits m = .ok text) :
      Exchanges limits m [⟨.write text, .ok s, i, o⟩, ⟨.flush, .ok s', i', false⟩]
  | read {text s s' r i o i' o' i'' o''} (hm : frame limits m = .ok text) :
      Exchanges limits m
        [⟨.write text, .ok s, i, o⟩, ⟨.flush, .ok s', i', o'⟩, ⟨.readLine, r, i'', o''⟩]

theorem exchange_did (ops : ChildOps W) (k : Child.Handle) (m : Value) (t : Annals W) :
    ∃ es, Did k es t (exchange (annals ops) k m t).2 ∧ Exchanges ops.limits m es := by
  have hnone : Did k [] t t := .refl k t
  cases hi : (annals ops).hasInput k t with
  | false =>
    simp only [exchange, send, hi, Bool.false_eq_true, if_false]
    exact ⟨[], hnone, .unsent⟩
  | true =>
    cases hm : frame (annals ops).limits m with
    | error f =>
      simp only [exchange, send, hi, hm, if_true]
      exact ⟨[], hnone, .unsent⟩
    | ok text =>
      have h1 := Child.Annals.act_did ops k (.write text) t
      rcases e1 : (annals ops).act k (.write text) t with ⟨r1, t1⟩
      rw [e1] at h1
      cases r1 with
      | error f =>
        simp only [exchange, send, hi, hm, e1, if_true]
        exact ⟨_, h1, .unwritten hm⟩
      | ok s =>
        have h2 := h1.trans (Child.Annals.act_did ops k .flush t1)
        rcases e2 : (annals ops).act k .flush t1 with ⟨r2, t2⟩
        rw [e2] at h2
        rw [exchange, send_written hi hm e1, e2]
        cases r2 with
        | error f => exact ⟨_, h2, .unflushed hm⟩
        | ok s' =>
          simp only [Except.map, receive]
          cases ho : (annals ops).hasOutput k t2 with
          | false =>
            rw [ho] at h2
            exact ⟨_, h2, .unread hm⟩
          | true =>
            have h3 := h2.trans (Child.Annals.act_did ops k .readLine t2)
            rcases e3 : (annals ops).act k .readLine t2 with ⟨r3, t3⟩
            rw [e3] at h3
            simp only [if_true]
            cases r3 with
            | error f => exact ⟨_, h3, .read hm⟩
            | ok line => exact ⟨_, h3, .read hm⟩

/-! ## Shutting down -/

/-- How the input of a process is closed: not at all if there is none, and a system fault does not
matter. -/
inductive ClosesInput : List Deed → Except Fault Unit → Prop
  | missing : ClosesInput [] (.ok ())
  | closed {s i o} : ClosesInput [⟨.closeInput, .ok s, i, o⟩] (.ok ())
  | broken {f i o} (hf : f.isSystem = true) : ClosesInput [⟨.closeInput, .error f, i, o⟩] (.ok ())
  | failed {f i o} (hf : f.isSystem = false) :
      ClosesInput [⟨.closeInput, .error f, i, o⟩] (.error f)

/-- How the end of a process is awaited: it is told to end only when a wait of five seconds ran out,
and killed only when another one of a second did. -/
inductive Awaits : List Deed → Except Fault Text → Prop
  | ended {r i o} (hr : isTimeout r = false) : Awaits [⟨.wait (some 5), r, i, o⟩] r
  | untold {t f i o i' o'} (ht : isTimeout t = true) :
      Awaits [⟨.wait (some 5), t, i, o⟩, ⟨.terminate, .error f, i', o'⟩] (.error f)
  | told {t s r i o i' o' i'' o''} (ht : isTimeout t = true) (hr : isTimeout r = false) :
      Awaits [⟨.wait (some 5), t, i, o⟩, ⟨.terminate, .ok s, i', o'⟩,
        ⟨.wait (some 1), r, i'', o''⟩] r
  | unkilled {t s t' f i o i' o' i'' o'' i₃ o₃} (ht : isTimeout t = true)
      (ht' : isTimeout t' = true) :
      Awaits [⟨.wait (some 5), t, i, o⟩, ⟨.terminate, .ok s, i', o'⟩,
        ⟨.wait (some 1), t', i'', o''⟩, ⟨.kill, .error f, i₃, o₃⟩] (.error f)
  | killed {t s t' s' r i o i' o' i'' o'' i₃ o₃ i₄ o₄} (ht : isTimeout t = true)
      (ht' : isTimeout t' = true) :
      Awaits [⟨.wait (some 5), t, i, o⟩, ⟨.terminate, .ok s, i', o'⟩,
        ⟨.wait (some 1), t', i'', o''⟩, ⟨.kill, .ok s', i₃, o₃⟩, ⟨.wait none, r, i₄, o₄⟩] r

inductive ClosesOutput : List Deed → Except Fault Unit → Prop
  | missing : ClosesOutput [] (.ok ())
  | closed {r i o} : ClosesOutput [⟨.closeOutput, r, i, o⟩] (r.map fun _ => ())

/-- How a process is shut down: up to its output, or up to the first fault that matters. A pipe is
passed over only if the process does not have it. -/
inductive Shuts : List Deed → Except Fault Unit → Prop
  | open {es f} (hi : ClosesInput es (.error f)) : Shuts es (.error f)
  | unended {es fs f} (hi : ClosesInput es (.ok ())) (ha : Awaits fs (.error f))
      (hes : es = [] → ∀ d ∈ fs.head?, d.input = false) : Shuts (es ++ fs) (.error f)
  | whole {es fs gs s r} (hi : ClosesInput es (.ok ())) (ha : Awaits fs (.ok s))
      (ho : ClosesOutput gs r) (hes : es = [] → ∀ d ∈ fs.head?, d.input = false)
      (hgs : gs = [] → ∀ d ∈ fs.getLast?, d.output = false) : Shuts (es ++ fs ++ gs) r

theorem closeInput_did (ops : ChildOps W) (k : Child.Handle) (t : Annals W) :
    ∃ es, Did k es t (closeInput (annals ops) k t).2 ∧
      ClosesInput es (closeInput (annals ops) k t).1 ∧
      (es = [] → (annals ops).hasInput k (closeInput (annals ops) k t).2 = false) := by
  unfold closeInput
  cases hi : (annals ops).hasInput k t with
  | false => exact ⟨[], .refl k t, .missing, fun _ => hi⟩
  | true =>
    have h1 := Child.Annals.act_did ops k .closeInput t
    rcases e1 : (annals ops).act k .closeInput t with ⟨r1, t1⟩
    rw [e1] at h1
    cases r1 with
    | ok s => exact ⟨_, h1, .closed, nofun⟩
    | error f =>
      refine ⟨_, h1, ?_, nofun⟩
      cases hf : f.isSystem with
      | true => simpa only [hf, if_true] using ClosesInput.broken hf
      | false => simpa only [hf, Bool.false_eq_true, if_true, if_false] using ClosesInput.failed hf

theorem closeOutput_did (ops : ChildOps W) (k : Child.Handle) (t : Annals W) :
    ∃ es, Did k es t (closeOutput (annals ops) k t).2 ∧
      ClosesOutput es (closeOutput (annals ops) k t).1 ∧
      (es = [] → (annals ops).hasOutput k t = false) := by
  unfold closeOutput
  cases ho : (annals ops).hasOutput k t with
  | true => exact ⟨_, Child.Annals.act_did ops k .closeOutput t, .closed, nofun⟩
  | false => exact ⟨[], .refl k t, .missing, fun _ => rfl⟩

theorem awaitEnd_did (ops : ChildOps W) (k : Child.Handle) (t : Annals W) :
    ∃ es, Did k es t (awaitEnd (annals ops) k t).2 ∧ Awaits es (awaitEnd (annals ops) k t).1 ∧
      (∀ d ∈ es.head?, d.input = (annals ops).hasInput k t) ∧
      (∀ d ∈ es.getLast?, d.output = (annals ops).hasOutput k (awaitEnd (annals ops) k t).2) := by
  unfold awaitEnd
  have h1 := Child.Annals.act_did ops k (.wait (some patience)) t
  rcases e1 : (annals ops).act k (.wait (some patience)) t with ⟨r1, t1⟩
  rw [e1] at h1
  dsimp only
  cases ht1 : isTimeout r1 with
  | false => exact ⟨_, h1, .ended ht1, by simp, by simp⟩
  | true =>
    have h2 := h1.trans (Child.Annals.act_did ops k .terminate t1)
    rcases e2 : (annals ops).act k .terminate t1 with ⟨r2, t2⟩
    rw [e2] at h2
    simp only [if_true]
    cases r2 with
    | error f => exact ⟨_, h2, .untold ht1, by simp, by simp⟩
    | ok s2 =>
      have h3 := h2.trans (Child.Annals.act_did ops k (.wait (some lastPatience)) t2)
      rcases e3 : (annals ops).act k (.wait (some lastPatience)) t2 with ⟨r3, t3⟩
      rw [e3] at h3
      simp only [e3]
      cases ht3 : isTimeout r3 with
      | false => exact ⟨_, h3, .told ht1 ht3, by simp, by simp⟩
      | true =>
        have h4 := h3.trans (Child.Annals.act_did ops k .kill t3)
        rcases e4 : (annals ops).act k .kill t3 with ⟨r4, t4⟩
        rw [e4] at h4
        simp only [if_true]
        cases r4 with
        | error f => exact ⟨_, h4, .unkilled ht1 ht3, by simp, by simp⟩
        | ok s4 =>
          exact ⟨_, h4.trans (Child.Annals.act_did ops k (.wait none) t4), .killed ht1 ht3,
            by simp, by simp⟩

theorem shutdown_did (ops : ChildOps W) (k : Child.Handle) (t : Annals W) :
    ∃ es, Did k es t (shutdown (annals ops) k t).2 ∧ Shuts es (shutdown (annals ops) k t).1 := by
  unfold shutdown
  obtain ⟨es, h1, hi, hin⟩ := closeInput_did ops k t
  rcases e1 : closeInput (annals ops) k t with ⟨r1, t1⟩
  rw [e1] at h1 hi hin
  cases r1 with
  | error f => exact ⟨es, h1, .open hi⟩
  | ok _ =>
    obtain ⟨fs, h2, ha, hhead, hlast⟩ := awaitEnd_did ops k t1
    have hes : es = [] → ∀ d ∈ fs.head?, d.input = false :=
      fun he d hd => (hhead d hd).trans (hin he)
    rcases e2 : awaitEnd (annals ops) k t1 with ⟨r2, t2⟩
    rw [e2] at h2 ha hlast
    cases r2 with
    | error f => simpa only [e2] using ⟨_, h1.trans h2, Shuts.unended hi ha hes⟩
    | ok s =>
      obtain ⟨gs, h3, ho, hout⟩ := closeOutput_did ops k t2
      simp only [e2]
      exact ⟨_, (h1.trans h2).trans h3,
        .whole hi ha ho hes fun hg d hd => (hlast d hd).trans (hout hg)⟩

end ConfigLoader.Compiler
