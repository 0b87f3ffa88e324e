import ContractNegotiation.Simulation.Session
import Mathlib.Data.List.Basic
import Mathlib.Tactic.Common

namespace ContractNegotiation.CommandQueue

open Simulation

def Tally (pending : Table Nat) (count : String → Nat) : Prop :=
  ∀ id, pending.get? id = if count id = 0 then none else some (count id)

def waitingFor (waiting : List QueuedCommand) (id : String) : Nat :=
  waiting.countP (·.command.target = id)

def Tallied (q : CommandQueue) : Prop := Tally q.pending (waitingFor q.waiting)

variable {q : CommandQueue} {pending : Table Nat} {count : String → Nat} {c : QueuedCommand}

theorem tally_settle (h : Tally pending count) (id : String) :
    Tally (settle pending id) fun key => if key = id then count key - 1 else count key := by
  intro key
  have hid := h id
  unfold settle
  by_cases hc : count id = 0
  · rw [if_pos hc] at hid
    rw [hid]
    dsimp only
    rw [h key]
    by_cases hk : key = id
    · subst hk
      simp [hc]
    · simp [hk]
  · rw [if_neg hc] at hid
    rw [hid]
    dsimp only
    split
    · rw [Table.get?_erase]
      split
      · rename_i hle hk
        subst hk
        rw [if_pos (by omega)]
      · exact h key
    · rw [Table.get?_insert]
      split
      · rename_i hle hk
        subst hk
        rw [if_neg (by omega)]
      · exact h key

theorem Tallied.push (h : q.Tallied) (c : QueuedCommand) : (q.push c).Tallied := by
  intro key
  have hkey := h key
  have hid := h c.command.target
  simp only [CommandQueue.push, Table.get?_insert, waitingFor, List.countP_append,
    List.countP_singleton] at *
  by_cases hk : key = c.command.target
  · subst hk
    by_cases hc : q.waiting.countP (·.command.target = c.command.target) = 0
    · simp [hid, hc]
    · simp [hid, hc]
  · have hne : ¬ c.command.target = key := fun h => hk h.symm
    simp [hk, hne, hkey]

theorem tally_foldl (batch rest : List QueuedCommand)
    (h : Tally pending (waitingFor (batch ++ rest))) :
    Tally (batch.foldl (fun pending c => settle pending c.command.target) pending)
      (waitingFor rest) := by
  induction batch generalizing pending with
  | nil => exact h
  | cons c batch ih =>
    apply ih
    have hs := tally_settle h c.command.target
    intro key
    rw [hs key]
    simp only [waitingFor, List.cons_append, List.countP_cons]
    by_cases hk : key = c.command.target
    · subst hk
      simp
    · have hne : ¬ c.command.target = key := fun h => hk h.symm
      simp [hk, hne]

theorem Tallied.dequeue (h : q.Tallied) (limit : Nat) : (q.dequeue limit).2.Tallied := by
  apply tally_foldl (q.dequeue limit).1
  rw [dequeue_append_waiting]
  exact h

theorem Tallied.of_eq {q' : CommandQueue} (h : q.Tallied) (hw : q'.waiting = q.waiting)
    (hp : q'.pending = q.pending) : q'.Tallied := by
  unfold Tallied
  rwa [hw, hp]

theorem Tallied.pending_of_empty (h : q.Tallied) (hw : q.waiting = []) (id : String) :
    q.pending.get? id = none := by
  rw [h id, hw]
  rfl

theorem waitingFor_ne_zero_iff {waiting : List QueuedCommand} {id : String} :
    waitingFor waiting id ≠ 0 ↔ ∃ c ∈ waiting, c.command.target = id := by
  rw [waitingFor, ← Nat.pos_iff_ne_zero, List.countP_pos_iff]
  simp only [decide_eq_true_eq]

theorem Tallied.hasPending_iff (h : q.Tallied) (id : String) :
    q.hasPending id = true ↔ ∃ c ∈ q.waiting, c.command.target = id := by
  rw [← waitingFor_ne_zero_iff, hasPending, Table.contains, h id]
  split <;> simp [*]

theorem Tallied.dequeue_cases (h : q.Tallied) {id : String}
    (hid : q.pending.get? id ≠ none) (limit : Nat) :
    (q.dequeue limit).2.pending.get? id ≠ none ∨
      ∃ c ∈ (q.dequeue limit).1, c.command.target = id := by
  have hrest := h.dequeue limit id
  rw [h id, ← dequeue_append_waiting q limit, waitingFor, List.countP_append] at hid
  by_cases hcount : waitingFor (q.dequeue limit).2.waiting id = 0
  · rw [waitingFor] at hcount
    rw [hcount, Nat.add_zero] at hid
    exact .inr (waitingFor_ne_zero_iff.mp fun hzero => hid (if_pos hzero))
  · left
    rw [hrest, if_neg hcount]
    simp

section Sessions

def put? : QueueStep → Option QueuedCommand
  | .enqueue c => some ⟨c, 0⟩
  | .requeue c => some { c with attempts := c.attempts + 1 }
  | _ => none

def puts (steps : List QueueStep) : List QueuedCommand := steps.filterMap put?

def batch : QueueReply → List QueuedCommand
  | .batch commands => commands
  | _ => []

def handedOut (session : List (QueueReply × Nat)) : List QueuedCommand :=
  session.flatMap fun answer => batch answer.1

def after (q : CommandQueue) (steps : List QueueStep) : CommandQueue :=
  steps.foldl (fun q step => (step.perform q).2) q

theorem Tallied.perform (h : q.Tallied) (step : QueueStep) : (step.perform q).2.Tallied := by
  cases step with
  | enqueue c => exact h.push _
  | requeue c => exact h.push _
  | dequeue limit => exact h.dequeue limit
  | wake | close | hasPending | wait => exact h

theorem Tallied.after (h : q.Tallied) (steps : List QueueStep) : (q.after steps).Tallied := by
  induction steps generalizing q with
  | nil => exact h
  | cons step steps ih => exact ih (h.perform step)

theorem batch_append_waiting (q : CommandQueue) (step : QueueStep) :
    batch (step.perform q).1 ++ (step.perform q).2.waiting = q.waiting ++ (put? step).toList := by
  cases step with
  | enqueue c => rfl
  | requeue c => rfl
  | dequeue limit =>
    have hwhole := dequeue_append_waiting q limit
    simpa [QueueStep.perform, batch, put?] using hwhole
  | wake | close | hasPending | wait => simp [QueueStep.perform, batch, put?, wake, close, waited]

theorem handedOut_append_waiting (q : CommandQueue) (steps : List QueueStep) :
    handedOut (queueSession q steps) ++ (q.after steps).waiting = q.waiting ++ puts steps := by
  induction steps generalizing q with
  | nil => simp [queueSession, handedOut, CommandQueue.after, puts]
  | cons step steps ih =>
    have hputs : puts (step :: steps) = (put? step).toList ++ puts steps := by
      cases hp : put? step <;> simp [puts, hp]
    have hrest := ih (step.perform q).2
    calc handedOut (queueSession q (step :: steps)) ++ (q.after (step :: steps)).waiting
        = batch (step.perform q).1 ++ (handedOut (queueSession (step.perform q).2 steps) ++
            ((step.perform q).2.after steps).waiting) := by
          simp [queueSession, handedOut, CommandQueue.after]
      _ = batch (step.perform q).1 ++ (step.perform q).2.waiting ++ puts steps := by
          rw [hrest, List.append_assoc]
      _ = q.waiting ++ puts (step :: steps) := by
          rw [batch_append_waiting, hputs, List.append_assoc]

end Sessions

/-- A queue that was empty, after any steps. A target has commands pending if and only if one waits,
and then it has a count, which is the number of them. What was handed out so far, followed by what
waits, is what was put in, so that the next batch holds those put in first of all that are left, as
many as are asked for or there are. A command that is put in again has lost one race more. -/
theorem queue_conserves (steps : List QueueStep) :
    let q := after {} steps
    let given := handedOut (queueSession {} steps)
    (∀ id, q.hasPending id = true ↔ ∃ c ∈ q.waiting, c.command.target = id) ∧
    (∀ id count, q.pending.get? id = some count ↔
      count ≠ 0 ∧ count = q.waiting.countP (·.command.target = id)) ∧
    given ++ q.waiting = puts steps ∧
    (∀ limit, ∃ next r, (QueueStep.dequeue limit).perform q = (.batch next, r) ∧
      next = ((puts steps).drop given.length).take limit ∧ next.length = min limit q.size ∧
      given ++ next ++ r.waiting = puts steps) ∧
    ∀ c, ((QueueStep.requeue c).perform q).2.waiting =
      q.waiting ++ [{ c with attempts := c.attempts + 1 }] := by
  intro q given
  have htallied : q.Tallied := Tallied.after (q := {}) (fun _ => rfl) steps
  have hwhole : given ++ q.waiting = puts steps := handedOut_append_waiting {} steps
  refine ⟨htallied.hasPending_iff, fun id count => ?_, hwhole, fun limit => ?_, fun c => rfl⟩
  · rw [htallied id, waitingFor]
    split <;> grind
  · refine ⟨(q.dequeue limit).1, (q.dequeue limit).2, rfl, ?_, List.length_take, ?_⟩
    · rw [← hwhole, List.drop_left]
      rfl
    · rw [List.append_assoc, dequeue_append_waiting, hwhole]

end ContractNegotiation.CommandQueue
