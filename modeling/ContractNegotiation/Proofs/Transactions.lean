import ContractNegotiation.Proofs.Action
import Mathlib.Data.List.Basic
import Mathlib.Tactic.Common

namespace ContractNegotiation.Transactions

open ContractNegotiation.Action

inductive Event where
  | work (text : String)
  | begun
  /-- Noted when a commit is asked for, whether it succeeds or not. -/
  | commit
  | rollback
  deriving DecidableEq, Repr

def Event.isWork : Event → Bool
  | work _ => true
  | _ => false

abbrev Log := List Event

/-- A block of work that comes to a value or fails. After a block that it runs in the context of its
own, it goes on with the value of that block or with its fault. -/
inductive Block : Type → Type 1 where
  | done {α : Type} (a : α) : Block α
  | fail {α : Type} (fault : Fault) : Block α
  | work {α : Type} (text : String) (next : Block α) : Block α
  | nested {α β : Type} (inner : Block β) (next : Except Fault β → Block α) : Block α

def note (e : Event) : Action Log Unit := modify (· ++ [e])

def commit (refuses : Log → Option Fault) : Action Log Unit := do
  let l ← get
  note .commit
  match refuses l with
  | some fault => throw fault
  | .none => pure ()

def recording (refuses : Log → Option Fault) : Transactions Log :=
  .bracketed (note .begun) (commit refuses) (note .rollback)

def Block.perform {α : Type} (t : Transactions Log) : Block α → Action Log α
  | done a => pure a
  | fail fault => throw fault
  | work text next => do
    note (.work text)
    next.perform t
  | nested inner next => do
    let outcome ← Action.attempt (t.run (inner.perform t))
    (next outcome).perform t

inductive Closes (refuses : Log → Option Fault) (l : Log) {α : Type} :
    Except Fault α → Event → Except Fault α → Prop where
  | committed (a : α) : refuses l = .none → Closes refuses l (.ok a) .commit (.ok a)
  | refused (a : α) (fault : Fault) : refuses l = some fault →
      Closes refuses l (.ok a) .commit (.error fault)
  | rolledBack (fault : Fault) : Closes refuses l (.error fault) .rollback (.error fault)

inductive Plays (refuses : Log → Option Fault) :
    {α : Type} → Block α → Log → Log → Except Fault α → Prop where
  | done {α : Type} (a : α) (l : Log) : Plays refuses (.done a) l [] (.ok a)
  | fail {α : Type} (fault : Fault) (l : Log) :
      Plays refuses (.fail fault : Block α) l [] (.error fault)
  | work {α : Type} {text : String} {next : Block α} {l es : Log} {r : Except Fault α} :
      Plays refuses next (l ++ [.work text]) es r →
      Plays refuses (.work text next) l (.work text :: es) r
  | nested {α β : Type} {inner : Block β} {next : Except Fault β → Block α} {l es es' : Log}
      {e : Event} {r r' : Except Fault β} {s : Except Fault α} :
      Plays refuses inner (l ++ [.begun]) es r → Closes refuses (l ++ .begun :: es) r e r' →
      Plays refuses (next r') (l ++ .begun :: (es ++ [e])) es' s →
      Plays refuses (.nested inner next) l (.begun :: (es ++ [e]) ++ es') s

inductive Nested : Log → Prop where
  | nil : Nested []
  | work {es : Log} (text : String) : Nested es → Nested (.work text :: es)
  | transaction {es es' : Log} {e : Event} : Nested es → e = .commit ∨ e = .rollback → Nested es' →
      Nested (.begun :: (es ++ [e]) ++ es')

inductive Opened : Nat → Log → Prop where
  | none {es : Log} : Nested es → Opened 0 es
  | more {es es' : Log} {depth : Nat} : Nested es → Opened depth es' →
      Opened (depth + 1) (es ++ .begun :: es')

/-- The block gets to a failure inside of so many transactions, and nobody goes on after it. -/
inductive Strikes (refuses : Log → Option Fault) (fault : Fault) :
    {α : Type} → Block α → Log → Nat → Prop where
  | fail {α : Type} (l : Log) : Strikes refuses fault (.fail fault : Block α) l 0
  | work {α : Type} {text : String} {next : Block α} {l : Log} {depth : Nat} :
      Strikes refuses fault next (l ++ [.work text]) depth →
      Strikes refuses fault (.work text next) l depth
  | past {α β : Type} {inner : Block β} {next : Except Fault β → Block α} {l es : Log} {e : Event}
      {r r' : Except Fault β} {depth : Nat} :
      Plays refuses inner (l ++ [.begun]) es r → Closes refuses (l ++ .begun :: es) r e r' →
      Strikes refuses fault (next r') (l ++ .begun :: (es ++ [e])) depth →
      Strikes refuses fault (.nested inner next) l depth
  | within {α β : Type} {inner : Block β} {next : Except Fault β → Block α} {l : Log}
      {depth : Nat} : Strikes refuses fault inner (l ++ [.begun]) depth →
      next (.error fault) = .fail fault → Strikes refuses fault (.nested inner next) l (depth + 1)

variable {α β : Type} {refuses : Log → Option Fault} {l l' es es' : Log} {e : Event} {b : Block α}
  {fault : Fault} {depth : Nat}

section Runs

variable {σ : Type} {start commits rollback : Action σ Unit} {x : Action σ α} {s t u : σ}

theorem eq_of_attempt_ok {a : α} (h : attempt x s = .ok (.ok a) t) : x s = .ok a t := by
  unfold attempt at h
  split at h <;> cases h
  assumption

theorem eq_of_attempt_error (h : attempt x s = .ok (.error fault) t) : x s = .error fault t := by
  unfold attempt at h
  split at h <;> cases h
  assumption

theorem run_of_ok {a : α} (hs : start s = .ok () t) (hx : x t = .ok a u) :
    (bracketed start commits rollback).run x s = (commits >>= fun _ => pure a) u := by
  simp only [run, bind, EStateM.bind, attempt, hs, hx]

theorem run_of_error {v : σ} (hs : start s = .ok () t) (hx : x t = .error fault u)
    (hr : rollback u = .ok () v) :
    (bracketed start commits rollback).run x s = .error fault v := by
  simp only [run, bind, EStateM.bind, attempt, hs, hx, hr]
  rfl

end Runs

section Recordings

variable {x : Action Log α} {r r' : Except Fault α}

theorem note_apply (e : Event) (l : Log) : note e l = .ok () (l ++ [e]) := rfl

theorem commit_of_none (h : refuses l = .none) : commit refuses l = .ok () (l ++ [.commit]) := by
  simp only [commit, bind, EStateM.bind, get_apply, note_apply, h]
  rfl

theorem commit_of_some (h : refuses l = some fault) :
    commit refuses l = .error fault (l ++ [.commit]) := by
  simp only [commit, bind, EStateM.bind, get_apply, note_apply, h]
  rfl

theorem attempt_run (hx : attempt x (l ++ [.begun]) = .ok r l') (hc : Closes refuses l' r e r') :
    attempt ((recording refuses).run x) l = .ok r' (l' ++ [e]) := by
  cases hc with
  | committed a hnone =>
    have hrun : (recording refuses).run x l = _ := run_of_ok rfl (eq_of_attempt_ok hx)
    simp only [attempt, hrun, bind, EStateM.bind, commit_of_none hnone]
    rfl
  | refused a fault hsome =>
    have hrun : (recording refuses).run x l = _ := run_of_ok rfl (eq_of_attempt_ok hx)
    simp only [attempt, hrun, bind, EStateM.bind, commit_of_some hsome]
  | rolledBack fault =>
    have hrun : (recording refuses).run x l = _ := run_of_error rfl (eq_of_attempt_error hx) rfl
    simp only [attempt, hrun]

theorem attempt_bind {y : Action Log β} {k : Except Fault β → Action Log α} {s : Except Fault β}
    (h : attempt y l = .ok s l') : attempt (attempt y >>= k) l = attempt (k s) l' := by
  have hk : (attempt y >>= k) l = k s l' := by
    simp only [bind, EStateM.bind, h]
  generalize attempt y >>= k = x at hk ⊢
  simp only [attempt, hk]

end Recordings

theorem exists_closes (refuses : Log → Option Fault) (l : Log) (r : Except Fault α) :
    ∃ e r', Closes refuses l r e r' := by
  cases r with
  | error fault => exact ⟨_, _, .rolledBack fault⟩
  | ok a =>
    cases h : refuses l with
    | none => exact ⟨_, _, .committed a h⟩
    | some fault => exact ⟨_, _, .refused a fault h⟩

theorem exists_plays (refuses : Log → Option Fault) (b : Block α) (l : Log) :
    ∃ es r, Plays refuses b l es r := by
  induction b generalizing l with
  | done a => exact ⟨_, _, .done a l⟩
  | fail fault => exact ⟨_, _, .fail fault l⟩
  | work text next ih =>
    obtain ⟨es, r, h⟩ := ih (l ++ [.work text])
    exact ⟨_, _, .work h⟩
  | nested inner next ihInner ihNext =>
    obtain ⟨es, r, h⟩ := ihInner (l ++ [.begun])
    obtain ⟨e, r', hc⟩ := exists_closes refuses (l ++ .begun :: es) r
    obtain ⟨es', s, h'⟩ := ihNext r' (l ++ .begun :: (es ++ [e]))
    exact ⟨_, _, .nested h hc h'⟩

theorem Closes.ends {r r' : Except Fault α} (h : Closes refuses l r e r') :
    e = .commit ∨ e = .rollback := by
  cases h with
  | committed | refused => exact .inl rfl
  | rolledBack => exact .inr rfl

theorem Closes.filter_work {r r' : Except Fault α} (h : Closes refuses l r e r') (es es' : Log) :
    (.begun :: (es ++ [e]) ++ es').filter Event.isWork =
      es.filter Event.isWork ++ es'.filter Event.isWork := by
  have hbegin : Event.isWork .begun = false := rfl
  have hend : Event.isWork e = false := by
    rcases h.ends with rfl | rfl <;> rfl
  simp [hbegin, hend]

theorem Plays.performs {r : Except Fault α} (h : Plays refuses b l es r) :
    attempt (b.perform (recording refuses)) l = .ok r (l ++ es) := by
  induction h with
  | done a l =>
    rw [List.append_nil]
    rfl
  | fail fault l =>
    rw [List.append_nil]
    rfl
  | @work _ text next l es r _ ih =>
    rw [List.append_assoc] at ih
    exact ih
  | @nested _ _ inner next l es es' e r r' s _ hc _ ih ih' =>
    rw [List.append_assoc, List.singleton_append] at ih
    have hrun := attempt_run (x := inner.perform (recording refuses)) (l := l) ih hc
    simp only [List.append_assoc, List.cons_append] at hrun ih' ⊢
    rw [Block.perform, attempt_bind hrun, ih']

theorem Plays.isNested {r : Except Fault α} (h : Plays refuses b l es r) : Nested es := by
  induction h with
  | done | fail => exact .nil
  | work _ ih => exact .work _ ih
  | nested _ hc _ ih ih' => exact .transaction ih hc.ends ih'

theorem Nested.append (h : Nested es) (h' : Nested es') : Nested (es ++ es') := by
  induction h with
  | nil => exact h'
  | work text _ ih => exact .work text ih
  | transaction hinner he _ _ ih =>
    rw [List.append_assoc]
    exact .transaction hinner he ih

theorem Opened.prepend (h : Nested es) (h' : Opened depth es') : Opened depth (es ++ es') := by
  cases h' with
  | none h' => exact .none (h.append h')
  | more h' hopened =>
    rw [← List.append_assoc]
    exact .more (h.append h') hopened

theorem Strikes.plays (h : Strikes refuses fault b l depth) : ∃ before, Opened depth before ∧
    Plays refuses b l (before ++ .replicate depth .rollback) (.error fault) := by
  induction h with
  | fail l => exact ⟨[], .none .nil, .fail fault l⟩
  | work _ ih =>
    obtain ⟨before, hopened, hplays⟩ := ih
    exact ⟨_, .prepend (.work _ .nil) hopened, .work hplays⟩
  | past hinner hc _ ih =>
    obtain ⟨before, hopened, hplays⟩ := ih
    have hdone : Nested _ := .transaction hinner.isNested hc.ends .nil
    rw [List.append_nil] at hdone
    refine ⟨_, .prepend hdone hopened, ?_⟩
    rw [List.append_assoc]
    exact .nested hinner hc hplays
  | @within _ _ inner next l depth _ hnext ih =>
    obtain ⟨before, hopened, hplays⟩ := ih
    refine ⟨[] ++ .begun :: before, .more .nil hopened, ?_⟩
    -- Nothing comes between the fault and the rollback of the transaction that it leaves next.
    have hrest : Plays refuses (next (.error fault))
        (l ++ .begun :: ((before ++ .replicate depth .rollback) ++ [.rollback])) []
        (.error fault) := hnext ▸ .fail fault _
    have hplays' := hplays.nested (.rolledBack fault) hrest
    rwa [List.append_nil, List.append_assoc, ← List.replicate_succ'] at hplays'

theorem Closes.eq_of_granted {r r' : Except Fault α} (h : Closes (fun _ => .none) l r e r') :
    r' = r := by
  cases h with
  | committed | rolledBack => rfl
  | refused _ _ h => cases h

theorem Plays.performs_none {r : Except Fault α} (h : Plays (fun _ => .none) b l es r) (l' : Log) :
    attempt (b.perform .none) l' = .ok r (l' ++ es.filter Event.isWork) := by
  induction h generalizing l' with
  | done a l =>
    rw [List.filter_nil, List.append_nil]
    rfl
  | fail fault l =>
    rw [List.filter_nil, List.append_nil]
    rfl
  | @work _ text next l es r _ ih =>
    have hnext := ih (l' ++ [.work text])
    rw [List.append_assoc] at hnext
    exact hnext
  | @nested _ _ inner next l es es' e r r' s _ hc _ ih ih' =>
    have hfilter := hc.filter_work es es'
    have hrun : attempt (Transactions.none.run (inner.perform .none)) l' = _ := ih l'
    obtain rfl := hc.eq_of_granted
    rw [Block.perform, attempt_bind hrun, ih', hfilter, List.append_assoc]

/-- Transactions bracket their blocks, whatever a block does, runs and goes on after, and whichever
commits are refused. A run begins one transaction, has its block played and ends the transaction: by
one commit if the block came to a value, which is the value of the run unless the commit is refused,
and else by one rollback, after which the fault of the block leaves the run. What is played in
between is nested in the same way. A failure that nobody goes on after rolls back all transactions
around it, at once and from the inside out. Without transactions the same work is done and comes to
the same. -/
theorem run_brackets (refuses : Log → Option Fault) (b : Block α) (l : Log) :
    (∃ es r e r', Plays refuses b (l ++ [.begun]) es r ∧ Nested es ∧
      Closes refuses (l ++ .begun :: es) r e r' ∧
      attempt ((recording refuses).run (b.perform (recording refuses))) l =
        .ok r' (l ++ .begun :: (es ++ [e]))) ∧
    (∀ fault depth, Strikes refuses fault b (l ++ [.begun]) depth →
      ∃ before, Opened (depth + 1) before ∧
        attempt ((recording refuses).run (b.perform (recording refuses))) l =
          .ok (.error fault) (l ++ before ++ .replicate (depth + 1) .rollback)) ∧
    ∃ es r, attempt ((recording fun _ => .none).run (b.perform (recording fun _ => .none))) l =
        .ok r (l ++ es) ∧
      ∀ l', attempt (Transactions.none.run (b.perform .none)) l' =
        .ok r (l' ++ es.filter Event.isWork) := by
  have hruns : ∀ (refuses : Log → Option Fault) {es r e r'}, Plays refuses b (l ++ [.begun]) es r →
      Closes refuses (l ++ .begun :: es) r e r' →
      attempt ((recording refuses).run (b.perform (recording refuses))) l =
        .ok r' (l ++ .begun :: (es ++ [e])) := by
    intro refuses es r e r' hplays hc
    have hinner := hplays.performs
    rw [List.append_assoc, List.singleton_append] at hinner
    have hrun := attempt_run (x := b.perform (recording refuses)) hinner hc
    rwa [List.append_assoc, List.cons_append] at hrun
  refine ⟨?_, fun fault depth hstrikes => ?_, ?_⟩
  · obtain ⟨es, r, hplays⟩ := exists_plays refuses b (l ++ [.begun])
    obtain ⟨e, r', hc⟩ := exists_closes refuses (l ++ .begun :: es) r
    exact ⟨es, r, e, r', hplays, hplays.isNested, hc, hruns refuses hplays hc⟩
  · obtain ⟨before, hopened, hplays⟩ := hstrikes.plays
    refine ⟨[] ++ .begun :: before, .more .nil hopened, ?_⟩
    rw [hruns refuses hplays (.rolledBack fault)]
    simp [List.replicate_succ']
  · obtain ⟨es, r, hplays⟩ := exists_plays (fun _ => .none) b (l ++ [.begun])
    obtain ⟨e, r', hc⟩ := exists_closes (fun _ => .none) (l ++ .begun :: es) r
    have hfilter := hc.filter_work es []
    obtain rfl := hc.eq_of_granted
    refine ⟨_, _, hruns _ hplays hc, fun l' => ?_⟩
    rw [List.append_nil] at hfilter
    rw [hfilter, List.filter_nil, List.append_nil]
    exact hplays.performs_none l'

theorem run_brackets_of_payment :
    let inner : Block Unit := .work "pay" (.fail ⟨"store down"⟩)
    let rethrow : Except Fault Unit → Block Unit
      | .ok _ => .done ()
      | .error fault => .fail fault
    let b : Block Unit := .work "order" (.nested inner rethrow)
    Strikes (fun _ => .none) ⟨"store down"⟩ b [.begun] 1 ∧
      ∃ before, Opened 2 before ∧
        attempt ((recording fun _ => .none).run (b.perform (recording fun _ => .none))) [] =
          .ok (.error ⟨"store down"⟩) ([] ++ before ++ .replicate 2 .rollback) := by
  intro inner rethrow b
  have hstrikes : Strikes (fun _ => .none) ⟨"store down"⟩ b [.begun] 1 :=
    .work (.within (.work (.fail _)) rfl)
  exact ⟨hstrikes, (run_brackets (fun _ => .none) b []).2.1 _ 1 hstrikes⟩

end ContractNegotiation.Transactions
