import ContractNegotiation.Text

namespace ContractNegotiation

structure Fault where
  text : String
  deriving DecidableEq, Inhabited, Repr

def Fault.report (f : Fault) : String := Text.terminated f.text

abbrev Action (σ α : Type) := EStateM Fault σ α

namespace Action

variable {σ τ α β : Type}

def attempt (x : Action σ α) : Action σ (Except Fault α) := fun s =>
  match x s with
  | .ok a s => .ok (.ok a) s
  | .error f s => .ok (.error f) s

def each (f : α → Action σ Unit) : List α → Action σ Unit
  | [] => pure ()
  | x :: xs => do
    f x
    each f xs

def select (keep : α → Action σ Bool) : List α → Action σ (List α)
  | [] => pure []
  | x :: xs => do
    let kept ← keep x
    let others ← select keep xs
    pure (if kept then x :: others else others)

def total (f : α → Action σ Nat) : List α → Action σ Nat
  | [] => pure 0
  | x :: xs => do
    let n ← f x
    let others ← total f xs
    pure (n + others)

def eachThenRaise (f : α → Action σ Unit) : List α → Action σ Unit
  | [] => pure ()
  | x :: xs => do
    let outcome ← attempt (f x)
    match outcome with
    | .ok () => eachThenRaise f xs
    | .error fault => do
      let _ ← attempt (eachThenRaise f xs)
      throw fault

def within (part : τ → σ) (update : τ → σ → τ) (x : Action σ α) : Action τ α := fun t =>
  match x (part t) with
  | .ok a s => .ok a (update t s)
  | .error f s => .error f (update t s)

end Action

inductive Transactions (σ : Type) where
  | none
  | bracketed (start commit rollback : Action σ Unit)

namespace Transactions

variable {σ α : Type}

/-- Commits after the block, or rolls back if it fails. A failing commit is not rolled back. -/
def run (t : Transactions σ) (block : Action σ α) : Action σ α :=
  match t with
  | none => block
  | bracketed start commit rollback => do
    start
    match ← Action.attempt block with
    | .ok a => do
      commit
      pure a
    | .error fault => do
      rollback
      throw fault

end Transactions

end ContractNegotiation
