import ContractNegotiation.Table
import ContractNegotiation.Transition

namespace ContractNegotiation

inductive Command where
  | cancel (id : String)
  | decline (id reason : String)
  deriving DecidableEq, Inhabited, Repr

namespace Command

def target : Command → String
  | cancel id => id
  | decline id _ => id

def name : Command → String
  | cancel _ => "cancel"
  | decline .. => "decline"

def event : Command → Event
  | cancel _ => .cancel
  | decline _ reason => .decline reason

end Command

structure QueuedCommand where
  command : Command
  attempts : Int := 0
  deriving DecidableEq, Inhabited, Repr

structure CommandQueue where
  waiting : List QueuedCommand := []
  pending : Table Nat := {}
  woken : Bool := false
  closed : Bool := false
  deriving Inhabited, Repr

namespace CommandQueue

def push (q : CommandQueue) (c : QueuedCommand) : CommandQueue :=
  let id := c.command.target
  { q with
    waiting := q.waiting ++ [c]
    pending := q.pending.insert id ((q.pending.get? id).getD 0 + 1) }

def enqueue (q : CommandQueue) (c : Command) : CommandQueue := q.push ⟨c, 0⟩

def requeue (q : CommandQueue) (c : QueuedCommand) : CommandQueue :=
  q.push { c with attempts := c.attempts + 1 }

def settle (pending : Table Nat) (id : String) : Table Nat :=
  match pending.get? id with
  | none => pending
  | some count => if count ≤ 1 then pending.erase id else pending.insert id (count - 1)

def dequeue (q : CommandQueue) (limit : Nat) : List QueuedCommand × CommandQueue :=
  let batch := q.waiting.take limit
  (batch, { q with
    waiting := q.waiting.drop limit
    pending := batch.foldl (fun pending c => settle pending c.command.target) q.pending })

def hasPending (q : CommandQueue) (id : String) : Bool := q.pending.contains id

def size (q : CommandQueue) : Nat := q.waiting.length

def wake (q : CommandQueue) : CommandQueue := { q with woken := true }

def close (q : CommandQueue) : CommandQueue := { q with closed := true }

def waited (q : CommandQueue) : Bool × CommandQueue := (!q.closed, { q with woken := false })

theorem waiting_push (q : CommandQueue) (c : QueuedCommand) :
    (q.push c).waiting = q.waiting ++ [c] := rfl

theorem dequeue_append_waiting (q : CommandQueue) (limit : Nat) :
    (q.dequeue limit).1 ++ (q.dequeue limit).2.waiting = q.waiting :=
  List.take_append_drop limit q.waiting

end CommandQueue

end ContractNegotiation
