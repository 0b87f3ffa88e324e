import ContractNegotiation.Simulation.Run

namespace ContractNegotiation.Simulation

structure WalkStep where
  event : Event
  now : Instant
  restart : Option Negotiation := none

def walk (drawn : Nat) (current : Negotiation) :
    List WalkStep → List (Negotiation × Event × Outcome)
  | [] => []
  | step :: steps =>
    let n := step.restart.getD current
    let outcome := n.transition step.event step.now (ids drawn)
    let drawn := if n.drawsId step.event then drawn + 1 else drawn
    (n, step.event, outcome) :: walk drawn (outcome.next n) steps

inductive StoreSessionStep where
  | setNow (now : Instant)
  | advance (ms : Int)
  | call (step : StoreStep)

def storeSession (s : Store) (now : Instant) : List StoreSessionStep → List (Reply × Nat)
  | [] => []
  | .setNow now :: steps => (.done, s.records.length) :: storeSession s now steps
  | .advance ms :: steps => (.done, s.records.length) :: storeSession s (now.later ms) steps
  | .call step :: steps =>
    let (reply, s) := step.perform s now
    (reply, s.records.length) :: storeSession s now steps

inductive QueueStep where
  | enqueue (command : Command)
  | requeue (command : QueuedCommand)
  | wake
  | close
  | dequeue (limit : Nat)
  | hasPending (id : String)
  | wait

inductive QueueReply where
  | done
  | flag (b : Bool)
  | batch (commands : List QueuedCommand)

def QueueStep.perform (step : QueueStep) (q : CommandQueue) : QueueReply × CommandQueue :=
  match step with
  | enqueue c => (.done, q.enqueue c)
  | requeue c => (.done, q.requeue c)
  | wake => (.done, q.wake)
  | close => (.done, q.close)
  | dequeue limit =>
    let (batch, q) := q.dequeue limit
    (.batch batch, q)
  | hasPending id => (.flag (q.hasPending id), q)
  | wait =>
    let (isOpen, q) := q.waited
    (.flag isOpen, q)

def queueSession (q : CommandQueue) : List QueueStep → List (QueueReply × Nat)
  | [] => []
  | step :: steps =>
    let (reply, q) := step.perform q
    (reply, q.size) :: queueSession q steps

inductive RetryStep where
  | isDue (id : String) (now : Instant)
  | fail (id : String) (now : Instant)
  | attempts (id : String)
  | delay (attempt : Int)
  | clear (id : String)

inductive RetryReply where
  | done
  | flag (b : Bool)
  | number (n : Int)

def RetryStep.perform (b : Backoff) (step : RetryStep) (r : RetryLog) : RetryReply × RetryLog :=
  match step with
  | isDue id now => (.flag (r.isDue id now), r)
  | fail id now =>
    let (exhausted, r) := r.recordFailure b id now
    (.flag exhausted, r)
  | attempts id => (.number (r.attempts id), r)
  | delay attempt => (.number (b.delay attempt), r)
  | clear id => (.done, r.clear id)

def retrySession (b : Backoff) (r : RetryLog) : List RetryStep → List RetryReply
  | [] => []
  | step :: steps =>
    let (reply, r) := step.perform b r
    reply :: retrySession b r steps

inductive BlockItem where
  | work (text : String)
  | raise (fault : Fault)
  | nested (items : List BlockItem)
  deriving Inhabited

structure BlockLog where
  events : List String := []
  commitFault : Option Fault := none
  deriving Inhabited

namespace BlockLog

def note (event : String) : Action BlockLog Unit :=
  modify fun l => { l with events := l.events ++ [event] }

def commit : Action BlockLog Unit := do
  let l ← get
  match l.commitFault with
  | some fault => do
    set { l with commitFault := none }
    throw fault
  | none => note Mark.committed.name

def bracketed : Transactions BlockLog :=
  .bracketed (note Mark.begun.name) commit (note Mark.rolledBack.name)

mutual

def performItem (t : Transactions BlockLog) : BlockItem → Action BlockLog Unit
  | .work text => note text
  | .raise fault => throw fault
  | .nested items => do
    t.run (performItems t items)
    note ("value " ++ toString items.length)

def performItems (t : Transactions BlockLog) : List BlockItem → Action BlockLog Unit
  | [] => pure ()
  | item :: items => do
    performItem t item
    performItems t items

end

def performBlock (t : Transactions BlockLog) (items : List BlockItem) : Action BlockLog Nat :=
  t.run do
    performItems t items
    pure items.length

end BlockLog

def assembledService (hasStore hasConsumer hasProvider : Bool) : Except WiringError Connector :=
  let manager (role : Role) : Option Manager := some (.create role {} (ids 0))
  Service.assemble hasStore (if hasConsumer then manager .consumer else none)
    (if hasProvider then manager .provider else none) "" ""

end ContractNegotiation.Simulation
