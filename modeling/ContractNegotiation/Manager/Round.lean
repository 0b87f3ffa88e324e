import ContractNegotiation.Manager

namespace ContractNegotiation.Manager

variable {σ : Type} (m : Manager) (env : Environment σ)

def release (id : String) : Action σ Unit := do
  match ← env.breakLease id m.leaseHolder with
  | .ok () => pure ()
  | .error error => env.report (.leaseNotBroken id error)

/-- One try of a command. A try that loses the race for the store is repeated in a later round while
attempts are left. -/
def applyCommand (c : QueuedCommand) : Action σ Unit := do
  match ← env.find c.command.target with
  | none => env.report (.commandUnknownTarget c.command)
  | some current =>
    if current.role ≠ some m.role then env.report (.commandForeign m.role c.command)
    else do
      match ← env.transition current c.command.event with
      | .rejected =>
        env.report (.commandRejected c.command (current.rejection c.command.event))
      | .unchanged => pure ()
      | .applied next _ => do
        match ← m.persist env current next "" with
        | .ok _ => m.wake env
        | .error error =>
          if error.isLostRace ∧ c.attempts + 1 < m.options.commandMaxAttempts then do
            env.report (.commandRequeued c.command (c.attempts + 1))
            m.modify env (·.mapQueue (·.requeue c))
          else env.report (.commandDropped c.command (c.attempts + 1) error)

def takeCommands : Action σ (List QueuedCommand) := do
  let w ← env.workload m.role
  let (batch, queue) := w.queue.dequeue m.options.commandBatchSize
  env.setWorkload m.role { w with queue }
  pure batch

def drainCommands : Action σ Nat := do
  let batch ← m.takeCommands env
  Action.each (m.applyCommand env) batch
  pure batch.length

def recordFailure (id : String) : Action σ (Bool × Nat) := do
  let now ← env.now
  let w ← env.workload m.role
  let (exhausted, retries) := w.retries.recordFailure m.options.backoff id now
  env.setWorkload m.role { w with retries }
  pure (exhausted, retries.attempts id)

def conclude (n next : Negotiation) : Action σ Unit := do
  match ← m.persist env n next m.leaseHolder with
  | .ok _ => pure ()
  | .error error => env.report (.notPersisted n.id next.state error)

def concludeFailed (n : Negotiation) (cause : String) : Action σ Unit := do
  let outcome ← env.transition n (.fail cause)
  m.conclude env n (outcome.next n)

variable (send : Transport σ)

/-- Sends a message and settles what follows. Whether the lease has already been given back. -/
def deliver (n next : Negotiation) (message : RemoteMessage) : Action σ Bool := do
  match ← send message with
  | .ok peer => do
    m.modify env (·.clearRetries n.id)
    m.conclude env n (next.correlate peer)
    pure false
  | .transient text => do
    let (exhausted, attempts) ← m.recordFailure env n.id
    if exhausted then do
      env.report (.retriesExhausted n.id message.kind text)
      m.concludeFailed env n ("dispatch retries exhausted: " ++ text)
      pure false
    else do
      env.report (.retryScheduled n.id message.kind attempts text)
      m.release env n.id
      pure true
  | .fatal text => do
    m.modify env (·.clearRetries n.id)
    env.report (.dispatchFatal n.id message.kind text)
    m.concludeFailed env n text
    pure false

def turn : Event := .process m.options.participantId m.options.callbackAddress

def advance (n : Negotiation) : Action σ Bool := do
  match ← env.transition n m.turn with
  | .applied next (some message) => m.deliver env send n next message
  | .applied next none => do
    m.conclude env n next
    pure false
  | .rejected => do
    env.report (.notProcessable n.id (n.rejection m.turn))
    m.release env n.id
    pure true
  | .unchanged => do
    env.report (.notProcessable n.id "")
    m.release env n.id
    pure true

def processLeased (n : Negotiation) : Action σ Unit := do
  match ← Action.attempt (m.advance env send n) with
  | .ok true => pure ()
  | .ok false => m.release env n.id
  | .error fault => do
    env.report (.processingFailed n.id fault)
    m.release env n.id

/-- Whether a leased record's turn has come: a waiting command decides first, and so does the time
of the next attempt. A record whose turn has not come is released. -/
def isDue (now : Instant) (n : Negotiation) : Action σ Bool := do
  let w ← env.workload m.role
  if w.queue.hasPending n.id || !w.retries.isDue n.id now then do
    m.release env n.id
    pure false
  else pure true

def deal {α : Type} (hands : Nat) (xs : List α) : List (List α) :=
  (List.range hands).map fun hand =>
    (xs.zipIdx.filter fun x => x.2 % hands = hand).map Prod.fst

def processDue (due : List Negotiation) : Action σ Unit :=
  if m.options.workers ≤ 1 ∨ due.length ≤ 1 then Action.each (m.processLeased env send) due
  else
    Action.eachThenRaise (Action.each (m.processLeased env send))
      (deal (min m.options.workers due.length) due)

def processState (s : State) : Action σ Nat := do
  let leased ← env.lease s m.role m.options.batchSize m.leaseHolder
  if leased.isEmpty then pure 0
  else do
    let now ← env.now
    let due ← Action.select (m.isDue env now) leased
    m.processDue env send due
    pure due.length

def runOnce : Action σ Nat := do
  let commands ← m.drainCommands env
  let records ← Action.total (m.processState env send) (State.processable m.role)
  pure (commands + records)

def start : Action σ Unit := do
  let w ← env.workload m.role
  if w.running then pure ()
  else do
    env.setWorkload m.role { w with running := true }
    env.report (.managerStarted m.role m.leaseHolder)

def stop : Action σ Unit := do
  let w ← env.workload m.role
  if w.running then do
    env.setWorkload m.role { w with running := false, queue := w.queue.close }
    env.report (.managerStopped m.role)
  else pure ()

def runGuarded : Action σ Nat := do
  match ← Action.attempt (m.runOnce env send) with
  | .ok handled => pure handled
  | .error fault => do
    env.report (.roundFailed m.role fault)
    pure 0

end ContractNegotiation.Manager
