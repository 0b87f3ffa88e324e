import ContractNegotiation.Environment

namespace ContractNegotiation

structure Options where
  participantId : String := ""
  callbackAddress : String := ""
  protocol : String := "dataspace-protocol-http"
  batchSize : Nat := 5
  commandBatchSize : Nat := 5
  commandMaxAttempts : Int := 3
  workers : Nat := 1
  pollInterval : Int := 1000
  maxRetries : Int := 7
  retryBaseDelay : Int := 1000
  retryMaxDelay : Int := 60000
  deriving DecidableEq, Inhabited, Repr

def Options.backoff (o : Options) : Backoff := ⟨o.maxRetries, o.retryBaseDelay, o.retryMaxDelay⟩

structure Manager where
  role : Role
  leaseHolder : String
  options : Options
  deriving DecidableEq, Inhabited, Repr

namespace Manager

def create (role : Role) (options : Options) (id : String) : Manager where
  role := role
  leaseHolder :=
    role.name ++ "-" ++ options.participantId ++ "-" ++ String.ofList (id.toList.take 8)
  options := options

variable {σ : Type} (m : Manager) (env : Environment σ)

def modify (f : Workload → Workload) : Action σ Unit := env.update m.role f

def wake : Action σ Unit := m.modify env (·.mapQueue .wake)

/-- Saves the next version of a record. Attempts belong to the version in which they were made. -/
def persist (previous next : Negotiation) (holder : String) :
    Action σ (Except StoreError Negotiation) := do
  match ← env.save next holder with
  | .error error => pure (.error error)
  | .ok saved => do
    m.modify env (·.clearRetries saved.id)
    env.report (.transitioned m.role saved.id previous.state saved.state saved.stateCount)
    pure (.ok saved)

def enqueue (c : Command) : Action σ Unit := do
  env.report (.commandEnqueued m.role c)
  m.modify env (·.mapQueue (·.enqueue c))

def hasPending (id : String) : Action σ Bool := do
  let w ← env.workload m.role
  pure (w.queue.hasPending id)

def own (n : Option Negotiation) : Option Negotiation := n.filter (·.role = some m.role)

def findOwned (id : String) : Action σ (Option Negotiation) := do
  let found ← env.find id
  pure (m.own found)

def findCorrelated (correlationId : String) : Action σ (Option Negotiation) := do
  let found ← env.findByCorrelation correlationId
  pure (m.own found)

def insert (n : Negotiation) : Action σ (Except Refusal Negotiation) := do
  let now ← env.now
  let first := { n with
    role := some m.role
    stateCount := 0
    stateTimestamp := now.toMillis
    createdAt := now.toMillis }
  match ← env.save first "" with
  | .error error => pure (.error (.store error))
  | .ok saved => do
    env.report (.created m.role saved.id saved.counterPartyId saved.state)
    m.wake env
    pure (.ok saved)

def apply (current : Negotiation) (event : Event) : Action σ (Except Refusal Negotiation) := do
  match ← env.transition current event with
  | .rejected => pure (.error (.rejected current event))
  | .unchanged => pure (.ok current)
  | .applied next _ => do
    match ← m.persist env current next "" with
    | .error error => pure (.error (.store error))
    | .ok saved => do
      m.wake env
      pure (.ok saved)

def applyCorrelated (correlationId : String) (event : Event) :
    Action σ (Except Refusal Negotiation) := do
  match ← m.findCorrelated env correlationId with
  | none => pure (.error (.uncorrelatedWith m.role correlationId))
  | some current => m.apply env current event

def protocolOr (given : String) : String := if given = "" then m.options.protocol else given

def identified (offer : Offer) : Action σ Offer := do
  if offer.id = "" then
    let id ← env.freshId
    pure { offer with id }
  else pure offer

def initiate (request : ContractRequest) : Action σ (Except Refusal Negotiation) := do
  match request.offer with
  | none => pure (.error .requestWithoutOffer)
  | some offer =>
    if request.counterPartyAddress = "" then pure (.error .requestWithoutAddress)
    else do
      let id ← env.freshId
      let offer ← identified env offer
      m.insert env {
        id
        counterPartyId := request.counterPartyId
        counterPartyAddress := request.counterPartyAddress
        protocol := m.protocolOr request.protocol
        stateCode := State.requesting.code
        offers := [offer] }

def offered (correlationId : String) (offer : Offer) : Action σ (Except Refusal Negotiation) :=
  m.applyCorrelated env correlationId (.offerReceived offer)

def agreed (correlationId : String) (agreement : Agreement) (policy : Policy) :
    Action σ (Except Refusal Negotiation) :=
  if agreement.id = "" then pure (.error .agreementWithoutId)
  else m.applyCorrelated env correlationId (.agreementReceived agreement policy)

def finalized (correlationId : String) : Action σ (Except Refusal Negotiation) :=
  m.applyCorrelated env correlationId .finalizationReceived

def repeatsLastOffer (n : Negotiation) (offer : Offer) : Bool :=
  match n.lastOffer? with
  | none => false
  | some last => offer.id ≠ "" && last.id = offer.id

def requested (token : ClaimToken) (message : RequestMessage) :
    Action σ (Except Refusal Negotiation) := do
  if message.processId = "" then pure (.error .requestWithoutProcessId)
  else
    match message.offer with
    | none => pure (.error .requestWithoutOffer)
    | some offer =>
      match ← m.findCorrelated env message.processId with
      | some existing =>
        if existing.state = .consumerRequested ∧ repeatsLastOffer existing offer then
          pure (.ok existing)
        else m.apply env existing (.requestReceived offer)
      | none => do
        let consumer := if token.clientId ≠ "" then token.clientId else message.connectorId
        if consumer = "" then pure (.error .requestWithoutConsumer)
        else if message.callbackAddress = "" then pure (.error .requestWithoutCallback)
        else do
          let id ← env.freshId
          m.insert env {
            id
            correlationId := message.processId
            counterPartyId := consumer
            counterPartyAddress := message.callbackAddress
            protocol := m.protocolOr message.protocol
            stateCode := State.consumerRequested.code
            offers := [offer] }

def counterOffer (id : String) (offer : Offer) : Action σ (Except Refusal Negotiation) := do
  match ← m.findOwned env id with
  | none => pure (.error (.unknownProviderId id))
  | some current => do
    let offer ← identified env offer
    m.apply env current (.counterOffer offer)

def verified (correlationId : String) : Action σ (Except Refusal Negotiation) :=
  m.applyCorrelated env correlationId .verificationReceived

def terminated (correlationId reason : String) : Action σ (Except Refusal Negotiation) :=
  m.applyCorrelated env correlationId (.terminationReceived reason)

end Manager

end ContractNegotiation
