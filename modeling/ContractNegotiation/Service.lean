import ContractNegotiation.Manager

namespace ContractNegotiation

structure Connector where
  participantId : String
  address : String
  consumer : Manager
  provider : Manager
  deriving Inhabited

def Connector.manager (c : Connector) : Role → Manager
  | .consumer => c.consumer
  | .provider => c.provider

namespace Service

variable {σ α : Type} (c : Connector) (env : Environment σ)

def call (route : Route) (id : String) (block : Action σ α) : Action σ α := do
  match ← Action.attempt (env.transactions.run block) with
  | .ok a => pure a
  | .error fault => do
    env.report (.requestFailed route id fault)
    throw fault

def get (id : String) : Action σ (Option Negotiation) := call env .findById id (env.find id)

def flaw? (q : Query.Spec) : Option Query.Criterion.Flaw := q.filter.findSome? Query.Criterion.flaw?

def query (q : Query.Spec) : Action σ (Except Refusal (List Negotiation)) :=
  call env .query "" <|
    match flaw? q with
    | some flaw => pure (.error (.flawedFilter flaw))
    | none => do
      let found ← env.select q
      pure (.ok found)

def state (id : String) : Action σ (Option State) :=
  call env .getState id do
    let found ← env.find id
    pure (found.map Negotiation.state)

def agreementOf (id : String) : Action σ (Option Agreement) :=
  call env .getForNegotiation id do
    let found ← env.find id
    pure (found.bind Negotiation.agreement)

def findAgreement (agreementId : String) : Action σ (Option Agreement) :=
  call env .findAgreement "" (env.findAgreement agreementId)

def initiate (request : ContractRequest) : Action σ (Except Refusal Negotiation) :=
  call env .initiate "" (c.consumer.initiate env request)

def cancelRefusal? (n : Negotiation) : Option Refusal :=
  if n.role ≠ some .consumer then some .notCancellableRole
  else if !n.state.isBeforeAgreed then some (.notCancellableState n.id n.state)
  else none

def cancel (id : String) : Action σ (Except Refusal Negotiation) :=
  call env .cancel id do
    match ← env.find id with
    | none => pure (.error (.unknownId id))
    | some n =>
      match cancelRefusal? n with
      | some refusal => pure (.error refusal)
      | none => do
        c.consumer.enqueue env (.cancel id)
        pure (.ok n)

def decline (id reason : String) : Action σ (Except Refusal Negotiation) :=
  call env .decline id do
    match ← env.find id with
    | none => pure (.error (.unknownId id))
    | some n => do
      (c.manager (n.role.getD .consumer)).enqueue env (.decline id reason)
      pure (.ok n)

def counterOffer (id : String) (offer : Offer) : Action σ (Except Refusal Negotiation) :=
  call env .counterOffer id (c.provider.counterOffer env id offer)

def requested (m : RequestMessage) (token : ClaimToken) : Action σ (Except Refusal Negotiation) :=
  call env .notifyRequested m.processId (c.provider.requested env token m)

def offered (m : OfferMessage) : Action σ (Except Refusal Negotiation) :=
  call env .notifyOffered m.processId (c.consumer.offered env m.processId (m.offer.getD {}))

def agreed (m : AgreementMessage) : Action σ (Except Refusal Negotiation) :=
  call env .notifyAgreed m.processId
    (c.consumer.agreed env m.processId (m.agreement.getD {}) (m.policy.getD {}))

def verified (m : VerificationMessage) : Action σ (Except Refusal Negotiation) :=
  call env .notifyVerified m.processId (c.provider.verified env m.processId)

def finalized (m : EventMessage) : Action σ (Except Refusal Negotiation) :=
  call env .notifyFinalized m.processId (c.consumer.finalized env m.processId)

def terminated (m : TerminationMessage) : Action σ (Except Refusal Negotiation) :=
  call env .notifyTerminated m.processId do
    match ← env.findByCorrelation m.processId with
    | none => pure (.error (.uncorrelated m.processId))
    | some n =>
      match n.role with
      | some role => (c.manager role).terminated env m.processId m.reason
      | none => pure (.error (.untyped n.id))

def receive (m : RemoteMessage) (token : ClaimToken) :
    Action σ (Option (Except Refusal Negotiation)) :=
  match m with
  | .empty => pure none
  | .request m => some <$> requested c env m token
  | .offer m => some <$> offered c env m
  | .agreement m => some <$> agreed c env m
  | .verification m => some <$> verified c env m
  | .event m => if m.type = .finalized then some <$> finalized c env m else pure none
  | .termination m => some <$> terminated c env m

end Service

end ContractNegotiation
