import ContractNegotiation.Store
import ContractNegotiation.Transition

namespace ContractNegotiation

inductive Reason where
  | notFound
  | conflict
  | badRequest
  | fatal
  | transient
  deriving DecidableEq, Inhabited, Repr

namespace Reason

def all : List Reason := [notFound, conflict, badRequest, fatal, transient]

def name : Reason → String
  | notFound => "NOT_FOUND"
  | conflict => "CONFLICT"
  | badRequest => "BAD_REQUEST"
  | fatal => "FATAL"
  | transient => "TRANSIENT"

end Reason

inductive Refusal where
  | requestWithoutOffer
  | requestWithoutAddress
  | requestWithoutProcessId
  | requestWithoutConsumer
  | requestWithoutCallback
  | agreementWithoutId
  | unknownId (id : String)
  | unknownProviderId (id : String)
  | uncorrelated (processId : String)
  | uncorrelatedWith (role : Role) (correlationId : String)
  | rejected (record : Negotiation) (event : Event)
  | notCancellableRole
  | notCancellableState (id : String) (state : State)
  | untyped (id : String)
  | flawedFilter (flaw : Query.Criterion.Flaw)
  | store (error : StoreError)

namespace Refusal

def ofStoreCode : StoreCode → Reason
  | .notFound => .notFound
  | .alreadyExists => .conflict
  | .conflict => .conflict
  | .leaseConflict => .conflict
  | .invalidArgument => .badRequest
  | .internalError => .transient

def reason : Refusal → Reason
  | requestWithoutOffer | requestWithoutAddress | requestWithoutProcessId | requestWithoutConsumer
  | requestWithoutCallback | agreementWithoutId | flawedFilter _ => .badRequest
  | unknownId _ | unknownProviderId _ | uncorrelated _ | uncorrelatedWith .. => .notFound
  | rejected .. | notCancellableRole | notCancellableState .. => .conflict
  | untyped _ => .fatal
  | store error => ofStoreCode error.code

def message : Refusal → String
  | requestWithoutOffer => "contract request carries no offer"
  | requestWithoutAddress => "contract request carries no counter-party address"
  | requestWithoutProcessId => "contract request carries no process id"
  | requestWithoutConsumer => "contract request does not identify the consumer"
  | requestWithoutCallback => "contract request carries no callback address"
  | agreementWithoutId => "contract agreement carries no id"
  | unknownId id => "negotiation " ++ id ++ " not found"
  | unknownProviderId id => "no provider negotiation " ++ id
  | uncorrelated processId => "no negotiation correlated with " ++ processId
  | uncorrelatedWith role correlationId =>
    "no " ++ role.name ++ " negotiation correlated with " ++ correlationId
  | rejected record event => record.rejection event
  | notCancellableRole => "only consumer negotiations can be cancelled"
  | notCancellableState id state =>
    "negotiation " ++ id ++ " cannot be cancelled in state " ++ state.name
  | untyped id => "negotiation " ++ id ++ " has no type"
  | flawedFilter flaw => flaw.message
  | store error => error.message

end Refusal

end ContractNegotiation
