import ContractNegotiation.Query.Criterion

namespace ContractNegotiation.Query

inductive Root where
  | negotiation
  | offer
  | agreement
  | policy
  | remoteMessage
  | contractRequest
  | settings
  deriving DecidableEq, Inhabited, Repr

namespace Root

def type : Root → MessageType
  | negotiation => .negotiation
  | offer => .offer
  | agreement => .agreement
  | policy => .policy
  | remoteMessage => .remoteMessage
  | contractRequest => .contractRequest
  | settings => .settings

def Message : Root → Type
  | negotiation => Negotiation
  | offer => Offer
  | agreement => Agreement
  | policy => Policy
  | remoteMessage => RemoteMessage
  | contractRequest => ContractRequest
  | settings => Settings

def view : (root : Root) → root.Message → Element
  | negotiation => Element.ofNegotiation
  | offer => Element.ofOffer
  | agreement => Element.ofAgreement
  | policy => Element.ofPolicy
  | remoteMessage => Element.ofRemoteMessage
  | contractRequest => Element.ofContractRequest
  | settings => Element.ofSettings

end Root

end ContractNegotiation.Query
