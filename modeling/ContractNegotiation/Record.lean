import ContractNegotiation.State
import ContractNegotiation.Value

namespace ContractNegotiation

abbrev Properties := List (String × Value)

structure Policy where
  assigner : String := ""
  assignee : String := ""
  target : String := ""
  inheritsFrom : String := ""
  permissions : List Properties := []
  prohibitions : List Properties := []
  obligations : List Properties := []
  extensibleProperties : Option Properties := none
  deriving DecidableEq, Inhabited

structure Offer where
  id : String := ""
  policy : Option Policy := none
  assetId : String := ""
  contractStart : Int := 0
  contractEnd : Int := 0
  deriving DecidableEq, Inhabited

structure Agreement where
  id : String := ""
  providerAgentId : String := ""
  consumerAgentId : String := ""
  assetId : String := ""
  policy : Option Policy := none
  signingDate : Int := 0
  startDate : Int := 0
  endDate : Int := 0
  deriving DecidableEq, Inhabited

/-- One side's record of a negotiation. `role` is missing while the record is untyped, the state is
kept as its code, and `stateCount` numbers the stored versions modulo `2 ^ 64`. -/
structure Negotiation where
  id : String := ""
  correlationId : String := ""
  role : Option Role := none
  counterPartyId : String := ""
  counterPartyAddress : String := ""
  protocol : String := ""
  stateCode : Int := 0
  stateCount : UInt64 := 0
  stateTimestamp : Int := 0
  offers : List Offer := []
  agreement : Option Agreement := none
  errorDetail : String := ""
  createdAt : Int := 0
  deriving DecidableEq, Inhabited

namespace Negotiation

def state (n : Negotiation) : State := State.ofCode n.stateCode

def lastOffer? (n : Negotiation) : Option Offer := n.offers.getLast?

def addOffer (n : Negotiation) (offer : Offer) : Negotiation :=
  { n with offers := n.offers ++ [offer] }

def correlate (n : Negotiation) (peer : String) : Negotiation :=
  if n.correlationId = "" then { n with correlationId := peer } else n

end Negotiation

end ContractNegotiation
