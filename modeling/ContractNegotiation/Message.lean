import ContractNegotiation.Record

namespace ContractNegotiation

structure Routing where
  protocol : String := ""
  counterPartyAddress : String := ""
  processId : String := ""
  deriving DecidableEq, Inhabited

structure RequestMessage extends Routing where
  connectorId : String := ""
  callbackAddress : String := ""
  offer : Option Offer := none
  deriving DecidableEq, Inhabited

structure OfferMessage extends Routing where
  offer : Option Offer := none
  deriving DecidableEq, Inhabited

structure AgreementMessage extends Routing where
  agreement : Option Agreement := none
  policy : Option Policy := none
  deriving DecidableEq, Inhabited

structure VerificationMessage extends Routing where
  deriving DecidableEq, Inhabited

inductive EventType where
  | unspecified
  | accepted
  | finalized
  deriving DecidableEq, Inhabited, Repr

namespace EventType

def all : List EventType := [unspecified, accepted, finalized]

def name : EventType → String
  | unspecified => "TYPE_UNSPECIFIED"
  | accepted => "TYPE_ACCEPTED"
  | finalized => "TYPE_FINALIZED"

def number : EventType → Nat
  | unspecified => 0
  | accepted => 1
  | finalized => 2

end EventType

structure EventMessage extends Routing where
  type : EventType := .unspecified
  deriving DecidableEq, Inhabited

structure TerminationMessage extends Routing where
  reason : String := ""
  deriving DecidableEq, Inhabited

inductive RemoteMessage where
  | empty
  | request (m : RequestMessage)
  | offer (m : OfferMessage)
  | agreement (m : AgreementMessage)
  | verification (m : VerificationMessage)
  | event (m : EventMessage)
  | termination (m : TerminationMessage)
  deriving DecidableEq, Inhabited

namespace RemoteMessage

def kind : RemoteMessage → String
  | empty => "empty"
  | request _ => "request"
  | offer _ => "offer"
  | agreement _ => "agreement"
  | verification _ => "verification"
  | event _ => "event"
  | termination _ => "termination"

def routing : RemoteMessage → Routing
  | empty => {}
  | request m => m.toRouting
  | offer m => m.toRouting
  | agreement m => m.toRouting
  | verification m => m.toRouting
  | event m => m.toRouting
  | termination m => m.toRouting

def destination (m : RemoteMessage) : String := m.routing.counterPartyAddress

def processId (m : RemoteMessage) : String := m.routing.processId

end RemoteMessage

structure ContractRequest where
  counterPartyId : String := ""
  counterPartyAddress : String := ""
  protocol : String := ""
  offer : Option Offer := none
  deriving DecidableEq, Inhabited

structure ClaimToken where
  claims : List (String × String) := []
  deriving DecidableEq, Inhabited

def ClaimToken.clientId (t : ClaimToken) : String := (t.claims.lookup "client_id").getD ""

end ContractNegotiation
