import ContractNegotiation.Instant
import ContractNegotiation.Message

namespace ContractNegotiation

inductive Event where
  | process (participantId callbackAddress : String)
  | requestReceived (offer : Offer)
  | offerReceived (offer : Offer)
  | counterOffer (offer : Offer)
  | agreementReceived (agreement : Agreement) (policy : Policy)
  | verificationReceived
  | finalizationReceived
  | terminationReceived (reason : String)
  | cancel
  | decline (reason : String)
  | fail (cause : String)
  deriving DecidableEq, Inhabited

def Event.name : Event → String
  | process .. => "process"
  | requestReceived _ => "request-received"
  | offerReceived _ => "offer-received"
  | counterOffer _ => "counter-offer"
  | agreementReceived .. => "agreement-received"
  | verificationReceived => "verification-received"
  | finalizationReceived => "finalization-received"
  | terminationReceived _ => "termination-received"
  | cancel => "cancel"
  | decline _ => "decline"
  | fail _ => "fail"

inductive Outcome where
  | applied (next : Negotiation) (message : Option RemoteMessage)
  | unchanged
  | rejected
  deriving DecidableEq, Inhabited

def Outcome.next (n : Negotiation) : Outcome → Negotiation
  | applied next _ => next
  | _ => n

namespace Negotiation

def enter (n : Negotiation) (s : State) (now : Instant) : Negotiation :=
  { n with stateCode := s.code, stateTimestamp := now.toMillis }

def routing (n : Negotiation) : Routing :=
  ⟨n.protocol, n.counterPartyAddress, n.id⟩

def requestMessage (n : Negotiation) (participantId callbackAddress : String) : RemoteMessage :=
  .request ⟨n.routing, participantId, callbackAddress, n.lastOffer?⟩

def draftAgreement (n : Negotiation) (participantId : String) (now : Instant) (id : String) :
    Agreement :=
  match n.lastOffer? with
  | none => ⟨id, participantId, n.counterPartyId, "", none, now.toSeconds, 0, 0⟩
  | some offer =>
    ⟨id, participantId, n.counterPartyId, offer.assetId, some (offer.policy.getD {}), now.toSeconds,
      offer.contractStart, offer.contractEnd⟩

def agreementMessage (n : Negotiation) (agreement : Agreement) : RemoteMessage :=
  .agreement ⟨n.routing, some agreement, some (agreement.policy.getD {})⟩

def advanceConsumer (n : Negotiation) (participantId callbackAddress : String) (now : Instant) :
    Outcome :=
  match n.state with
  | .requesting =>
    .applied (n.enter .requested now) (n.requestMessage participantId callbackAddress)
  | .offered => .applied (n.enter .accepting now) none
  | .accepting =>
    .applied (n.enter .accepted now) (n.requestMessage participantId callbackAddress)
  | .agreed => .applied (n.enter .verifying now) none
  | .verifying => .applied (n.enter .verified now) (some (.verification ⟨n.routing⟩))
  | _ => .rejected

def advanceProvider (n : Negotiation) (participantId : String) (now : Instant)
    (agreementId : String) : Outcome :=
  let draft := n.draftAgreement participantId now agreementId
  match n.state with
  | .consumerRequested => .applied { n.enter .agreeing now with agreement := draft } none
  | .offering => .applied (n.enter .offered now) (some (.offer ⟨n.routing, n.lastOffer?⟩))
  | .agreeing =>
    let agreement := n.agreement.getD draft
    .applied { n.enter .agreed now with agreement } (n.agreementMessage agreement)
  | .verified => .applied (n.enter .finalizing now) none
  | .finalizing => .applied (n.enter .finalized now) (some (.event ⟨n.routing, .finalized⟩))
  | _ => .rejected

def advance (n : Negotiation) (participantId callbackAddress : String) (now : Instant)
    (agreementId : String) : Outcome :=
  if n.state = .terminating then
    .applied (n.enter .terminated now) (some (.termination ⟨n.routing, n.errorDetail⟩))
  else
    match n.role with
    | some .consumer => n.advanceConsumer participantId callbackAddress now
    | some .provider => n.advanceProvider participantId now agreementId
    | none => .rejected

def needsDraft (n : Negotiation) : Bool :=
  n.role = some .provider &&
    (n.state = .consumerRequested || (n.state = .agreeing && n.agreement.isNone))

def transition (n : Negotiation) (event : Event) (now : Instant) (agreementId : String) : Outcome :=
  match event with
  | .process participantId callbackAddress =>
    n.advance participantId callbackAddress now agreementId
  | .requestReceived offer =>
    if n.role = some .provider ∧ n.state = .offered then
      .applied ((n.enter .consumerRequested now).addOffer offer) none
    else .rejected
  | .offerReceived offer =>
    if n.role = some .consumer ∧ n.state ∈ [.requested, .accepted] then
      .applied ((n.enter .offered now).addOffer offer) none
    else .rejected
  | .counterOffer offer =>
    if n.role = some .provider ∧ n.state = .consumerRequested then
      .applied ((n.enter .offering now).addOffer offer) none
    else .rejected
  | .agreementReceived agreement policy =>
    if n.role = some .consumer ∧ n.state ∈ [.requesting, .requested, .accepting, .accepted] then
      .applied { n.enter .agreed now with
        agreement := some { agreement with policy := some (agreement.policy.getD policy) } } none
    else .rejected
  | .verificationReceived =>
    if n.role = some .provider ∧ n.state = .agreed then .applied (n.enter .verified now) none
    else .rejected
  | .finalizationReceived =>
    if n.role = some .consumer ∧ n.state ∈ [.verifying, .verified] then
      .applied (n.enter .finalized now) none
    else .rejected
  | .terminationReceived reason =>
    if n.state = .terminated then .unchanged
    else if n.state.isTerminal then .rejected
    else .applied { n.enter .terminated now with errorDetail := reason } none
  | .cancel =>
    if n.role = some .consumer ∧ n.state.isBeforeAgreed then .applied (n.enter .cancelled now) none
    else .rejected
  | .decline reason =>
    if n.state.isTerminal then .rejected
    else .applied { n.enter .terminating now with errorDetail := reason } none
  | .fail cause =>
    if n.state.isTerminal then .rejected
    else .applied { n.enter .error now with errorDetail := cause } none

def drawsId (n : Negotiation) : Event → Bool
  | .process .. => n.needsDraft
  | _ => false

def roleName (n : Negotiation) : String :=
  match n.role with
  | some role => role.name
  | none => "untyped"

def rejection (n : Negotiation) (event : Event) : String :=
  "cannot apply " ++ event.name ++ " to " ++ n.roleName ++ " negotiation " ++ n.id ++
    " in state " ++ n.state.name

end Negotiation

end ContractNegotiation
