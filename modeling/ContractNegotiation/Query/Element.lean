import ContractNegotiation.Message
import ContractNegotiation.Query.Schema
import ContractNegotiation.Settings

namespace ContractNegotiation.Query

inductive Element where
  | scalar (texts : List String)
  | properties (entries : Properties)
  | message (fields : List (String × List Element))
  deriving Inhabited

namespace Element

def values : List String → Element → List String
  | [], scalar texts => texts
  | path, properties entries => Value.texts (.fields entries) path
  | name :: path, message fields => ((fields.lookup name).getD []).flatMap (values path)
  | _, _ => []

def text (s : String) : List Element := [scalar [s]]

def int (n : Int) : List Element := [scalar [toString n]]

def nat (n : Nat) : List Element := [scalar [toString n]]

def flag (b : Bool) : List Element := [scalar [if b then "true" else "false"]]

def named (name : String) (number : Nat) : List Element := [scalar [name, toString number]]

def repeated {α : Type} (view : α → Element) (xs : List α) : List Element := xs.map view

def present {α : Type} (view : α → Element) (x : Option α) : List Element := x.toList.map view

def ofPolicy (p : Policy) : Element := .message [
  ("assigner", text p.assigner),
  ("assignee", text p.assignee),
  ("target", text p.target),
  ("inheritsFrom", text p.inheritsFrom),
  ("permissions", repeated properties p.permissions),
  ("prohibitions", repeated properties p.prohibitions),
  ("obligations", repeated properties p.obligations),
  ("extensibleProperties", present properties p.extensibleProperties)]

def ofOffer (o : Offer) : Element := .message [
  ("id", text o.id),
  ("policy", present ofPolicy o.policy),
  ("assetId", text o.assetId),
  ("contractStart", int o.contractStart),
  ("contractEnd", int o.contractEnd)]

def ofAgreement (a : Agreement) : Element := .message [
  ("id", text a.id),
  ("providerAgentId", text a.providerAgentId),
  ("consumerAgentId", text a.consumerAgentId),
  ("assetId", text a.assetId),
  ("policy", present ofPolicy a.policy),
  ("contractSigningDate", int a.signingDate),
  ("contractStartDate", int a.startDate),
  ("contractEndDate", int a.endDate)]

def ofRole : Option Role → List Element
  | none => named "NEGOTIATION_TYPE_UNSPECIFIED" 0
  | some .consumer => named "NEGOTIATION_TYPE_CONSUMER" 1
  | some .provider => named "NEGOTIATION_TYPE_PROVIDER" 2

def ofNegotiation (n : Negotiation) : Element := .message [
  ("id", text n.id),
  ("correlationId", text n.correlationId),
  ("type", ofRole n.role),
  ("counterPartyId", text n.counterPartyId),
  ("counterPartyAddress", text n.counterPartyAddress),
  ("protocol", text n.protocol),
  ("state", int n.stateCode),
  ("stateCount", nat n.stateCount.toNat),
  ("stateTimestamp", int n.stateTimestamp),
  ("contractOffers", repeated ofOffer n.offers),
  ("contractAgreement", present ofAgreement n.agreement),
  ("errorDetail", text n.errorDetail),
  ("createdAt", int n.createdAt)]

def ofContractRequest (r : ContractRequest) : Element := .message [
  ("counterPartyId", text r.counterPartyId),
  ("counterPartyAddress", text r.counterPartyAddress),
  ("protocol", text r.protocol),
  ("contractOffer", present ofOffer r.offer)]

def routed (r : Routing) (others : List (String × List Element)) : Element := .message <|
  [("protocol", text r.protocol),
    ("counterPartyAddress", text r.counterPartyAddress),
    ("processId", text r.processId)] ++ others

def ofRequestMessage (m : RequestMessage) : Element := routed m.toRouting [
  ("connectorId", text m.connectorId),
  ("callbackAddress", text m.callbackAddress),
  ("contractOffer", present ofOffer m.offer)]

def ofOfferMessage (m : OfferMessage) : Element := routed m.toRouting [
  ("contractOffer", present ofOffer m.offer)]

def ofAgreementMessage (m : AgreementMessage) : Element := routed m.toRouting [
  ("contractAgreement", present ofAgreement m.agreement),
  ("policy", present ofPolicy m.policy)]

def ofVerificationMessage (m : VerificationMessage) : Element := routed m.toRouting []

def ofEventMessage (m : EventMessage) : Element := routed m.toRouting [
  ("type", named m.type.name m.type.number)]

def ofTerminationMessage (m : TerminationMessage) : Element := routed m.toRouting [
  ("reason", text m.reason)]

def ofRemoteMessage : RemoteMessage → Element
  | .empty => .message []
  | .request m => .message [("request", [ofRequestMessage m])]
  | .offer m => .message [("offer", [ofOfferMessage m])]
  | .agreement m => .message [("agreement", [ofAgreementMessage m])]
  | .verification m => .message [("verification", [ofVerificationMessage m])]
  | .event m => .message [("event", [ofEventMessage m])]
  | .termination m => .message [("termination", [ofTerminationMessage m])]

def ofLogging (s : LoggingSettings) : Element := .message [
  ("level", text s.level),
  ("pattern", text s.pattern),
  ("includeTraceContext", flag s.includeTraceContext)]

def ofTracing (s : TracingSettings) : Element := .message [
  ("processor", named s.processor.name s.processor.number)]

def ofMetrics (s : MetricsSettings) : Element := .message [
  ("collectionIntervalMs", nat s.collectionIntervalMs.toNat),
  ("exportTimeoutMs", nat s.exportTimeoutMs.toNat),
  ("requestMetricsEnabled", flag s.requestMetricsEnabled),
  ("transitionMetricsEnabled", flag s.transitionMetricsEnabled),
  ("dispatchMetricsEnabled", flag s.dispatchMetricsEnabled)]

def ofObservability (s : ObservabilitySettings) : Element := .message [
  ("tracingEnabled", flag s.tracingEnabled),
  ("metricsEnabled", flag s.metricsEnabled),
  ("otlpEndpoint", text s.otlpEndpoint),
  ("transport", named s.transport.name s.transport.number),
  ("tracing", present ofTracing s.tracing),
  ("metrics", present ofMetrics s.metrics)]

def ofManager (s : ManagerSettings) : Element := .message [
  ("batchSize", nat s.batchSize.toNat),
  ("commandBatchSize", nat s.commandBatchSize.toNat),
  ("commandMaxAttempts", nat s.commandMaxAttempts.toNat),
  ("workers", nat s.workers.toNat),
  ("pollIntervalMs", nat s.pollIntervalMs.toNat),
  ("leaseDurationMs", nat s.leaseDurationMs.toNat),
  ("maxRetries", nat s.maxRetries.toNat),
  ("retryBaseDelayMs", nat s.retryBaseDelayMs.toNat),
  ("retryMaxDelayMs", nat s.retryMaxDelayMs.toNat)]

def ofConnector (s : ConnectorSettings) : Element := .message [
  ("participantId", text s.participantId),
  ("address", text s.address),
  ("protocol", text s.protocol)]

def ofMemory (_ : MemorySettings) : Element := .message []

def ofDatabase (s : DatabaseSettings) : Element := .message [
  ("memory", present ofMemory s.memory)]

def ofSettings (s : Settings) : Element := .message [
  ("logging", present ofLogging s.logging),
  ("observability", present ofObservability s.observability),
  ("manager", present ofManager s.manager),
  ("connector", present ofConnector s.connector),
  ("database", present ofDatabase s.database)]

end Element

end ContractNegotiation.Query
