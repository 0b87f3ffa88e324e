namespace ContractNegotiation.Query

inductive MessageType where
  | negotiation
  | offer
  | agreement
  | policy
  | contractRequest
  | requestMessage
  | offerMessage
  | agreementMessage
  | verificationMessage
  | eventMessage
  | terminationMessage
  | remoteMessage
  | loggingSettings
  | tracingSettings
  | metricsSettings
  | observabilitySettings
  | managerSettings
  | connectorSettings
  | memorySettings
  | databaseSettings
  | settings
  deriving DecidableEq, Inhabited, Repr

inductive FieldType where
  | scalar
  | message (type : MessageType)
  | properties
  deriving DecidableEq, Inhabited, Repr

def scalars (names : List String) : List (String × FieldType) := names.map (·, .scalar)

def routingFields : List (String × FieldType) :=
  scalars ["protocol", "counterPartyAddress", "processId"]

def MessageType.fields : MessageType → List (String × FieldType)
  | negotiation =>
    scalars ["id", "correlationId", "type", "counterPartyId", "counterPartyAddress", "protocol",
      "state", "stateCount", "stateTimestamp", "errorDetail", "createdAt"] ++
    [("contractOffers", .message offer), ("contractAgreement", .message agreement)]
  | offer =>
    scalars ["id", "assetId", "contractStart", "contractEnd"] ++ [("policy", .message policy)]
  | agreement =>
    scalars ["id", "providerAgentId", "consumerAgentId", "assetId", "contractSigningDate",
      "contractStartDate", "contractEndDate"] ++ [("policy", .message policy)]
  | policy =>
    scalars ["assigner", "assignee", "target", "inheritsFrom"] ++
    [("permissions", .properties), ("prohibitions", .properties), ("obligations", .properties),
      ("extensibleProperties", .properties)]
  | contractRequest =>
    scalars ["counterPartyId", "counterPartyAddress", "protocol"] ++
    [("contractOffer", .message offer)]
  | requestMessage =>
    routingFields ++ scalars ["connectorId", "callbackAddress"] ++
    [("contractOffer", .message offer)]
  | offerMessage => routingFields ++ [("contractOffer", .message offer)]
  | agreementMessage =>
    routingFields ++ [("contractAgreement", .message agreement), ("policy", .message policy)]
  | verificationMessage => routingFields
  | eventMessage => routingFields ++ scalars ["type"]
  | terminationMessage => routingFields ++ scalars ["reason"]
  | remoteMessage =>
    [("request", .message requestMessage), ("offer", .message offerMessage),
      ("agreement", .message agreementMessage), ("verification", .message verificationMessage),
      ("event", .message eventMessage), ("termination", .message terminationMessage)]
  | loggingSettings => scalars ["level", "pattern", "includeTraceContext"]
  | tracingSettings => scalars ["processor"]
  | metricsSettings =>
    scalars ["collectionIntervalMs", "exportTimeoutMs", "requestMetricsEnabled",
      "transitionMetricsEnabled", "dispatchMetricsEnabled"]
  | observabilitySettings =>
    scalars ["tracingEnabled", "metricsEnabled", "otlpEndpoint", "transport"] ++
    [("tracing", .message tracingSettings), ("metrics", .message metricsSettings)]
  | managerSettings =>
    scalars ["batchSize", "commandBatchSize", "commandMaxAttempts", "workers", "pollIntervalMs",
      "leaseDurationMs", "maxRetries", "retryBaseDelayMs", "retryMaxDelayMs"]
  | connectorSettings => scalars ["participantId", "address", "protocol"]
  | memorySettings => []
  | databaseSettings => [("memory", .message memorySettings)]
  | settings =>
    [("logging", .message loggingSettings), ("observability", .message observabilitySettings),
      ("manager", .message managerSettings), ("connector", .message connectorSettings),
      ("database", .message databaseSettings)]

def MessageType.field? (type : MessageType) (name : String) : Option FieldType :=
  type.fields.lookup name

end ContractNegotiation.Query
