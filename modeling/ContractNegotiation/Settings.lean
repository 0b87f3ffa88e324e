namespace ContractNegotiation

structure LoggingSettings where
  level : String := ""
  pattern : String := ""
  includeTraceContext : Bool := false
  deriving DecidableEq, Inhabited

inductive TelemetryTransport where
  | unspecified
  | grpc
  | http
  deriving DecidableEq, Inhabited, Repr

namespace TelemetryTransport

def all : List TelemetryTransport := [unspecified, grpc, http]

def name : TelemetryTransport → String
  | unspecified => "OTLP_TRANSPORT_UNSPECIFIED"
  | grpc => "OTLP_TRANSPORT_GRPC"
  | http => "OTLP_TRANSPORT_HTTP"

def number : TelemetryTransport → Nat
  | unspecified => 0
  | grpc => 1
  | http => 2

end TelemetryTransport

inductive TraceProcessor where
  | unspecified
  | batch
  | simple
  deriving DecidableEq, Inhabited, Repr

namespace TraceProcessor

def all : List TraceProcessor := [unspecified, batch, simple]

def name : TraceProcessor → String
  | unspecified => "TRACE_PROCESSOR_UNSPECIFIED"
  | batch => "TRACE_PROCESSOR_BATCH"
  | simple => "TRACE_PROCESSOR_SIMPLE"

def number : TraceProcessor → Nat
  | unspecified => 0
  | batch => 1
  | simple => 2

end TraceProcessor

structure TracingSettings where
  processor : TraceProcessor := .unspecified
  deriving DecidableEq, Inhabited

structure MetricsSettings where
  collectionIntervalMs : UInt32 := 0
  exportTimeoutMs : UInt32 := 0
  requestMetricsEnabled : Bool := false
  transitionMetricsEnabled : Bool := false
  dispatchMetricsEnabled : Bool := false
  deriving DecidableEq, Inhabited

structure ObservabilitySettings where
  tracingEnabled : Bool := false
  metricsEnabled : Bool := false
  otlpEndpoint : String := ""
  transport : TelemetryTransport := .unspecified
  tracing : Option TracingSettings := none
  metrics : Option MetricsSettings := none
  deriving DecidableEq, Inhabited

structure ManagerSettings where
  batchSize : UInt32 := 0
  commandBatchSize : UInt32 := 0
  commandMaxAttempts : UInt32 := 0
  workers : UInt32 := 0
  pollIntervalMs : UInt32 := 0
  leaseDurationMs : UInt32 := 0
  maxRetries : UInt32 := 0
  retryBaseDelayMs : UInt32 := 0
  retryMaxDelayMs : UInt32 := 0
  deriving DecidableEq, Inhabited

structure ConnectorSettings where
  participantId : String := ""
  address : String := ""
  protocol : String := ""
  deriving DecidableEq, Inhabited

structure MemorySettings where
  deriving DecidableEq, Inhabited

structure DatabaseSettings where
  memory : Option MemorySettings := none
  deriving DecidableEq, Inhabited

structure Settings where
  logging : Option LoggingSettings := none
  observability : Option ObservabilitySettings := none
  manager : Option ManagerSettings := none
  connector : Option ConnectorSettings := none
  database : Option DatabaseSettings := none
  deriving DecidableEq, Inhabited

def defaultProtocol : String := "dataspace-protocol-http"

namespace ManagerSettings

def orStandard (n standard : UInt32) : UInt32 := if n = 0 then standard else n

def withDefaults (m : ManagerSettings) : ManagerSettings where
  batchSize := orStandard m.batchSize 5
  commandBatchSize := orStandard m.commandBatchSize 5
  commandMaxAttempts := orStandard m.commandMaxAttempts 3
  workers := orStandard m.workers 1
  pollIntervalMs := orStandard m.pollIntervalMs 1000
  leaseDurationMs := orStandard m.leaseDurationMs 60000
  maxRetries := orStandard m.maxRetries 7
  retryBaseDelayMs := orStandard m.retryBaseDelayMs 1000
  retryMaxDelayMs := orStandard m.retryMaxDelayMs 60000

end ManagerSettings

inductive SettingsError where
  | refused
  | missingParticipantId
  | missingAddress
  | retryDelaysReversed
  | leaseWithinPollInterval
  | noBackend
  | unreadableText (reason : String)
  | unreadableFile (reason : String)
  deriving DecidableEq, Inhabited

namespace SettingsError

def message : SettingsError → String
  | refused => "Invalid configuration: *"
  | missingParticipantId => "Invalid configuration: connector.participant_id is required"
  | missingAddress => "Invalid configuration: connector.address is required"
  | retryDelaysReversed =>
    "Invalid configuration: manager.retry_max_delay_ms is below manager.retry_base_delay_ms"
  | leaseWithinPollInterval =>
    "Invalid configuration: manager.lease_duration_ms must exceed manager.poll_interval_ms"
  | noBackend => "no supported database backend configured"
  | unreadableText reason => "Failed to parse YAML config: " ++ reason
  | unreadableFile reason => "Failed to load YAML config: " ++ reason

end SettingsError

namespace Settings

def managerOrDefault (s : Settings) : ManagerSettings := s.manager.getD {}

def connectorOrDefault (s : Settings) : ConnectorSettings := s.connector.getD {}

def loggingOrDefault (s : Settings) : LoggingSettings := s.logging.getD {}

def hasBackend (s : Settings) : Bool := (s.database.bind DatabaseSettings.memory).isSome

def withDefaults (s : Settings) : Settings :=
  { s with
    manager := some s.managerOrDefault.withDefaults
    connector :=
      if s.connectorOrDefault.protocol = "" then
        some { s.connectorOrDefault with protocol := defaultProtocol }
      else s.connector
    database := if s.hasBackend then s.database else some { memory := some {} } }

def validate (s : Settings) : Except SettingsError Unit :=
  if s.connectorOrDefault.participantId = "" then .error .missingParticipantId
  else if s.connectorOrDefault.address = "" then .error .missingAddress
  else if s.managerOrDefault.retryMaxDelayMs < s.managerOrDefault.retryBaseDelayMs then
    .error .retryDelaysReversed
  else if s.managerOrDefault.leaseDurationMs ≤ s.managerOrDefault.pollIntervalMs then
    .error .leaseWithinPollInterval
  else .ok ()

end Settings

end ContractNegotiation
