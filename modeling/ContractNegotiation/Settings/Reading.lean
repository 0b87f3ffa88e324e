import ContractNegotiation.Settings
import ContractNegotiation.Settings.Document

namespace ContractNegotiation.Settings

def camelCase : List Char → List Char
  | '_' :: c :: rest => c.toUpper :: camelCase rest
  | c :: rest => c :: camelCase rest
  | [] => []

def goesBy (name key : String) : Bool :=
  key = name || key.toList = camelCase name.toList

def readText? : Value → Option String
  | .text s => some s
  | _ => none

def readFlag? : Value → Option Bool
  | .bool b => some b
  | _ => none

def readNat? : Value → Option Nat
  | .number x => x.toInt?.bind fun n => if 0 ≤ n then some n.toNat else none
  | .text s =>
    if s ≠ "" ∧ s.toList.all Char.isDigit then some (Binary64.natOfDigits 10 s.toList) else none
  | _ => none

def readUInt32? (v : Value) : Option UInt32 :=
  (readNat? v).bind fun n => if n < Binary64.twoTo 32 then some (UInt32.ofNat n) else none

def readNamed? {α : Type} (all : List α) (name : α → String) (number : α → Nat) : Value → Option α
  | .text s => all.find? (name · = s)
  | .number x => all.find? fun a => x.toInt? = some (number a : Int)
  | _ => none

structure Field (α : Type) where
  name : String
  read : Value → α → Option α

def field {α β : Type} (name : String) (read : Value → Option β) (store : α → β → α) : Field α :=
  ⟨name, fun v a => (read v).map (store a)⟩

def readEntries? {α : Type} (readers : List (Field α)) : List (String × Value) → α → Option α
  | [], a => some a
  | (key, v) :: entries, a =>
    match readers.find? (goesBy ·.name key) with
    | none => none
    | some reader =>
      if v = .null then readEntries? readers entries a
      else (reader.read v a).bind (readEntries? readers entries)

def readSection? {α : Type} [Inhabited α] (readers : List (Field α)) : Value → Option α
  | .fields entries => readEntries? readers entries default
  | _ => none

def loggingFields : List (Field LoggingSettings) := [
  field "level" readText? fun s level => { s with level },
  field "pattern" readText? fun s pattern => { s with pattern },
  field "include_trace_context" readFlag?
    fun s includeTraceContext => { s with includeTraceContext }]

def tracingFields : List (Field TracingSettings) := [
  field "processor" (readNamed? TraceProcessor.all TraceProcessor.name TraceProcessor.number)
    fun s processor => { s with processor }]

def metricsFields : List (Field MetricsSettings) := [
  field "collection_interval_ms" readUInt32?
    fun s collectionIntervalMs => { s with collectionIntervalMs },
  field "export_timeout_ms" readUInt32? fun s exportTimeoutMs => { s with exportTimeoutMs },
  field "request_metrics_enabled" readFlag?
    fun s requestMetricsEnabled => { s with requestMetricsEnabled },
  field "transition_metrics_enabled" readFlag?
    fun s transitionMetricsEnabled => { s with transitionMetricsEnabled },
  field "dispatch_metrics_enabled" readFlag?
    fun s dispatchMetricsEnabled => { s with dispatchMetricsEnabled }]

def observabilityFields : List (Field ObservabilitySettings) := [
  field "tracing_enabled" readFlag? fun s tracingEnabled => { s with tracingEnabled },
  field "metrics_enabled" readFlag? fun s metricsEnabled => { s with metricsEnabled },
  field "otlp_endpoint" readText? fun s otlpEndpoint => { s with otlpEndpoint },
  field "transport"
    (readNamed? TelemetryTransport.all TelemetryTransport.name TelemetryTransport.number)
    fun s transport => { s with transport },
  field "tracing" (readSection? tracingFields) fun s tracing => { s with tracing := some tracing },
  field "metrics" (readSection? metricsFields) fun s metrics => { s with metrics := some metrics }]

def managerFields : List (Field ManagerSettings) := [
  field "batch_size" readUInt32? fun s batchSize => { s with batchSize },
  field "command_batch_size" readUInt32? fun s commandBatchSize => { s with commandBatchSize },
  field "command_max_attempts" readUInt32?
    fun s commandMaxAttempts => { s with commandMaxAttempts },
  field "workers" readUInt32? fun s workers => { s with workers },
  field "poll_interval_ms" readUInt32? fun s pollIntervalMs => { s with pollIntervalMs },
  field "lease_duration_ms" readUInt32? fun s leaseDurationMs => { s with leaseDurationMs },
  field "max_retries" readUInt32? fun s maxRetries => { s with maxRetries },
  field "retry_base_delay_ms" readUInt32? fun s retryBaseDelayMs => { s with retryBaseDelayMs },
  field "retry_max_delay_ms" readUInt32? fun s retryMaxDelayMs => { s with retryMaxDelayMs }]

def connectorFields : List (Field ConnectorSettings) := [
  field "participant_id" readText? fun s participantId => { s with participantId },
  field "address" readText? fun s address => { s with address },
  field "protocol" readText? fun s protocol => { s with protocol }]

def memoryFields : List (Field MemorySettings) := []

def databaseFields : List (Field DatabaseSettings) := [
  field "memory" (readSection? memoryFields) fun s memory => { s with memory := some memory }]

def fields : List (Field Settings) := [
  field "logging" (readSection? loggingFields) fun s logging => { s with logging := some logging },
  field "observability" (readSection? observabilityFields)
    fun s observability => { s with observability := some observability },
  field "manager" (readSection? managerFields) fun s manager => { s with manager := some manager },
  field "connector" (readSection? connectorFields)
    fun s connector => { s with connector := some connector },
  field "database" (readSection? databaseFields)
    fun s database => { s with database := some database }]

def ofValue? (v : Value) : Option Settings := readSection? fields v

def ofDocument (node : Node) (unreadable : String → SettingsError) :
    Except SettingsError Settings :=
  match node.brokenReason? with
  | some reason => .error (unreadable reason)
  | none =>
    match ofValue? node.document with
    | none => .error .refused
    | some s =>
      match s.withDefaults.validate with
      | .error e => .error e
      | .ok () => .ok s.withDefaults

end ContractNegotiation.Settings
