import ContractNegotiation.Network
import ContractNegotiation.Settings.Reading

namespace ContractNegotiation

def Options.ofSettings (s : Settings) : Options :=
  let m := s.managerOrDefault
  let c := s.connectorOrDefault
  { participantId := c.participantId
    callbackAddress := c.address
    protocol := c.protocol
    batchSize := m.batchSize.toNat
    commandBatchSize := m.commandBatchSize.toNat
    commandMaxAttempts := m.commandMaxAttempts.toInt32.toInt
    workers := m.workers.toNat
    pollInterval := m.pollIntervalMs.toNat
    maxRetries := m.maxRetries.toInt32.toInt
    retryBaseDelay := m.retryBaseDelayMs.toNat
    retryMaxDelay := m.retryMaxDelayMs.toNat }

inductive WiringError where
  | managerIncomplete
  | serviceIncomplete
  | transactionsIncomplete
  deriving DecidableEq, Inhabited, Repr

def WiringError.message : WiringError → String
  | managerIncomplete => "negotiation manager requires a store and a dispatcher"
  | serviceIncomplete => "negotiation service requires a store and both managers"
  | transactionsIncomplete => "ScopedTransactionContext requires a transaction factory"

def Manager.assemble (role : Role) (options : Options) (id : String)
    (hasStore hasTransport : Bool) : Except WiringError Manager :=
  if hasStore && hasTransport then .ok (create role options id) else .error .managerIncomplete

def Service.assemble (hasStore : Bool) (consumer provider : Option Manager)
    (participantId address : String) : Except WiringError Connector :=
  match hasStore, consumer, provider with
  | true, some consumer, some provider => .ok ⟨participantId, address, consumer, provider⟩
  | _, _, _ => .error .serviceIncomplete

namespace Connector

def create (participantId address : String) (options : Options) (id id' : String) : Connector where
  participantId := participantId
  address := address
  consumer := .create .consumer options id
  provider := .create .provider options id'

def ofSettings (s : Settings) (id id' : String) : Connector :=
  create s.connectorOrDefault.participantId s.connectorOrDefault.address (.ofSettings s) id id'

end Connector

def Store.ofSettings (s : Settings) : Except SettingsError Store :=
  if s.hasBackend then .ok { leaseDuration := s.managerOrDefault.leaseDurationMs.toNat }
  else .error .noBackend

structure Host where
  roster : Roster 1
  network : Network 1

namespace Host

def ofSettings (ids : Nat → String) (s : Settings) : Except SettingsError Host :=
  (Store.ofSettings s).map fun store =>
    { roster := ⟨#v[.ofSettings s (ids 0) (ids 1)], ids⟩
      network := { sites := #v[{ store }], issued := 2 } }

variable (h : Host)

def connector : Connector := h.roster.connector 0

def start : Action (Network 1) Unit := do
  Network.start h.roster 0
  Network.report (.running h.connector.address)

def stop : Action (Network 1) Unit := do
  Network.report .shuttingDown
  Network.stop h.roster 0

end Host

structure Session where
  exit : UInt32
  complaint : String := ""
  notices : List Notice := []

namespace Session

def usage : String :=
  "Usage: negotiation-manager <config.yaml> OR negotiation-manager --config <config.yaml>\n"

def settingsPath? : List String → Option String
  | [path] => some path
  | [option, path] => if option = "--config" then some path else none
  | _ => none

def misused : Session := { exit := 1, complaint := usage }

def failed (e : SettingsError) : Session :=
  { exit := 2, notices := [.fatal (Text.terminated e.message)] }

def operate (h : Host) (work : Action (Network 1) Unit) : Session :=
  let whole : Action (Network 1) Unit := do
    h.start
    work
    h.stop
  match whole.run h.network with
  | .ok _ net => { exit := 0, notices := net.notices }
  | .error fault net => { exit := 2, notices := net.notices ++ [.fatal fault.report] }

def run (ids : Nat → String) (args : List String) (load : String → Except SettingsError Settings)
    (work : Host → Action (Network 1) Unit) : Session :=
  match settingsPath? args with
  | none => misused
  | some path =>
    match load path with
    | .error e => failed e
    | .ok s =>
      match Host.ofSettings ids s with
      | .error e => failed e
      | .ok h => operate h (work h)

end Session

end ContractNegotiation
