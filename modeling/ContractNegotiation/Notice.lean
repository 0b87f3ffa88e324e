import ContractNegotiation.Action
import ContractNegotiation.Command
import ContractNegotiation.LogEntry
import ContractNegotiation.Refusal

namespace ContractNegotiation

inductive Route where
  | findById
  | query
  | getState
  | getForNegotiation
  | findAgreement
  | initiate
  | cancel
  | decline
  | counterOffer
  | notifyRequested
  | notifyOffered
  | notifyAgreed
  | notifyVerified
  | notifyFinalized
  | notifyTerminated
  deriving DecidableEq, Inhabited, Repr

def Route.name : Route → String
  | findById => "FindById"
  | query => "Query"
  | getState => "GetState"
  | getForNegotiation => "GetForNegotiation"
  | findAgreement => "FindAgreement"
  | initiate => "InitiateNegotiation"
  | cancel => "Cancel"
  | decline => "Decline"
  | counterOffer => "CounterOffer"
  | notifyRequested => "NotifyConsumerRequested"
  | notifyOffered => "NotifyProviderOffered"
  | notifyAgreed => "NotifyProviderAgreed"
  | notifyVerified => "NotifyConsumerVerified"
  | notifyFinalized => "NotifyProviderFinalized"
  | notifyTerminated => "NotifyTerminated"

inductive Notice where
  | managerStarted (role : Role) (leaseHolder : String)
  | managerStopped (role : Role)
  | roundFailed (role : Role) (fault : Fault)
  | created (role : Role) (id counterPartyId : String) (state : State)
  | transitioned (role : Role) (id : String) (source target : State) (stateCount : UInt64)
  | commandEnqueued (role : Role) (command : Command)
  | commandUnknownTarget (command : Command)
  | commandForeign (role : Role) (command : Command)
  | commandRejected (command : Command) (reason : String)
  | commandRequeued (command : Command) (attempts : Int)
  | commandDropped (command : Command) (attempts : Int) (error : StoreError)
  | notProcessable (id reason : String)
  | retryScheduled (id kind : String) (attempts : Nat) (text : String)
  | retriesExhausted (id kind text : String)
  | dispatchFatal (id kind text : String)
  | notPersisted (id : String) (target : State) (error : StoreError)
  | processingFailed (id : String) (fault : Fault)
  | leaseNotBroken (id : String) (error : StoreError)
  | requestFailed (route : Route) (id : String) (fault : Fault)
  | deliveryThrew (address kind : String) (fault : Fault)
  | connectorStarted (participantId address : String)
  | connectorStopped (participantId : String)
  | running (address : String)
  | shuttingDown
  | fatal (text : String)

namespace Notice

open LogField

def commandFields (c : Command) : List LogField :=
  [text "command" c.name, text "negotiation_id" c.target]

def entry : Notice → LogEntry
  | managerStarted role leaseHolder =>
    ⟨.info, "negotiation manager started", [text "role" role.name, text "lease_holder" leaseHolder]⟩
  | managerStopped role => ⟨.info, "negotiation manager stopped", [text "role" role.name]⟩
  | roundFailed role fault =>
    ⟨.error, "negotiation manager iteration failed",
      [text "role" role.name, text "error" fault.report]⟩
  | created role id counterPartyId state =>
    ⟨.info, "negotiation created", [text "role" role.name, text "negotiation_id" id,
      text "counter_party_id" counterPartyId, text "state" state.name]⟩
  | transitioned role id source target stateCount =>
    ⟨.info, "negotiation transitioned", [text "role" role.name, text "negotiation_id" id,
      text "from" source.name, text "to" target.name,
      int "state_count" stateCount.toInt64.toInt]⟩
  | commandEnqueued role c =>
    ⟨.debug, "command enqueued", text "role" role.name :: commandFields c⟩
  | commandUnknownTarget c =>
    ⟨.warn, "dropping command for unknown negotiation", commandFields c⟩
  | commandForeign role c =>
    ⟨.warn, "dropping command for foreign negotiation", text "role" role.name :: commandFields c⟩
  | commandRejected c reason =>
    ⟨.warn, "dropping command rejected by state machine", commandFields c ++ [text "reason" reason]⟩
  | commandRequeued c attempts =>
    ⟨.debug, "requeueing command after concurrent write",
      commandFields c ++ [int "attempts" attempts]⟩
  | commandDropped c attempts error =>
    ⟨.error, "dropping command after failed save",
      commandFields c ++ [int "attempts" attempts, text "error" error.message]⟩
  | notProcessable id reason =>
    ⟨.warn, "leased negotiation not processable", [text "negotiation_id" id, text "reason" reason]⟩
  | retryScheduled id kind attempts cause =>
    ⟨.warn, "dispatch failed, retry scheduled", [text "negotiation_id" id, text "kind" kind,
      int "attempts" attempts, text "error" cause]⟩
  | retriesExhausted id kind cause =>
    ⟨.error, "dispatch retries exhausted",
      [text "negotiation_id" id, text "kind" kind, text "error" cause]⟩
  | dispatchFatal id kind cause =>
    ⟨.error, "dispatch failed fatally",
      [text "negotiation_id" id, text "kind" kind, text "error" cause]⟩
  | notPersisted id target error =>
    ⟨.error, "failed to persist negotiation",
      [text "negotiation_id" id, text "to" target.name, text "error" error.message]⟩
  | processingFailed id fault =>
    ⟨.error, "processing negotiation failed", [text "negotiation_id" id, text "error" fault.report]⟩
  | leaseNotBroken id error =>
    ⟨.warn, "failed to break lease", [text "negotiation_id" id, text "error" error.message]⟩
  | requestFailed route id fault =>
    ⟨.error, "request failed",
      [text "route" route.name, text "negotiation_id" id, text "error" fault.report]⟩
  | deliveryThrew address kind fault =>
    ⟨.error, "loopback delivery threw",
      [text "address" address, text "kind" kind, text "error" fault.report]⟩
  | connectorStarted participantId address =>
    ⟨.info, "connector started", [text "participant_id" participantId, text "address" address]⟩
  | connectorStopped participantId =>
    ⟨.info, "connector stopped", [text "participant_id" participantId]⟩
  | running address => ⟨.info, "negotiation manager running", [text "address" address]⟩
  | shuttingDown => ⟨.info, "shutting down negotiation manager", []⟩
  | fatal cause => ⟨.error, "fatal error", [text "error" cause]⟩

end Notice

end ContractNegotiation
