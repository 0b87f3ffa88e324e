import ContractNegotiation.Host

namespace ContractNegotiation.Simulation

inductive StoreStep where
  | save (record : Negotiation) (holder : String)
  | find (id : String)
  | findByCorrelation (correlationId : String)
  | findAgreement (agreementId : String)
  | select (query : Query.Spec)
  | lease (stateCode : Int) (role : Option Role) (batch : Nat) (holder : String)
  | breakLease (id holder : String)

inductive Reply where
  | done
  | flag (b : Bool)
  | count (n : Nat)
  | text (s : Option String)
  | record (n : Option Negotiation)
  | agreement (a : Option Agreement)
  | records (ns : List Negotiation)
  | outcome (result : Except Refusal Negotiation)
  | found (ids : Except Refusal (List String))
  | saved (error : Option StoreError) (stateCount : UInt64)
  | released (error : Option StoreError)
  | dispatched (result : DispatchResult)
  | raised (fault : Fault)

def StoreStep.perform (step : StoreStep) (s : Store) (now : Instant) : Reply × Store :=
  match step with
  | save record holder =>
    match s.save record holder now with
    | .ok (next, s) => (.saved none next.stateCount, s)
    | .error e => (.saved (some e) record.stateCount, s)
  | find id => (.record (s.find? id), s)
  | findByCorrelation id => (.record (s.findByCorrelation? id), s)
  | findAgreement id => (.agreement (s.findAgreement? id), s)
  | select q => (.records (s.select q), s)
  | lease code role batch holder =>
    let (leased, s) := s.leaseNext code role batch holder now
    (.records leased, s)
  | breakLease id holder =>
    match s.breakLease id holder now with
    | .ok s => (.released none, s)
    | .error e => (.released (some e), s)

def commitFault? (text : String) : Option Fault := if text = "" then none else some ⟨text⟩

inductive StoreCall where
  | save
  | breakLease
  | lease
  | find
  | findByCorrelation
  | findAgreement
  | query
  deriving DecidableEq, Inhabited, Repr

inductive OutageKind where
  | refuse (error : StoreError)
  | pretend
  | raise (fault : Fault)
  | miss

structure Outage where
  call : StoreCall
  kind : OutageKind
  records : List Negotiation := []
  skip : Nat := 0
  times : Nat := 1

def Outage.answer {α : Type} (o : Outage) (a : α) : Except StoreError α :=
  match o.kind with
  | .refuse error => .error error
  | .pretend => .ok a
  | .raise _ | .miss => .error (.medium .internalError "")

mutual

inductive ScriptEntry where
  | mk (process : Option String) (advance : Int) (during : Option (List Step))
    (answer : Option (Except Fault DispatchResult))

inductive Step where
  | at (name : String) (step : Step)
  | setNow (now : Instant)
  | advance (ms : Int)
  | store (step : StoreStep)
  | run (role : Role)
  | background (role : Role)
  | enqueue (role : Role) (command : Command)
  | hasPending (role : Role) (id : String)
  | isRunning (role : Role)
  | terminated (role : Role) (correlationId reason : String)
  | get (id : String)
  | state (id : String)
  | agreementOf (id : String)
  | findAgreement (agreementId : String)
  | query (query : Query.Spec)
  | initiate (request : ContractRequest)
  | cancel (id : String)
  | decline (id reason : String)
  | counterOffer (id : String) (offer : Offer)
  | notify (message : RemoteMessage) (token : ClaimToken)
  | failCommit (fault : Option Fault)
  | register (address : Option String)
  | unregister (address : Option String)
  | registered (address : String)
  | send (message : RemoteMessage)
  | start
  | stop
  | script (entries : List ScriptEntry)
  | outage (outage : Outage)

end

instance : Inhabited Step := ⟨.start⟩

instance : Inhabited ScriptEntry := ⟨.mk none 0 none none⟩

namespace ScriptEntry

def process : ScriptEntry → Option String
  | mk process _ _ _ => process

def advance : ScriptEntry → Int
  | mk _ advance _ _ => advance

def during : ScriptEntry → Option (List Step)
  | mk _ _ during _ => during

def answer : ScriptEntry → Option (Except Fault DispatchResult)
  | mk _ _ _ answer => answer

def isFor (e : ScriptEntry) (processId : String) : Bool :=
  match e.process with
  | none => true
  | some process => process = processId

end ScriptEntry

mutual

def entriesOfStep : Step → Nat
  | .at _ step => entriesOfStep step
  | .script entries => entriesOfScript entries
  | _ => 0

def entriesOfScript : List ScriptEntry → Nat
  | [] => 0
  | entry :: entries => entriesOfEntry entry + entriesOfScript entries

def entriesOfEntry : ScriptEntry → Nat
  | .mk _ _ none _ => 1
  | .mk _ _ (some steps) _ => 1 + entriesOfSteps steps

def entriesOfSteps : List Step → Nat
  | [] => 0
  | step :: steps => entriesOfStep step + entriesOfSteps steps

end

end ContractNegotiation.Simulation
