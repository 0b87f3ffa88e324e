namespace ContractNegotiation

inductive Role where
  | consumer
  | provider
  deriving DecidableEq, Inhabited, Repr

def Role.name : Role → String
  | .consumer => "consumer"
  | .provider => "provider"

inductive State where
  | initial
  | requesting
  | requested
  | consumerRequested
  | offering
  | offered
  | accepting
  | accepted
  | agreeing
  | agreed
  | verifying
  | verified
  | finalizing
  | finalized
  | terminating
  | terminated
  | cancelled
  | error
  deriving DecidableEq, Inhabited, Repr

namespace State

def all : List State :=
  [initial, requesting, requested, consumerRequested, offering, offered, accepting, accepted,
    agreeing, agreed, verifying, verified, finalizing, finalized, terminating, terminated,
    cancelled, error]

def code : State → Int
  | initial => 50
  | requesting => 100
  | requested => 200
  | consumerRequested => 250
  | offering => 300
  | offered => 400
  | accepting => 700
  | accepted => 800
  | agreeing => 825
  | agreed => 850
  | verifying => 1050
  | verified => 1100
  | finalizing => 1150
  | finalized => 1200
  | terminating => 1300
  | terminated => 1400
  | cancelled => 1500
  | error => -1

def ofCode? (c : Int) : Option State := all.find? (·.code = c)

def ofCode (c : Int) : State := (ofCode? c).getD error

def name : State → String
  | initial => "INITIAL"
  | requesting => "REQUESTING"
  | requested => "REQUESTED"
  | consumerRequested => "CONSUMER_REQUESTED"
  | offering => "OFFERING"
  | offered => "OFFERED"
  | accepting => "ACCEPTING"
  | accepted => "ACCEPTED"
  | agreeing => "AGREEING"
  | agreed => "AGREED"
  | verifying => "VERIFYING"
  | verified => "VERIFIED"
  | finalizing => "FINALIZING"
  | finalized => "FINALIZED"
  | terminating => "TERMINATING"
  | terminated => "TERMINATED"
  | cancelled => "CANCELLED"
  | error => "ERROR"

def isTerminal : State → Bool
  | finalized | terminated | cancelled | error => true
  | _ => false

def isBeforeAgreed (s : State) : Bool := !s.isTerminal && s.code < agreed.code

def processable : Role → List State
  | .consumer => [requesting, offered, accepting, agreed, verifying, terminating]
  | .provider => [consumerRequested, offering, agreeing, verified, finalizing, terminating]

theorem mem_all (s : State) : s ∈ all := by cases s <;> decide

theorem ofCode?_code (s : State) : ofCode? s.code = some s := by cases s <;> rfl

theorem ofCode_code (s : State) : ofCode s.code = s := by simp [ofCode, ofCode?_code]

theorem code_of_ofCode? {c : Int} {s : State} (h : ofCode? c = some s) : s.code = c := by
  simpa using List.find?_some h

end State

end ContractNegotiation
