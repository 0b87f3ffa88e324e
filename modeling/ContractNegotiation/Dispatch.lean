import ContractNegotiation.Action
import ContractNegotiation.Message

namespace ContractNegotiation

inductive DispatchResult where
  | ok (peerProcessId : String)
  | transient (text : String)
  | fatal (text : String)
  deriving DecidableEq, Inhabited, Repr

def DispatchResult.status : DispatchResult → String
  | ok _ => "ok"
  | transient _ => "transient"
  | fatal _ => "fatal"

def DispatchResult.statuses : List String :=
  [(ok "").status, (transient "").status, (fatal "").status]

abbrev Transport (σ : Type) := RemoteMessage → Action σ DispatchResult

end ContractNegotiation
